import Mathlib.Logic.Relation
import Mathlib.Logic.Function.Basic

/-!
# Following links

Each point has at most one link to another. Following the links from a point either comes to an end
or goes on for ever (`Ends`). When all come to an end and one point is linked anew, all still do
exactly when its new target did not lead back to it (`ends_update_iff`).
-/

namespace Links

variable {α : Type*} {next next' : α → Option α} {a b c : α}

/-- Following the links from `a` comes to `b`. -/
def Leads (next : α → Option α) : α → α → Prop :=
  Relation.ReflTransGen fun a b => next a = some b

/-- Following the links from `a` comes to an end. -/
def Ends (next : α → Option α) (a : α) : Prop := Acc (fun b a => next a = some b) a

theorem ends_of_none (h : next a = none) : Ends next a :=
  .intro a fun b hb => by simp [h] at hb

theorem ends_iff_of_some (h : next a = some b) : Ends next a ↔ Ends next b := by
  constructor
  · exact fun ha => ha.inv h
  · intro hb
    refine .intro a fun c hc => ?_
    obtain rfl : b = c := Option.some.inj (h.symm.trans hc)
    exact hb

/-- The end is a point without a link. -/
theorem Ends.exists_end (h : Ends next a) : ∃ b, Leads next a b ∧ next b = none := by
  induction h with
  | intro a _ ih =>
    cases hnext : next a with
    | none => exact ⟨a, .refl, hnext⟩
    | some b =>
      obtain ⟨c, hc, hend⟩ := ih b hnext
      exact ⟨c, .head hnext hc, hend⟩

theorem ends_of_leads (h : Leads next a b) (hb : Ends next b) : Ends next a := by
  induction h using Relation.ReflTransGen.head_induction_on with
  | refl => exact hb
  | head hstep _ ih => exact (ends_iff_of_some hstep).mpr ih

/-- A circle has no end. -/
theorem not_ends_of_circle (h : next a = some b) (hback : Leads next b a) : ¬ Ends next a := by
  intro ha
  induction ha generalizing b with
  | intro a _ ih =>
    -- the next point is on the circle as well
    obtain ⟨c, hc, hrest⟩ : ∃ c, next b = some c ∧ Leads next c b := by
      rcases Relation.ReflTransGen.cases_head hback with heq | ⟨c, hc, hrest⟩
      · exact ⟨b, by rw [heq, h, heq], .refl⟩
      · exact ⟨c, hc, hrest.tail h⟩
    exact ih b h hc hrest

/-- Links that agree from `a` on come to the same. -/
theorem Ends.congr (h : Ends next a) (hsame : ∀ b, Leads next a b → next' b = next b) :
    Ends next' a := by
  induction h with
  | intro a _ ih =>
    cases hnext : next a with
    | none => exact ends_of_none ((hsame a .refl).trans hnext)
    | some b =>
      rw [ends_iff_of_some ((hsame a .refl).trans hnext)]
      exact ih b hnext fun c hc => hsame c (.head hnext hc)

variable [DecidableEq α]

/-- What led to `b` leads there still when `b` is linked anew. -/
theorem Leads.update (h : Leads next a b) (c : Option α) :
    Leads (Function.update next b c) a b := by
  induction h using Relation.ReflTransGen.head_induction_on with
  | refl => exact .refl
  | @head x y hstep _ ih =>
    by_cases hx : x = b
    · rw [hx]
      exact .refl
    · exact .head (by rw [Function.update_of_ne hx, hstep]) ih

/-- **A new link closes a circle exactly when its target led back.** -/
theorem ends_update_iff (hall : ∀ a, Ends next a) (b c : α) :
    (∀ a, Ends (Function.update next b (some c)) a) ↔ ¬ Leads next c b := by
  constructor
  · intro hends hback
    exact not_ends_of_circle (Function.update_self b (some c) next) (hback.update _) (hends b)
  · intro hno
    have htarget : Ends (Function.update next b (some c)) c :=
      (hall c).congr fun x hx => by
        have hne : x ≠ b := by
          rintro rfl
          exact hno hx
        exact Function.update_of_ne hne _ _
    have hlinked : Ends (Function.update next b (some c)) b :=
      (ends_iff_of_some (Function.update_self b (some c) next)).mpr htarget
    intro a
    induction hall a with
    | intro a _ ih =>
      by_cases ha : a = b
      · exact ha ▸ hlinked
      · refine .intro a fun x hx => ih x ?_
        rwa [Function.update_of_ne ha] at hx

end Links
