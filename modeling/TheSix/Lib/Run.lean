import Mathlib

/-!
# Runs of a step function

A run is a list of actions folded through a step function. `Along p` says that every action of a
run meets `p` in the state it is taken from, which is how an assumption on a run, or a property
of all its steps, is written here. An invariant that the steps keep while the assumption holds
turns one such statement into another (`along_congr_of_inv`), and holds in the state the run ends
in (`inv_foldl`); one that every step keeps needs no assumption (`inv_run`). That an invariant holds
after every step of a run may itself be read off the steps (`along_inv_iff`).
-/

namespace Run

variable {σ α : Type*} {step : σ → α → σ} {Inv : σ → Prop} {p q r : σ → α → Prop}

/-- Every action of a run meets `p` in the state it is taken from. -/
def Along (step : σ → α → σ) (p : σ → α → Prop) : σ → List α → Prop
  | _, [] => True
  | s, a :: as => p s a ∧ Along step p (step s a) as

instance instDecidableAlong [∀ s a, Decidable (p s a)] :
    ∀ s as, Decidable (Along step p s as)
  | _, [] => inferInstanceAs (Decidable True)
  | s, a :: as =>
    have := instDecidableAlong (step s a) as
    inferInstanceAs (Decidable (p s a ∧ Along step p (step s a) as))

@[simp] theorem along_nil (s : σ) : Along step p s [] := trivial

@[simp] theorem along_cons (s : σ) (a : α) (as : List α) :
    Along step p s (a :: as) ↔ p s a ∧ Along step p (step s a) as := Iff.rfl

theorem along_of_forall_mem {s : σ} {as : List α} (h : ∀ s, ∀ a ∈ as, p s a) :
    Along step p s as := by
  induction as generalizing s with
  | nil => trivial
  | cons a as ih =>
    exact ⟨h s a List.mem_cons_self, ih fun s b hb => h s b (List.mem_cons_of_mem a hb)⟩

/-- An invariant of the steps that meet `q` holds at the end of a run whose steps meet `q`. -/
theorem inv_foldl (hstep : ∀ s a, Inv s → q s a → Inv (step s a)) {s : σ} {as : List α}
    (hs : Inv s) (h : Along step q s as) : Inv (as.foldl step s) := by
  induction as generalizing s with
  | nil => exact hs
  | cons a as ih => exact ih (hstep s a hs h.1) h.2

/-- An invariant of every step holds at the end of every run. -/
theorem inv_run (hstep : ∀ s a, Inv s → Inv (step s a)) {s : σ} (hs : Inv s) (as : List α) :
    Inv (as.foldl step s) := by
  induction as generalizing s with
  | nil => exact hs
  | cons a as ih => exact ih (hstep s a hs)

/-- What the steps that meet `q` have from invariant states, all steps of a run have whose steps
meet `q`. -/
theorem along_of_inv {I : σ → Prop} (hstep : ∀ s a, I s → q s a → I (step s a))
    (hp : ∀ s a, I s → q s a → p s a) {s : σ} {as : List α} (hs : I s)
    (h : Along step q s as) : Along step p s as := by
  induction as generalizing s with
  | nil => trivial
  | cons a as ih => exact ⟨hp s a hs h.1, ih (hstep s a hs h.1) h.2⟩

/-- Two properties that agree on the steps from invariant states agree on whole runs. -/
theorem along_congr_of_inv (hstep : ∀ s a, Inv s → q s a → Inv (step s a))
    (hpr : ∀ s a, Inv s → q s a → (p s a ↔ r s a)) {s : σ} {as : List α}
    (hs : Inv s) (h : Along step q s as) : Along step p s as ↔ Along step r s as := by
  induction as generalizing s with
  | nil => exact Iff.rfl
  | cons a as ih => exact and_congr (hpr s a hs h.1) (ih (hstep s a hs h.1) h.2)

/-- Where the steps that keep `I` are the ones that meet `r`, the runs that keep it are the ones
whose steps all do; `K` is kept by every step. -/
theorem along_inv_iff {I K : σ → Prop} (hK : ∀ s a, K s → K (step s a))
    (hstep : ∀ s a, K s → I s → (I (step s a) ↔ r s a)) {s : σ} (hk : K s) (hs : I s)
    (as : List α) : Along step (fun s a => I (step s a)) s as ↔ Along step r s as := by
  induction as generalizing s with
  | nil => exact Iff.rfl
  | cons a as ih =>
    simp only [along_cons]
    constructor
    · rintro ⟨h, has⟩
      exact ⟨(hstep s a hk hs).1 h, (ih (hK s a hk) h).1 has⟩
    · rintro ⟨h, has⟩
      have h' := (hstep s a hk hs).2 h
      exact ⟨h', (ih (hK s a hk) h').2 has⟩

end Run
