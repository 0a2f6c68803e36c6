import TheSix.Lib.BigStep

/-!
# What a program returns when its answers are good

`p.Yields good Post` says that `p` returns a result in `Post` on every path whose answers are all
`good`. A program that runs alone, on a world that only gives good answers, then returns such a
result (`eval_of_yields`).
-/

namespace Coroutine

namespace Prog

variable {L Q R S W : Type} {A : Q → Type} {good : (q : Q) → A q → Prop}

/-- The results of the paths with good answers are in `Post`. -/
def Yields (good : (q : Q) → A q → Prop) (Post : R → Prop) : Prog L Q A R → Prop
  | ret r => Post r
  | req _ q _ k => ∀ a, good q a → (k a).Yields good Post

@[simp] theorem yields_ret {Post : R → Prop} {r : R} :
    (ret r : Prog L Q A R).Yields good Post ↔ Post r := Iff.rfl

@[simp] theorem yields_pure {Post : R → Prop} {r : R} :
    (pure r : Prog L Q A R).Yields good Post ↔ Post r := Iff.rfl

@[simp] theorem yields_req {Post : R → Prop} {l : L} {q : Q} {cancel : Option (List Q)}
    {k : A q → Prog L Q A R} :
    (req l q cancel k).Yields good Post ↔ ∀ a, good q a → (k a).Yields good Post := Iff.rfl

@[simp] theorem yields_bind {Post : S → Prop} {p : Prog L Q A R} {f : R → Prog L Q A S} :
    (p >>= f).Yields good Post ↔ p.Yields good fun r => (f r).Yields good Post := by
  induction p with
  | ret r => exact Iff.rfl
  | req l q cancel k ih => simp only [req_bind, yields_req, ih]

@[simp] theorem yields_map {Post : S → Prop} {g : R → S} {p : Prog L Q A R} :
    (g <$> p).Yields good Post ↔ p.Yields good fun r => Post (g r) :=
  yields_bind (f := fun r => ret (g r))

@[simp] theorem yields_guarded {Post : R → Prop} {cleanup : List Q} {p : Prog L Q A R} :
    (p.guarded cleanup).Yields good Post ↔ p.Yields good Post := by
  induction p with
  | ret r => exact Iff.rfl
  | req l q cancel k ih => simp only [guarded, yields_req, ih]

theorem Yields.mono {Post Post' : R → Prop} {p : Prog L Q A R} (h : p.Yields good Post)
    (hPost : ∀ r, Post r → Post' r) : p.Yields good Post' := by
  induction p with
  | ret r => exact hPost r h
  | req l q cancel k ih => exact fun a ha => ih a (h a ha)

theorem yields_of_forall {Post : R → Prop} (p : Prog L Q A R) (h : ∀ r, Post r) :
    p.Yields good Post := by
  induction p with
  | ret r => exact h r
  | req l q cancel k ih => exact fun a _ => ih a

/-- **The rule for programs that run alone** on a world that keeps giving good answers. -/
theorem eval_of_yields {exec : (q : Q) → W → Option (A q × W)} {J : W → Prop}
    (hexec : ∀ q w a w', J w → exec q w = some (a, w') → good q a ∧ J w') {Post : R → Prop}
    {p : Prog L Q A R} (hp : p.Yields good Post) {w w' : W} {r : R} (hw : J w)
    (h : p.eval exec w = some (r, w')) : Post r ∧ J w' := by
  induction p generalizing w with
  | ret r' =>
    simp only [eval, Option.some.injEq, Prod.mk.injEq] at h
    obtain ⟨rfl, rfl⟩ := h
    exact ⟨hp, hw⟩
  | req l q cancel k ih =>
    obtain ⟨a, w₁, ha, hrest⟩ := eval_req_eq_some.1 h
    obtain ⟨hgood, hw₁⟩ := hexec q w a w₁ hw ha
    exact ih a (hp a hgood) hw₁ hrest

/-- Where every request is answered, every program returns. -/
theorem eval_isSome {exec : (q : Q) → W → Option (A q × W)}
    (hexec : ∀ q w, (exec q w).isSome = true) (p : Prog L Q A R) (w : W) :
    ∃ r w', p.eval exec w = some (r, w') := by
  induction p generalizing w with
  | ret r => exact ⟨r, w, rfl⟩
  | req l q cancel k ih =>
    obtain ⟨aw, ha⟩ := Option.isSome_iff_exists.1 (hexec q w)
    obtain ⟨r, w', hrest⟩ := ih aw.1 aw.2
    exact ⟨r, w', by rw [eval_req ha, hrest]⟩

end Prog

end Coroutine
