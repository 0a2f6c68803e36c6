import TheSix.Lib.Coroutine

/-!
# Cancellable programs, run alone

A program that nobody interrupts can be run in one go: `Prog.eval` answers its requests one after
another and returns its result with the world it leaves, or nothing when a request is blocked.
`Machine.run_alone` says that a machine does the same with a call on an idle thread that is
scheduled until it has returned.
-/

namespace Coroutine

variable {C L Q R S W O E : Type} {A : Q → Type}

namespace Prog

variable {exec : (q : Q) → W → Option (A q × W)}

/-- Run a program alone. -/
def eval (exec : (q : Q) → W → Option (A q × W)) : Prog L Q A R → W → Option (R × W)
  | ret r, w => some (r, w)
  | req _ q _ k, w => (exec q w).bind fun aw => (k aw.1).eval exec aw.2

@[simp] theorem eval_ret (r : R) (w : W) : (ret r : Prog L Q A R).eval exec w = some (r, w) := rfl

@[simp] theorem eval_pure (r : R) (w : W) : (pure r : Prog L Q A R).eval exec w = some (r, w) := rfl

theorem eval_req {l : L} {q : Q} {cancel : Option (List Q)} {k : A q → Prog L Q A R} {w w' : W}
    {a : A q} (h : exec q w = some (a, w')) :
    (req l q cancel k).eval exec w = (k a).eval exec w' := by
  simp [eval, h]

theorem eval_req_eq_some {l : L} {q : Q} {cancel : Option (List Q)} {k : A q → Prog L Q A R} {w : W}
    {x : R × W} :
    (req l q cancel k).eval exec w = some x ↔
      ∃ a w', exec q w = some (a, w') ∧ (k a).eval exec w' = some x := by
  simp [eval, Option.bind_eq_some_iff]

@[simp] theorem eval_bind (p : Prog L Q A R) (f : R → Prog L Q A S) (w : W) :
    (p >>= f).eval exec w = (p.eval exec w).bind fun rw => (f rw.1).eval exec rw.2 := by
  induction p generalizing w with
  | ret r => rfl
  | req l q cancel k ih =>
    cases he : exec q w with
    | none => simp [eval, he]
    | some aw => simp [eval, he, ih]

@[simp] theorem eval_map (g : R → S) (p : Prog L Q A R) (w : W) :
    (g <$> p).eval exec w = (p.eval exec w).map fun rw => (g rw.1, rw.2) := by
  rw [Option.map_eq_bind]
  exact eval_bind p (fun r => ret (g r)) w

/-- Guards do nothing for a program that is not dropped. -/
@[simp] theorem eval_guarded (cleanup : List Q) (p : Prog L Q A R) (w : W) :
    (p.guarded cleanup).eval exec w = p.eval exec w := by
  induction p generalizing w with
  | ret r => rfl
  | req l q cancel k ih =>
    cases he : exec q w with
    | none => simp [guarded, eval, he]
    | some aw => simp [guarded, eval, he, ih]

/-- **The rule for programs that run alone**: an invariant of the world and of the phase that every
allowed request keeps holds when a program that keeps to the discipline has returned. -/
theorem eval_of_wp {Φ : Type} {D : Discipline Φ L Q A} {Dn : L → Φ → Prop} {J : W → Φ → Prop}
    (hstep : ∀ {w w' φ l q a}, J w φ → D.ok φ l q → exec q w = some (a, w') →
      ∃ φ', D.tr φ l q a φ' ∧ J w' φ')
    {p : Prog L Q A R} {Post : Φ → R → Prop} {φ : Φ} {w w' : W} {r : R} (hp : p.wp D Dn Post φ)
    (hJ : J w φ) (h : p.eval exec w = some (r, w')) : ∃ φ', Post φ' r ∧ J w' φ' := by
  induction p generalizing w φ with
  | ret r' =>
    simp only [eval, Option.some.injEq, Prod.mk.injEq] at h
    obtain ⟨rfl, rfl⟩ := h
    exact ⟨φ, hp, hJ⟩
  | req l q cancel k ih =>
    obtain ⟨a, w₁, hexec, hrest⟩ := eval_req_eq_some.1 h
    obtain ⟨φ₁, htr, hJ₁⟩ := hstep hJ hp.1 hexec
    exact ih a (hp.2.1 a φ₁ htr) hJ₁ hrest

/-- What every request keeps, a program keeps. -/
theorem eval_keeps {J : W → Prop} (hstep : ∀ {w w' q a}, J w → exec q w = some (a, w') → J w')
    {p : Prog L Q A R} {w w' : W} {r : R} (hJ : J w) (h : p.eval exec w = some (r, w')) : J w' := by
  induction p generalizing w with
  | ret r' =>
    simp only [eval, Option.some.injEq, Prod.mk.injEq] at h
    rwa [← h.2]
  | req l q cancel k ih =>
    obtain ⟨a, w₁, hexec, hrest⟩ := eval_req_eq_some.1 h
    exact ih a (hstep hJ hexec) hrest

/-- Forgetting a part of the world that no answer depends on. -/
theorem eval_of_forget {W' : Type} {exec' : (q : Q) → W' → Option (A q × W')} {f : W → W'}
    (hf : ∀ q w a w', exec q w = some (a, w') → exec' q (f w) = some (a, f w'))
    {p : Prog L Q A R} {w w' : W} {r : R} (h : p.eval exec w = some (r, w')) :
    p.eval exec' (f w) = some (r, f w') := by
  induction p generalizing w with
  | ret r' =>
    simp only [eval, Option.some.injEq, Prod.mk.injEq] at h ⊢
    exact ⟨h.1, congrArg f h.2⟩
  | req l q cancel k ih =>
    cases he : exec q w with
    | none => simp [eval, he] at h
    | some aw =>
      rw [eval_req he] at h
      rw [eval_req (hf q w _ _ he)]
      exact ih aw.1 h

/-- **Lifting a run**: a run over an abstraction of the world is a run of the world, when every
answered request is, and what the requests keep of the world is kept. -/
theorem eval_lift {W' : Type} {exec' : (q : Q) → W' → Option (A q × W')} {f : W → W'} {J : W → Prop}
    (hf : ∀ {q w a w'}, J w → exec' q (f w) = some (a, w') →
      ∃ w₁, exec q w = some (a, w₁) ∧ f w₁ = w' ∧ J w₁)
    {p : Prog L Q A R} {w : W} {r : R} {w' : W'} (hJ : J w)
    (h : p.eval exec' (f w) = some (r, w')) :
    ∃ w₁, p.eval exec w = some (r, w₁) ∧ f w₁ = w' ∧ J w₁ := by
  induction p generalizing w with
  | ret r' =>
    simp only [eval, Option.some.injEq, Prod.mk.injEq] at h
    obtain ⟨rfl, rfl⟩ := h
    exact ⟨w, rfl, rfl, hJ⟩
  | req l q cancel k ih =>
    obtain ⟨a, w₀, hexec', hrest⟩ := eval_req_eq_some.1 h
    obtain ⟨w₁, hexec, rfl, hJ₁⟩ := hf hJ hexec'
    obtain ⟨w₂, heval, hlast, hJ₂⟩ := ih a hJ₁ hrest
    exact ⟨w₂, by rw [eval_req hexec, heval], hlast, hJ₂⟩

end Prog

namespace Machine

variable {M : Machine C L Q A R W O E} {o : Q → O}

theorem foldl_of_eval {s : Sys C L Q A R W} {i : ℕ} {c : C} {p : Prog L Q A (Option R)}
    {r : Option R} {w : W} (ht : s.tasks i = some ⟨c, p⟩)
    (h : p.eval (fun q => M.exec q (o q)) s.world = some (r, w)) :
    ∃ os : List O, (∀ x ∈ os, x ∈ Set.range o) ∧
      ((os.map (.run i)).foldl M.step s).world = w ∧
      ((os.map (.run i)).foldl M.step s).tasks i = some ⟨c, .ret r⟩ := by
  induction p generalizing s with
  | ret r' =>
    simp only [Prog.eval, Option.some.injEq, Prod.mk.injEq] at h
    exact ⟨[], (by simp), h.2, by rw [← h.1]; exact ht⟩
  | req l q cancel k ih =>
    cases he : M.exec q (o q) s.world with
    | none => simp [Prog.eval, he] at h
    | some aw =>
      have h : (k aw.1).eval (fun q => M.exec q (o q)) aw.2 = some (r, w) := by
        simpa only [Prog.eval, he, Option.bind_some] using h
      have hstep : M.step s (.run i (o q)) = s.answer i c l q aw.1 aw.2 (k aw.1) := by
        simp only [step, ht, he]
      obtain ⟨os, hos, hrun⟩ := ih aw.1 (s := s.answer i c l q aw.1 aw.2 (k aw.1))
        (by simp) h
      refine ⟨o q :: os, ?_, ?_⟩
      · intro x hx
        rcases List.mem_cons.1 hx with rfl | hx
        · exact ⟨q, rfl⟩
        · exact hos x hx
      · simpa only [List.map_cons, List.foldl_cons, hstep] using hrun

/-- **A call that is run alone**, on an idle thread and with the answers that `o` gives, ends in the
world and with the result of its evaluation. -/
theorem run_alone {s : Sys C L Q A R W} {i : ℕ} {c : C} {r : R} {w : W} (hi : s.Idle i)
    (h : (M.prog c).eval (fun q => M.exec q (o q)) s.world = some (r, w)) :
    ∃ os : List O, (∀ x ∈ os, x ∈ Set.range o) ∧
      ((.start i c :: os.map (.run i)).foldl M.step s).world = w ∧
      ((.start i c :: os.map (.run i)).foldl M.step s).result i = some r := by
  have hstep : M.step s (.start i c) = s.leave i c (some <$> M.prog c) := if_pos (Sys.isIdle_iff.2 hi)
  have heval : (some <$> M.prog c : Prog L Q A (Option R)).eval (fun q => M.exec q (o q))
      (s.leave i c (some <$> M.prog c)).world = some (some r, w) := by
    rw [Prog.eval_map, Sys.leave_world, h]
    rfl
  obtain ⟨os, hos, hw, ht⟩ := foldl_of_eval (i := i) (c := c) (by simp) heval
  refine ⟨os, hos, ?_, ?_⟩
  · rw [List.foldl_cons, hstep]
    exact hw
  · rw [List.foldl_cons, hstep, Sys.result, ht]

end Machine

end Coroutine
