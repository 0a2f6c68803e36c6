import TheSix.Lib.Coroutine

/-!
# Budgets

A request costs what `cost` says. `p.Spends cost left n` says that the program `p` gets by on `n`
whatever it is answered and wherever it is dropped, and that `left r` of it are left when it ends with
`r`. Budgets are read off a program piece by piece: what one part leaves is what the next one starts
with (`Spends.bind`), and whatever is added to a budget is left over (`Spends.add`).

In a machine whose programs keep to their budgets, no thread has ever spent more than the calls it has
started were granted (`Machine.spent_le_granted`), in any run and under any interleaving.
-/

namespace Coroutine

variable {C L Q R S W O E : Type} {A : Q → Type} {cost : Q → ℕ}

namespace Prog

/-- The program gets by on a budget, and leaves some of it. -/
def Spends (cost : Q → ℕ) : Prog L Q A R → (R → ℕ) → ℕ → Prop
  | ret r, left, n => left r ≤ n
  | req _ q cancel k, left, n =>
    cost q ≤ n ∧ (∀ a, (k a).Spends cost left (n - cost q)) ∧
      ∀ cs ∈ cancel, cost q + (cs.map cost).sum ≤ n

variable {left : R → ℕ} {left' : S → ℕ} {n m : ℕ}

@[simp] theorem spends_pure {r : R} : (pure r : Prog L Q A R).Spends cost left n ↔ left r ≤ n := Iff.rfl

theorem Spends.mono {p : Prog L Q A R} (hp : p.Spends cost left n) (h : n ≤ m) :
    p.Spends cost left m := by
  induction p generalizing n m with
  | ret r => exact Nat.le_trans hp h
  | req l q cancel k ih =>
    refine ⟨hp.1.trans h, fun a => ih a (hp.2.1 a) (by omega), ?_⟩
    intro cs hcs
    exact (hp.2.2 cs hcs).trans h

/-- Whatever is added to a budget is left over. -/
theorem Spends.add {p : Prog L Q A R} (hp : p.Spends cost left n) (m : ℕ) :
    p.Spends cost (fun r => left r + m) (n + m) := by
  induction p generalizing n with
  | ret r => exact Nat.add_le_add_right hp m
  | req l q cancel k ih =>
    refine ⟨hp.1.trans (by omega), fun a => ?_, fun cs hcs => (hp.2.2 cs hcs).trans (by omega)⟩
    have hq := hp.1
    exact (ih a (hp.2.1 a)).mono (by omega)

theorem Spends.bind {p : Prog L Q A R} {f : R → Prog L Q A S} (hp : p.Spends cost left n)
    (hf : ∀ r, (f r).Spends cost left' (left r)) : (p >>= f).Spends cost left' n := by
  induction p generalizing n with
  | ret r => exact (hf r).mono hp
  | req l q cancel k ih => exact ⟨hp.1, fun a => ih a (hp.2.1 a), hp.2.2⟩

theorem Spends.map {p : Prog L Q A R} {f : R → S} (hp : p.Spends cost (fun r => left' (f r)) n) :
    (f <$> p).Spends cost left' n :=
  hp.bind fun _ => Nat.le_refl _

/-- A program that needs `n`, and then one that needs `m`. -/
theorem Spends.seq {p : Prog L Q A R} {f : R → Prog L Q A S} (hp : p.Spends cost (fun _ => 0) n)
    (hf : ∀ r, (f r).Spends cost left' m) : (p >>= f).Spends cost left' (n + m) :=
  (hp.add m).bind fun r => (hf r).mono (by omega)

theorem spends_ite {b : Prop} [Decidable b] {p p' : Prog L Q A R}
    (hp : b → p.Spends cost left n) (hp' : ¬b → p'.Spends cost left n) :
    (if b then p else p').Spends cost left n := by
  by_cases hb : b
  · rw [if_pos hb]
    exact hp hb
  · rw [if_neg hb]
    exact hp' hb

/-- A guard whose clean-up is free. -/
theorem Spends.guarded {p : Prog L Q A R} (hp : p.Spends cost left n) {cleanup : List Q}
    (hc : (cleanup.map cost).sum = 0) : (p.guarded cleanup).Spends cost left n := by
  induction p generalizing n with
  | ret r => exact hp
  | req l q cancel k ih =>
    refine ⟨hp.1, fun a => ih a (hp.2.1 a), ?_⟩
    intro cs hcs
    rw [Option.mem_def, Option.map_eq_some_iff] at hcs
    obtain ⟨cs', hcs', rfl⟩ := hcs
    rw [List.map_append, List.sum_append, hc, Nat.add_zero]
    exact hp.2.2 cs' hcs'

theorem spends_unwind {l : L} {cs : List Q} (h : (cs.map cost).sum ≤ n) :
    (unwind l cs : Prog L Q A (Option R)).Spends cost (fun _ => 0) n := by
  induction cs generalizing n with
  | nil => exact Nat.zero_le n
  | cons c cs ih =>
    rw [List.map_cons, List.sum_cons] at h
    exact ⟨by omega, fun _ => ih (by omega), by simp⟩

/-- A request that nothing can drop. -/
theorem spends_call {l : L} {q : Q} {k : A q → Prog L Q A R}
    (hk : ∀ a, (k a).Spends cost left n) (hq : cost q = m) :
    (req l q none k).Spends cost left (m + n) :=
  ⟨by omega, fun a => (hk a).mono (by omega), by simp⟩

/-- An await point outside every guard. -/
theorem spends_await {l : L} {q : Q} {k : A q → Prog L Q A R}
    (hk : ∀ a, (k a).Spends cost left n) (hq : cost q = m) :
    (req l q (some []) k).Spends cost left (m + n) := by
  refine ⟨by omega, fun a => (hk a).mono (by omega), ?_⟩
  rintro cs ⟨⟩
  simp only [List.map_nil, List.sum_nil]
  omega

end Prog

/-! ## Runs within budget -/

/-- What the answered requests of a thread have cost. -/
def spent (cost : Q → ℕ) (i : ℕ) (trace : List (Item C L Q A W)) : ℕ :=
  ((trace.filter (·.thread = i)).map (cost ·.req)).sum

theorem spent_cons_self (it : Item C L Q A W) (trace : List (Item C L Q A W)) :
    spent cost it.thread (it :: trace) = cost it.req + spent cost it.thread trace := by
  simp [spent]

theorem spent_cons_of_ne {i : ℕ} {it : Item C L Q A W} (h : it.thread ≠ i)
    (trace : List (Item C L Q A W)) : spent cost i (it :: trace) = spent cost i trace := by
  simp [spent, h]

/-- What the calls that a schedule starts on a thread are granted. -/
def granted (grant : C → ℕ) (i : ℕ) (events : List (Event C O E)) : ℕ :=
  (events.map fun
    | .start j c => if j = i then grant c else 0
    | _ => 0).sum

namespace Machine

/-- A thread has spent no more than it was granted, and gets by on what is left. -/
structure Solvent (cost : Q → ℕ) (s : Sys C L Q A R W) (i total budget : ℕ) : Prop where
  task : ∀ t, s.tasks i = some t → t.rest.Spends cost (fun _ => 0) budget
  total : spent cost i s.trace + budget ≤ total

section Solvent

variable {s : Sys C L Q A R W} {i total budget : ℕ}

theorem Solvent.frame (h : Solvent cost s i total budget) {s' : Sys C L Q A R W}
    (htasks : s'.tasks i = s.tasks i) (htrace : spent cost i s'.trace = spent cost i s.trace) :
    Solvent cost s' i total budget :=
  ⟨by rw [htasks]; exact h.task, by rw [htrace]; exact h.total⟩

theorem Solvent.leave (h : Solvent cost s i total budget) {c : C}
    {rest : Prog L Q A (Option R)} (hrest : rest.Spends cost (fun _ => 0) budget) :
    Solvent cost (s.leave i c rest) i total budget := by
  refine ⟨?_, h.total⟩
  intro t ht
  rw [Sys.leave_tasks, Function.update_self] at ht
  obtain rfl := Option.some.inj ht
  exact hrest

theorem Solvent.answer (h : Solvent cost s i total budget) {c : C} {l : L} {q : Q} {a : A q} {w : W}
    {rest : Prog L Q A (Option R)} (hq : cost q ≤ budget)
    (hrest : rest.Spends cost (fun _ => 0) (budget - cost q)) :
    Solvent cost (s.answer i c l q a w rest) i total (budget - cost q) := by
  refine ⟨?_, ?_⟩
  · intro t ht
    rw [Sys.answer_tasks, Function.update_self] at ht
    obtain rfl := Option.some.inj ht
    exact hrest
  · have hspent : spent cost i (⟨i, c, l, q, a, s.world, w⟩ :: s.trace) =
        cost q + spent cost i s.trace :=
      spent_cons_self ⟨i, c, l, q, a, s.world, w⟩ s.trace
    have htotal := h.total
    rw [Sys.answer_trace]
    omega

theorem Solvent.answer_other (h : Solvent cost s i total budget) {j : ℕ} (hj : j ≠ i) (c : C) (l : L)
    (q : Q) (a : A q) (w : W) (rest : Prog L Q A (Option R)) :
    Solvent cost (s.answer j c l q a w rest) i total budget := by
  refine h.frame ?_ ?_
  · rw [Sys.answer_tasks, Function.update_of_ne hj.symm]
  · rw [Sys.answer_trace, spent_cons_of_ne hj]

theorem Solvent.leave_other (h : Solvent cost s i total budget) {j : ℕ} (hj : j ≠ i) (c : C)
    (rest : Prog L Q A (Option R)) : Solvent cost (s.leave j c rest) i total budget := by
  refine h.frame ?_ rfl
  rw [Sys.leave_tasks, Function.update_of_ne hj.symm]

end Solvent

variable {M : Machine C L Q A R W O E} {grant : C → ℕ}

/-- One event keeps a thread solvent; a call that starts brings its grant. -/
theorem Solvent.step (hprog : ∀ c, (M.prog c).Spends cost (fun _ => 0) (grant c))
    {s : Sys C L Q A R W} {i total budget : ℕ} (h : Solvent cost s i total budget)
    (ev : Event C O E) :
    ∃ budget', Solvent cost (M.step s ev) i (total + granted grant i [ev]) budget' := by
  have hmore : ∀ {s' : Sys C L Q A R W} {budget' : ℕ}, Solvent cost s' i total budget' →
      ∃ budget', Solvent cost s' i (total + granted grant i [ev]) budget' := by
    intro s' budget' h'
    exact ⟨budget', h'.task, h'.total.trans (Nat.le_add_right _ _)⟩
  cases ev with
  | env e => exact hmore ⟨h.task, h.total⟩
  | start j c =>
    simp only [Machine.step]
    split
    · by_cases hij : j = i
      · subst hij
        refine ⟨grant c, ?_, ?_⟩
        · intro t ht
          rw [Sys.leave_tasks, Function.update_self] at ht
          obtain rfl := Option.some.inj ht
          exact Prog.Spends.map (hprog c)
        · have htotal := h.total
          simp only [Sys.leave_trace, granted, List.map_cons, List.map_nil, List.sum_cons,
            List.sum_nil, if_true]
          omega
      · exact hmore (h.leave_other hij c _)
    · exact hmore h
  | run j o =>
    simp only [Machine.step]
    split
    · rename_i c l q cancel k ht
      split
      · rename_i a w he
        by_cases hij : j = i
        · subst hij
          have hspends := h.task _ ht
          exact hmore (h.answer hspends.1 (hspends.2.1 a))
        · exact hmore (h.answer_other hij c l q a w _)
      · exact hmore h
    · exact hmore h
  | drop j o =>
    simp only [Machine.step]
    split
    · rename_i c l q cs k ht
      by_cases hij : j = i
      · subst hij
        have hspends := h.task _ ht
        have hcleanup := hspends.2.2 cs rfl
        split
        · exact hmore (h.leave (Prog.spends_unwind (by omega)))
        · split
          · exact hmore (h.answer hspends.1 (Prog.spends_unwind (by omega)))
          · exact hmore h
      · split
        · exact hmore (h.leave_other hij c _)
        · split
          · exact hmore (h.answer_other hij c l q _ _ _)
          · exact hmore h
    · exact hmore h

theorem granted_append (i : ℕ) (events more : List (Event C O E)) :
    granted grant i (events ++ more) = granted grant i events + granted grant i more := by
  simp [granted]

/-- **No thread outspends its calls**, in any run. -/
theorem spent_le_granted (hprog : ∀ c, (M.prog c).Spends cost (fun _ => 0) (grant c)) (w : W)
    (events : List (Event C O E)) (i : ℕ) :
    spent cost i (M.run w events).trace ≤ granted grant i events := by
  have hrun : ∃ budget, Solvent cost (M.run w events) i (granted grant i events) budget := by
    induction events using List.reverseRecOn with
    | nil =>
      refine ⟨0, ?_, Nat.le_refl _⟩
      intro t ht
      cases ht
    | append_singleton events ev ih =>
      obtain ⟨budget, h⟩ := ih
      have hstep := h.step hprog ev
      rw [← granted_append] at hstep
      simpa only [run, List.foldl_append, List.foldl_cons, List.foldl_nil] using hstep
  obtain ⟨budget, h⟩ := hrun
  exact (Nat.le_add_right _ _).trans h.total

end Machine

end Coroutine
