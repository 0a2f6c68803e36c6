import TheSix.Lib.Tagged
import TheSix.Lib.Ledger

/-!
# Requests that repeat an answer

Some requests repeat what an earlier one was answered: a result is counted, logged or passed on.
`p.Echoes echo said last` says that every request of `p` which repeats something (`echo`) comes right
after the request whose answer said it (`said`), the first one after `last`. It is read off the program,
piece by piece.

In a machine of such programs nothing is repeated that was not said, and nothing twice: under any
interleaving, what its threads have repeated is contained in what they were told, occurrence by
occurrence (`Machine.echoed_subperm`). An answer that is dropped unseen is not repeated.
-/

namespace Coroutine

variable {C K L N Q R S W O E : Type} {A : Q → Type} {echo : Q → Option N}
  {said : (q : Q) → A q → Option N} {last : Option N}

namespace Prog

/-- Every request that repeats something comes right after the request that was told it. -/
def Echoes (echo : Q → Option N) (said : (q : Q) → A q → Option N) : Option N → Prog L Q A R → Prop
  | _, ret _ => True
  | last, req _ q cancel k =>
    (∀ n ∈ echo q, last = some n) ∧ (∀ a, (k a).Echoes echo said (said q a)) ∧
      ∀ cs ∈ cancel, ∀ c ∈ cs, echo c = none

theorem echoes_ret (r : R) : (ret r : Prog L Q A R).Echoes echo said last := trivial

/-- What repeats nothing at first may follow anything. -/
theorem Echoes.after {p : Prog L Q A R} (hp : p.Echoes echo said none) (last : Option N) :
    p.Echoes echo said last := by
  cases p with
  | ret r => trivial
  | req l q cancel k =>
    refine ⟨?_, hp.2⟩
    intro n hn
    cases hp.1 n hn

theorem Echoes.bind {p : Prog L Q A R} {f : R → Prog L Q A S} (hp : p.Echoes echo said last)
    (hf : ∀ r, (f r).Echoes echo said none) : (p >>= f).Echoes echo said last := by
  induction p generalizing last with
  | ret r => exact (hf r).after last
  | req l q cancel k ih => exact ⟨hp.1, fun a => ih a (hp.2.1 a), hp.2.2⟩

theorem Echoes.map {p : Prog L Q A R} (hp : p.Echoes echo said last) (f : R → S) :
    (f <$> p).Echoes echo said last :=
  hp.bind fun r => echoes_ret (f r)

theorem Echoes.guarded {p : Prog L Q A R} (hp : p.Echoes echo said last) {cleanup : List Q}
    (hc : ∀ c ∈ cleanup, echo c = none) : (p.guarded cleanup).Echoes echo said last := by
  induction p generalizing last with
  | ret r => trivial
  | req l q cancel k ih =>
    refine ⟨hp.1, fun a => ih a (hp.2.1 a), ?_⟩
    intro cs hcs c hmem
    rw [Option.mem_def, Option.map_eq_some_iff] at hcs
    obtain ⟨cs', hcs', rfl⟩ := hcs
    rcases List.mem_append.1 hmem with hmem | hmem
    · exact hp.2.2 cs' hcs' c hmem
    · exact hc c hmem

theorem echoes_ite {b : Prop} [Decidable b] {p p' : Prog L Q A R} (hp : b → p.Echoes echo said last)
    (hp' : ¬b → p'.Echoes echo said last) : (if b then p else p').Echoes echo said last := by
  by_cases hb : b
  · rw [if_pos hb]
    exact hp hb
  · rw [if_neg hb]
    exact hp' hb

/-- A request that repeats nothing, before what may repeat its answer. -/
theorem echoes_req {l : L} {q : Q} {cancel : Option (List Q)} {k : A q → Prog L Q A R}
    (hq : echo q = none) (hcancel : ∀ cs ∈ cancel, ∀ c ∈ cs, echo c = none)
    (hk : ∀ a, (k a).Echoes echo said (said q a)) : (req l q cancel k).Echoes echo said last :=
  ⟨by simp [hq], hk, hcancel⟩

theorem echoes_unwind {l : L} {cs : List Q} (h : ∀ c ∈ cs, echo c = none) :
    (unwind l cs : Prog L Q A (Option R)).Echoes echo said last := by
  induction cs generalizing last with
  | nil => trivial
  | cons c cs ih =>
    rw [List.forall_mem_cons] at h
    exact ⟨by simp [h.1], fun _ => ih h.2, by simp⟩

/-- A program about a key, on the requests of all keys. -/
theorem Echoes.tagged {p : Prog L Q A R} (hp : p.Echoes echo said last) (key : K) :
    (p.tagged key).Echoes (fun q : K × Q => echo q.2) (fun q : K × Q => said q.2) last := by
  induction p generalizing last with
  | ret r => trivial
  | req l q cancel k ih =>
    refine ⟨hp.1, fun a => ih a (hp.2.1 a), ?_⟩
    intro cs hcs c hmem
    rw [Option.mem_def, Option.map_eq_some_iff] at hcs
    obtain ⟨cs', hcs', rfl⟩ := hcs
    obtain ⟨q', hq', rfl⟩ := List.mem_map.1 hmem
    exact hp.2.2 cs' hcs' q' hq'

end Prog

/-! ## The echoes of a run -/

/-- What the threads of a trace have repeated, newest first. -/
def echoed (echo : Q → Option N) (trace : List (Item C L Q A W)) : List (ℕ × N) :=
  trace.filterMap fun it => (echo it.req).map (it.thread, ·)

/-- What the threads of a trace were told, newest first. -/
def told (said : (q : Q) → A q → Option N) (trace : List (Item C L Q A W)) : List (ℕ × N) :=
  trace.filterMap fun it => (said it.req it.ans).map (it.thread, ·)

theorem echoed_cons (it : Item C L Q A W) (trace : List (Item C L Q A W)) :
    echoed echo (it :: trace) = ((echo it.req).map (it.thread, ·)).toList ++ echoed echo trace := by
  unfold echoed
  cases h : echo it.req <;> simp [h]

theorem told_cons (it : Item C L Q A W) (trace : List (Item C L Q A W)) :
    told said (it :: trace) = ((said it.req it.ans).map (it.thread, ·)).toList ++ told said trace := by
  unfold told
  cases h : said it.req it.ans <;> simp [h]

namespace Machine

/-- A thread has repeated no more than it was told, and it may still repeat what it was told last. -/
structure Faithful (echo : Q → Option N) (said : (q : Q) → A q → Option N) (s : Sys C L Q A R W)
    (i : ℕ) (last : Option N) : Prop where
  task : ∀ t, s.tasks i = some t → t.rest.Echoes echo said last
  sublist : (last.toList.map (i, ·) ++ mine i (echoed echo s.trace)).Sublist
    (mine i (told said s.trace))

section Faithful

variable {s : Sys C L Q A R W} {i : ℕ}

theorem Faithful.leave (h : Faithful echo said s i last) {c : C} {rest : Prog L Q A (Option R)}
    (hrest : rest.Echoes echo said last) : Faithful echo said (s.leave i c rest) i last := by
  refine ⟨?_, h.sublist⟩
  intro t ht
  rw [Sys.leave_tasks, Function.update_self] at ht
  obtain rfl := Option.some.inj ht
  exact hrest

theorem Faithful.leave_other (h : Faithful echo said s i last) {j : ℕ} (hj : j ≠ i) (c : C)
    (rest : Prog L Q A (Option R)) : Faithful echo said (s.leave j c rest) i last := by
  refine ⟨?_, h.sublist⟩
  rw [Sys.leave_tasks, Function.update_of_ne hj.symm]
  exact h.task

theorem Faithful.answer_other (h : Faithful echo said s i last) {j : ℕ} (hj : j ≠ i) (c : C) (l : L)
    (q : Q) (a : A q) (w : W) (rest : Prog L Q A (Option R)) :
    Faithful echo said (s.answer j c l q a w rest) i last := by
  refine ⟨?_, ?_⟩
  · rw [Sys.answer_tasks, Function.update_of_ne hj.symm]
    exact h.task
  · rw [Sys.answer_trace, echoed_cons, told_cons, mine_cons_other hj, mine_cons_other hj]
    exact h.sublist

/-- A request is answered: its answer is what the thread was told last. -/
theorem Faithful.answer (h : Faithful echo said s i last) {c : C} {l : L} {q : Q} {a : A q} {w : W}
    {rest : Prog L Q A (Option R)} (hq : ∀ n ∈ echo q, last = some n)
    (hrest : rest.Echoes echo said (said q a)) :
    Faithful echo said (s.answer i c l q a w rest) i (said q a) := by
  refine ⟨?_, ?_⟩
  · intro t ht
    rw [Sys.answer_tasks, Function.update_self] at ht
    obtain rfl := Option.some.inj ht
    exact hrest
  · rw [Sys.answer_trace, echoed_cons, told_cons, mine_cons_own, mine_cons_own]
    refine (List.Sublist.refl _).append (List.Sublist.trans ?_ h.sublist)
    apply List.Sublist.append_right
    cases hecho : echo q with
    | none => exact List.nil_sublist _
    | some n => rw [hq n hecho]

end Faithful

variable {M : Machine C L Q A R W O E}

/-- One event keeps a thread faithful. -/
theorem Faithful.step (hprog : ∀ c, (M.prog c).Echoes echo said none) {s : Sys C L Q A R W} {i : ℕ}
    (h : Faithful echo said s i last) (ev : Event C O E) :
    ∃ last', Faithful echo said (M.step s ev) i last' := by
  cases ev with
  | env e => exact ⟨last, h.task, h.sublist⟩
  | start j c =>
    simp only [Machine.step]
    split
    · by_cases hij : j = i
      · subst hij
        exact ⟨last, h.leave (((hprog c).map some).after last)⟩
      · exact ⟨last, h.leave_other hij c _⟩
    · exact ⟨last, h⟩
  | run j o =>
    simp only [Machine.step]
    split
    · rename_i c l q cancel k ht
      split
      · rename_i a w he
        by_cases hij : j = i
        · subst hij
          have hechoes := h.task _ ht
          exact ⟨_, h.answer hechoes.1 (hechoes.2.1 a)⟩
        · exact ⟨last, h.answer_other hij c l q a w _⟩
      · exact ⟨last, h⟩
    · exact ⟨last, h⟩
  | drop j o =>
    simp only [Machine.step]
    split
    · rename_i c l q cs k ht
      by_cases hij : j = i
      · subst hij
        have hechoes := h.task _ ht
        have hcleanup := hechoes.2.2 cs rfl
        split
        · exact ⟨last, h.leave (Prog.echoes_unwind hcleanup)⟩
        · split
          · exact ⟨_, h.answer hechoes.1 (Prog.echoes_unwind hcleanup)⟩
          · exact ⟨last, h⟩
      · split
        · exact ⟨last, h.leave_other hij c _⟩
        · split
          · exact ⟨last, h.answer_other hij c l q _ _ _⟩
          · exact ⟨last, h⟩
    · exact ⟨last, h⟩

theorem faithful_run (hprog : ∀ c, (M.prog c).Echoes echo said none) (w : W)
    (events : List (Event C O E)) (i : ℕ) : ∃ last, Faithful echo said (M.run w events) i last := by
  induction events using List.reverseRecOn with
  | nil =>
    refine ⟨none, ?_, List.nil_sublist _⟩
    intro t ht
    cases ht
  | append_singleton events ev ih =>
    obtain ⟨last, h⟩ := ih
    have hstep := h.step hprog ev
    simpa only [run, List.foldl_append, List.foldl_cons, List.foldl_nil] using hstep

/-- **Nothing is repeated that was not said**, and nothing twice. -/
theorem echoed_subperm (hprog : ∀ c, (M.prog c).Echoes echo said none) (w : W)
    (events : List (Event C O E)) :
    (echoed echo (M.run w events).trace).Subperm (told said (M.run w events).trace) := by
  classical
  rw [List.subperm_ext_iff]
  intro x _
  obtain ⟨last, h⟩ := faithful_run hprog w events x.1
  have hcount := ((List.sublist_append_right _ _).trans h.sublist).count_le x
  rwa [count_mine, count_mine] at hcount

end Machine

end Coroutine
