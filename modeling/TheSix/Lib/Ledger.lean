import TheSix.Lib.Notes
import Mathlib.Data.List.Perm.Subperm
import Mathlib.Data.List.Count

/-!
# Notes that are due

When the answer to a request is due a note (`due`), a program keeps to its ledger if the note is the
very next thing it does, and if every other note it leaves is one that it may leave anywhere (`free`).
`Prog.Paid` is read off the program, piece by piece.

In a run of a noting machine, every note that any number of such programs leave is due or free
(`Machine.known_run`). Where a kind of note is never free (`billed`), the ledger never bills more than
was due (`Machine.ledger_subperm`): an answer that is dropped unseen is never billed. Without such
drops, the ledger at rest bills exactly what was due, and nothing that was due is missing from it
(`Machine.ledger_perm`).
-/

namespace Coroutine

variable {C L N Q R S W O E : Type} {A : Q → Type}

namespace Prog

variable {due : L → (q : Q) → A q → Option N} {free : L → N → Prop} {owed : Option N}

/-- The note that is owed is left next; every note that is not owed is `free`. -/
def Paid (due : L → (q : Q) → A q → Option N) (free : L → N → Prop) :
    Option N → Prog L (Noting N Q) (Noting.Answer A) R → Prop
  | owed, ret _ => owed = none
  | owed, req l (.ask q) cancel k =>
    owed = none ∧ (∀ a : A q, (k a).Paid due free (due l q a)) ∧
      ∀ cs ∈ cancel, ∀ c ∈ cs, ∃ q, c = .ask q ∧ ∀ a, due l q a = none
  | owed, req l (.note n) cancel k =>
    (owed = some n ∨ owed = none ∧ free l n) ∧ cancel = none ∧ (k ()).Paid due free none

theorem paid_ret (r : R) : (ret r : Prog L (Noting N Q) (Noting.Answer A) R).Paid due free none := rfl

theorem Paid.bind {p : Prog L (Noting N Q) (Noting.Answer A) R}
    {f : R → Prog L (Noting N Q) (Noting.Answer A) S} (hp : p.Paid due free owed)
    (hf : ∀ r, (f r).Paid due free none) : (p >>= f).Paid due free owed := by
  induction p generalizing owed with
  | ret r =>
    obtain rfl : owed = none := hp
    exact hf r
  | req l q cancel k ih =>
    cases q with
    | ask q => exact ⟨hp.1, fun a => ih a (hp.2.1 a), hp.2.2⟩
    | note n => exact ⟨hp.1, hp.2.1, ih () hp.2.2⟩

theorem Paid.map {p : Prog L (Noting N Q) (Noting.Answer A) R} (hp : p.Paid due free owed)
    (f : R → S) : (f <$> p).Paid due free owed :=
  hp.bind fun r => paid_ret (f r)

theorem Paid.guarded {p : Prog L (Noting N Q) (Noting.Answer A) R} (hp : p.Paid due free owed)
    (cleanup : List Q) (hc : ∀ c ∈ cleanup, ∀ l a, due l c a = none) :
    (p.guarded (cleanup.map .ask)).Paid due free owed := by
  induction p generalizing owed with
  | ret r => exact hp
  | req l q cancel k ih =>
    cases q with
    | note n =>
      obtain ⟨hn, rfl, hk⟩ := hp
      exact ⟨hn, rfl, ih () hk⟩
    | ask q =>
      refine ⟨hp.1, fun a => ih a (hp.2.1 a), ?_⟩
      intro cs hcs c hmem
      rw [Option.mem_def, Option.map_eq_some_iff] at hcs
      obtain ⟨cs', hcs', rfl⟩ := hcs
      rcases List.mem_append.1 hmem with hmem | hmem
      · exact hp.2.2 cs' hcs' c hmem
      · obtain ⟨q', hq', rfl⟩ := List.mem_map.1 hmem
        exact ⟨q', rfl, hc q' hq' l⟩

theorem paid_ite {b : Prop} [Decidable b] {p p' : Prog L (Noting N Q) (Noting.Answer A) R}
    (hp : b → p.Paid due free owed) (hp' : ¬b → p'.Paid due free owed) :
    (if b then p else p').Paid due free owed := by
  by_cases hb : b
  · rw [if_pos hb]
    exact hp hb
  · rw [if_neg hb]
    exact hp' hb

/-- A note that is not owed. -/
theorem paid_note_bind {l : L} {n : N} {f : Unit → Prog L (Noting N Q) (Noting.Answer A) S}
    (hn : free l n) (hf : (f ()).Paid due free none) :
    ((req l (.note n) none ret : Prog L (Noting N Q) (Noting.Answer A) Unit) >>= f).Paid due free
      none :=
  ⟨.inr ⟨rfl, hn⟩, rfl, hf⟩

/-- Every request of a program is due nothing. -/
def Unbilled (due : L → (q : Q) → A q → Option N) : Prog L Q A R → Prop
  | ret _ => True
  | req l q cancel k =>
    (∀ a, due l q a = none) ∧ (∀ a, (k a).Unbilled due) ∧ ∀ cs ∈ cancel, ∀ c ∈ cs, ∀ a, due l c a = none

theorem Unbilled.bind {p : Prog L Q A R} {f : R → Prog L Q A S} (hp : p.Unbilled due)
    (hf : ∀ r, (f r).Unbilled due) : (p >>= f).Unbilled due := by
  induction p with
  | ret r => exact hf r
  | req l q cancel k ih => exact ⟨hp.1, fun a => ih a (hp.2.1 a), hp.2.2⟩

theorem unbilled_of_forall (h : ∀ l q a, due l q a = none) (p : Prog L Q A R) : p.Unbilled due := by
  induction p with
  | ret r => trivial
  | req l q cancel k ih => exact ⟨h l q, ih, fun _ _ c _ => h l c⟩

theorem Unbilled.aside {p : Prog L Q A R} (h : p.Unbilled due) :
    (p.aside N).Paid due free none := by
  induction p with
  | ret r => exact paid_ret r
  | req l q cancel k ih =>
    refine ⟨rfl, fun a => ?_, ?_⟩
    · rw [h.1 a]
      exact ih a (h.2.1 a)
    · intro cs hcs c hmem
      rw [Option.mem_def, Option.map_eq_some_iff] at hcs
      obtain ⟨cs', hcs', rfl⟩ := hcs
      obtain ⟨q', hq', rfl⟩ := List.mem_map.1 hmem
      exact ⟨q', rfl, h.2.2 cs' hcs' q' hq'⟩

theorem paid_unwind {l : L} {cs : List (Noting N Q)}
    (h : ∀ c ∈ cs, ∃ q, c = .ask q ∧ ∀ a, due l q a = none) :
    (unwind l cs : Prog L (Noting N Q) (Noting.Answer A) (Option R)).Paid due free none := by
  induction cs with
  | nil => rfl
  | cons c cs ih =>
    rw [List.forall_mem_cons] at h
    obtain ⟨⟨q, rfl, hq⟩, hcs⟩ := h
    refine ⟨rfl, fun a => ?_, by simp⟩
    rw [hq a]
    exact ih hcs

end Prog

/-! ## The ledger of a run -/

/-- What an answered request is due. -/
def Item.due (due : C → L → (q : Q) → A q → Option N) :
    Item C L (Noting N Q) (Noting.Answer A) W → Option N
  | ⟨_, c, l, .ask q, a, _, _⟩ => due c l q a
  | ⟨_, _, _, .note _, _, _, _⟩ => none

/-- The notes of a trace, newest first, each with the thread that left it. -/
def ledger (trace : List (Item C L (Noting N Q) (Noting.Answer A) (W × List N))) : List (ℕ × N) :=
  trace.filterMap fun it => it.noted.map (it.thread, ·)

/-- What the answered requests of a trace are due, newest first, each with its thread. -/
def dues (due : C → L → (q : Q) → A q → Option N)
    (trace : List (Item C L (Noting N Q) (Noting.Answer A) (W × List N))) : List (ℕ × N) :=
  trace.filterMap fun it => (it.due due).map (it.thread, ·)

/-- A drop of a thread whose pending request is made, and its answer never seen. -/
def Event.unseen : Event C O E → Bool
  | .drop _ (some _) => true
  | _ => false

namespace Machine

/-- The entries of a thread. -/
def mine (i : ℕ) (entries : List (ℕ × N)) : List (ℕ × N) := entries.filter (·.1 = i)

theorem mine_cons_self (i : ℕ) (n : N) (entries : List (ℕ × N)) :
    mine i ((i, n) :: entries) = (i, n) :: mine i entries :=
  List.filter_cons_of_pos (by simp)

theorem mine_cons_of_ne {i j : ℕ} (h : j ≠ i) (n : N) (entries : List (ℕ × N)) :
    mine i ((j, n) :: entries) = mine i entries :=
  List.filter_cons_of_neg (by simpa using h)

theorem filter_mine (i : ℕ) (billed : N → Bool) (entries : List (ℕ × N)) :
    (mine i entries).filter (billed ·.2) = mine i (entries.filter (billed ·.2)) := by
  unfold mine
  rw [List.filter_comm]

/-- The books of one thread: with the note it owes, its notes are what its answered requests were
due. Only answers nobody saw are missing from them. -/
structure Books (due : C → L → (q : Q) → A q → Option N)
    (free : C → L → N → Prop) (billed : N → Bool) (clean : Prop)
    (s : Sys C L (Noting N Q) (Noting.Answer A) R (W × List N)) (i : ℕ) (owed : Option N) : Prop where
  task : ∀ t, s.tasks i = some t → t.rest.Paid (due t.call) (free t.call) owed
  idle : s.tasks i = none → owed = none
  bills : ((owed.toList.map (i, ·) ++ mine i (ledger s.trace)).filter (billed ·.2)).Sublist
    ((mine i (dues due s.trace)).filter (billed ·.2))
  settles : clean →
    (owed.toList.map (i, ·) ++ mine i (ledger s.trace)).filter (billed ·.2) =
        (mine i (dues due s.trace)).filter (billed ·.2) ∧
      (mine i (dues due s.trace)).Sublist (owed.toList.map (i, ·) ++ mine i (ledger s.trace))

section Books

variable {due : C → L → (q : Q) → A q → Option N} {free : C → L → N → Prop}
  {billed : N → Bool} {clean : Prop}
  {s : Sys C L (Noting N Q) (Noting.Answer A) R (W × List N)} {i : ℕ} {owed : Option N}

theorem Books.leave (h : Books due free billed clean s i none) {c : C}
    {rest : Prog L (Noting N Q) (Noting.Answer A) (Option R)} (hrest : rest.Paid (due c) (free c) none) :
    Books due free billed clean (s.leave i c rest) i none := by
  refine ⟨?_, fun _ => rfl, h.bills, h.settles⟩
  intro t ht
  rw [Sys.leave_tasks, Function.update_self] at ht
  obtain rfl := Option.some.inj ht
  exact hrest

/-- Another thread's step leaves the books alone. -/
theorem Books.frame (h : Books due free billed clean s i owed)
    {s' : Sys C L (Noting N Q) (Noting.Answer A) R (W × List N)} (htasks : s'.tasks i = s.tasks i)
    (hledger : mine i (ledger s'.trace) = mine i (ledger s.trace))
    (hdues : mine i (dues due s'.trace) = mine i (dues due s.trace)) :
    Books due free billed clean s' i owed :=
  ⟨by rw [htasks]; exact h.task, by rw [htasks]; exact h.idle, by rw [hledger, hdues]; exact h.bills,
    by rw [hledger, hdues]; exact h.settles⟩

/-- An entry of another thread is none of this one's. -/
theorem mine_cons_other {j : ℕ} (hj : j ≠ i) (o : Option N) (entries : List (ℕ × N)) :
    mine i ((o.map (j, ·)).toList ++ entries) = mine i entries := by
  cases o with
  | none => rfl
  | some n => exact mine_cons_of_ne hj n entries

theorem mine_cons_own (o : Option N) (entries : List (ℕ × N)) :
    mine i ((o.map (i, ·)).toList ++ entries) = o.toList.map (i, ·) ++ mine i entries := by
  cases o with
  | none => rfl
  | some n => exact mine_cons_self i n entries

theorem ledger_cons (it : Item C L (Noting N Q) (Noting.Answer A) (W × List N))
    (trace : List (Item C L (Noting N Q) (Noting.Answer A) (W × List N))) :
    ledger (it :: trace) = (it.noted.map (it.thread, ·)).toList ++ ledger trace := by
  unfold ledger
  cases h : it.noted <;> simp [h]

theorem dues_cons (it : Item C L (Noting N Q) (Noting.Answer A) (W × List N))
    (trace : List (Item C L (Noting N Q) (Noting.Answer A) (W × List N))) :
    dues due (it :: trace) = ((it.due due).map (it.thread, ·)).toList ++ dues due trace := by
  unfold dues
  cases h : it.due due <;> simp [h]

/-- An answer to another thread leaves the books alone. -/
theorem Books.answer_other (h : Books due free billed clean s i owed) {j : ℕ} (hj : j ≠ i) (c : C) (l : L)
    (q : Noting N Q) (a : Noting.Answer A q) (w : W × List N)
    (rest : Prog L (Noting N Q) (Noting.Answer A) (Option R)) :
    Books due free billed clean (s.answer j c l q a w rest) i owed := by
  refine h.frame ?_ ?_ ?_
  · rw [Sys.answer_tasks, Function.update_of_ne hj.symm]
  · rw [Sys.answer_trace, ledger_cons, mine_cons_other hj]
  · rw [Sys.answer_trace, dues_cons, mine_cons_other hj]

/-- The program an answer leads to is the one of its thread. -/
theorem task_answer {c : C} {l : L} {q : Noting N Q} {a : Noting.Answer A q} {w : W × List N}
    {rest : Prog L (Noting N Q) (Noting.Answer A) (Option R)} (hrest : rest.Paid (due c) (free c) owed)
    (t : Task C L (Noting N Q) (Noting.Answer A) R) (ht : (s.answer i c l q a w rest).tasks i = some t) :
    t.rest.Paid (due t.call) (free t.call) owed := by
  rw [Sys.answer_tasks, Function.update_self] at ht
  obtain rfl := Option.some.inj ht
  exact hrest

theorem not_idle_answer {c : C} {l : L} {q : Noting N Q} {a : Noting.Answer A q} {w : W × List N}
    {rest : Prog L (Noting N Q) (Noting.Answer A) (Option R)}
    (h : (s.answer i c l q a w rest).tasks i = none) : owed = none := by
  rw [Sys.answer_tasks, Function.update_self] at h
  cases h

/-- A request is answered: what it is due is owed now. -/
theorem Books.answer_ask (h : Books due free billed clean s i none) {c : C} {l : L} {q : Q} {a : A q}
    {w : W × List N} {rest : Prog L (Noting N Q) (Noting.Answer A) (Option R)}
    (hrest : rest.Paid (due c) (free c) (due c l q a)) :
    Books due free billed clean (s.answer i c l (.ask q) a w rest) i (due c l q a) := by
  refine ⟨task_answer hrest, fun hnone => not_idle_answer hnone, ?_, ?_⟩
  · rw [Sys.answer_trace, ledger_cons, dues_cons]
    simp only [Item.noted, Item.due, Option.map_none, Option.toList_none, List.nil_append,
      mine_cons_own, List.filter_append]
    exact (List.Sublist.refl _).append h.bills
  · intro hclean
    obtain ⟨heq, hsub⟩ := h.settles hclean
    rw [Sys.answer_trace, ledger_cons, dues_cons]
    simp only [Item.noted, Item.due, Option.map_none, Option.toList_none, List.nil_append,
      mine_cons_own, List.filter_append, List.map_nil] at heq hsub ⊢
    exact ⟨by rw [heq], (List.Sublist.refl _).append hsub⟩

/-- The answer is made and not seen: what it is due is never owed. -/
theorem Books.answer_unseen (h : Books due free billed clean s i none) {c : C} {l : L} {q : Q} {a : A q}
    {w : W × List N} {rest : Prog L (Noting N Q) (Noting.Answer A) (Option R)}
    (hrest : rest.Paid (due c) (free c) none) :
    Books due free billed False (s.answer i c l (.ask q) a w rest) i none := by
  refine ⟨task_answer hrest, fun _ => rfl, ?_, False.elim⟩
  rw [Sys.answer_trace, ledger_cons, dues_cons]
  simp only [Item.noted, Item.due, Option.map_none, Option.toList_none, List.nil_append,
    mine_cons_own, List.filter_append]
  exact h.bills.trans (List.sublist_append_right _ _)

/-- A note is left: it was owed, or it is not billed. -/
theorem Books.answer_note (hfree : ∀ c l n, free c l n → billed n = false)
    (h : Books due free billed clean s i owed) {c : C} {l : L} {n : N}
    {w : W × List N} {rest : Prog L (Noting N Q) (Noting.Answer A) (Option R)}
    (hn : owed = some n ∨ owed = none ∧ free c l n) (hrest : rest.Paid (due c) (free c) none) :
    Books due free billed clean (s.answer i c l (.note n) () w rest) i none := by
  have hledger : mine i (ledger (s.answer i c l (.note n) () w rest).trace) =
      (i, n) :: mine i (ledger s.trace) := by
    rw [Sys.answer_trace, ledger_cons]
    exact mine_cons_self i n _
  have hdues : dues due (s.answer i c l (.note n) () w rest).trace = dues due s.trace := by
    rw [Sys.answer_trace, dues_cons]
    rfl
  refine ⟨task_answer hrest, fun _ => rfl, ?_, ?_⟩
  · rw [hledger, hdues]
    rcases hn with rfl | ⟨rfl, hn⟩
    · exact h.bills
    · simpa [hfree c l n hn] using h.bills
  · intro hclean
    obtain ⟨heq, hsub⟩ := h.settles hclean
    rw [hledger, hdues]
    rcases hn with rfl | ⟨rfl, hn⟩
    · exact ⟨heq, hsub⟩
    · refine ⟨by simpa [hfree c l n hn] using heq, hsub.trans ?_⟩
      exact List.sublist_cons_self _ _

end Books

section Run

variable {M : Machine C L Q A R W O E} {prog : C → Prog L (Noting N Q) (Noting.Answer A) R}
  {due : C → L → (q : Q) → A q → Option N} {free : C → L → N → Prop} {billed : N → Bool}

/-- One event keeps the books of every thread. An unseen answer makes them unclean. -/
theorem Books.step (hprog : ∀ c, (prog c).Paid (due c) (free c) none)
    (hfree : ∀ c l n, free c l n → billed n = false) {clean : Prop}
    {s : Sys C L (Noting N Q) (Noting.Answer A) R (W × List N)} {i : ℕ} {owed : Option N}
    (h : Books due free billed clean s i owed) (ev : Event C O E) :
    ∃ owed', Books due free billed (clean ∧ ev.unseen = false) ((M.noting prog).step s ev) i owed' := by
  have hweak : ∀ {s' : Sys C L (Noting N Q) (Noting.Answer A) R (W × List N)} {owed' : Option N},
      Books due free billed clean s' i owed' →
      ∃ owed', Books due free billed (clean ∧ ev.unseen = false) s' i owed' := by
    intro s' owed' h'
    exact ⟨owed', h'.task, h'.idle, h'.bills, fun hc => h'.settles hc.1⟩
  cases ev with
  | env e =>
    have henv : Books due free billed clean ((M.noting prog).step s (.env e)) i owed :=
      h.frame rfl rfl rfl
    exact hweak henv
  | start j c =>
    cases hj : s.isIdle j with
    | false =>
      have hsame : (M.noting prog).step s (.start j c) = s := by simp [Machine.step, hj]
      rw [hsame]
      exact hweak h
    | true =>
      have hstep : (M.noting prog).step s (.start j c) = s.leave j c (some <$> prog c) := by
        simp [Machine.step, hj, noting]
      rw [hstep]
      by_cases hij : j = i
      · subst hij
        have howed : owed = none := by
          cases ht : s.tasks j with
          | none => exact h.idle ht
          | some t =>
            obtain ⟨r, hr⟩ := Sys.isIdle_iff.1 hj t ht
            have hpaid := h.task t ht
            rw [hr] at hpaid
            exact hpaid
        subst howed
        exact hweak (h.leave ((hprog c).map some))
      · refine hweak (h.frame ?_ rfl rfl)
        rw [Sys.leave_tasks, Function.update_of_ne (Ne.symm hij)]
  | run j o =>
    simp only [Machine.step]
    split
    · rename_i c l q cancel k ht
      split
      · rename_i a w he
        by_cases hij : j = i
        · subst hij
          have hpaid := h.task _ ht
          cases q with
          | ask q =>
            obtain ⟨rfl, hk, -⟩ := hpaid
            exact hweak (h.answer_ask (hk a))
          | note n => exact hweak (h.answer_note hfree hpaid.1 hpaid.2.2)
        · exact hweak (h.answer_other hij c l q a w _)
      · exact hweak h
    · exact hweak h
  | drop j o =>
    simp only [Machine.step]
    split
    · rename_i c l q cs k ht
      by_cases hij : j = i
      · subst hij
        have hpaid := h.task _ ht
        cases q with
        | note n => exact absurd hpaid.2.1 (by simp)
        | ask q =>
          obtain ⟨rfl, -, hcs⟩ := hpaid
          have hrest : (Prog.unwind l cs : Prog L (Noting N Q) (Noting.Answer A) (Option R)).Paid
              (due c) (free c) none := Prog.paid_unwind (hcs cs rfl)
          cases o with
          | none => exact hweak (h.leave hrest)
          | some o =>
            dsimp only
            split
            · obtain ⟨ht', hi', hb', -⟩ := h.answer_unseen hrest
              exact ⟨none, ht', hi', hb', fun hc => by simp [Event.unseen] at hc⟩
            · exact hweak h
      · have hne : i ≠ j := fun hji => hij hji.symm
        split
        · refine hweak (h.frame ?_ rfl rfl)
          rw [Sys.leave_tasks, Function.update_of_ne hne]
        · split
          · exact hweak (h.answer_other hij _ _ _ _ _ _)
          · exact hweak h
    · exact hweak h

/-- The books of every thread after a run. -/
theorem books_run (hprog : ∀ c, (prog c).Paid (due c) (free c) none)
    (hfree : ∀ c l n, free c l n → billed n = false) (w : W)
    (events : List (Event C O E)) (i : ℕ) :
    ∃ owed, Books due free billed (∀ ev ∈ events, ev.unseen = false)
      ((M.noting prog).run (w, []) events) i owed := by
  induction events using List.reverseRecOn with
  | nil => exact ⟨none, fun t ht => (by cases ht), fun _ => rfl, .refl _, fun _ => ⟨rfl, .refl _⟩⟩
  | append_singleton events ev ih =>
    obtain ⟨owed, h⟩ := ih
    obtain ⟨owed', h'⟩ := h.step hprog hfree ev
    have hrun : (M.noting prog).run (w, []) (events ++ [ev]) =
        (M.noting prog).step ((M.noting prog).run (w, []) events) ev := by
      simp only [run, List.foldl_append, List.foldl_cons, List.foldl_nil]
    rw [hrun]
    refine ⟨owed', h'.task, h'.idle, h'.bills, fun hclean => h'.settles ⟨?_, ?_⟩⟩
    · exact fun ev' hmem => hclean ev' (List.mem_append_left _ hmem)
    · exact hclean ev (List.mem_append_right _ List.mem_cons_self)

/-- A note that a call may leave: one that is due for an answer, or a free one. -/
def Known (due : C → L → (q : Q) → A q → Option N) (free : C → L → N → Prop) (c : C) (n : N) : Prop :=
  (∃ l q a, due c l q a = some n) ∨ ∃ l, free c l n

/-- What a thread owes is due for an answer it has had. -/
def Owes (due : C → L → (q : Q) → A q → Option N) (free : C → L → N → Prop) (c : C)
    (rest : Prog L (Noting N Q) (Noting.Answer A) (Option R)) : Prop :=
  ∃ owed, rest.Paid (due c) (free c) owed ∧ ∀ n, owed = some n → Known due free c n

/-- Every note is one that its call may leave, and so is every note that is owed. -/
structure Accounted (due : C → L → (q : Q) → A q → Option N) (free : C → L → N → Prop)
    (s : Sys C L (Noting N Q) (Noting.Answer A) R (W × List N)) : Prop where
  owes : ∀ i t, s.tasks i = some t → Owes due free t.call t.rest
  notes : ∀ it ∈ s.trace, ∀ n, it.noted = some n → Known due free it.call n

section Accounted

variable {s : Sys C L (Noting N Q) (Noting.Answer A) R (W × List N)} {c : C}
  {rest : Prog L (Noting N Q) (Noting.Answer A) (Option R)}

theorem Owes.of_paid (h : rest.Paid (due c) (free c) none) : Owes due free c rest := by
  refine ⟨none, h, ?_⟩
  rintro n ⟨⟩

theorem Accounted.update (h : Accounted due free s) {i : ℕ} (hrest : Owes due free c rest) (j : ℕ)
    (t : Task C L (Noting N Q) (Noting.Answer A) R)
    (ht : Function.update s.tasks i (some ⟨c, rest⟩) j = some t) : Owes due free t.call t.rest := by
  rw [Function.update_apply] at ht
  split_ifs at ht
  · obtain rfl := Option.some.inj ht
    exact hrest
  · exact h.owes j t ht

theorem Accounted.leave (h : Accounted due free s) (i : ℕ) (hrest : Owes due free c rest) :
    Accounted due free (s.leave i c rest) :=
  ⟨h.update hrest, h.notes⟩

theorem Accounted.answer (h : Accounted due free s) (i : ℕ) {l : L} {q : Noting N Q}
    {a : Noting.Answer A q} {w : W × List N} (hrest : Owes due free c rest)
    (hnote : ∀ n, q = .note n → Known due free c n) :
    Accounted due free (s.answer i c l q a w rest) := by
  refine ⟨h.update hrest, ?_⟩
  rw [Sys.answer_trace]
  refine List.forall_mem_cons.2 ⟨?_, h.notes⟩
  intro n hn
  cases q with
  | ask q => cases hn
  | note n' =>
    obtain rfl := Option.some.inj hn
    exact hnote n' rfl

theorem Accounted.step (hprog : ∀ c, (prog c).Paid (due c) (free c) none)
    (h : Accounted due free s) (ev : Event C O E) : Accounted due free ((M.noting prog).step s ev) := by
  cases ev with
  | env e => exact ⟨h.owes, h.notes⟩
  | start i c =>
    simp only [Machine.step]
    split
    · exact h.leave i (.of_paid ((hprog c).map some))
    · exact h
  | run i o =>
    simp only [Machine.step]
    split
    · rename_i c l q cancel k ht
      obtain ⟨owed, hpaid, howed⟩ := h.owes i _ ht
      split
      · rename_i a w he
        cases q with
        | ask q =>
          obtain ⟨rfl, hk, -⟩ := hpaid
          exact h.answer i ⟨_, hk a, fun n hn => .inl ⟨l, q, a, hn⟩⟩ (by simp)
        | note n =>
          refine h.answer i (.of_paid hpaid.2.2) ?_
          rintro _ ⟨⟩
          rcases hpaid.1 with hn | ⟨-, hn⟩
          · exact howed n hn
          · exact .inr ⟨l, hn⟩
      · exact h
    · exact h
  | drop i o =>
    simp only [Machine.step]
    split
    · rename_i c l q cs k ht
      obtain ⟨owed, hpaid, -⟩ := h.owes i _ ht
      cases q with
      | note n => exact absurd hpaid.2.1 (by simp)
      | ask q =>
        have hunwind : Owes due free c
            (.unwind l cs : Prog L (Noting N Q) (Noting.Answer A) (Option R)) :=
          .of_paid (Prog.paid_unwind (hpaid.2.2 cs rfl))
        split
        · exact h.leave i hunwind
        · split
          · exact h.answer i hunwind (by simp)
          · exact h
    · exact h

end Accounted

/-- Every note of a run is one that its call may leave. -/
theorem known_run (hprog : ∀ c, (prog c).Paid (due c) (free c) none) (w : W)
    (events : List (Event C O E)) :
    ∀ it ∈ ((M.noting prog).run (w, []) events).trace, ∀ n, it.noted = some n →
      Known due free it.call n := by
  have hinit : Accounted due free
      (.initial (w, []) : Sys C L (Noting N Q) (Noting.Answer A) R (W × List N)) := by
    refine ⟨?_, ?_⟩
    · intro i t ht
      cases ht
    · intro it hit
      cases hit
  exact (Run.inv_run (fun s ev h => h.step (M := M) hprog ev) hinit events).notes

section Totals

variable [DecidableEq N]

/-- How often an entry occurs is how often it occurs among the entries of its thread. -/
theorem count_mine (x : ℕ × N) (entries : List (ℕ × N)) :
    (mine x.1 entries).count x = entries.count x := by
  unfold mine
  rw [List.count_filter]
  simp

/-- **Nothing is billed that was not due**, and nothing twice. -/
theorem ledger_subperm (hprog : ∀ c, (prog c).Paid (due c) (free c) none)
    (hfree : ∀ c l n, free c l n → billed n = false) (w : W)
    (events : List (Event C O E)) :
    let s := (M.noting prog).run (w, []) events
    ((ledger s.trace).filter (billed ·.2)).Subperm ((dues due s.trace).filter (billed ·.2)) := by
  intro s
  rw [List.subperm_ext_iff]
  intro x _
  obtain ⟨owed, h⟩ := books_run (M := M) hprog hfree w events x.1
  have hbills := h.bills
  rw [List.filter_append, filter_mine, filter_mine] at hbills
  have hcount := ((List.sublist_append_right _ _).trans hbills).count_le x
  rwa [count_mine, count_mine] at hcount

/-- **The ledger of a run at rest bills what was due, all of it and nothing else**, when no answer
was dropped unseen. -/
theorem ledger_perm (hprog : ∀ c, (prog c).Paid (due c) (free c) none)
    (hfree : ∀ c l n, free c l n → billed n = false) {w : W}
    {events : List (Event C O E)} (hseen : ∀ ev ∈ events, ev.unseen = false)
    (hrest : ((M.noting prog).run (w, []) events).Quiescent) :
    let s := (M.noting prog).run (w, []) events
    ((ledger s.trace).filter (billed ·.2)).Perm ((dues due s.trace).filter (billed ·.2)) ∧
      (dues due s.trace).Subperm (ledger s.trace) := by
  intro s
  have hbooks : ∀ i, (mine i (ledger s.trace)).filter (billed ·.2) =
        (mine i (dues due s.trace)).filter (billed ·.2) ∧
      (mine i (dues due s.trace)).Sublist (mine i (ledger s.trace)) := by
    intro i
    obtain ⟨owed, h⟩ := books_run (M := M) hprog hfree w events i
    have howed : owed = none := by
      cases ht : ((M.noting prog).run (w, []) events).tasks i with
      | none => exact h.idle ht
      | some t =>
        obtain ⟨r, hr⟩ := hrest i t ht
        have hpaid := h.task t ht
        rw [hr] at hpaid
        exact hpaid
    subst howed
    exact h.settles hseen
  constructor
  · rw [List.perm_iff_count]
    intro x
    have heq := (hbooks x.1).1
    rw [filter_mine, filter_mine] at heq
    rw [← count_mine, heq, count_mine]
  · rw [List.subperm_ext_iff]
    intro x _
    rw [← count_mine, ← count_mine x (ledger _)]
    exact (hbooks x.1).2.count_le x

end Totals

end Run

end Machine

end Coroutine
