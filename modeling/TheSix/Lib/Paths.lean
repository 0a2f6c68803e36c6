import TheSix.Lib.BigStep

/-!
# The paths of a program

A path of a program is the list of its exchanges, requests with their answers, from its first
request to its result (`Prog.Leads`). A statement about what a call returns, such as where the value
it returns comes from, is a statement about the paths of its program, and is proved there by
following the program. `Machine.leads_of_result` carries it to runs: when a call has returned, the
items of the trace that it has contributed are a path of its program that ends with what it
returned.
-/

namespace Coroutine

variable {C L Q R S W O E : Type} {A : Q → Type}

/-- A request a program has made, from where, and the answer it was handed. -/
structure Exchange (L Q : Type) (A : Q → Type) where
  site : L
  req : Q
  ans : A req

namespace Prog

/-- A program is left at another one after some exchanges, oldest first. -/
inductive Leaves : Prog L Q A R → List (Exchange L Q A) → Prog L Q A R → Prop
  | nil (p : Prog L Q A R) : Leaves p [] p
  | cons {l : L} {q : Q} {cancel : Option (List Q)} {k : A q → Prog L Q A R} {a : A q}
      {log : List (Exchange L Q A)} {p : Prog L Q A R} (h : Leaves (k a) log p) :
      Leaves (req l q cancel k) (⟨l, q, a⟩ :: log) p

/-- A program leads to a result by some exchanges. -/
def Leads (p : Prog L Q A R) (log : List (Exchange L Q A)) (r : R) : Prop := p.Leaves log (ret r)

@[simp] theorem leads_ret {r r' : R} {log : List (Exchange L Q A)} :
    (ret r : Prog L Q A R).Leads log r' ↔ log = [] ∧ r = r' := by
  constructor
  · intro h
    cases h
    exact ⟨rfl, rfl⟩
  · rintro ⟨rfl, rfl⟩
    exact .nil _

@[simp] theorem leads_pure {r r' : R} {log : List (Exchange L Q A)} :
    (pure r : Prog L Q A R).Leads log r' ↔ log = [] ∧ r = r' := leads_ret

@[simp] theorem leads_req {l : L} {q : Q} {cancel : Option (List Q)} {k : A q → Prog L Q A R}
    {log : List (Exchange L Q A)} {r : R} :
    (req l q cancel k).Leads log r ↔
      ∃ a rest, log = ⟨l, q, a⟩ :: rest ∧ (k a).Leads rest r := by
  constructor
  · intro h
    cases h with
    | cons h => exact ⟨_, _, rfl, h⟩
  · rintro ⟨a, rest, rfl, h⟩
    exact .cons h

theorem leads_bind {p : Prog L Q A R} {f : R → Prog L Q A S} {log : List (Exchange L Q A)} {s : S} :
    (p >>= f).Leads log s ↔
      ∃ front r rest, log = front ++ rest ∧ p.Leads front r ∧ (f r).Leads rest s := by
  induction p generalizing log with
  | ret r =>
    rw [ret_bind]
    constructor
    · intro h
      exact ⟨[], r, log, rfl, leads_ret.2 ⟨rfl, rfl⟩, h⟩
    · rintro ⟨front, r', rest, rfl, hr, h⟩
      obtain ⟨rfl, rfl⟩ := leads_ret.1 hr
      exact h
  | req l q cancel k ih =>
    simp only [req_bind, leads_req, ih]
    constructor
    · rintro ⟨a, _, rfl, front, r, rest, rfl, hp, hf⟩
      exact ⟨_, r, rest, rfl, ⟨a, front, rfl, hp⟩, hf⟩
    · rintro ⟨_, r, rest, rfl, ⟨a, front, rfl, hp⟩, hf⟩
      exact ⟨a, _, rfl, front, r, rest, rfl, hp, hf⟩

theorem leads_map {g : R → S} {p : Prog L Q A R} {log : List (Exchange L Q A)} {s : S} :
    (g <$> p).Leads log s ↔ ∃ r, p.Leads log r ∧ g r = s := by
  change (p >>= fun r => ret (g r)).Leads log s ↔ _
  simp only [leads_bind, leads_ret]
  constructor
  · rintro ⟨front, r, rest, rfl, hp, rfl, rfl⟩
    exact ⟨r, by simpa using hp, rfl⟩
  · rintro ⟨r, hp, rfl⟩
    exact ⟨log, r, [], by simp, hp, rfl, rfl⟩

/-- Guards do not change where a program leads. -/
@[simp] theorem leads_guarded {cleanup : List Q} {p : Prog L Q A R} {log : List (Exchange L Q A)}
    {r : R} : (p.guarded cleanup).Leads log r ↔ p.Leads log r := by
  induction p generalizing log with
  | ret r' => exact Iff.rfl
  | req l q cancel k ih => simp only [guarded, leads_req, ih]

theorem leads_ite {P : Prop} [Decidable P] {p p' : Prog L Q A R} {log : List (Exchange L Q A)}
    {r : R} : (if P then p else p').Leads log r ↔ (P ∧ p.Leads log r) ∨ (¬P ∧ p'.Leads log r) := by
  split <;> simp_all

/-- A dropped program has no result. -/
theorem unwind_ne_some {l : L} {cs : List Q} {log : List (Exchange L Q A)}
    {p : Prog L Q A (Option R)} (h : (unwind l cs).Leaves log p) (r : R) : p ≠ ret (some r) := by
  induction cs generalizing log with
  | nil =>
    cases h
    simp [unwind]
  | cons c cs ih =>
    cases h with
    | nil => simp [unwind]
    | cons h => exact ih h

theorem Leaves.snoc {p : Prog L Q A R} {log : List (Exchange L Q A)} {l : L} {q : Q}
    {cancel : Option (List Q)} {k : A q → Prog L Q A R} (h : p.Leaves log (req l q cancel k))
    (a : A q) : p.Leaves (log ++ [⟨l, q, a⟩]) (k a) := by
  generalize hp : req l q cancel k = p' at h
  induction h with
  | nil p' =>
    subst hp
    exact .cons (.nil _)
  | cons h ih => exact .cons (ih hp)

/-- A program that keeps to a discipline keeps to it along its paths, as far as a function of the
exchanges names the phases. -/
theorem wp_leaves {Φ : Type} {D : Discipline Φ L Q A} {Dn : L → Φ → Prop} {Post : Φ → R → Prop}
    {next : Φ → Exchange L Q A → Φ} (hnext : ∀ φ x, D.tr φ x.site x.req x.ans (next φ x))
    {p p' : Prog L Q A R} {log : List (Exchange L Q A)} (h : p.Leaves log p') {φ : Φ}
    (hp : p.wp D Dn Post φ) :
    p'.wp D Dn Post (log.foldl next φ) ∧
      ∀ front x rest, log = front ++ x :: rest → D.ok (front.foldl next φ) x.site x.req := by
  induction h generalizing φ with
  | nil p => exact ⟨hp, by simp⟩
  | @cons l q cancel k a log p' h ih =>
    obtain ⟨hrest, hok⟩ := ih (hp.2.1 a _ (hnext φ ⟨l, q, a⟩))
    refine ⟨hrest, fun front x rest hsplit => ?_⟩
    cases front with
    | nil =>
      rw [List.nil_append, List.cons.injEq] at hsplit
      rw [← hsplit.1]
      exact hp.1
    | cons y front =>
      rw [List.cons_append, List.cons.injEq] at hsplit
      rw [← hsplit.1]
      exact hok front x rest hsplit.2

/-- What a program that runs alone exchanges. -/
def exchanges (exec : (q : Q) → W → Option (A q × W)) : Prog L Q A R → W → List (Exchange L Q A)
  | ret _, _ => []
  | req l q _ k, w =>
    (exec q w).elim [] fun aw => ⟨l, q, aw.1⟩ :: (k aw.1).exchanges exec aw.2

section Alone

variable {exec : (q : Q) → W → Option (A q × W)}

theorem exchanges_req {l : L} {q : Q} {cancel : Option (List Q)} {k : A q → Prog L Q A R} {w w' : W}
    {a : A q} (h : exec q w = some (a, w')) :
    (req l q cancel k).exchanges exec w = ⟨l, q, a⟩ :: (k a).exchanges exec w' := by
  simp [exchanges, h]

theorem exchanges_bind {p : Prog L Q A R} {f : R → Prog L Q A S} {w w' : W} {r : R}
    (h : p.eval exec w = some (r, w')) :
    (p >>= f).exchanges exec w = p.exchanges exec w ++ (f r).exchanges exec w' := by
  induction p generalizing w with
  | ret r' =>
    simp only [eval, Option.some.injEq, Prod.mk.injEq] at h
    obtain ⟨rfl, rfl⟩ := h
    rfl
  | req l q cancel k ih =>
    obtain ⟨a, w₁, hexec, hrest⟩ := eval_req_eq_some.1 h
    rw [req_bind, exchanges_req hexec, exchanges_req hexec, ih a hrest, List.cons_append]

end Alone

end Prog

/-! ## The part of a call in a run -/

/-- What an item says of its own thread. -/
def Item.exchange (it : Item C L Q A W) : Exchange L Q A := ⟨it.site, it.req, it.ans⟩

/-- The items of a thread. -/
def ofThread (i : ℕ) (trace : List (Item C L Q A W)) : List (Item C L Q A W) :=
  trace.filter fun it => it.thread == i

theorem mem_exchanges {mine : List (Item C L Q A W)} {x : Exchange L Q A}
    (hx : x ∈ mine.reverse.map Item.exchange) : ∃ it ∈ mine, it.exchange = x := by
  obtain ⟨it, hit, rfl⟩ := List.mem_map.1 hx
  exact ⟨it, List.mem_reverse.1 hit, rfl⟩

theorem mem_trace_of_mine {i : ℕ} {trace mine older : List (Item C L Q A W)} {it : Item C L Q A W}
    (hown : ofThread i trace = mine ++ older) (hit : it ∈ mine) : it ∈ trace := by
  have hmem : it ∈ ofThread i trace := by
    rw [hown]
    exact List.mem_append_left _ hit
  exact List.mem_of_mem_filter hmem

namespace Machine

variable {M : Machine C L Q A R W O E}

/-- A task is where its call has come to by the newest items of its thread, or was dropped. -/
def Tracked (M : Machine C L Q A R W O E) (s : Sys C L Q A R W) : Prop :=
  ∀ i t, s.tasks i = some t →
    (∃ mine older, ofThread i s.trace = mine ++ older ∧ (∀ it ∈ mine, it.call = t.call) ∧
      (some <$> M.prog t.call).Leaves (mine.reverse.map Item.exchange) t.rest) ∨
    ∃ l cs log, (Prog.unwind l cs).Leaves log t.rest

theorem ofThread_answer {s : Sys C L Q A R W} {i j : ℕ} {c : C} {l : L} {q : Q} {a : A q} {w : W}
    {rest : Prog L Q A (Option R)} :
    ofThread j (s.answer i c l q a w rest).trace =
      if i = j then ⟨i, c, l, q, a, s.world, w⟩ :: ofThread j s.trace else ofThread j s.trace := by
  rw [Sys.answer_trace, ofThread, List.filter_cons]
  simp only [beq_iff_eq]
  rfl

theorem Tracked.step {s : Sys C L Q A R W} (h : M.Tracked s) (ev : Event C O E) :
    M.Tracked (M.step s ev) := by
  have hleave : ∀ {i c} {rest : Prog L Q A (Option R)},
      ((some <$> M.prog c).Leaves [] rest ∨ ∃ l cs log, (Prog.unwind l cs).Leaves log rest) →
        M.Tracked (s.leave i c rest) := by
    intro i c rest hrest j t ht
    rw [Sys.leave_tasks, Function.update_apply] at ht
    split_ifs at ht with hj
    · obtain rfl := Option.some.inj ht
      rcases hrest with hrest | hrest
      · exact Or.inl ⟨[], _, rfl, by simp, hrest⟩
      · exact Or.inr hrest
    · exact h j t ht
  have hanswer : ∀ {i c l q a w} {rest : Prog L Q A (Option R)},
      ((∃ mine older, ofThread i (s.answer i c l q a w rest).trace = mine ++ older ∧
          (∀ it ∈ mine, it.call = c) ∧
          (some <$> M.prog c).Leaves (mine.reverse.map Item.exchange) rest) ∨
          ∃ l cs log, (Prog.unwind l cs).Leaves log rest) →
        M.Tracked (s.answer i c l q a w rest) := by
    intro i c l q a w rest hrest j t ht
    rw [Sys.answer_tasks, Function.update_apply] at ht
    split_ifs at ht with hj
    · obtain rfl := Option.some.inj ht
      rw [hj]
      exact hrest
    · rw [ofThread_answer, if_neg (Ne.symm hj)]
      exact h j t ht
  cases ev with
  | env e => exact h
  | start i c =>
    simp only [Machine.step]
    split
    · exact hleave (Or.inl (.nil _))
    · exact h
  | run i o =>
    simp only [Machine.step]
    split
    · rename_i c l q cancel k ht
      split
      · rename_i a w he
        refine hanswer ?_
        rw [ofThread_answer, if_pos rfl]
        rcases h i _ ht with ⟨mine, older, hown, hcall, hpath⟩ | ⟨l', cs, log, hpath⟩
        · refine Or.inl ⟨⟨i, c, l, q, a, s.world, w⟩ :: mine, older, by rw [hown]; rfl,
            List.forall_mem_cons.2 ⟨rfl, hcall⟩, ?_⟩
          rw [List.reverse_cons, List.map_append]
          exact hpath.snoc a
        · exact Or.inr ⟨l', cs, _, hpath.snoc a⟩
      · exact h
    · exact h
  | drop i o =>
    simp only [Machine.step]
    split
    · rename_i c l q cs k ht
      split
      · exact hleave (Or.inr ⟨l, cs, [], .nil _⟩)
      · split
        · exact hanswer (Or.inr ⟨l, cs, [], .nil _⟩)
        · exact h
    · exact h

theorem tracked_run (w : W) (events : List (Event C O E)) : M.Tracked (M.run w events) := by
  have hstep : ∀ s ev, M.Tracked s → M.Tracked (M.step s ev) := fun _ ev hs => hs.step ev
  refine Run.inv_run hstep ?_ events
  intro i t ht
  cases ht

/-- **When a call has returned, its items are a path of its program**: the newest items of its
thread, oldest first, lead to what it returned. -/
theorem leads_of_result {w : W} {events : List (Event C O E)} {i : ℕ} {c : C} {r : R}
    (h : (M.run w events).tasks i = some ⟨c, .ret (some r)⟩) :
    ∃ mine older, ofThread i (M.run w events).trace = mine ++ older ∧
      (∀ it ∈ mine, it.call = c) ∧ (M.prog c).Leads (mine.reverse.map Item.exchange) r := by
  rcases tracked_run w events i _ h with ⟨mine, older, hown, hcall, hpath⟩ | ⟨l, cs, log, hpath⟩
  · obtain ⟨r', hr, hrr⟩ := Prog.leads_map.1 hpath
    obtain rfl := Option.some.inj hrr
    exact ⟨mine, older, hown, hcall, hr⟩
  · exact absurd rfl (Prog.unwind_ne_some hpath r)

end Machine

end Coroutine
