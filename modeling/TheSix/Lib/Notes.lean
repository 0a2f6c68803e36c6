import TheSix.Lib.Coroutine

/-!
# Programs that leave notes

A program may leave notes behind, such as log records, beside the requests it makes. `Noting` adds notes
to an interface, and `Machine.noting` keeps them next to the world, newest first. `Hushed p p'` says
that `p'` is `p` without its notes, and that no note is an await point.

When the programs of a noting machine are those of a machine `M` with notes, every run of it is a run
of `M` with notes (`Machine.hushed_run`): leaving out the events that write a note gives a run of `M`
with the same world, the same requests in the same order and the same results. So notes change
nothing, and what holds of the runs of `M` holds of the noting ones.
-/

namespace Coroutine

variable {C L N Q R S W O E : Type} {A : Q → Type}

/-- A request, or a note. -/
inductive Noting (N Q : Type)
  | ask (q : Q)
  | note (n : N)

/-- A note has no answer. -/
@[reducible] def Noting.Answer (A : Q → Type) : Noting N Q → Type
  | .ask q => A q
  | .note _ => Unit

namespace Prog

/-- The second program is the first one without its notes. -/
def Hushed : Prog L (Noting N Q) (Noting.Answer A) R → Prog L Q A R → Prop
  | ret r, p' => p' = ret r
  | req l (.ask q) cancel k, p' =>
    ∃ cancel' k', cancel = cancel'.map (·.map .ask) ∧ p' = req l q cancel' k' ∧
      ∀ a : A q, (k a).Hushed (k' a)
  | req _ (.note _) cancel k, p' => cancel = none ∧ (k ()).Hushed p'

theorem hushed_ret (r : R) : (ret r : Prog L (Noting N Q) (Noting.Answer A) R).Hushed (ret r) := rfl

theorem hushed_ask {l : L} {q : Q} {cancel : Option (List Q)}
    {k : A q → Prog L (Noting N Q) (Noting.Answer A) R} {k' : A q → Prog L Q A R}
    (h : ∀ a, (k a).Hushed (k' a)) :
    (req l (.ask q) (cancel.map (·.map .ask)) k : Prog L (Noting N Q) (Noting.Answer A) R).Hushed
      (req l q cancel k') :=
  ⟨cancel, k', rfl, rfl, h⟩

theorem hushed_note {l : L} {n : N} {k : Unit → Prog L (Noting N Q) (Noting.Answer A) R}
    {p' : Prog L Q A R} (h : (k ()).Hushed p') :
    (req l (.note n) none k : Prog L (Noting N Q) (Noting.Answer A) R).Hushed p' :=
  ⟨rfl, h⟩

theorem Hushed.bind {p : Prog L (Noting N Q) (Noting.Answer A) R} {p' : Prog L Q A R}
    {f : R → Prog L (Noting N Q) (Noting.Answer A) S} {f' : R → Prog L Q A S} (hp : p.Hushed p')
    (hf : ∀ r, (f r).Hushed (f' r)) : (p >>= f).Hushed (p' >>= f') := by
  induction p generalizing p' with
  | ret r =>
    obtain rfl : p' = ret r := hp
    exact hf r
  | req l q cancel k ih =>
    cases q with
    | ask q =>
      obtain ⟨cancel', k', rfl, rfl, hk⟩ := hp
      exact hushed_ask fun a => ih a (hk a)
    | note n =>
      obtain ⟨rfl, hk⟩ := hp
      exact hushed_note (ih () hk)

theorem Hushed.map {p : Prog L (Noting N Q) (Noting.Answer A) R} {p' : Prog L Q A R} (hp : p.Hushed p')
    (f : R → S) : (f <$> p).Hushed (f <$> p') :=
  hp.bind fun r => hushed_ret (f r)

theorem Hushed.guarded {p : Prog L (Noting N Q) (Noting.Answer A) R} {p' : Prog L Q A R}
    (hp : p.Hushed p') (cleanup : List Q) :
    (p.guarded (cleanup.map .ask)).Hushed (p'.guarded cleanup) := by
  induction p generalizing p' with
  | ret r =>
    obtain rfl : p' = ret r := hp
    exact hushed_ret r
  | req l q cancel k ih =>
    cases q with
    | ask q =>
      obtain ⟨cancel', k', rfl, rfl, hk⟩ := hp
      refine ⟨cancel'.map (· ++ cleanup), fun a => (k' a).guarded cleanup, ?_, rfl, fun a => ih a (hk a)⟩
      cases cancel' with
      | none => rfl
      | some cs => simp only [Option.map_some, List.map_append]
    | note n =>
      obtain ⟨rfl, hk⟩ := hp
      exact hushed_note (ih () hk)

theorem hushed_ite {b : Prop} [Decidable b] {p q : Prog L (Noting N Q) (Noting.Answer A) R}
    {p' q' : Prog L Q A R} (hp : b → p.Hushed p') (hq : ¬b → q.Hushed q') :
    (if b then p else q).Hushed (if b then p' else q') := by
  by_cases hb : b
  · rw [if_pos hb, if_pos hb]
    exact hp hb
  · rw [if_neg hb, if_neg hb]
    exact hq hb

theorem hushed_unwind (l : L) (cs : List Q) :
    (unwind l (cs.map .ask) : Prog L (Noting N Q) (Noting.Answer A) (Option R)).Hushed
      (unwind l cs) := by
  induction cs with
  | nil => rfl
  | cons c cs ih => exact ⟨none, fun _ => unwind l cs, rfl, rfl, fun _ => ih⟩

/-- A program that leaves no notes, among those that may. -/
def aside (N : Type) : Prog L Q A R → Prog L (Noting N Q) (Noting.Answer A) R
  | ret r => ret r
  | req l q cancel k => req l (.ask q) (cancel.map (·.map .ask)) fun a => (k a).aside N

theorem hushed_aside (p : Prog L Q A R) : (p.aside N).Hushed p := by
  induction p with
  | ret r => rfl
  | req l q cancel k ih => exact hushed_ask ih

end Prog

/-! ## Machines that keep notes -/

/-- The machine `M` at work on programs with notes. -/
def Machine.noting (M : Machine C L Q A R W O E) (prog : C → Prog L (Noting N Q) (Noting.Answer A) R) :
    Machine C L (Noting N Q) (Noting.Answer A) R (W × List N) O E where
  prog := prog
  exec
    | .ask q, o, w => (M.exec q o w.1).map fun aw => (aw.1, aw.2, w.2)
    | .note n, _, w => some ((), w.1, n :: w.2)
  env e w := (M.env e w.1, w.2)

/-- An item of a noting machine that is no note, as an item of the machine. -/
def Item.asked : Item C L (Noting N Q) (Noting.Answer A) (W × List N) → Option (Item C L Q A W)
  | ⟨i, c, l, .ask q, a, pre, post⟩ => some ⟨i, c, l, q, a, pre.1, post.1⟩
  | ⟨_, _, _, .note _, _, _, _⟩ => none

/-- The note of an item. -/
def Item.noted : Item C L (Noting N Q) (Noting.Answer A) (W × List N) → Option N
  | ⟨_, _, _, .ask _, _, _, _⟩ => none
  | ⟨_, _, _, .note n, _, _, _⟩ => some n

namespace Machine

/-- The state of a noting machine, and the state without the notes. -/
structure Hushed (s : Sys C L (Noting N Q) (Noting.Answer A) R (W × List N)) (s' : Sys C L Q A R W) :
    Prop where
  world : s'.world = s.world.1
  tasks : ∀ i, Option.Rel (fun t t' => t'.call = t.call ∧ t.rest.Hushed t'.rest) (s.tasks i)
    (s'.tasks i)
  trace : s'.trace = s.trace.filterMap Item.asked

section Hushed

variable {s : Sys C L (Noting N Q) (Noting.Answer A) R (W × List N)} {s' : Sys C L Q A R W}

/-- The task of a thread without the notes. -/
theorem Hushed.task (h : Hushed s s') {i : ℕ} {c : C}
    {rest : Prog L (Noting N Q) (Noting.Answer A) (Option R)} (ht : s.tasks i = some ⟨c, rest⟩) :
    ∃ rest', s'.tasks i = some ⟨c, rest'⟩ ∧ rest.Hushed rest' := by
  have hrel := h.tasks i
  rw [ht] at hrel
  generalize hx : s'.tasks i = x at hrel
  cases hrel with
  | some hrel =>
    rename_i t'
    obtain ⟨c', rest'⟩ := t'
    obtain ⟨rfl, hrest⟩ := hrel
    exact ⟨rest', rfl, hrest⟩

theorem Hushed.unused (h : Hushed s s') {i : ℕ} (ht : s.tasks i = none) : s'.tasks i = none := by
  have hrel := h.tasks i
  rw [ht] at hrel
  generalize hx : s'.tasks i = x at hrel
  cases hrel
  rfl

/-- A call that has ended with its last note has ended. -/
theorem Hushed.isIdle (h : Hushed s s') {i : ℕ} (hi : s.isIdle i = true) : s'.isIdle i = true := by
  unfold Sys.isIdle at hi ⊢
  cases ht : s.tasks i with
  | none => simp only [h.unused ht]
  | some t =>
    obtain ⟨c, rest⟩ := t
    cases rest with
    | ret r =>
      obtain ⟨rest', ht', hrest⟩ := h.task ht
      obtain rfl : rest' = .ret r := hrest
      simp only [ht']
    | req l q cancel k =>
      rw [ht] at hi
      cases hi

theorem Hushed.result (h : Hushed s s') {i : ℕ} {r : R} (hr : s.result i = some r) :
    s'.result i = some r := by
  obtain ⟨c, ht⟩ := Sys.result_eq_some hr
  obtain ⟨rest', ht', hrest⟩ := h.task ht
  obtain rfl : rest' = .ret (some r) := hrest
  unfold Sys.result
  simp only [ht']

theorem Hushed.update_tasks (h : Hushed s s') {i : ℕ} {c : C}
    {rest : Prog L (Noting N Q) (Noting.Answer A) (Option R)} {rest' : Prog L Q A (Option R)}
    (hrest : rest.Hushed rest') (j : ℕ) :
    Option.Rel (fun t t' => t'.call = t.call ∧ t.rest.Hushed t'.rest)
      (Function.update s.tasks i (some ⟨c, rest⟩) j) (Function.update s'.tasks i (some ⟨c, rest'⟩) j) := by
  by_cases hj : j = i
  · subst hj
    rw [Function.update_self, Function.update_self]
    exact .some ⟨rfl, hrest⟩
  · rw [Function.update_of_ne hj, Function.update_of_ne hj]
    exact h.tasks j

theorem Hushed.leave (h : Hushed s s') {i : ℕ} {c : C}
    {rest : Prog L (Noting N Q) (Noting.Answer A) (Option R)} {rest' : Prog L Q A (Option R)}
    (hrest : rest.Hushed rest') : Hushed (s.leave i c rest) (s'.leave i c rest') :=
  ⟨h.world, h.update_tasks hrest, h.trace⟩

theorem Hushed.answer_ask (h : Hushed s s') {i : ℕ} {c : C} {l : L} {q : Q} {a : A q} {w : W}
    {rest : Prog L (Noting N Q) (Noting.Answer A) (Option R)} {rest' : Prog L Q A (Option R)}
    (hrest : rest.Hushed rest') :
    Hushed (s.answer i c l (.ask q) a (w, s.world.2) rest) (s'.answer i c l q a w rest') := by
  refine ⟨rfl, h.update_tasks hrest, ?_⟩
  rw [Sys.answer_trace, Sys.answer_trace, h.trace, h.world]
  rfl

/-- A note changes nothing but the task of its thread. -/
theorem Hushed.answer_note (h : Hushed s s') {i : ℕ} {c : C} {l : L} {n : N}
    {rest : Prog L (Noting N Q) (Noting.Answer A) (Option R)} {rest' : Prog L Q A (Option R)}
    (ht' : s'.tasks i = some ⟨c, rest'⟩) (hrest : rest.Hushed rest') :
    Hushed (s.answer i c l (.note n) () (s.world.1, n :: s.world.2) rest) s' := by
  refine ⟨h.world, ?_, h.trace⟩
  intro j
  have hupdate := h.update_tasks (i := i) (c := c) hrest j
  rwa [← ht', Function.update_eq_self] at hupdate

end Hushed

variable {M : Machine C L Q A R W O E} {prog : C → Prog L (Noting N Q) (Noting.Answer A) R}

/-- A step is a step of the machine, or none. -/
theorem hushed_step (hprog : ∀ c, (prog c).Hushed (M.prog c))
    {s : Sys C L (Noting N Q) (Noting.Answer A) R (W × List N)} {s' : Sys C L Q A R W}
    (h : Hushed s s') (ev : Event C O E) :
    Hushed ((M.noting prog).step s ev) (M.step s' ev) ∨ Hushed ((M.noting prog).step s ev) s' := by
  cases ev with
  | env e =>
    refine Or.inl ⟨?_, h.tasks, h.trace⟩
    show M.env e s'.world = M.env e s.world.1
    rw [h.world]
  | start i c =>
    cases hi : s.isIdle i with
    | true =>
      left
      simp only [step, hi, h.isIdle hi, if_true]
      exact h.leave ((hprog c).map some)
    | false =>
      right
      simpa [step, hi] using h
  | run i o =>
    cases ht : s.tasks i with
    | none =>
      right
      simpa only [step, ht] using h
    | some t =>
      obtain ⟨c, rest⟩ := t
      obtain ⟨rest', ht', hrest⟩ := h.task ht
      cases rest with
      | ret r =>
        right
        simpa only [step, ht] using h
      | req l q cancel k =>
        cases q with
        | note n =>
          right
          obtain ⟨-, hk⟩ := hrest
          simp only [step, ht, noting]
          exact h.answer_note ht' hk
        | ask q =>
          left
          obtain ⟨cancel', k', -, rfl, hk⟩ := hrest
          cases he : M.exec q o s.world.1 with
          | none => simpa only [step, ht, ht', noting, he, Option.map_none, h.world] using h
          | some aw =>
            simp only [step, ht, ht', noting, he, Option.map_some, h.world]
            exact h.answer_ask (hk aw.1)
  | drop i o =>
    cases ht : s.tasks i with
    | none =>
      right
      simpa only [step, ht] using h
    | some t =>
      obtain ⟨c, rest⟩ := t
      obtain ⟨rest', ht', hrest⟩ := h.task ht
      cases rest with
      | ret r =>
        right
        simpa only [step, ht] using h
      | req l q cancel k =>
        cases q with
        | note n =>
          right
          obtain ⟨rfl, -⟩ := hrest
          simpa only [step, ht] using h
        | ask q =>
          left
          obtain ⟨cancel', k', rfl, rfl, -⟩ := hrest
          cases cancel' with
          | none => simpa only [step, ht, ht', Option.map_none] using h
          | some cs =>
            cases o with
            | none =>
              simp only [step, ht, ht', Option.map_some]
              exact h.leave (Prog.hushed_unwind l cs)
            | some o =>
              cases he : M.exec q o s.world.1 with
              | none =>
                simpa only [step, ht, ht', noting, he, Option.map_none, Option.map_some, h.world] using h
              | some aw =>
                simp only [step, ht, ht', noting, he, Option.map_some, h.world]
                exact h.answer_ask (Prog.hushed_unwind l cs)

/-- **A run with notes is a run**: some of its events, in their order, lead the machine to the same
world by the same requests. -/
theorem hushed_run (hprog : ∀ c, (prog c).Hushed (M.prog c)) (w : W) (events : List (Event C O E)) :
    ∃ events', events'.Sublist events ∧
      Hushed ((M.noting prog).run (w, []) events) (M.run w events') := by
  induction events using List.reverseRecOn with
  | nil => exact ⟨[], .refl _, rfl, fun _ => .none, rfl⟩
  | append_singleton events ev ih =>
    obtain ⟨events', hsub, h⟩ := ih
    have hrun : (M.noting prog).run (w, []) (events ++ [ev]) =
        (M.noting prog).step ((M.noting prog).run (w, []) events) ev := by
      simp only [run, List.foldl_append, List.foldl_cons, List.foldl_nil]
    rw [hrun]
    rcases hushed_step hprog h ev with hstep | hstep
    · refine ⟨events' ++ [ev], hsub.append (.refl _), ?_⟩
      simpa only [run, List.foldl_append, List.foldl_cons, List.foldl_nil] using hstep
    · exact ⟨events', hsub.trans (List.sublist_append_left _ _), hstep⟩

/-- What a noting machine has kept is what its trace has noted. -/
theorem notes_eq (w : W) (events : List (Event C O E)) :
    ((M.noting prog).run (w, []) events).world.2 =
      ((M.noting prog).run (w, []) events).trace.filterMap Item.noted := by
  refine List.foldlRecOn
    (motive := fun s : Sys C L (Noting N Q) (Noting.Answer A) R (W × List N) =>
      s.world.2 = s.trace.filterMap Item.noted) events (M.noting prog).step
    (b := .initial (w, [])) rfl ?_
  intro s hs ev _
  have hanswer : ∀ {i : ℕ} {c : C} {l : L} {q : Noting N Q} {o : O} {a : Noting.Answer A q}
      {w' : W × List N} {rest : Prog L (Noting N Q) (Noting.Answer A) (Option R)},
      (M.noting prog).exec q o s.world = some (a, w') →
      (s.answer i c l q a w' rest).world.2 =
        (s.answer i c l q a w' rest).trace.filterMap Item.noted := by
    intro i c l q o a w' rest he
    cases q with
    | ask q =>
      simp only [noting, Option.map_eq_some_iff, Prod.mk.injEq] at he
      obtain ⟨aw, -, -, rfl⟩ := he
      exact hs
    | note n =>
      simp only [noting, Option.some.injEq, Prod.mk.injEq] at he
      obtain ⟨-, rfl⟩ := he
      show n :: s.world.2 = n :: s.trace.filterMap Item.noted
      rw [hs]
  cases ev with
  | env e => exact hs
  | start i c =>
    simp only [step]
    split <;> exact hs
  | run i o =>
    simp only [step]
    split
    · split
      · exact hanswer ‹_›
      · exact hs
    · exact hs
  | drop i o =>
    simp only [step]
    split
    · split
      · exact hs
      · split
        · exact hanswer ‹_›
        · exact hs
    · exact hs

end Machine

end Coroutine
