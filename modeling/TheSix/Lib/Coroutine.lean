import TheSix.Lib.Run

/-!
# Cancellable programs on a shared world

A program is a tree of requests: it makes a request, is handed an answer, and goes on. A request
may be an *await point*, where the program's future can be dropped instead of being resumed; it
then names the clean-up requests its armed guards still make. Each request is atomic, and between
two requests of one program any other program may run.

* `Prog` is the syntax, with its `bind`, and `guarded` for a guard that is armed over a stretch.
* `Machine` runs any number of programs on one world, event by event: start a call, answer the
  pending request of a thread, drop a thread at an await point, let the environment move. The
  trace records every request that was answered.
* `Discipline` is what a proof assumes and promises about the requests of one thread: a phase,
  which requests the phase allows, and how an answer moves it. `Prog.wp` is the weakest condition
  on the phase under which a program keeps to the discipline, on every path and from every drop.
* `Machine.invariant` is the rule for runs: if every step that keeps to the discipline keeps the
  invariant, then the invariant holds wherever a run may lead, and every thread keeps to the
  discipline from there on.
-/

namespace Coroutine

/-! ## Programs -/

/-- A program over the requests `Q` with answers `A`, whose requests are labelled by the place `L`
they are made from. `cancel` lists the clean-up of an await point; it is `none` where the program
cannot be dropped. -/
inductive Prog (L Q : Type) (A : Q → Type) (R : Type) : Type
  | ret (r : R)
  | req (l : L) (q : Q) (cancel : Option (List Q)) (k : A q → Prog L Q A R)

namespace Prog

variable {L Q R S : Type} {A : Q → Type}

/-- Run `f` on the result. -/
def bind : Prog L Q A R → (R → Prog L Q A S) → Prog L Q A S
  | ret r, f => f r
  | req l q cancel k, f => req l q cancel fun a => (k a).bind f

instance : Monad (Prog L Q A) where
  pure := ret
  bind := bind

@[simp] theorem ret_bind (r : R) (f : R → Prog L Q A S) : (ret r : Prog L Q A R) >>= f = f r := rfl

@[simp] theorem req_bind (l : L) (q : Q) (cancel : Option (List Q)) (k : A q → Prog L Q A R)
    (f : R → Prog L Q A S) :
    req l q cancel k >>= f = req l q cancel fun a => k a >>= f := rfl

/-- Keep a guard armed over a program: wherever it is dropped, its clean-up runs after the one of
the guards inside. -/
def guarded (cleanup : List Q) : Prog L Q A R → Prog L Q A R
  | ret r => ret r
  | req l q cancel k => req l q (cancel.map (· ++ cleanup)) fun a => (k a).guarded cleanup

/-- What is left of a dropped program: the clean-up, and no result. -/
def unwind (l : L) : List Q → Prog L Q A (Option R)
  | [] => ret none
  | c :: cs => req l c none fun _ => unwind l cs

/-- A program that ends with a result on every path. -/
def Returns : Prog L Q A (Option R) → Prop
  | ret r => r ≠ none
  | req _ _ _ k => ∀ a, (k a).Returns

theorem returns_some (p : Prog L Q A R) : (some <$> p : Prog L Q A (Option R)).Returns := by
  induction p with
  | ret r => exact Option.some_ne_none r
  | req l q cancel k ih => exact ih

/-- The place a program makes its next request from. -/
def site : Prog L Q A R → Option L
  | ret _ => none
  | req l _ _ _ => some l

end Prog

/-! ## Machines -/

/-- Programs by call, an atomic execution of requests, and the moves of the environment. The
outcome `O` resolves what the world leaves open; a request that cannot proceed answers `none`. -/
structure Machine (C L Q : Type) (A : Q → Type) (R W O E : Type) where
  prog : C → Prog L Q A R
  exec : (q : Q) → O → W → Option (A q × W)
  env : E → W → W

/-- A call in progress. A dropped one ends without a result. -/
structure Task (C L Q : Type) (A : Q → Type) (R : Type) where
  call : C
  rest : Prog L Q A (Option R)

/-- An answered request: who made it, from where, and the world around it. -/
structure Item (C L Q : Type) (A : Q → Type) (W : Type) where
  thread : ℕ
  call : C
  site : L
  req : Q
  ans : A req
  pre : W
  post : W

/-- The world, the threads, and the answered requests, newest first. -/
structure Sys (C L Q : Type) (A : Q → Type) (R W : Type) where
  world : W
  tasks : ℕ → Option (Task C L Q A R)
  trace : List (Item C L Q A W)

/-- What a scheduler may do. A drop leaves the pending request unmade, or made and unseen. -/
inductive Event (C O E : Type)
  | start (i : ℕ) (c : C)
  | run (i : ℕ) (o : O)
  | drop (i : ℕ) (o : Option O)
  | env (e : E)

variable {C L Q R W O E : Type} {A : Q → Type}

namespace Sys

/-- Nothing runs. -/
def initial (w : W) : Sys C L Q A R W := ⟨w, fun _ => none, []⟩

/-- A thread has no call, or has finished it. -/
def Idle (s : Sys C L Q A R W) (i : ℕ) : Prop :=
  ∀ t, s.tasks i = some t → ∃ r, t.rest = .ret r

/-- Whether a thread is idle. -/
def isIdle (s : Sys C L Q A R W) (i : ℕ) : Bool :=
  match s.tasks i with
  | none | some ⟨_, .ret _⟩ => true
  | some ⟨_, .req _ _ _ _⟩ => false

theorem isIdle_iff {s : Sys C L Q A R W} {i : ℕ} : s.isIdle i = true ↔ s.Idle i := by
  unfold isIdle Idle
  split
  · rename_i h
    simp [h]
  · rename_i h
    simp [h]
  · rename_i h
    simp [h]

/-- The place a thread makes its pending request from. -/
def site (s : Sys C L Q A R W) (i : ℕ) : Option L := (s.tasks i).bind (·.rest.site)

theorem site_of_pending {s : Sys C L Q A R W} {i : ℕ} {c : C} {l : L} {q : Q}
    {cancel : Option (List Q)} {k : A q → Prog L Q A (Option R)}
    (h : s.tasks i = some ⟨c, .req l q cancel k⟩) : s.site i = some l := by
  simp [site, h, Prog.site]

/-- A thread that is not idle has a pending request. -/
theorem pending_of_not_idle {s : Sys C L Q A R W} {i : ℕ} (h : ¬s.Idle i) :
    ∃ c l q cancel k, s.tasks i = some ⟨c, .req l q cancel k⟩ := by
  simp only [Idle, not_forall] at h
  obtain ⟨⟨c, rest⟩, ht, hr⟩ := h
  cases rest with
  | ret r => exact absurd ⟨r, rfl⟩ hr
  | req l q cancel k => exact ⟨c, l, q, cancel, k, ht⟩

theorem not_idle_of_pending {s : Sys C L Q A R W} {i : ℕ} {c : C} {l : L} {q : Q}
    {cancel : Option (List Q)} {k : A q → Prog L Q A (Option R)}
    (h : s.tasks i = some ⟨c, .req l q cancel k⟩) : ¬s.Idle i := by
  intro hi
  obtain ⟨r, hr⟩ := hi _ h
  cases hr

/-- What the last call of a thread has returned; a dropped one returns nothing. -/
def result (s : Sys C L Q A R W) (i : ℕ) : Option R :=
  match s.tasks i with
  | some ⟨_, .ret r⟩ => r
  | _ => none

theorem result_eq_some {s : Sys C L Q A R W} {i : ℕ} {r : R} (h : s.result i = some r) :
    ∃ c, s.tasks i = some ⟨c, .ret (some r)⟩ := by
  unfold result at h
  split at h
  · rename_i c r' ht
    exact ⟨c, by rw [ht, h]⟩
  · cases h

/-- No thread is in the middle of a call. -/
def Quiescent (s : Sys C L Q A R W) : Prop := ∀ i, s.Idle i

/-- Put a thread at a program. -/
def leave (s : Sys C L Q A R W) (i : ℕ) (c : C) (rest : Prog L Q A (Option R)) :
    Sys C L Q A R W :=
  { s with tasks := Function.update s.tasks i (some ⟨c, rest⟩) }

/-- Answer the pending request of a thread. -/
def answer (s : Sys C L Q A R W) (i : ℕ) (c : C) (l : L) (q : Q) (a : A q) (w : W)
    (rest : Prog L Q A (Option R)) : Sys C L Q A R W where
  world := w
  tasks := Function.update s.tasks i (some ⟨c, rest⟩)
  trace := ⟨i, c, l, q, a, s.world, w⟩ :: s.trace

section

variable (s : Sys C L Q A R W) (i : ℕ) (c : C) (l : L) (q : Q) (a : A q) (w : W)
  (rest : Prog L Q A (Option R))

@[simp] theorem leave_world : (s.leave i c rest).world = s.world := rfl

@[simp] theorem leave_trace : (s.leave i c rest).trace = s.trace := rfl

@[simp] theorem answer_world : (s.answer i c l q a w rest).world = w := rfl

@[simp] theorem answer_trace :
    (s.answer i c l q a w rest).trace = ⟨i, c, l, q, a, s.world, w⟩ :: s.trace := rfl

@[simp] theorem leave_tasks :
    (s.leave i c rest).tasks = Function.update s.tasks i (some ⟨c, rest⟩) := rfl

@[simp] theorem answer_tasks :
    (s.answer i c l q a w rest).tasks = Function.update s.tasks i (some ⟨c, rest⟩) := rfl

end

end Sys

namespace Machine

/-- One event. An event that is not enabled changes nothing. -/
def step (M : Machine C L Q A R W O E) (s : Sys C L Q A R W) : Event C O E → Sys C L Q A R W
  | .env e => { s with world := M.env e s.world }
  | .start i c => if s.isIdle i then s.leave i c (some <$> M.prog c) else s
  | .run i o =>
    match s.tasks i with
    | some ⟨c, .req l q _ k⟩ =>
      match M.exec q o s.world with
      | some (a, w) => s.answer i c l q a w (k a)
      | none => s
    | _ => s
  | .drop i o =>
    match s.tasks i with
    | some ⟨c, .req l q (some cs) _⟩ =>
      match o with
      | none => s.leave i c (.unwind l cs)
      | some o =>
        match M.exec q o s.world with
        | some (a, w) => s.answer i c l q a w (.unwind l cs)
        | none => s
    | _ => s

/-- A run from a world in which nothing runs. -/
def run (M : Machine C L Q A R W O E) (w : W) (events : List (Event C O E)) :
    Sys C L Q A R W :=
  events.foldl M.step (.initial w)

/-- A thread nobody has started stays without a call. -/
theorem tasks_step_of_none {M : Machine C L Q A R W O E} {s : Sys C L Q A R W} {i : ℕ}
    (h : s.tasks i = none) {ev : Event C O E} (hev : ∀ c, ev ≠ .start i c) :
    (M.step s ev).tasks i = none := by
  have hne : ∀ {j t}, s.tasks j = some t → i ≠ j := by
    rintro j t ht rfl
    exact absurd (h.symm.trans ht) (by simp)
  cases ev with
  | env e => exact h
  | start j c =>
    simp only [step]
    split
    · rw [Sys.leave_tasks, Function.update_of_ne (fun hij => hev c (by rw [hij])), h]
    · exact h
  | run j o =>
    simp only [step]
    split
    · rename_i ht
      split
      · rw [Sys.answer_tasks, Function.update_of_ne (hne ht), h]
      · exact h
    · exact h
  | drop j o =>
    simp only [step]
    split
    · rename_i ht
      split
      · rw [Sys.leave_tasks, Function.update_of_ne (hne ht), h]
      · split
        · rw [Sys.answer_tasks, Function.update_of_ne (hne ht), h]
        · exact h
    · exact h

/-- Whether every call of a schedule starts on one of the threads below `n`. -/
def startsBelow (n : ℕ) (events : List (Event C O E)) : Bool :=
  events.all fun
    | .start i _ => i < n
    | _ => true

/-- A run is quiescent when the threads it started are idle. -/
theorem quiescent_run {M : Machine C L Q A R W O E} {w : W} {events : List (Event C O E)} {n : ℕ}
    (hn : startsBelow n events = true) (h : ∀ i < n, (M.run w events).isIdle i = true) :
    (M.run w events).Quiescent := by
  intro i
  by_cases hi : i < n
  · exact Sys.isIdle_iff.1 (h i hi)
  · have hnone : (M.run w events).tasks i = none := by
      refine List.foldlRecOn (motive := fun s : Sys C L Q A R W => s.tasks i = none) events M.step
        (b := .initial w) rfl ?_
      intro s hs ev hmem
      refine tasks_step_of_none hs ?_
      rintro c rfl
      have := List.all_eq_true.1 hn _ hmem
      exact hi (by simpa using this)
    intro t ht
    exact absurd (hnone.symm.trans ht) (by simp)

/-- The call of a task was started on its thread. -/
theorem started_of_task {M : Machine C L Q A R W O E} {w : W} {events : List (Event C O E)} {i : ℕ}
    {t : Task C L Q A R} (h : (M.run w events).tasks i = some t) : .start i t.call ∈ events := by
  have hrun : ∀ i t, (M.run w events).tasks i = some t → .start i t.call ∈ events := by
    refine List.foldlRecOn (motive := fun s : Sys C L Q A R W =>
      ∀ i t, s.tasks i = some t → .start i t.call ∈ events) events M.step (b := .initial w)
      (fun i t ht => by cases ht) ?_
    intro s hs ev hmem i t ht
    have hkeep : ∀ {j c} {rest : Prog L Q A (Option R)}, .start j c ∈ events →
        Function.update s.tasks j (some ⟨c, rest⟩) i = some t → .start i t.call ∈ events := by
      intro j c rest hstart ht
      rw [Function.update_apply] at ht
      split_ifs at ht with hij
      · obtain rfl := Option.some.inj ht
        rwa [hij]
      · exact hs i t ht
    cases ev with
    | env e => exact hs i t ht
    | start j c =>
      simp only [step] at ht
      split at ht
      · exact hkeep hmem ht
      · exact hs i t ht
    | run j o =>
      simp only [step] at ht
      split at ht
      · rename_i hj
        split at ht
        · exact hkeep (hs j _ hj) ht
        · exact hs i t ht
      · exact hs i t ht
    | drop j o =>
      simp only [step] at ht
      split at ht
      · rename_i hj
        split at ht
        · exact hkeep (hs j _ hj) ht
        · split at ht
          · exact hkeep (hs j _ hj) ht
          · exact hs i t ht
      · exact hs i t ht
  exact hrun i t h

/-- A call that nobody drops returns. -/
theorem returns_step {M : Machine C L Q A R W O E} {s : Sys C L Q A R W}
    (h : ∀ i t, s.tasks i = some t → t.rest.Returns) {ev : Event C O E}
    (hev : ∀ i o, ev ≠ .drop i o) {i : ℕ} {t : Task C L Q A R}
    (ht : (M.step s ev).tasks i = some t) : t.rest.Returns := by
  have hupdate : ∀ {j c} {rest : Prog L Q A (Option R)}, rest.Returns →
      Function.update s.tasks j (some ⟨c, rest⟩) i = some t → t.rest.Returns := by
    intro j c rest hrest ht
    rw [Function.update_apply] at ht
    split_ifs at ht
    · obtain rfl := Option.some.inj ht
      exact hrest
    · exact h i t ht
  cases ev with
  | env e => exact h i t ht
  | start j c =>
    simp only [step] at ht
    split at ht
    · exact hupdate (Prog.returns_some _) ht
    · exact h i t ht
  | run j o =>
    simp only [step] at ht
    split at ht
    · rename_i hj
      split at ht
      · exact hupdate (h j _ hj _) ht
      · exact h i t ht
    · exact h i t ht
  | drop j o => exact absurd rfl (hev j o)

/-- The request an event answers. -/
def answered (M : Machine C L Q A R W O E) (s : Sys C L Q A R W) (ev : Event C O E) :
    Option (Item C L Q A W) :=
  if (M.step s ev).trace.length = s.trace.length then none else (M.step s ev).trace.head?

theorem answered_of_step {M : Machine C L Q A R W O E} {s : Sys C L Q A R W} {ev : Event C O E}
    {i : ℕ} {c : C} {l : L} {q : Q} {a : A q} {w : W} {rest : Prog L Q A (Option R)}
    (h : M.step s ev = s.answer i c l q a w rest) :
    M.answered s ev = some ⟨i, c, l, q, a, s.world, w⟩ := by
  simp [answered, h]

/-- Every request an event answers is `good` in the state it is answered in. -/
def Answers (M : Machine C L Q A R W O E) (good : Sys C L Q A R W → Item C L Q A W → Prop)
    (s : Sys C L Q A R W) (ev : Event C O E) : Prop :=
  ∀ it ∈ M.answered s ev, good s it

instance (M : Machine C L Q A R W O E) (good : Sys C L Q A R W → Item C L Q A W → Prop)
    [∀ s it, Decidable (good s it)] (s : Sys C L Q A R W) (ev : Event C O E) :
    Decidable (M.Answers good s ev) :=
  inferInstanceAs (Decidable (∀ it ∈ M.answered s ev, good s it))

end Machine

/-! ## Disciplines -/

/-- A protocol for the requests of one thread: which ones a phase allows, the phases an answer may
lead to, and the phase of a thread that is dropped. -/
structure Discipline (Φ L Q : Type) (A : Q → Type) where
  ok : Φ → L → Q → Prop
  tr : Φ → L → (q : Q) → A q → Φ → Prop
  cancel : Φ → Φ

namespace Discipline

variable {Φ : Type} (D : Discipline Φ L Q A)

/-- A clean-up keeps to the discipline and ends in a phase with `Dn`. -/
def unwinds (Dn : L → Φ → Prop) (l : L) : List Q → Φ → Prop
  | [], φ => Dn l φ
  | c :: cs, φ => D.ok φ l c ∧ ∀ a φ', D.tr φ l c a φ' → unwinds Dn l cs φ'

theorem unwinds_append {Dn : L → Φ → Prop} {l : L} {cs ds : List Q} {φ : Φ} :
    D.unwinds Dn l (cs ++ ds) φ ↔ D.unwinds (fun l φ => D.unwinds Dn l ds φ) l cs φ := by
  induction cs generalizing φ with
  | nil => exact Iff.rfl
  | cons c cs ih =>
    simp only [List.cons_append, unwinds, ih]

theorem unwinds_mono {Dn Dn' : L → Φ → Prop} (h : ∀ l φ, Dn l φ → Dn' l φ) {l : L} {cs : List Q}
    {φ : Φ} (hcs : D.unwinds Dn l cs φ) : D.unwinds Dn' l cs φ := by
  induction cs generalizing φ with
  | nil => exact h l φ hcs
  | cons c cs ih => exact ⟨hcs.1, fun a φ' ht => ih (hcs.2 a φ' ht)⟩

end Discipline

namespace Prog

variable {Φ S : Type} {D : Discipline Φ L Q A} {Dn : L → Φ → Prop}

/-- The phases from which a program keeps to a discipline, ends with `Post`, and ends with `Dn`
wherever it is dropped. -/
def wp (D : Discipline Φ L Q A) (Dn : L → Φ → Prop) :
    Prog L Q A R → (Φ → R → Prop) → Φ → Prop
  | ret r, Post, φ => Post φ r
  | req l q cancel k, Post, φ =>
    D.ok φ l q ∧ (∀ a φ', D.tr φ l q a φ' → (k a).wp D Dn Post φ') ∧
      ∀ cs, cancel = some cs →
        D.unwinds Dn l cs (D.cancel φ) ∧
          ∀ a φ', D.tr φ l q a φ' → D.unwinds Dn l cs (D.cancel φ')

@[simp] theorem wp_ret (r : R) (Post : Φ → R → Prop) (φ : Φ) :
    (ret r : Prog L Q A R).wp D Dn Post φ ↔ Post φ r := Iff.rfl

@[simp] theorem wp_pure (r : R) (Post : Φ → R → Prop) (φ : Φ) :
    (pure r : Prog L Q A R).wp D Dn Post φ ↔ Post φ r := Iff.rfl

theorem wp_req (l : L) (q : Q) (cancel : Option (List Q)) (k : A q → Prog L Q A R)
    (Post : Φ → R → Prop) (φ : Φ) :
    (req l q cancel k).wp D Dn Post φ ↔
      D.ok φ l q ∧ (∀ a φ', D.tr φ l q a φ' → (k a).wp D Dn Post φ') ∧
        ∀ cs, cancel = some cs →
          D.unwinds Dn l cs (D.cancel φ) ∧
            ∀ a φ', D.tr φ l q a φ' → D.unwinds Dn l cs (D.cancel φ') := Iff.rfl

@[simp] theorem wp_bind (p : Prog L Q A R) (f : R → Prog L Q A S) (Post : Φ → S → Prop) (φ : Φ) :
    (p >>= f).wp D Dn Post φ ↔ p.wp D Dn (fun φ r => (f r).wp D Dn Post φ) φ := by
  induction p generalizing φ with
  | ret r => exact Iff.rfl
  | req l q cancel k ih => simp only [req_bind, wp_req, ih]

@[simp] theorem wp_map (g : R → S) (p : Prog L Q A R) (Post : Φ → S → Prop) (φ : Φ) :
    (g <$> p).wp D Dn Post φ ↔ p.wp D Dn (fun φ r => Post φ (g r)) φ :=
  wp_bind p (fun r => ret (g r)) Post φ

@[simp] theorem wp_guarded (cleanup : List Q) (p : Prog L Q A R) (Post : Φ → R → Prop) (φ : Φ) :
    (p.guarded cleanup).wp D Dn Post φ ↔
      p.wp D (fun l φ => D.unwinds Dn l cleanup φ) Post φ := by
  induction p generalizing φ with
  | ret r => exact Iff.rfl
  | req l q cancel k ih =>
    simp only [guarded, wp_req, ih]
    refine and_congr_right fun _ => and_congr_right fun _ => ?_
    cases cancel with
    | none => simp
    | some cs => simp [D.unwinds_append]

@[simp] theorem wp_ite (P : Prop) [Decidable P] (p p' : Prog L Q A R) (Post : Φ → R → Prop)
    (φ : Φ) :
    (if P then p else p').wp D Dn Post φ ↔
      (P → p.wp D Dn Post φ) ∧ (¬P → p'.wp D Dn Post φ) := by
  split <;> simp_all

theorem wp_weaken {Dn' : L → Φ → Prop} {p : Prog L Q A R} {Post Post' : Φ → R → Prop}
    (hDn : ∀ l φ, Dn l φ → Dn' l φ) (h : ∀ φ r, Post φ r → Post' φ r) {φ : Φ}
    (hp : p.wp D Dn Post φ) : p.wp D Dn' Post' φ := by
  induction p generalizing φ with
  | ret r => exact h φ r hp
  | req l q cancel k ih =>
    refine ⟨hp.1, fun a φ' ht => ih a (hp.2.1 a φ' ht), fun cs hcs => ⟨?_, fun a φ' ht => ?_⟩⟩
    · exact D.unwinds_mono hDn (hp.2.2 cs hcs).1
    · exact D.unwinds_mono hDn ((hp.2.2 cs hcs).2 a φ' ht)

theorem wp_mono {p : Prog L Q A R} {Post Post' : Φ → R → Prop}
    (h : ∀ φ r, Post φ r → Post' φ r) {φ : Φ} (hp : p.wp D Dn Post φ) : p.wp D Dn Post' φ :=
  wp_weaken (fun _ _ hdn => hdn) h hp

theorem wp_unwind (l : L) (cs : List Q) (Post : Φ → Option R → Prop) (φ : Φ)
    (h : D.unwinds (fun _ φ => Post φ none) l cs φ) :
    (unwind l cs : Prog L Q A (Option R)).wp D Dn Post φ := by
  induction cs generalizing φ with
  | nil => exact h
  | cons c cs ih => exact ⟨h.1, fun a φ' ht => ih φ' (h.2 a φ' ht), by simp⟩

end Prog

/-! ## The rule for runs -/

namespace Machine

variable {Φ : Type} (M : Machine C L Q A R W O E) (D : Discipline Φ L Q A)
  (Final : Φ → Option R → Prop)

/-- A thread's remaining program keeps to the discipline and ends in a final phase. -/
def Conforms (φ : Φ) (rest : Prog L Q A (Option R)) : Prop :=
  rest.wp D (fun _ φ => Final φ none) Final φ

/-- The invariant holds, and every thread keeps to the discipline. -/
def Safe (J : Sys C L Q A R W → (ℕ → Φ) → Prop) (s : Sys C L Q A R W) (φ : ℕ → Φ) : Prop :=
  J s φ ∧ ∀ i t, s.tasks i = some t → Conforms D Final (φ i) t.rest

/-- The obligations of an invariant `J` of the machine's states and the threads' phases, under the
assumption `adm` on the events. -/
structure Keeps (J : Sys C L Q A R W → (ℕ → Φ) → Prop)
    (adm : Sys C L Q A R W → Event C O E → Prop) : Prop where
  start : ∀ s φ i c, Safe D Final J s φ → adm s (.start i c) → s.Idle i →
    ∃ φ', (M.prog c).wp D (fun _ φ => Final φ none) (fun φ r => Final φ (some r)) φ' ∧
      J (s.leave i c (some <$> M.prog c)) (Function.update φ i φ')
  answer : ∀ s φ i c l q cancel k o a w, Safe D Final J s φ →
    s.tasks i = some ⟨c, .req l q cancel k⟩ → adm s (.run i o) →
    M.step s (.run i o) = s.answer i c l q a w (k a) → M.exec q o s.world = some (a, w) →
    D.ok (φ i) l q →
    ∃ φ', D.tr (φ i) l q a φ' ∧ J (s.answer i c l q a w (k a)) (Function.update φ i φ')
  answerUnseen : ∀ s φ i c l q cs k o a w, Safe D Final J s φ →
    s.tasks i = some ⟨c, .req l q (some cs) k⟩ → adm s (.drop i (some o)) →
    M.step s (.drop i (some o)) = s.answer i c l q a w (.unwind l cs) →
    M.exec q o s.world = some (a, w) → D.ok (φ i) l q →
    ∃ φ', D.tr (φ i) l q a φ' ∧
      J (s.answer i c l q a w (.unwind l cs)) (Function.update φ i (D.cancel φ'))
  drop : ∀ s φ i c l q cs k, J s φ → adm s (.drop i none) →
    s.tasks i = some ⟨c, .req l q (some cs) k⟩ →
    J (s.leave i c (.unwind l cs)) (Function.update φ i (D.cancel (φ i)))
  env : ∀ s φ e, J s φ → adm s (.env e) → J { s with world := M.env e s.world } φ

variable {M D Final} {J : Sys C L Q A R W → (ℕ → Φ) → Prop}
  {adm : Sys C L Q A R W → Event C O E → Prop}

theorem Safe.update {s : Sys C L Q A R W} {φ : ℕ → Φ} (h : Safe D Final J s φ)
    {s' : Sys C L Q A R W} {i : ℕ} {c : C} {rest : Prog L Q A (Option R)} {φ' : Φ}
    (htasks : s'.tasks = Function.update s.tasks i (some ⟨c, rest⟩))
    (hJ : J s' (Function.update φ i φ')) (hrest : Conforms D Final φ' rest) :
    Safe D Final J s' (Function.update φ i φ') := by
  refine ⟨hJ, fun j t ht => ?_⟩
  rw [htasks] at ht
  by_cases hj : j = i
  · subst hj
    rw [Function.update_self] at ht ⊢
    obtain rfl := Option.some.inj ht
    exact hrest
  · rw [Function.update_of_ne hj] at ht ⊢
    exact h.2 j t ht

theorem safe_step (hK : Keeps M D Final J adm) {s : Sys C L Q A R W} {φ : ℕ → Φ}
    (h : Safe D Final J s φ) {ev : Event C O E} (ha : adm s ev) :
    ∃ φ, Safe D Final J (M.step s ev) φ := by
  cases ev with
  | env e => exact ⟨φ, hK.env s φ e h.1 ha, h.2⟩
  | start i c =>
    by_cases hi : s.isIdle i = true
    · have hidle := Sys.isIdle_iff.1 hi
      obtain ⟨φ', hwp, hJ⟩ := hK.start s φ i c h ha hidle
      have hstep : M.step s (.start i c) = s.leave i c (some <$> M.prog c) := if_pos hi
      rw [hstep]
      exact ⟨_, h.update rfl hJ ((Prog.wp_map _ _ _ _).2 hwp)⟩
    · have hstep : M.step s (.start i c) = s := if_neg hi
      rw [hstep]
      exact ⟨φ, h⟩
  | run i o =>
    -- only a pending request that can proceed changes anything
    cases ht : s.tasks i with
    | none => exact ⟨φ, by simpa only [step, ht] using h⟩
    | some t =>
      obtain ⟨c, rest⟩ := t
      have hconf := h.2 i _ ht
      cases rest with
      | ret r => exact ⟨φ, by simpa only [step, ht] using h⟩
      | req l q cancel k =>
        cases he : M.exec q o s.world with
        | none => exact ⟨φ, by simpa only [step, ht, he] using h⟩
        | some aw =>
          obtain ⟨a, w⟩ := aw
          have hstep : M.step s (.run i o) = s.answer i c l q a w (k a) := by
            simp only [step, ht, he]
          obtain ⟨φ', htr, hJ⟩ := hK.answer s φ i c l q cancel k o a w h ht ha hstep he hconf.1
          rw [hstep]
          exact ⟨_, h.update rfl hJ (hconf.2.1 a φ' htr)⟩
  | drop i o =>
    cases ht : s.tasks i with
    | none => exact ⟨φ, by simpa only [step, ht] using h⟩
    | some t =>
      obtain ⟨c, rest⟩ := t
      have hconf := h.2 i _ ht
      cases rest with
      | ret r => exact ⟨φ, by simpa only [step, ht] using h⟩
      | req l q cancel k =>
        cases cancel with
        | none => exact ⟨φ, by simpa only [step, ht] using h⟩
        | some cs =>
          cases o with
          | none =>
            have hstep : M.step s (.drop i none) = s.leave i c (.unwind l cs) := by
              simp only [step, ht]
            have hrest : Conforms D Final (D.cancel (φ i)) (.unwind l cs) :=
              Prog.wp_unwind l cs _ _ (hconf.2.2 cs rfl).1
            rw [hstep]
            exact ⟨_, h.update rfl (hK.drop s φ i c l q cs k h.1 ha ht) hrest⟩
          | some o =>
            cases he : M.exec q o s.world with
            | none => exact ⟨φ, by simpa only [step, ht, he] using h⟩
            | some aw =>
              obtain ⟨a, w⟩ := aw
              have hstep : M.step s (.drop i (some o)) = s.answer i c l q a w (.unwind l cs) := by
                simp only [step, ht, he]
              obtain ⟨φ', htr, hJ⟩ := hK.answerUnseen s φ i c l q cs k o a w h ht ha hstep he hconf.1
              have hrest : Conforms D Final (D.cancel φ') (.unwind l cs) :=
                Prog.wp_unwind l cs _ _ ((hconf.2.2 cs rfl).2 a φ' htr)
              rw [hstep]
              exact ⟨_, h.update rfl hJ hrest⟩

/-- **The rule for runs.** An invariant kept by every step that keeps to the discipline holds at
the end of every run whose events are admissible, and every thread keeps to the discipline from
there on. -/
theorem invariant (hK : Keeps M D Final J adm) {w : W} {φ : ℕ → Φ} (h : J (.initial w) φ)
    {events : List (Event C O E)} (ha : Run.Along M.step adm (.initial w) events) :
    ∃ φ, Safe D Final J (M.run w events) φ := by
  have hstep : ∀ s ev, (∃ φ, Safe D Final J s φ) → adm s ev → ∃ φ, Safe D Final J (M.step s ev) φ := by
    rintro s ev ⟨φ, hs⟩ ha
    exact safe_step hK hs ha
  exact Run.inv_foldl hstep ⟨φ, h, fun i t ht => by cases ht⟩ ha

end Machine

end Coroutine
