import TheSix.Lib.Coroutine

/-!
# Traces of cancellable programs

The trace of a run is a chain: each item takes the world from `pre` to `post` by one request, and
between two items only the environment moves (`Machine.Linked`). What the requests between two
items of a trace have done to the world can therefore be read off the trace: a property that every
request keeps still holds (`Linked.keeps`), and a quantity that some requests advance has advanced
as often as they occur (`Linked.count`).
-/

namespace Coroutine

variable {C L Q R W O E : Type} {A : Q → Type}

namespace Machine

variable (M : Machine C L Q A R W O E)

/-- The environment leads from one world to another. -/
def Drifts : W → W → Prop := Relation.ReflTransGen fun w w' => ∃ e, w' = M.env e w

/-- A trace, newest first, that leads to the world `w`. -/
def Linked : W → List (Item C L Q A W) → Prop
  | _, [] => True
  | w, it :: older =>
    M.Drifts it.post w ∧ (∃ o, M.exec it.req o it.pre = some (it.ans, it.post)) ∧
      Linked it.pre older

variable {M}

/-- An event of a thread answers its pending request, or moves the thread only. -/
theorem step_cases_of_ne_env (s : Sys C L Q A R W) {ev : Event C O E} (hev : ∀ e, ev ≠ .env e) :
    ((M.step s ev).world = s.world ∧ (M.step s ev).trace = s.trace) ∨
      ∃ i c l q cancel k o a w rest, s.tasks i = some ⟨c, .req l q cancel k⟩ ∧
        M.exec q o s.world = some (a, w) ∧ M.step s ev = s.answer i c l q a w rest := by
  cases ev with
  | env e => exact absurd rfl (hev e)
  | start i c =>
    left
    simp only [step]
    split <;> simp
  | run i o =>
    simp only [step]
    split
    · rename_i c l q cancel k ht
      cases he : M.exec q o s.world with
      | none => exact Or.inl ⟨rfl, rfl⟩
      | some aw => exact Or.inr ⟨i, c, l, q, cancel, k, o, aw.1, aw.2, k aw.1, ht, he, rfl⟩
    · exact Or.inl ⟨rfl, rfl⟩
  | drop i o =>
    simp only [step]
    split
    · rename_i c l q cs k ht
      cases o with
      | none => exact Or.inl ⟨rfl, rfl⟩
      | some o =>
        cases he : M.exec q o s.world with
        | none => exact Or.inl ⟨by simp only [he], by simp only [he]⟩
        | some aw =>
          exact Or.inr ⟨i, c, l, q, some cs, k, o, aw.1, aw.2, .unwind l cs, ht, he,
            by simp only [he]⟩
    · exact Or.inl ⟨rfl, rfl⟩

/-- An event lets the environment move, or answers one request, or moves a thread only. -/
theorem step_cases (s : Sys C L Q A R W) (ev : Event C O E) :
    ((M.step s ev).world = s.world ∧ (M.step s ev).trace = s.trace) ∨
      (∃ e, M.step s ev = { s with world := M.env e s.world }) ∨
      ∃ i c l q o a w rest, M.exec q o s.world = some (a, w) ∧
        M.step s ev = s.answer i c l q a w rest := by
  by_cases hev : ∃ e, ev = .env e
  · obtain ⟨e, rfl⟩ := hev
    exact Or.inr (Or.inl ⟨e, rfl⟩)
  · rcases step_cases_of_ne_env (M := M) s (not_exists.1 hev) with
      h | ⟨i, c, l, q, -, -, o, a, w, rest, -, hexec, he⟩
    · exact Or.inl h
    · exact Or.inr (Or.inr ⟨i, c, l, q, o, a, w, rest, hexec, he⟩)

theorem answered_eq_none {s : Sys C L Q A R W} {ev : Event C O E}
    (h : (M.step s ev).trace = s.trace) : M.answered s ev = none := by
  simp [answered, h]

theorem Linked.drift {w : W} {trace : List (Item C L Q A W)} (h : M.Linked w trace) (e : E) :
    M.Linked (M.env e w) trace := by
  cases trace with
  | nil => trivial
  | cons it older => exact ⟨h.1.tail ⟨e, rfl⟩, h.2⟩

/-- The trace of a run leads to its world. -/
theorem linked_run (w : W) (events : List (Event C O E)) :
    M.Linked (M.run w events).world (M.run w events).trace := by
  refine List.foldlRecOn (motive := fun s : Sys C L Q A R W => M.Linked s.world s.trace) events
    M.step (b := .initial w) trivial ?_
  intro s hs ev _
  rcases step_cases s ev with ⟨hw, ht⟩ | ⟨e, he⟩ | ⟨i, c, l, q, o, a, w, rest, hexec, he⟩
  · rw [hw, ht]
    exact hs
  · rw [he]
    exact hs.drift e
  · rw [he]
    exact ⟨.refl, ⟨o, hexec⟩, hs⟩

theorem trace_step_suffix (s : Sys C L Q A R W) (ev : Event C O E) :
    s.trace <:+ (M.step s ev).trace := by
  rcases step_cases s ev with ⟨-, ht⟩ | ⟨e, he⟩ | ⟨i, c, l, q, o, a, w, rest, -, he⟩
  · rw [ht]
  · rw [he]
  · rw [he, Sys.answer_trace]
    exact List.suffix_cons _ _

/-- What has been answered stays in the trace. -/
theorem trace_run_suffix (w : W) (events more : List (Event C O E)) :
    (M.run w events).trace <:+ (M.run w (events ++ more)).trace := by
  have hrun : M.run w (events ++ more) = more.foldl M.step (M.run w events) := by
    rw [run, List.foldl_append, run]
  rw [hrun]
  have hstep : ∀ s ev, (M.run w events).trace <:+ s.trace →
      (M.run w events).trace <:+ (M.step s ev).trace := by
    intro s ev hs
    exact hs.trans (trace_step_suffix s ev)
  exact Run.inv_run hstep (List.suffix_refl _) more

/-- What every answered request is holds of the whole trace. -/
theorem forall_mem_trace {p : Sys C L Q A R W → Event C O E → Prop} {P : Item C L Q A W → Prop}
    (hP : ∀ s ev, p s ev → M.Answers (fun _ => P) s ev) {w : W} {events : List (Event C O E)}
    (h : Run.Along M.step p (.initial w) events) : ∀ it ∈ (M.run w events).trace, P it := by
  have hstep : ∀ s ev, (∀ it ∈ s.trace, P it) → p s ev → ∀ it ∈ (M.step s ev).trace, P it := by
    intro s ev hs hev
    rcases step_cases s ev with ⟨-, ht⟩ | ⟨e, he⟩ | ⟨i, c, l, q, o, a, w, rest, -, he⟩
    · rw [ht]
      exact hs
    · rw [he]
      exact hs
    · have hit := hP s ev hev _ (answered_of_step he)
      rw [he, Sys.answer_trace]
      exact List.forall_mem_cons.2 ⟨hit, hs⟩
  refine Run.inv_foldl hstep ?_ h
  intro it hit
  cases hit

/-- Every item of a trace is an answered request. -/
theorem Linked.exec_of_mem {w : W} {trace : List (Item C L Q A W)} (h : M.Linked w trace)
    {it : Item C L Q A W} (hit : it ∈ trace) :
    ∃ o, M.exec it.req o it.pre = some (it.ans, it.post) := by
  induction trace generalizing w with
  | nil => cases hit
  | cons x older ih =>
    rcases List.mem_cons.1 hit with rfl | hit
    · exact h.2.1
    · exact ih h.2.2 hit

/-- An older part of a trace is a trace. -/
theorem Linked.older {w : W} {newer older : List (Item C L Q A W)}
    (h : M.Linked w (newer ++ older)) : ∃ w', M.Linked w' older := by
  induction newer generalizing w with
  | nil => exact ⟨w, h⟩
  | cons it newer ih => exact ih h.2.2

section Between

variable {w : W} {mid older : List (Item C L Q A W)} {it : Item C L Q A W}

/-- What every request and the environment keep still holds later. -/
theorem Linked.keeps (h : M.Linked w (mid ++ it :: older)) {P : W → Prop}
    (henv : ∀ e w, P w → P (M.env e w))
    (hexec : ∀ q o a w w', M.exec q o w = some (a, w') → P w → P w') (hit : P it.post) : P w := by
  have hdrift : ∀ {w w'}, M.Drifts w w' → P w → P w' := by
    intro w w' hd hw
    induction hd with
    | refl => exact hw
    | tail _ hstep ih =>
      obtain ⟨e, rfl⟩ := hstep
      exact henv e _ ih
  induction mid generalizing w with
  | nil => exact hdrift h.1 hit
  | cons x mid ih =>
    obtain ⟨hd, ⟨o, ho⟩, hrest⟩ := h
    exact hdrift hd (hexec _ _ _ _ _ ho (ih hrest))

/-- A quantity has moved on once for every request in between that moves it. -/
theorem Linked.count (h : M.Linked w (mid ++ it :: older)) {β : Type} {f : W → β} {n : β → β}
    {p : Item C L Q A W → Bool} (henv : ∀ e w, f (M.env e w) = f w)
    (hexec : ∀ x ∈ mid, ∀ o, M.exec x.req o x.pre = some (x.ans, x.post) →
      f x.post = if p x then n (f x.pre) else f x.pre) :
    f w = n^[mid.countP p] (f it.post) := by
  have hdrift : ∀ {w w'}, M.Drifts w w' → f w' = f w := by
    intro w w' hd
    induction hd with
    | refl => rfl
    | tail _ hstep ih =>
      obtain ⟨e, rfl⟩ := hstep
      rw [henv, ih]
  induction mid generalizing w with
  | nil => exact hdrift h.1
  | cons x mid ih =>
    obtain ⟨hd, ⟨o, ho⟩, hrest⟩ := h
    have hx := hexec x List.mem_cons_self o ho
    have hpre := ih hrest fun y hy => hexec y (List.mem_cons_of_mem x hy)
    rw [hdrift hd, hx, hpre]
    cases hp : p x
    · simp [hp]
    · simp only [hp, if_true, List.countP_cons_of_pos, Function.iterate_succ_apply']

end Between

end Machine

end Coroutine
