import TheSix.Lib.Requests

/-!
# Calls that do nothing

A request is quiet when answering it leaves the world as it is. Calls whose programs make quiet requests
only can be taken out of a run: the others then do the same, request by request, in the same worlds and
with the same results (`Machine.run_without`).
-/

namespace Coroutine

variable {C L Q R W O E : Type} {A : Q → Type}

namespace Machine

variable {M : Machine C L Q A R W O E} {D : C → Bool}

/-- Answering the request leaves the world as it is. -/
def Quiet (M : Machine C L Q A R W O E) (q : Q) : Prop :=
  ∀ {o w a w'}, M.exec q o w = some (a, w') → w' = w

/-- The program makes quiet requests only. -/
abbrev Inert (M : Machine C L Q A R W O E) (p : Prog L Q A R) : Prop :=
  p.Asks (fun _ q => M.Quiet q) fun _ _ => True

/-- A thread with the calls of `D`, and without them. -/
def ThreadWithout (M : Machine C L Q A R W O E) (D : C → Bool) :
    Option (Task C L Q A R) → Option (Task C L Q A R) → Prop
  | none, t' => ∀ u, t' = some u → ∃ r, u.rest = .ret r
  | some t, t' =>
    if D t.call then
      (t.rest.Asks (fun _ q => M.Quiet q) fun _ _ => True) ∧ ∀ u, t' = some u → ∃ r, u.rest = .ret r
    else t' = some t

theorem threadWithout_quiet {c : C} (hc : D c = true) {rest : Prog L Q A (Option R)}
    {t' : Option (Task C L Q A R)} :
    M.ThreadWithout D (some ⟨c, rest⟩) t' ↔
      (rest.Asks (fun _ q => M.Quiet q) fun _ _ => True) ∧ ∀ u, t' = some u → ∃ r, u.rest = .ret r := by
  simp only [ThreadWithout, hc, if_true]

theorem threadWithout_loud {c : C} (hc : D c = false) {rest : Prog L Q A (Option R)}
    {t' : Option (Task C L Q A R)} :
    M.ThreadWithout D (some ⟨c, rest⟩) t' ↔ t' = some ⟨c, rest⟩ := by
  simp [ThreadWithout, hc]

/-- A state of a run with the calls of `D`, and of the run without them. -/
structure Without (M : Machine C L Q A R W O E) (D : C → Bool) (s s' : Sys C L Q A R W) : Prop where
  world : s'.world = s.world
  thread : ∀ i, M.ThreadWithout D (s.tasks i) (s'.tasks i)
  trace : s'.trace = s.trace.filter (!D ·.call)

section Steps

variable {s s' : Sys C L Q A R W}

theorem Without.update (h : M.Without D s s') {i : ℕ} {t t' : Option (Task C L Q A R)}
    (ht : M.ThreadWithout D t t') (j : ℕ) :
    M.ThreadWithout D (Function.update s.tasks i t j) (Function.update s'.tasks i t' j) := by
  by_cases hj : j = i
  · subst hj
    rwa [Function.update_self, Function.update_self]
  · rw [Function.update_of_ne hj, Function.update_of_ne hj]
    exact h.thread j

theorem Without.update_left (h : M.Without D s s') {i : ℕ} {t : Option (Task C L Q A R)}
    (ht : M.ThreadWithout D t (s'.tasks i)) (j : ℕ) :
    M.ThreadWithout D (Function.update s.tasks i t j) (s'.tasks j) := by
  by_cases hj : j = i
  · subst hj
    rwa [Function.update_self]
  · rw [Function.update_of_ne hj]
    exact h.thread j

theorem Without.idle (h : M.Without D s s') {i : ℕ} (hi : s.Idle i) : s'.Idle i := by
  intro u hu
  have hthread := h.thread i
  cases ht : s.tasks i with
  | none =>
    rw [ht] at hthread
    exact hthread u hu
  | some t =>
    obtain ⟨c, rest⟩ := t
    rw [ht] at hthread
    cases hc : D c with
    | true => exact ((threadWithout_quiet hc).1 hthread).2 u hu
    | false =>
      rw [(threadWithout_loud hc).1 hthread] at hu
      obtain rfl := Option.some.inj hu
      exact hi _ ht

/-- A thread goes on, with its request made or left. -/
theorem Without.leave (h : M.Without D s s') {i : ℕ} {c : C} (hc : D c = false)
    (rest : Prog L Q A (Option R)) : M.Without D (s.leave i c rest) (s'.leave i c rest) :=
  ⟨h.world, h.update ((threadWithout_loud hc).2 rfl), h.trace⟩

theorem Without.answer (h : M.Without D s s') {i : ℕ} {c : C} (hc : D c = false) (l : L) (q : Q)
    (a : A q) (w : W) (rest : Prog L Q A (Option R)) :
    M.Without D (s.answer i c l q a w rest) (s'.answer i c l q a w rest) := by
  refine ⟨rfl, h.update ((threadWithout_loud hc).2 rfl), ?_⟩
  rw [Sys.answer_trace, Sys.answer_trace, h.trace, h.world, List.filter_cons_of_pos (by simp [hc])]

/-- A thread of `D` goes on: nobody else notices. -/
theorem Without.leave_quiet (h : M.Without D s s') {i : ℕ} {c : C} (hc : D c = true)
    {rest : Prog L Q A (Option R)} (hrest : rest.Asks (fun _ q => M.Quiet q) fun _ _ => True)
    (hidle : ∀ u, s'.tasks i = some u → ∃ r, u.rest = .ret r) : M.Without D (s.leave i c rest) s' :=
  ⟨h.world, h.update_left ((threadWithout_quiet hc).2 ⟨hrest, hidle⟩), h.trace⟩

theorem Without.answer_quiet (h : M.Without D s s') {i : ℕ} {c : C} (hc : D c = true) {l : L} {q : Q}
    {o : O} {a : A q} {w : W} (hq : M.Quiet q) (hexec : M.exec q o s.world = some (a, w))
    {rest : Prog L Q A (Option R)} (hrest : rest.Asks (fun _ q => M.Quiet q) fun _ _ => True)
    (hidle : ∀ u, s'.tasks i = some u → ∃ r, u.rest = .ret r) :
    M.Without D (s.answer i c l q a w rest) s' := by
  obtain rfl := hq hexec
  refine ⟨h.world, h.update_left ((threadWithout_quiet hc).2 ⟨hrest, hidle⟩), ?_⟩
  rw [Sys.answer_trace, List.filter_cons_of_neg (by simp [hc]), h.trace]

/-- One event, which the run without the calls of `D` takes too, or has no use for. -/
theorem Without.stepped (h : M.Without D s s') (hD : ∀ c, D c = true → M.Inert (M.prog c))
    (ev : Event C O E) :
    M.Without D (M.step s ev) s' ∨
      (∀ i c, ev = .start i c → D c = false) ∧ M.Without D (M.step s ev) (M.step s' ev) := by
  cases ev with
  | env e => exact Or.inr ⟨by simp, by rw [step, step, h.world], h.thread, h.trace⟩
  | start i c =>
    by_cases hi : s.isIdle i = true
    · have hstep : M.step s (.start i c) = s.leave i c (some <$> M.prog c) := if_pos hi
      have hidle := h.idle (Sys.isIdle_iff.1 hi)
      rw [hstep]
      cases hc : D c with
      | true => exact Or.inl (h.leave_quiet hc (hD c hc).map hidle)
      | false =>
        have hstep' : M.step s' (.start i c) = s'.leave i c (some <$> M.prog c) :=
          if_pos (Sys.isIdle_iff.2 hidle)
        refine Or.inr ⟨?_, hstep' ▸ h.leave hc _⟩
        intro j d heq
        cases heq
        exact hc
    · have hstep : M.step s (.start i c) = s := if_neg hi
      exact Or.inl (by rw [hstep]; exact h)
  | run i o =>
    have hthread := h.thread i
    cases ht : s.tasks i with
    | none => exact Or.inl (by simpa only [step, ht] using h)
    | some t =>
      obtain ⟨c, rest⟩ := t
      rw [ht] at hthread
      cases rest with
      | ret r => exact Or.inl (by simpa only [step, ht] using h)
      | req l q cancel k =>
        cases hexec : M.exec q o s.world with
        | none => exact Or.inl (by simpa only [step, ht, hexec] using h)
        | some aw =>
          obtain ⟨a, w⟩ := aw
          have hstep : M.step s (.run i o) = s.answer i c l q a w (k a) := by
            simp only [step, ht, hexec]
          rw [hstep]
          cases hc : D c with
          | true =>
            obtain ⟨hasks, hidle⟩ := (threadWithout_quiet hc).1 hthread
            exact Or.inl (h.answer_quiet hc hasks.1 hexec (hasks.2.1 a trivial) hidle)
          | false =>
            have hstep' : M.step s' (.run i o) = s'.answer i c l q a w (k a) := by
              simp only [step, (threadWithout_loud hc).1 hthread, h.world, hexec]
            exact Or.inr ⟨by simp, hstep' ▸ h.answer hc l q a w (k a)⟩
  | drop i o =>
    have hthread := h.thread i
    cases ht : s.tasks i with
    | none => exact Or.inl (by simpa only [step, ht] using h)
    | some t =>
      obtain ⟨c, rest⟩ := t
      rw [ht] at hthread
      cases rest with
      | ret r => exact Or.inl (by simpa only [step, ht] using h)
      | req l q cancel k =>
        cases cancel with
        | none => exact Or.inl (by simpa only [step, ht] using h)
        | some cs =>
          have hunwind (hasks : (Prog.req l q (some cs) k).Asks (fun _ q => M.Quiet q)
              fun _ _ => True) :
              (Prog.unwind l cs : Prog L Q A (Option R)).Asks (fun _ q => M.Quiet q) fun _ _ => True :=
            Prog.asks_unwind (hasks.2.2 cs rfl)
          cases o with
          | none =>
            have hstep : M.step s (.drop i none) = s.leave i c (.unwind l cs) := by
              simp only [step, ht]
            rw [hstep]
            cases hc : D c with
            | true =>
              obtain ⟨hasks, hidle⟩ := (threadWithout_quiet hc).1 hthread
              exact Or.inl (h.leave_quiet hc (hunwind hasks) hidle)
            | false =>
              have hstep' : M.step s' (.drop i none) = s'.leave i c (.unwind l cs) := by
                simp only [step, (threadWithout_loud hc).1 hthread]
              exact Or.inr ⟨by simp, hstep' ▸ h.leave hc _⟩
          | some o =>
            cases hexec : M.exec q o s.world with
            | none => exact Or.inl (by simpa only [step, ht, hexec] using h)
            | some aw =>
              obtain ⟨a, w⟩ := aw
              have hstep : M.step s (.drop i (some o)) = s.answer i c l q a w (.unwind l cs) := by
                simp only [step, ht, hexec]
              rw [hstep]
              cases hc : D c with
              | true =>
                obtain ⟨hasks, hidle⟩ := (threadWithout_quiet hc).1 hthread
                exact Or.inl (h.answer_quiet hc hasks.1 hexec (hunwind hasks) hidle)
              | false =>
                have hstep' : M.step s' (.drop i (some o)) = s'.answer i c l q a w (.unwind l cs) := by
                  simp only [step, (threadWithout_loud hc).1 hthread, h.world, hexec]
                exact Or.inr ⟨by simp, hstep' ▸ h.answer hc l q a w _⟩

/-- What the last call of a thread has returned, when it is not of `D`. -/
theorem Without.result (h : M.Without D s s') {i : ℕ} {c : C} (hc : D c = false) {r : Option R}
    (ht : s.tasks i = some ⟨c, .ret r⟩) : s'.result i = r := by
  have hthread := h.thread i
  rw [ht] at hthread
  simp only [Sys.result, (threadWithout_loud hc).1 hthread]

end Steps

/-- **Inert calls can be left out of a run.** -/
theorem run_without (hD : ∀ c, D c = true → M.Inert (M.prog c)) (w : W) (events : List (Event C O E)) :
    ∃ events', events'.Sublist events ∧ (∀ i c, .start i c ∈ events' → D c = false) ∧
      M.Without D (M.run w events) (M.run w events') := by
  induction events using List.reverseRecOn with
  | nil => exact ⟨[], .refl _, by simp, rfl, fun i u hu => (by cases hu), rfl⟩
  | append_singleton events ev ih =>
    obtain ⟨events', hsub, hstarts, h⟩ := ih
    have hrun : ∀ evs, M.run w (evs ++ [ev]) = M.step (M.run w evs) ev := by
      intro evs
      rw [run, List.foldl_append]
      rfl
    rcases h.stepped hD ev with h | ⟨hev, h⟩
    · exact ⟨events', hsub.trans (List.sublist_append_left _ _), hstarts, by rw [hrun]; exact h⟩
    · refine ⟨events' ++ [ev], hsub.append (.refl _), ?_, by rw [hrun, hrun]; exact h⟩
      intro i c hmem
      rcases List.mem_append.1 hmem with hmem | hmem
      · exact hstarts i c hmem
      · exact hev i c (List.mem_singleton.1 hmem).symm

end Machine

end Coroutine
