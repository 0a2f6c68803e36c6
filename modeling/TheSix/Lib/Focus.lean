import TheSix.Lib.Requests
import TheSix.Lib.Tagged

/-!
# One thing among many, from its own side

A machine `M` whose requests are about keys, seen from one key. `Focus M N` says that `N` is what is
left of `M` there: a call about the key is a call of `N`, a request about the key does to its view what
it does in `N`, up to moves of the environment of `N`, and a request about another key is such moves and
nothing else.

Then every run of `M` is a run of `N`, in which the calls about other keys are moves of the environment
(`Focus.focused_run`): the view, the requests about the key with their answers, in the same order, and
the results of its calls are the same.
-/

namespace Coroutine

variable {C C' K L Q R W W' O O' E E' : Type} {A : Q → Type}

namespace Machine

/-- Moves of the environment, one after another. -/
def drift (N : Machine C L Q A R W O E) (w : W) (moves : List E) : W := moves.foldl (fun w e => N.env e w) w

theorem foldl_step_env (N : Machine C L Q A R W O E) (s : Sys C L Q A R W) (moves : List E) :
    (moves.map Event.env).foldl N.step s = { s with world := N.drift s.world moves } := by
  induction moves generalizing s with
  | nil => rfl
  | cons e moves ih => exact ih { s with world := N.env e s.world }

end Machine

/-! ## Tagged programs -/

namespace Prog

theorem tagged_map {S : Type} (key : K) (f : R → S) (p : Prog L Q A R) :
    (f <$> p).tagged key = f <$> p.tagged key := by
  induction p with
  | ret r => rfl
  | req l q cancel k ih =>
    show (req l (key, q) _ fun a => (f <$> k a).tagged key) =
      req l (key, q) _ fun a => f <$> (k a).tagged key
    simp only [ih]

theorem tagged_unwind (key : K) (l : L) (cs : List Q) :
    (unwind l cs : Prog L Q A (Option R)).tagged key = unwind l (cs.map (key, ·)) := by
  induction cs with
  | nil => rfl
  | cons c cs ih => exact congrArg (fun p => req l (key, c) none fun _ => p) ih

theorem eq_ret_of_tagged {key : K} {p : Prog L Q A R} {r : R} (h : p.tagged key = .ret r) :
    p = .ret r := by
  cases p with
  | ret r' =>
    cases h
    rfl
  | req l q cancel k => cases h

/-- A program about a key makes its requests about it. -/
theorem tagged_asks {key : K} {P : K → Prop} (hkey : P key) (p : Prog L Q A R) :
    (p.tagged key).Asks (fun _ q => P q.1) fun _ _ => True := by
  induction p with
  | ret r => trivial
  | req l q cancel k ih =>
    refine ⟨hkey, fun a _ => ih a, ?_⟩
    intro cs hcs c hc
    obtain ⟨cs', -, rfl⟩ := Option.map_eq_some_iff.1 hcs
    obtain ⟨q', -, rfl⟩ := List.mem_map.1 hc
    exact hkey

end Prog

/-! ## The view of a key -/

/-- `N` is what is left of `M` at a key, as long as the calls that start are of `calls`. -/
structure Focus (M : Machine C L (K × Q) (fun q => A q.2) R W O E)
    (N : Machine C' L Q A R W' O' E') where
  key : K
  view : W → W'
  /-- What a call is for the key, when it is about it. -/
  own : C → Option C'
  calls : C → Prop
  others : K → Prop
  prog_own : ∀ {c c'}, own c = some c' → M.prog c = (N.prog c').tagged key
  prog_other : ∀ {c}, calls c → own c = none →
    (M.prog c).Asks (fun _ q => others q.1) fun _ _ => True
  exec_own : ∀ {q : Q} {o w w₁} {a : A q}, M.exec (key, q) o w = some (a, w₁) →
    ∃ o' w' moves, N.exec q o' (view w) = some (a, w') ∧ view w₁ = N.drift w' moves
  exec_other : ∀ {key' : K} {q : Q} {o w w₁} {a : A q}, others key' →
    M.exec (key', q) o w = some (a, w₁) → ∃ moves, view w₁ = N.drift (view w) moves
  env : ∀ e w, ∃ moves, view (M.env e w) = N.drift (view w) moves

namespace Focus

variable {M : Machine C L (K × Q) (fun q => A q.2) R W O E} {N : Machine C' L Q A R W' O' E'}

/-- What an answered request is for the key, when its call is about it. -/
def seen (F : Focus M N) (it : Item C L (K × Q) (fun q => A q.2) W) :
    Option (ℕ × C' × Exchange L Q A) :=
  (F.own it.call).map fun c' => (it.thread, c', ⟨it.site, it.req.2, it.ans⟩)

/-- A thread of the machine, and the thread of the key of the same number. -/
def Thread (F : Focus M N) (t : Option (Task C L (K × Q) (fun q => A q.2) R))
    (t' : Option (Task C' L Q A R)) : Prop :=
  match t with
  | none => ∀ u, t' = some u → ∃ r, u.rest = .ret r
  | some ⟨c, rest⟩ =>
    match F.own c with
    | some c' => ∃ rest', t' = some ⟨c', rest'⟩ ∧ rest = rest'.tagged F.key
    | none =>
      (rest.Asks (fun _ q => F.others q.1) fun _ _ => True) ∧
        ∀ u, t' = some u → ∃ r, u.rest = .ret r

theorem thread_own {F : Focus M N} {c : C} {c' : C'} (hc : F.own c = some c')
    {rest : Prog L (K × Q) (fun q => A q.2) (Option R)} {t' : Option (Task C' L Q A R)} :
    F.Thread (some ⟨c, rest⟩) t' ↔ ∃ rest', t' = some ⟨c', rest'⟩ ∧ rest = rest'.tagged F.key := by
  simp only [Thread, hc]

theorem thread_other {F : Focus M N} {c : C} (hc : F.own c = none)
    {rest : Prog L (K × Q) (fun q => A q.2) (Option R)} {t' : Option (Task C' L Q A R)} :
    F.Thread (some ⟨c, rest⟩) t' ↔
      (rest.Asks (fun _ q => F.others q.1) fun _ _ => True) ∧
        ∀ u, t' = some u → ∃ r, u.rest = .ret r := by
  simp only [Thread, hc]

/-- A state of the machine, and what it is for the key. -/
structure Focused (F : Focus M N) (s : Sys C L (K × Q) (fun q => A q.2) R W)
    (s' : Sys C' L Q A R W') : Prop where
  world : s'.world = F.view s.world
  thread : ∀ i, F.Thread (s.tasks i) (s'.tasks i)
  trace : s'.trace.map (fun it => (it.thread, it.call, it.exchange)) = s.trace.filterMap F.seen

section Steps

variable {F : Focus M N} {s : Sys C L (K × Q) (fun q => A q.2) R W} {s' : Sys C' L Q A R W'}

/-- The environment of the key brings its world to the view. -/
theorem Focused.moved {t : Sys C L (K × Q) (fun q => A q.2) R W} {t' : Sys C' L Q A R W'}
    {moves : List E'} (hworld : F.view t.world = N.drift t'.world moves)
    (hthread : ∀ i, F.Thread (t.tasks i) (t'.tasks i))
    (htrace : t'.trace.map (fun it => (it.thread, it.call, it.exchange)) = t.trace.filterMap F.seen) :
    F.Focused t ((moves.map Event.env).foldl N.step t') := by
  rw [Machine.foldl_step_env]
  exact ⟨hworld.symm, hthread, htrace⟩

theorem Focused.update (h : F.Focused s s') {i : ℕ}
    {t : Option (Task C L (K × Q) (fun q => A q.2) R)} {t' : Option (Task C' L Q A R)}
    (ht : F.Thread t t') (j : ℕ) :
    F.Thread (Function.update s.tasks i t j) (Function.update s'.tasks i t' j) := by
  by_cases hj : j = i
  · subst hj
    rwa [Function.update_self, Function.update_self]
  · rw [Function.update_of_ne hj, Function.update_of_ne hj]
    exact h.thread j

theorem Focused.update_left (h : F.Focused s s') {i : ℕ}
    {t : Option (Task C L (K × Q) (fun q => A q.2) R)} (ht : F.Thread t (s'.tasks i)) (j : ℕ) :
    F.Thread (Function.update s.tasks i t j) (s'.tasks j) := by
  by_cases hj : j = i
  · subst hj
    rwa [Function.update_self]
  · rw [Function.update_of_ne hj]
    exact h.thread j

/-- A thread that is idle in the machine is idle for the key. -/
theorem Focused.idle (h : F.Focused s s') {i : ℕ} (hi : s.Idle i) : s'.Idle i := by
  intro u hu
  have hthread := h.thread i
  cases ht : s.tasks i with
  | none =>
    rw [ht] at hthread
    exact hthread u hu
  | some t =>
    obtain ⟨c, rest⟩ := t
    obtain ⟨r, hr⟩ := hi _ ht
    obtain rfl : rest = .ret r := hr
    rw [ht] at hthread
    cases hown : F.own c with
    | none => exact ((thread_other hown).1 hthread).2 u hu
    | some c' =>
      obtain ⟨rest', ht', hrest⟩ := (thread_own hown).1 hthread
      rw [ht'] at hu
      obtain rfl := Option.some.inj hu
      exact ⟨r, Prog.eq_ret_of_tagged hrest.symm⟩

/-- An event that changes nothing. -/
theorem Focused.still (h : F.Focused s s') {ev : Event C O E} (hstep : M.step s ev = s) :
    ∃ evs : List (Event C' O' E'), F.Focused (M.step s ev) (evs.foldl N.step s') := by
  refine ⟨[], ?_⟩
  rw [hstep]
  exact h

theorem Focused.start (h : F.Focused s s') (i : ℕ) {c : C} (hc : F.calls c) :
    ∃ evs : List (Event C' O' E'), F.Focused (M.step s (.start i c)) (evs.foldl N.step s') := by
  by_cases hi : s.isIdle i = true
  · have hstep : M.step s (.start i c) = s.leave i c (some <$> M.prog c) := if_pos hi
    cases hown : F.own c with
    | some c' =>
      have hi' : s'.isIdle i = true := Sys.isIdle_iff.2 (h.idle (Sys.isIdle_iff.1 hi))
      have hstep' : N.step s' (.start i c') = s'.leave i c' (some <$> N.prog c') := if_pos hi'
      refine ⟨[.start i c'], ?_⟩
      rw [hstep, List.foldl_cons, List.foldl_nil, hstep']
      refine ⟨h.world, h.update ((thread_own hown).2 ⟨_, rfl, ?_⟩), h.trace⟩
      rw [F.prog_own hown, Prog.tagged_map]
    | none =>
      refine ⟨[], ?_⟩
      rw [hstep]
      exact ⟨h.world,
        h.update_left ((thread_other hown).2 ⟨(F.prog_other hc hown).map, h.idle (Sys.isIdle_iff.1 hi)⟩),
        h.trace⟩
  · exact h.still (if_neg hi)

/-- A request about the key is answered, and the thread goes on. -/
theorem Focused.answer_own (h : F.Focused s s') {i : ℕ} {c : C} {c' : C'} (hown : F.own c = some c')
    {l : L} {q : Q} {a : A q} {w₁ : W} {w' : W'} {moves : List E'}
    (hview : F.view w₁ = N.drift w' moves) (rest : Prog L Q A (Option R)) :
    F.Focused (s.answer i c l (F.key, q) a w₁ (rest.tagged F.key))
      ((moves.map Event.env).foldl N.step (s'.answer i c' l q a w' rest)) := by
  apply Focused.moved hview
  · exact h.update ((thread_own hown).2 ⟨rest, rfl, rfl⟩)
  · rw [Sys.answer_trace, Sys.answer_trace, List.map_cons, h.trace,
      List.filterMap_cons_some (b := (i, c', ⟨l, q, a⟩)) (by simp [seen, hown])]
    rfl

/-- A request about another key is answered, and its thread goes on. -/
theorem Focused.answer_other (h : F.Focused s s') {i : ℕ} {c : C} (hown : F.own c = none)
    {l : L} {q : K × Q} {a : A q.2} {w₁ : W} {moves : List E'}
    (hview : F.view w₁ = N.drift (F.view s.world) moves)
    {rest : Prog L (K × Q) (fun q => A q.2) (Option R)}
    (hrest : rest.Asks (fun _ q => F.others q.1) fun _ _ => True)
    (hidle : ∀ u, s'.tasks i = some u → ∃ r, u.rest = .ret r) :
    F.Focused (s.answer i c l q a w₁ rest) ((moves.map Event.env).foldl N.step s') := by
  apply Focused.moved (by rw [h.world]; exact hview)
  · exact h.update_left ((thread_other hown).2 ⟨hrest, hidle⟩)
  · rw [Sys.answer_trace, List.filterMap_cons_none (by simp [seen, hown]), h.trace]

theorem Focused.run (h : F.Focused s s') (i : ℕ) (o : O) :
    ∃ evs : List (Event C' O' E'), F.Focused (M.step s (.run i o)) (evs.foldl N.step s') := by
  have hthread := h.thread i
  cases ht : s.tasks i with
  | none => exact h.still (by simp only [Machine.step, ht])
  | some t =>
    obtain ⟨c, rest⟩ := t
    rw [ht] at hthread
    cases hown : F.own c with
    | some c' =>
      obtain ⟨rest', ht', rfl⟩ := (thread_own hown).1 hthread
      cases rest' with
      | ret r => exact h.still (by simp only [Machine.step, ht, Prog.tagged])
      | req l q cancel k =>
        cases he : M.exec (F.key, q) o s.world with
        | none => exact h.still (by simp only [Machine.step, ht, Prog.tagged, he])
        | some aw =>
          obtain ⟨a, w₁⟩ := aw
          obtain ⟨o', w', moves, he', hview⟩ := F.exec_own he
          rw [← h.world] at he'
          have hstep : M.step s (.run i o) =
              s.answer i c l (F.key, q) a w₁ ((k a).tagged F.key) := by
            simp only [Machine.step, ht, Prog.tagged, he]
          have hstep' : N.step s' (.run i o') = s'.answer i c' l q a w' (k a) := by
            simp only [Machine.step, ht', he']
          refine ⟨.run i o' :: moves.map .env, ?_⟩
          rw [hstep, List.foldl_cons, hstep']
          exact h.answer_own hown hview (k a)
    | none =>
      obtain ⟨hasks, hidle⟩ := (thread_other hown).1 hthread
      cases rest with
      | ret r => exact h.still (by simp only [Machine.step, ht])
      | req l q cancel k =>
        cases he : M.exec q o s.world with
        | none => exact h.still (by simp only [Machine.step, ht, he])
        | some aw =>
          obtain ⟨a, w₁⟩ := aw
          obtain ⟨moves, hview⟩ := F.exec_other hasks.1 he
          have hstep : M.step s (.run i o) = s.answer i c l q a w₁ (k a) := by
            simp only [Machine.step, ht, he]
          rw [hstep]
          exact ⟨moves.map .env, h.answer_other hown hview (hasks.2.1 a trivial) hidle⟩

theorem Focused.drop (h : F.Focused s s') (i : ℕ) (o : Option O) :
    ∃ evs : List (Event C' O' E'), F.Focused (M.step s (.drop i o)) (evs.foldl N.step s') := by
  have hthread := h.thread i
  cases ht : s.tasks i with
  | none => exact h.still (by simp only [Machine.step, ht])
  | some t =>
    obtain ⟨c, rest⟩ := t
    rw [ht] at hthread
    cases hown : F.own c with
    | some c' =>
      obtain ⟨rest', ht', rfl⟩ := (thread_own hown).1 hthread
      cases rest' with
      | ret r => exact h.still (by simp only [Machine.step, ht, Prog.tagged])
      | req l q cancel k =>
        cases cancel with
        | none => exact h.still (by simp only [Machine.step, ht, Prog.tagged, Option.map_none])
        | some cs =>
          cases o with
          | none =>
            have hstep : M.step s (.drop i none) =
                s.leave i c ((Prog.unwind l cs).tagged F.key) := by
              simp only [Machine.step, ht, Prog.tagged, Option.map_some, Prog.tagged_unwind]
            have hstep' : N.step s' (.drop i none) = s'.leave i c' (.unwind l cs) := by
              simp only [Machine.step, ht']
            refine ⟨[.drop i none], ?_⟩
            rw [hstep, List.foldl_cons, List.foldl_nil, hstep']
            exact ⟨h.world, h.update ((thread_own hown).2 ⟨_, rfl, rfl⟩), h.trace⟩
          | some o =>
            cases he : M.exec (F.key, q) o s.world with
            | none =>
              exact h.still (by simp only [Machine.step, ht, Prog.tagged, Option.map_some, he])
            | some aw =>
              obtain ⟨a, w₁⟩ := aw
              obtain ⟨o', w', moves, he', hview⟩ := F.exec_own he
              rw [← h.world] at he'
              have hstep : M.step s (.drop i (some o)) =
                  s.answer i c l (F.key, q) a w₁ ((Prog.unwind l cs).tagged F.key) := by
                simp only [Machine.step, ht, Prog.tagged, Option.map_some, he, Prog.tagged_unwind]
              have hstep' : N.step s' (.drop i (some o')) =
                  s'.answer i c' l q a w' (.unwind l cs) := by
                simp only [Machine.step, ht', he']
              refine ⟨.drop i (some o') :: moves.map .env, ?_⟩
              rw [hstep, List.foldl_cons, hstep']
              exact h.answer_own hown hview _
    | none =>
      obtain ⟨hasks, hidle⟩ := (thread_other hown).1 hthread
      cases rest with
      | ret r => exact h.still (by simp only [Machine.step, ht])
      | req l q cancel k =>
        cases cancel with
        | none => exact h.still (by simp only [Machine.step, ht])
        | some cs =>
          have hunwind : (Prog.unwind l cs : Prog L (K × Q) (fun q => A q.2) (Option R)).Asks
              (fun _ q => F.others q.1) fun _ _ => True :=
            Prog.asks_unwind (hasks.2.2 cs rfl)
          cases o with
          | none =>
            refine ⟨[], ?_⟩
            have hstep : M.step s (.drop i none) = s.leave i c (.unwind l cs) := by
              simp only [Machine.step, ht]
            rw [hstep]
            exact ⟨h.world, h.update_left ((thread_other hown).2 ⟨hunwind, hidle⟩), h.trace⟩
          | some o =>
            cases he : M.exec q o s.world with
            | none => exact h.still (by simp only [Machine.step, ht, he])
            | some aw =>
              obtain ⟨a, w₁⟩ := aw
              obtain ⟨moves, hview⟩ := F.exec_other hasks.1 he
              have hstep : M.step s (.drop i (some o)) = s.answer i c l q a w₁ (.unwind l cs) := by
                simp only [Machine.step, ht, he]
              rw [hstep]
              exact ⟨moves.map .env, h.answer_other hown hview hunwind hidle⟩

/-- Whatever happens in the machine is for the key a request of its own, moves of its environment, or
nothing. -/
theorem Focused.step (h : F.Focused s s') (ev : Event C O E) (hev : ∀ i c, ev = .start i c → F.calls c) :
    ∃ evs : List (Event C' O' E'), F.Focused (M.step s ev) (evs.foldl N.step s') := by
  cases ev with
  | start i c => exact h.start i (hev i c rfl)
  | run i o => exact h.run i o
  | drop i o => exact h.drop i o
  | env e =>
    obtain ⟨moves, hview⟩ := F.env e s.world
    refine ⟨moves.map .env, Focused.moved ?_ h.thread h.trace⟩
    rw [h.world]
    exact hview

/-- What the last call of a thread has returned, when it was about the key. -/
theorem Focused.result (h : F.Focused s s') {i : ℕ} {c : C} {c' : C'} (hown : F.own c = some c')
    {r : Option R} (ht : s.tasks i = some ⟨c, .ret r⟩) : s'.result i = r := by
  have hthread := h.thread i
  rw [ht] at hthread
  obtain ⟨rest', ht', hrest⟩ := (thread_own hown).1 hthread
  rw [Prog.eq_ret_of_tagged hrest.symm] at ht'
  simp only [Sys.result, ht']

end Steps

/-- **Every run of the machine is one of the key**, with the others in the environment. -/
theorem focused_run (F : Focus M N) (w : W) {events : List (Event C O E)}
    (hcalls : ∀ i c, .start i c ∈ events → F.calls c) :
    ∃ events' : List (Event C' O' E'), F.Focused (M.run w events) (N.run (F.view w) events') := by
  induction events using List.reverseRecOn with
  | nil => exact ⟨[], rfl, fun i u hu => (by cases hu), rfl⟩
  | append_singleton events ev ih =>
    obtain ⟨events', h⟩ := ih fun i c hmem => hcalls i c (List.mem_append_left _ hmem)
    obtain ⟨evs, hstep⟩ := h.step ev fun i c heq => hcalls i c (by simp [heq])
    refine ⟨events' ++ evs, ?_⟩
    rw [Machine.run, List.foldl_append, Machine.run, List.foldl_append]
    exact hstep

end Focus

end Coroutine
