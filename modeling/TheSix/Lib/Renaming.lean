import TheSix.Lib.Paths

/-!
# Programs that only pass payloads on

The requests of two interfaces may differ in what they carry and in nothing else. A `Renaming` takes
the requests of one to those of the other, with their answers. A program `Mirrors` another one when
it makes the renamed requests, from the same places and with the same clean-up, and goes on alike
after every renamed answer.

When the programs of a machine are mirrored by those of a second one, and its world answers a renamed
request with the renamed answer, then every run of the first machine is mirrored, event by event, by a
run of the second (`Renames.run`): the same threads are at work, the worlds and the traces are
renamings of each other, and so are the results.
-/

namespace Coroutine

variable {C C' L Q Q' R R' S S' W W' O O' E : Type} {A : Q → Type} {A' : Q' → Type}

/-- What takes the requests of one interface to those of another, with their answers. -/
structure Renaming (Q Q' : Type) (A : Q → Type) (A' : Q' → Type) where
  req : Q → Q'
  ans : (q : Q) → A q → A' (req q)

namespace Prog

variable {ρ : Renaming Q Q' A A'}

/-- The second program does what the first one does, renamed, and ends with the image of its result. -/
def Mirrors (ρ : Renaming Q Q' A A') (g : R → R') : Prog L Q A R → Prog L Q' A' R' → Prop
  | ret r, p' => p' = ret (g r)
  | req l q cancel k, p' =>
    ∃ k', p' = req l (ρ.req q) (cancel.map (·.map ρ.req)) k' ∧
      ∀ a, (k a).Mirrors ρ g (k' (ρ.ans q a))

theorem mirrors_ret {g : R → R'} (r : R) :
    (ret r : Prog L Q A R).Mirrors ρ g (ret (g r)) := rfl

theorem mirrors_req {g : R → R'} {l : L} {q : Q} {cancel : Option (List Q)} {k : A q → Prog L Q A R}
    {k' : A' (ρ.req q) → Prog L Q' A' R'} (h : ∀ a, (k a).Mirrors ρ g (k' (ρ.ans q a))) :
    (req l q cancel k).Mirrors ρ g (req l (ρ.req q) (cancel.map (·.map ρ.req)) k') :=
  ⟨k', rfl, h⟩

theorem Mirrors.bind {g : R → R'} {h : S → S'} {p : Prog L Q A R} {p' : Prog L Q' A' R'}
    {f : R → Prog L Q A S} {f' : R' → Prog L Q' A' S'} (hp : p.Mirrors ρ g p')
    (hf : ∀ r, (f r).Mirrors ρ h (f' (g r))) : (p >>= f).Mirrors ρ h (p' >>= f') := by
  induction p generalizing p' with
  | ret r =>
    obtain rfl : p' = ret (g r) := hp
    exact hf r
  | req l q cancel k ih =>
    obtain ⟨k', rfl, hk⟩ := hp
    exact mirrors_req fun a => ih a (hk a)

theorem Mirrors.map {g : R → R'} {h : S → S'} {p : Prog L Q A R} {p' : Prog L Q' A' R'} {f : R → S}
    {f' : R' → S'} (hp : p.Mirrors ρ g p') (hf : ∀ r, f' (g r) = h (f r)) :
    (f <$> p).Mirrors ρ h (f' <$> p') := by
  apply hp.bind
  intro r
  show ret (f' (g r)) = ret (h (f r))
  rw [hf]

theorem Mirrors.guarded {g : R → R'} {p : Prog L Q A R} {p' : Prog L Q' A' R'} {cleanup : List Q}
    (hp : p.Mirrors ρ g p') : (p.guarded cleanup).Mirrors ρ g (p'.guarded (cleanup.map ρ.req)) := by
  induction p generalizing p' with
  | ret r =>
    obtain rfl : p' = ret (g r) := hp
    exact mirrors_ret r
  | req l q cancel k ih =>
    obtain ⟨k', rfl, hk⟩ := hp
    refine ⟨fun a => (k' a).guarded (cleanup.map ρ.req), ?_, fun a => ih a (hk a)⟩
    cases cancel with
    | none => rfl
    | some cs => simp only [Prog.guarded, Option.map_some, List.map_append]

theorem mirrors_ite {g : R → R'} {b : Prop} [Decidable b] {p q : Prog L Q A R}
    {p' q' : Prog L Q' A' R'} (hp : b → p.Mirrors ρ g p') (hq : ¬b → q.Mirrors ρ g q') :
    (if b then p else q).Mirrors ρ g (if b then p' else q') := by
  by_cases hb : b
  · rw [if_pos hb, if_pos hb]
    exact hp hb
  · rw [if_neg hb, if_neg hb]
    exact hq hb

/-- What a dropped program leaves is mirrored. -/
theorem mirrors_unwind (g : R → R') (l : L) (cs : List Q) :
    (unwind l cs : Prog L Q A (Option R)).Mirrors ρ (Option.map g)
      (unwind l (cs.map ρ.req) : Prog L Q' A' (Option R')) := by
  induction cs with
  | nil => rfl
  | cons c cs ih => exact ⟨fun _ => unwind l (cs.map ρ.req), rfl, fun _ => ih⟩

end Prog

/-! ## Machines -/

/-- A machine whose programs and whose world are those of another one, renamed. -/
structure Renames (M : Machine C L Q A R W O E) (M' : Machine C' L Q' A' R' W' O' E) where
  ρ : Renaming Q Q' A A'
  call : C → C'
  reply : R → R'
  world : W → W'
  outcome : O → O'
  prog : ∀ c, (M.prog c).Mirrors ρ reply (M'.prog (call c))
  exec : ∀ q o w, M'.exec (ρ.req q) (outcome o) (world w) =
    (M.exec q o w).map fun aw => (ρ.ans q aw.1, world aw.2)
  env : ∀ e w, M'.env e (world w) = world (M.env e w)

namespace Renames

variable {M : Machine C L Q A R W O E} {M' : Machine C' L Q' A' R' W' O' E} (N : Renames M M')

/-- A renamed event. -/
def event : Event C O E → Event C' O' E
  | .start i c => .start i (N.call c)
  | .run i o => .run i (N.outcome o)
  | .drop i o => .drop i (o.map N.outcome)
  | .env e => .env e

/-- A renamed item. -/
def item (it : Item C L Q A W) : Item C' L Q' A' W' where
  thread := it.thread
  call := N.call it.call
  site := it.site
  req := N.ρ.req it.req
  ans := N.ρ.ans it.req it.ans
  pre := N.world it.pre
  post := N.world it.post

/-- A task that mirrors another one. -/
def Task (t : Task C L Q A R) (t' : Coroutine.Task C' L Q' A' R') : Prop :=
  t'.call = N.call t.call ∧ t.rest.Mirrors N.ρ (Option.map N.reply) t'.rest

/-- A state that mirrors another one. -/
structure Mirrored (s : Sys C L Q A R W) (s' : Sys C' L Q' A' R' W') : Prop where
  world : s'.world = N.world s.world
  tasks : ∀ i, Option.Rel N.Task (s.tasks i) (s'.tasks i)
  trace : s'.trace = s.trace.map N.item

variable {N}

/-- The thread at a program, in both states. -/
theorem Mirrored.pending {s : Sys C L Q A R W} {s' : Sys C' L Q' A' R' W'} (h : N.Mirrored s s')
    {i : ℕ} {c : C} {l : L} {q : Q} {cancel : Option (List Q)} {k : A q → Prog L Q A (Option R)}
    (ht : s.tasks i = some ⟨c, .req l q cancel k⟩) :
    ∃ k', s'.tasks i = some ⟨N.call c, .req l (N.ρ.req q) (cancel.map (·.map N.ρ.req)) k'⟩ ∧
      ∀ a, (k a).Mirrors N.ρ (Option.map N.reply) (k' (N.ρ.ans q a)) := by
  have hrel := h.tasks i
  rw [ht] at hrel
  generalize hx : s'.tasks i = x at hrel
  cases hrel with
  | some hrel =>
    rename_i t'
    obtain ⟨c', rest'⟩ := t'
    obtain ⟨rfl, k', rfl, hk⟩ := hrel
    exact ⟨k', rfl, hk⟩

theorem Mirrored.finished {s : Sys C L Q A R W} {s' : Sys C' L Q' A' R' W'} (h : N.Mirrored s s')
    {i : ℕ} {c : C} {r : Option R} (ht : s.tasks i = some ⟨c, .ret r⟩) :
    s'.tasks i = some ⟨N.call c, .ret (r.map N.reply)⟩ := by
  have hrel := h.tasks i
  rw [ht] at hrel
  generalize hx : s'.tasks i = x at hrel
  cases hrel with
  | some hrel =>
    rename_i t'
    obtain ⟨c', rest'⟩ := t'
    obtain ⟨rfl, hrest⟩ := hrel
    obtain rfl : rest' = .ret (r.map N.reply) := hrest
    rfl

theorem Mirrored.unused {s : Sys C L Q A R W} {s' : Sys C' L Q' A' R' W'} (h : N.Mirrored s s')
    {i : ℕ} (ht : s.tasks i = none) : s'.tasks i = none := by
  have hrel := h.tasks i
  rw [ht] at hrel
  generalize hx : s'.tasks i = x at hrel
  cases hrel
  rfl

theorem Mirrored.isIdle {s : Sys C L Q A R W} {s' : Sys C' L Q' A' R' W'} (h : N.Mirrored s s')
    (i : ℕ) : s'.isIdle i = s.isIdle i := by
  unfold Sys.isIdle
  cases ht : s.tasks i with
  | none => simp only [h.unused ht]
  | some t =>
    obtain ⟨c, rest⟩ := t
    cases rest with
    | ret r => simp only [h.finished ht]
    | req l q cancel k =>
      obtain ⟨k', ht', -⟩ := h.pending ht
      simp only [ht']

theorem Mirrored.result {s : Sys C L Q A R W} {s' : Sys C' L Q' A' R' W'} (h : N.Mirrored s s')
    (i : ℕ) : s'.result i = (s.result i).map N.reply := by
  unfold Sys.result
  cases ht : s.tasks i with
  | none => simp only [h.unused ht, Option.map_none]
  | some t =>
    obtain ⟨c, rest⟩ := t
    cases rest with
    | ret r => simp only [h.finished ht]
    | req l q cancel k =>
      obtain ⟨k', ht', -⟩ := h.pending ht
      simp only [ht', Option.map_none]

theorem tasks_update {tasks : ℕ → Option (Coroutine.Task C L Q A R)}
    {tasks' : ℕ → Option (Coroutine.Task C' L Q' A' R')}
    (h : ∀ i, Option.Rel N.Task (tasks i) (tasks' i)) {i : ℕ} {t : Coroutine.Task C L Q A R}
    {t' : Coroutine.Task C' L Q' A' R'} (ht : N.Task t t') (j : ℕ) :
    Option.Rel N.Task (Function.update tasks i (some t) j) (Function.update tasks' i (some t') j) := by
  by_cases hj : j = i
  · subst hj
    rw [Function.update_self, Function.update_self]
    exact .some ht
  · rw [Function.update_of_ne hj, Function.update_of_ne hj]
    exact h j

theorem Mirrored.leave {s : Sys C L Q A R W} {s' : Sys C' L Q' A' R' W'} (h : N.Mirrored s s')
    {i : ℕ} {c : C} {rest : Prog L Q A (Option R)} {rest' : Prog L Q' A' (Option R')}
    (hrest : rest.Mirrors N.ρ (Option.map N.reply) rest') :
    N.Mirrored (s.leave i c rest) (s'.leave i (N.call c) rest') :=
  ⟨h.world, tasks_update h.tasks ⟨rfl, hrest⟩, h.trace⟩

theorem Mirrored.answer {s : Sys C L Q A R W} {s' : Sys C' L Q' A' R' W'} (h : N.Mirrored s s')
    {i : ℕ} {c : C} {l : L} {q : Q} {a : A q} {w : W} {rest : Prog L Q A (Option R)}
    {rest' : Prog L Q' A' (Option R')} (hrest : rest.Mirrors N.ρ (Option.map N.reply) rest') :
    N.Mirrored (s.answer i c l q a w rest)
      (s'.answer i (N.call c) l (N.ρ.req q) (N.ρ.ans q a) (N.world w) rest') := by
  refine ⟨rfl, tasks_update h.tasks ⟨rfl, hrest⟩, ?_⟩
  rw [Sys.answer_trace, Sys.answer_trace, List.map_cons, h.trace, h.world]
  rfl

variable (N)

/-- A step is mirrored by the renamed step. -/
theorem step {s : Sys C L Q A R W} {s' : Sys C' L Q' A' R' W'} (h : N.Mirrored s s')
    (ev : Event C O E) : N.Mirrored (M.step s ev) (M'.step s' (N.event ev)) := by
  cases ev with
  | env e =>
    refine ⟨?_, h.tasks, h.trace⟩
    show M'.env e s'.world = N.world (M.env e s.world)
    rw [h.world, N.env]
  | start i c =>
    simp only [Machine.step, event, h.isIdle i]
    split
    · exact h.leave ((N.prog c).map fun r => rfl)
    · exact h
  | run i o =>
    cases ht : s.tasks i with
    | none => simpa only [Machine.step, event, ht, h.unused ht] using h
    | some t =>
      obtain ⟨c, rest⟩ := t
      cases rest with
      | ret r => simpa only [Machine.step, event, ht, h.finished ht] using h
      | req l q cancel k =>
        obtain ⟨k', ht', hk⟩ := h.pending ht
        have hexec := N.exec q o s.world
        cases he : M.exec q o s.world with
        | none =>
          simp only [he, Option.map_none] at hexec
          simpa only [Machine.step, event, ht, ht', he, h.world, hexec] using h
        | some aw =>
          simp only [he, Option.map_some] at hexec
          simp only [Machine.step, event, ht, ht', he, h.world, hexec]
          exact h.answer (hk aw.1)
  | drop i o =>
    cases ht : s.tasks i with
    | none => simpa only [Machine.step, event, ht, h.unused ht] using h
    | some t =>
      obtain ⟨c, rest⟩ := t
      cases rest with
      | ret r => simpa only [Machine.step, event, ht, h.finished ht] using h
      | req l q cancel k =>
        obtain ⟨k', ht', -⟩ := h.pending ht
        cases cancel with
        | none => simpa only [Machine.step, event, ht, ht', Option.map_none] using h
        | some cs =>
          simp only [Option.map_some] at ht'
          cases o with
          | none =>
            simp only [Machine.step, event, ht, ht', Option.map_none]
            exact h.leave (Prog.mirrors_unwind N.reply l cs)
          | some o =>
            have hexec := N.exec q o s.world
            cases he : M.exec q o s.world with
            | none =>
              simp only [he, Option.map_none] at hexec
              simpa only [Machine.step, event, ht, ht', Option.map_some, he, h.world, hexec] using h
            | some aw =>
              simp only [he, Option.map_some] at hexec
              simp only [Machine.step, event, ht, ht', Option.map_some, he, h.world, hexec]
              exact h.answer (Prog.mirrors_unwind N.reply l cs)

theorem initial (w : W) : N.Mirrored (.initial w) (.initial (N.world w)) :=
  ⟨rfl, fun _ => .none, rfl⟩

/-- **A run is mirrored by the renamed run.** -/
theorem run (w : W) (events : List (Event C O E)) :
    N.Mirrored (M.run w events) (M'.run (N.world w) (events.map N.event)) := by
  unfold Machine.run
  generalize hs : (Sys.initial w : Sys C L Q A R W) = s
  generalize hs' : (Sys.initial (N.world w) : Sys C' L Q' A' R' W') = s'
  have h : N.Mirrored s s' := by
    rw [← hs, ← hs']
    exact N.initial w
  clear hs hs'
  induction events generalizing s s' with
  | nil => exact h
  | cons ev events ih => exact ih _ _ (N.step h ev)

end Renames

/-! ## Calls under other names -/

/-- An event of calls under other names. -/
def Event.onCall (f : C → C') : Event C O E → Event C' O E
  | .start i c => .start i (f c)
  | .run i o => .run i o
  | .drop i o => .drop i o
  | .env e => .env e

/-- What an answered request was, without its call. -/
def Item.exchanged (it : Item C L Q A W) : ℕ × Exchange L Q A :=
  (it.thread, ⟨it.site, it.req, it.ans⟩)

theorem Prog.mirrors_refl (p : Prog L Q A R) :
    p.Mirrors (⟨id, fun _ => id⟩ : Renaming Q Q A A) id p := by
  induction p with
  | ret r => rfl
  | req l q cancel k ih =>
    refine ⟨k, ?_, ih⟩
    cases cancel with
    | none => rfl
    | some cs =>
      rw [Option.map_some, List.map_id]
      rfl

namespace Machine

variable (M : Machine C' L Q A R W O E) {f g : C → C'}

/-- A machine whose calls have other names, beside the machine. -/
def relabelled (h : ∀ c, M.prog (f c) = M.prog (g c)) :
    Renames (⟨fun c => M.prog (f c), M.exec, M.env⟩ : Machine C L Q A R W O E) M where
  ρ := ⟨id, fun _ => id⟩
  call := g
  reply := id
  world := id
  outcome := id
  prog c := by
    show (M.prog (f c)).Mirrors _ _ (M.prog (g c))
    rw [h c]
    exact Prog.mirrors_refl _
  exec q o w := by
    show M.exec q o w = _
    cases M.exec q o w <;> rfl
  env _ _ := rfl

theorem event_relabelled (h : ∀ c, M.prog (f c) = M.prog (g c)) :
    (M.relabelled h).event = Event.onCall g := by
  funext ev
  cases ev with
  | drop i o => exact congrArg (Event.drop i) (Option.map_id_apply (x := o))
  | _ => rfl

/-- **Names do not matter**: calls with the same programs make the same runs. -/
theorem run_relabel (h : ∀ c, M.prog (f c) = M.prog (g c)) (w : W) (events : List (Event C O E)) :
    let s := M.run w (events.map (.onCall f))
    let s' := M.run w (events.map (.onCall g))
    s.world = s'.world ∧ s.trace.map Item.exchanged = s'.trace.map Item.exchanged ∧
      ∀ i, s.result i = s'.result i := by
  have hrun := (M.relabelled (f := f) (g := f) fun _ => rfl).run w events
  have hrun' := (M.relabelled h).run w events
  rw [event_relabelled] at hrun hrun'
  refine ⟨hrun.world.trans hrun'.world.symm, ?_, fun i => (hrun.result i).trans (hrun'.result i).symm⟩
  have htrace := congrArg (List.map Item.exchanged) hrun.trace
  have htrace' := congrArg (List.map Item.exchanged) hrun'.trace
  rw [List.map_map] at htrace htrace'
  exact htrace.trans htrace'.symm

end Machine

end Coroutine
