import TheSix.Manager.Runs
import TheSix.Lib.Trace

/-!
# Calls and maintenance

Beside the calls on a key run the two maintenance passes of the manager. An expiry sweep marks the
entry stale when its TTL has elapsed. A recovery sweep comes to the key three times: it reads the
clock, it locks the shard of the key and collects the intent when that is old enough, and later it
settles what it has collected, by the address of the key alone. In between, anything may happen.

`maintained` is the machine of `Manager/System.lean` with these passes as moves of its environment.
-/

namespace TheSix

open Coroutine

variable {V : Type}

/-- A `recover_older_than`, as far as it concerns the key. -/
inductive Sweep
  /-- There is nothing left for it to do here. -/
  | idle
  /-- `stale_intents` has read the clock, and has not come to the shard of the key. -/
  | scanning (age clock : ℕ)
  /-- The intent of the key was collected, and is not settled. -/
  | settling (age : ℕ) (intent : CommitIntent)
  deriving DecidableEq

/-- The `cutoff` of `stale_intents`; the age is cast to a `u64`. -/
def cutoff (age clock : ℕ) : ℕ := clock - age % 2 ^ 64

/-- A key and the recovery sweeps that are under way. `released` remembers that
`release_population_claim` has turned the entry to `Failed` and that nothing was prepared since;
nothing reads it. -/
structure Maintained (V : Type) where
  key : KeyWorld V
  sweeps : ℕ → Sweep := fun _ => .idle
  released : Bool := false

/-- What happens to a key beside its calls. -/
inductive Upkeep
  | tick (d : ℕ)
  | sweepExpired
  | recover (j age : ℕ)
  | scan (j : ℕ)
  | settle (j : ℕ)
  deriving DecidableEq

/-- The request has recorded an intent. -/
def Req.prepares : (q : Req V) → q.Answer → Bool
  | .prepare _ _, .ok _ => true
  | _, _ => false

namespace Maintained

/-- The atomic effect of a request. -/
def exec (q : Req V) (o : Outcome V) (w : Maintained V) : Option (q.Answer × Maintained V) :=
  (w.key.exec q o).map fun r =>
    (r.1, { w with key := r.2, released := w.released && !q.prepares r.1 })

/-- Change the entry of the key. -/
def onSlot (w : Maintained V) (s : KeySlot) : Maintained V := { w with key := { w.key with slot := s } }

/-- A recovery sweep goes on. -/
def goOn (w : Maintained V) (j : ℕ) (sweep : Sweep) : Maintained V :=
  { w with sweeps := Function.update w.sweeps j sweep }

/-- `stale_intents` at the key: what it collects. -/
def collects (w : Maintained V) (age clock : ℕ) : Option CommitIntent :=
  w.key.entry.intent.filter fun intent => intent.startedNanos ≤ cutoff age clock

/-- `recover_older_than` on an intent it has collected. -/
def settled (w : Maintained V) : IntentKind → Maintained V
  | .write => w.onSlot (w.key.slot.abortIntentByAddress .uncommittedIntent).2
  | .move =>
    { w.onSlot w.key.slot.releasePopulationClaim.2 with
      released := w.released || w.key.slot.releasePopulationClaim.1 }

/-- A move of the environment. -/
def upkeep : Upkeep → Maintained V → Maintained V
  | .tick d, w => { w with key := w.key.tick d }
  | .sweepExpired, w => w.onSlot (w.key.slot.sweepExpired w.key.now).2
  | .recover j age, w =>
    match w.sweeps j with
    | .idle => w.goOn j (.scanning age (ControlEntry.instantToNanos w.key.now))
    | _ => w
  | .scan j, w =>
    match w.sweeps j with
    | .scanning age clock => w.goOn j ((w.collects age clock).elim .idle (.settling age))
    | _ => w
  | .settle j, w =>
    match w.sweeps j with
    | .settling _ intent => (w.settled intent.kind).goOn j .idle
    | _ => w

/-- The key before anything happens, and no sweep under way. -/
def unwritten : Maintained V := { key := .unwritten }

theorem exec_eq_some {q : Req V} {o : Outcome V} {w w' : Maintained V} {a : q.Answer}
    (h : w.exec q o = some (a, w')) :
    w.key.exec q o = some (a, w'.key) ∧ w'.released = (w.released && !q.prepares a) := by
  simp only [exec, Option.map_eq_some_iff, Prod.mk.injEq] at h
  obtain ⟨r, hr, rfl, rfl⟩ := h
  exact ⟨hr, rfl⟩

end Maintained

/-- The manager at work on one key, with its maintenance. -/
def maintained (V : Type) (tiers : ℕ) :
    Machine (Call V) Fn (Req V) Req.Answer (Reply V) (Maintained V) (Outcome V) Upkeep where
  prog := Call.prog tiers
  exec := Maintained.exec
  env := Maintained.upkeep

/-- A state of the manager with its maintenance. -/
abbrev Upkept (V : Type) := Sys (Call V) Fn (Req V) Req.Answer (Reply V) (Maintained V)

/-- A step of a schedule with maintenance. -/
abbrev Duty (V : Type) := Event (Call V) (Outcome V) Upkeep

/-! ## Steps -/

/-- Every thread keeps to the protocol of the manager's calls. -/
def Made (s : Upkept V) : Prop :=
  ∃ φ, Machine.Safe (protocol V) Phase.Final (fun _ _ => True) s φ

theorem made_initial (w : Maintained V) : Made (.initial w) :=
  ⟨fun _ => ⟨.evict, .idle⟩, trivial, by rintro i t ⟨⟩⟩

theorem Made.step {tiers : ℕ} {s : Upkept V} (h : Made s) (duty : Duty V) :
    Made ((maintained V tiers).step s duty) := by
  have hkeeps : Machine.Keeps (maintained V tiers) (protocol V) Phase.Final (fun _ _ => True)
      (fun _ _ => True) := by
    refine ⟨?_, ?_, ?_, fun _ _ _ _ _ _ _ _ _ _ _ => trivial, fun _ _ _ _ _ => trivial⟩
    · intro s φ i c _ _ _
      exact ⟨⟨c, .idle⟩, Call.conforms tiers c, trivial⟩
    · intro s φ i c l q cancel k o a w _ _ _ _ hexec _
      have hpossible := KeyWorld.possible_of_exec (Maintained.exec_eq_some hexec).1
      exact ⟨_, ⟨hpossible, rfl⟩, trivial⟩
    · intro s φ i c l q cs k o a w _ _ _ _ hexec _
      have hpossible := KeyWorld.possible_of_exec (Maintained.exec_eq_some hexec).1
      exact ⟨_, ⟨hpossible, rfl⟩, trivial⟩
  obtain ⟨φ, hφ⟩ := h
  have hadm : (fun (_ : Upkept V) (_ : Duty V) => True) s duty := trivial
  exact Machine.safe_step hkeeps hφ hadm

/-- The calls set no state but `Stale`. -/
def Req.MarksOnlyStale : Req V → Prop
  | .setState state => state = .stale
  | _ => True

theorem Made.marksOnlyStale {s : Upkept V} (h : Made s) {i : ℕ} {c : Call V} {l : Fn} {q : Req V}
    {cancel : Option (List (Req V))} {k : q.Answer → Prog Fn (Req V) Req.Answer (Option (Reply V))}
    (ht : s.tasks i = some ⟨c, .req l q cancel k⟩) : q.MarksOnlyStale := by
  obtain ⟨φ, -, hconf⟩ := h
  have hok : (φ i).ok l q := (hconf i _ ht).1
  cases q with
  | setState state => exact hok.1.1
  | _ => trivial

/-- A condition on the moves of the environment in a run, in the world each finds. -/
def OnUpkeep (move : Maintained V → Upkeep → Prop) (s : Upkept V) : Duty V → Prop
  | .env e => move s.world e
  | _ => True

instance (move : Maintained V → Upkeep → Prop) [∀ w e, Decidable (move w e)] (s : Upkept V)
    (duty : Duty V) : Decidable (OnUpkeep move s duty) :=
  match duty with
  | .env e => inferInstanceAs (Decidable (move s.world e))
  | .start _ _ | .run _ _ | .drop _ _ => .isTrue trivial

/-- A condition on the steps of a run: on every request that is answered, and on every move of the
environment. -/
def Meets (tiers : ℕ) (request : Maintained V → Req V → Prop) (move : Maintained V → Upkeep → Prop)
    (s : Upkept V) (duty : Duty V) : Prop :=
  (maintained V tiers).Answers (fun _ it => request it.pre it.req) s duty ∧ OnUpkeep move s duty

/-- A property of the world is kept by exactly the steps that meet a condition, when that is so of
every request and of every move. -/
theorem keeps_iff_meets {tiers : ℕ} {P : Maintained V → Prop}
    {request : Maintained V → Req V → Prop} {move : Maintained V → Upkeep → Prop}
    (hreq : ∀ {w w' q o} {a : q.Answer}, w.exec q o = some (a, w') → q.MarksOnlyStale → P w →
      (P w' ↔ request w q))
    (hmove : ∀ {w} e, P w → (P (w.upkeep e) ↔ move w e)) {s : Upkept V} (hmade : Made s)
    (hs : P s.world) (duty : Duty V) :
    P ((maintained V tiers).step s duty).world ↔ Meets tiers request move s duty := by
  have hthread : (∀ e, duty ≠ .env e) →
      (P ((maintained V tiers).step s duty).world ↔
        (maintained V tiers).Answers (fun _ it => request it.pre it.req) s duty) := by
    intro hne
    rcases Machine.step_cases_of_ne_env (M := maintained V tiers) s hne with
      ⟨hw, ht⟩ | ⟨i, c, l, q, cancel, k, o, a, w, rest, ht, hexec, he⟩
    · rw [hw, Machine.Answers, Machine.answered_eq_none ht]
      simp [hs]
    · rw [Machine.Answers, Machine.answered_of_step he, he]
      simp only [Sys.answer_world, Option.mem_def, Option.some.injEq, forall_eq']
      exact hreq hexec (hmade.marksOnlyStale ht) hs
  cases duty with
  | env e =>
    have hnone : (maintained V tiers).answered s (.env e) = none := Machine.answered_eq_none rfl
    simp only [Meets, OnUpkeep, Machine.Answers, hnone, Option.mem_def, reduceCtorEq,
      false_implies, implies_true, true_and]
    exact hmove e hs
  | start | run | drop => simpa only [Meets, OnUpkeep, and_true] using hthread (by simp)

/-- The same for whole runs. -/
theorem along_keeps_iff_meets {tiers : ℕ} {P : Maintained V → Prop}
    {request : Maintained V → Req V → Prop} {move : Maintained V → Upkeep → Prop}
    (hreq : ∀ {w w' q o} {a : q.Answer}, w.exec q o = some (a, w') → q.MarksOnlyStale → P w →
      (P w' ↔ request w q))
    (hmove : ∀ {w} e, P w → (P (w.upkeep e) ↔ move w e)) {w : Maintained V} (hw : P w)
    (schedule : List (Duty V)) :
    Run.Along (maintained V tiers).step
        (fun s duty => P ((maintained V tiers).step s duty).world) (.initial w) schedule ↔
      Run.Along (maintained V tiers).step (Meets tiers request move) (.initial w) schedule := by
  have hmade : ∀ s duty, Made s → Made ((maintained V tiers).step s duty) := fun _ duty h => h.step duty
  have hstep : ∀ s duty, Made s → P s.world → (P ((maintained V tiers).step s duty).world ↔
      Meets tiers request move s duty) := fun _ duty hm hs => keeps_iff_meets hreq hmove hm hs duty
  exact Run.along_inv_iff (I := fun s : Upkept V => P s.world) hmade hstep (made_initial w) hw schedule

end TheSix
