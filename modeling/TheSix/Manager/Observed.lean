import TheSix.Manager.System
import TheSix.Lib.Notes
import TheSix.Telemetry.Records

/-!
# The calls of the manager, with their records

The programs of `Programs` again, with a sink that keeps the records (`observing`): an observed read
or write leaves one right after its tier call, `get` leaves one when it is refused or decided by the
control plane alone, and a population, a fallback or a refresh leaves one when it fails.

A sink that only notes cannot change a call: without its notes every call is the one that makes none
(`Observed.call_hushed`). So a run of the observed manager is a run of the manager
(`observed_refines`).
-/

namespace TheSix

open Coroutine

/-- A program of the manager that leaves records. -/
abbrev Logged (V R : Type) :=
  Prog Fn (Noting Telemetry.OperationRecord (Req V)) (Noting.Answer Req.Answer) R

/-- The framed key of a call. -/
def Call.keyRef {V : Type} : Call V → Option KeyRef
  | .get a | .getOrFetch a | .exists a | .set a _ | .invalidate a | .remove a | .refresh a
  | .promote a | .demote a => a.keyRef.toOption
  | .evict => none

namespace Observed

open Telemetry Manager

variable {V : Type}

/-- `CacheManager::emit`. -/
def emit (f : Fn) (r : Telemetry.OperationRecord) : Logged V Unit := .req f (.note r) none .ret

/-- Emit a record that names the key of the call. A key that is not framed leaves none. -/
def emitOn (f : Fn) (key : Option KeyRef) (record : KeyRef → Telemetry.OperationRecord) :
    Logged V Unit :=
  match key with
  | some key => emit f (record key)
  | none => .ret ()

section Sink

variable (tiers : ℕ) (kinds : TierId → BackendKind) (key : Option KeyRef)

/-- `CacheManager::backend_of`, where `kinds` are the backends of the bound tiers. -/
def backendOf (rung : TierId) : BackendKind :=
  if hasTier tiers rung then kinds rung else .unavailable

/-- The sink that keeps the records of a call. -/
@[reducible] def observing :
    Recording V (Noting Telemetry.OperationRecord (Req V)) (Noting.Answer Req.Answer) where
  silent p := p.aside Telemetry.OperationRecord
  armed cleanup p := p.guarded (cleanup.map .ask)
  observedRead f op rung := do
    let result ← (await f (.tierGet rung)).aside Telemetry.OperationRecord
    emitOn f key (readRecord op · rung (backendOf tiers kinds rung) result)
    return result
  observedWrite f op rung value ttl := do
    let result ← (await f (.tierSet rung value ttl)).aside Telemetry.OperationRecord
    emitOn f key (writeRecord op · rung (backendOf tiers kinds rung) result)
    return result
  observedControlOnly f op rung outcome := emitOn f key (controlRecord op · rung outcome)
  recordFallback rung cause :=
    emitOn .tryFallbackTier key (fallbackRecord · rung (backendOf tiers kinds rung) cause)
  recordRefreshFailure snapshot cause :=
    emitOn .refreshDetailed key (refreshFailureRecord · snapshot.tier snapshot.generation cause)
  recordPopulationFailure rung e :=
    emitOn .becomePopulationOwner key
      (populationFailureRecord · rung (backendOf tiers kinds rung) e)

end Sink

end Observed

/-- The program of a call, with its records. -/
def Call.observed {V : Type} (tiers : ℕ) (kinds : TierId → BackendKind) (c : Call V) :
    Logged V (Reply V) :=
  c.prog (S := Observed.observing tiers kinds c.keyRef) tiers

/-! ## Without their notes -/

namespace Observed

open Manager
open Prog (hushed_ret hushed_note hushed_ite hushed_aside)

/-- A sink that only notes: without its notes it is `noTelemetry`. -/
class OnlyNotes {V : Type} (S : Recording V (Noting Telemetry.OperationRecord (Req V))
    (Noting.Answer Req.Answer)) : Prop where
  silent_hushed {R : Type} (p : Step V R) : (silent p : Logged V R).Hushed (silent p)
  armed_hushed {R : Type} (cleanup : List (Req V)) {p : Logged V R} {p' : Step V R}
    (h : p.Hushed p') : (armed cleanup p).Hushed (armed cleanup p')
  read_hushed (f : Fn) (op : Operation) (rung : TierId) :
    (observedRead f op rung : Logged V _).Hushed (observedRead f op rung)
  write_hushed (f : Fn) (op : Operation) (rung : TierId) (value : V) (ttl : Option ℕ) :
    (observedWrite f op rung value ttl : Logged V _).Hushed (observedWrite f op rung value ttl)
  control_hushed (f : Fn) (op : Operation) (rung : TierId) (outcome : RecordedOutcome) :
    (observedControlOnly f op rung outcome : Logged V _).Hushed
      (observedControlOnly f op rung outcome)
  fallback_hushed (rung : TierId) (cause : CacheError) :
    (recordFallback rung cause : Logged V _).Hushed (recordFallback rung cause)
  refresh_hushed (snapshot : ControlSnapshot) (cause : CacheError) :
    (recordRefreshFailure snapshot cause : Logged V _).Hushed (recordRefreshFailure snapshot cause)
  population_hushed (rung : TierId) (e : CacheError) :
    (recordPopulationFailure rung e : Logged V _).Hushed (recordPopulationFailure rung e)

open OnlyNotes

theorem emitOn_hushed {V : Type} (f : Fn) (key : Option KeyRef)
    (record : KeyRef → Telemetry.OperationRecord) :
    (emitOn f key record : Logged V Unit).Hushed (.ret ()) := by
  cases key with
  | none => exact hushed_ret ()
  | some key => exact hushed_note (hushed_ret ())

instance observing_onlyNotes {V : Type} (tiers : ℕ) (kinds : TierId → BackendKind)
    (key : Option KeyRef) : OnlyNotes (observing (V := V) tiers kinds key) where
  silent_hushed p := hushed_aside p
  armed_hushed cleanup _ _ h := h.guarded cleanup
  read_hushed f _ rung :=
    (hushed_aside (await f (.tierGet rung))).bind fun result =>
      (emitOn_hushed f key _).bind fun _ => hushed_ret result
  write_hushed f _ rung value ttl :=
    (hushed_aside (await f (.tierSet rung value ttl))).bind fun result =>
      (emitOn_hushed f key _).bind fun _ => hushed_ret result
  control_hushed f _ _ _ := emitOn_hushed f key _
  fallback_hushed _ _ := emitOn_hushed _ key _
  refresh_hushed _ _ := emitOn_hushed _ key _
  population_hushed _ _ := emitOn_hushed _ key _

section Hushed

variable {V : Type} {tiers : ℕ} {a : Args}
  [S : Recording V (Noting Telemetry.OperationRecord (Req V)) (Noting.Answer Req.Answer)]
  [OnlyNotes S]

theorem waitAndGet_hushed (snapshot : ControlSnapshot) :
    (waitAndGet tiers snapshot : Logged V _).Hushed (waitAndGet tiers snapshot) := by
  apply (silent_hushed _).bind
  rintro (e | u)
  · exact hushed_ret _
  · apply (silent_hushed _).bind
    intro after
    cases after.lastError with
    | some e => exact hushed_ret _
    | none =>
      refine hushed_ite (fun _ => hushed_ret _) fun _ => hushed_ite (fun _ => hushed_ret _) fun _ => ?_
      apply (read_hushed _ _ _).bind
      rintro (e | _ | v) <;> exact hushed_ret _

theorem populateOnce_hushed (decision : PolicyDecision) (expected : Generation) :
    (populateOnce tiers a decision expected : Logged V _).Hushed
      (populateOnce tiers a decision expected) := by
  apply (silent_hushed _).bind
  rintro (e | value)
  · exact hushed_ret _
  · dsimp only
    cases nearestBoundRung tiers decision.tier with
    | none => exact hushed_ret _
    | some rung =>
      apply (write_hushed _ _ _ _ _).bind
      intro result
      apply (silent_hushed _).bind
      intro _
      cases result with
      | error e => exact hushed_ret _
      | ok u =>
        apply (silent_hushed _).bind
        rintro (e | u) <;> exact hushed_ret _

theorem populateAttempts_hushed (decision : PolicyDecision) (expected : Generation) (retries : ℕ) :
    (populateAttempts tiers a decision expected retries : Logged V _).Hushed
      (populateAttempts tiers a decision expected retries) := by
  induction retries with
  | zero => exact populateOnce_hushed decision expected
  | succ retries ih =>
    apply (populateOnce_hushed decision expected).bind
    rintro (e | value)
    · refine hushed_ite (fun _ => ?_) fun _ => hushed_ret _
      apply (silent_hushed _).bind
      intro _
      exact ih
    · exact hushed_ret _

theorem scanRungs_hushed (cause : CacheError) (rungs : List TierId) :
    (scanRungs tiers cause rungs : Logged V _).Hushed (scanRungs tiers cause rungs) := by
  induction rungs with
  | nil => exact hushed_ret _
  | cons rung rungs ih =>
    refine hushed_ite (fun _ => ih) fun _ => ?_
    apply (silent_hushed _).bind
    intro failures
    refine hushed_ite (fun _ => ih) fun _ => ?_
    apply (silent_hushed _).bind
    rintro (e | _ | v)
    · exact ih
    · exact ih
    · apply (fallback_hushed rung cause).bind
      intro _
      exact hushed_ret _

theorem becomePopulationOwner_hushed (decision : PolicyDecision) (expected : Generation) :
    (becomePopulationOwner tiers a decision expected : Logged V _).Hushed
      (becomePopulationOwner tiers a decision expected) := by
  apply (armed_hushed _ (populateAttempts_hushed decision expected 2)).bind
  rintro (e | value)
  · apply (population_hushed _ _).bind
    intro _
    apply (silent_hushed _).bind
    intro _
    refine hushed_ite (fun _ => hushed_ret _) fun _ =>
      hushed_ite (fun _ => scanRungs_hushed e cacheLadder) fun _ => hushed_ret _
  · exact hushed_ret _

theorem get_hushed : (get tiers a : Logged V _).Hushed (get tiers a) := by
  unfold Manager.get
  cases a.admitEncoded with
  | error e =>
    apply (control_hushed _ _ _ _).bind
    intro _
    exact hushed_ret _
  | ok d =>
    apply (silent_hushed _).bind
    intro snapshot
    refine hushed_ite (fun _ => hushed_ite (fun _ => ?_) fun _ => ?_) fun _ =>
      hushed_ite (fun _ => ?_) fun _ => hushed_ite (fun _ => ?_) fun _ => ?_
    · apply (control_hushed _ _ _ _).bind
      intro _
      exact hushed_ret _
    · apply (read_hushed _ _ _).bind
      intro result
      apply (silent_hushed _).bind
      intro _
      cases result with
      | error e => exact hushed_ret _
      | ok v =>
        apply (silent_hushed _).bind
        intro after
        exact hushed_ite (fun _ => hushed_ret _) fun _ => hushed_ret _
    · apply (silent_hushed _).bind
      intro _
      apply (control_hushed _ _ _ _).bind
      intro _
      exact hushed_ret _
    · apply (silent_hushed _).bind
      rintro (e | u)
      · exact hushed_ret _
      · apply (silent_hushed _).bind
        intro after
        cases after.lastError with
        | some e => exact hushed_ret _
        | none =>
          refine hushed_ite (fun _ => hushed_ret _) fun _ =>
            hushed_ite (fun _ => hushed_ret _) fun _ => ?_
          apply (read_hushed _ _ _).bind
          intro result
          apply (silent_hushed _).bind
          intro _
          exact hushed_ret _
    · apply (control_hushed _ _ _ _).bind
      intro _
      exact hushed_ret _

theorem joinOrPopulate_hushed (decision : PolicyDecision) (snapshot : ControlSnapshot)
    {again : Logged V (Except CacheError V)} {again' : Step V (Except CacheError V)}
    (h : again.Hushed again') :
    (joinOrPopulate tiers a decision snapshot again).Hushed
      (joinOrPopulate tiers a decision snapshot again') := by
  refine hushed_ite (fun _ => waitAndGet_hushed snapshot) fun _ => hushed_ite (fun _ => ?_) fun _ =>
    hushed_ite (fun _ => waitAndGet_hushed snapshot) fun _ => becomePopulationOwner_hushed _ _
  apply (silent_hushed _).bind
  rintro (e | u)
  · exact hushed_ret _
  · exact h

theorem fetchFrom_hushed (decision : PolicyDecision) (snapshot : ControlSnapshot)
    {again : Logged V (Except CacheError V)} {again' : Step V (Except CacheError V)}
    (h : again.Hushed again') :
    (fetchFrom tiers a decision snapshot again).Hushed
      (fetchFrom tiers a decision snapshot again') := by
  refine hushed_ite (fun _ => hushed_ite (fun _ => hushed_ret _) fun _ => ?_) fun _ =>
    joinOrPopulate_hushed decision snapshot h
  apply (read_hushed _ _ _).bind
  rintro (e | _ | v)
  · exact hushed_ret _
  · exact joinOrPopulate_hushed decision snapshot h
  · exact hushed_ret _

theorem fetchAttempts_hushed (decision : PolicyDecision) (attempts : ℕ) :
    (fetchAttempts tiers a decision attempts : Logged V _).Hushed
      (fetchAttempts tiers a decision attempts) := by
  induction attempts with
  | zero => exact hushed_ret _
  | succ attempts ih =>
    apply (silent_hushed _).bind
    rintro (e | first)
    · exact hushed_ret _
    · refine hushed_ite (fun _ => ?_) fun _ => fetchFrom_hushed decision first ih
      apply (silent_hushed _).bind
      intro _
      apply (silent_hushed _).bind
      rintro (e | snapshot)
      · exact hushed_ret _
      · exact fetchFrom_hushed decision snapshot ih

theorem getOrFetch_hushed : (getOrFetch tiers a : Logged V _).Hushed (getOrFetch tiers a) := by
  unfold getOrFetch
  cases a.admitPopulation with
  | error e => exact hushed_ret _
  | ok decision => exact fetchAttempts_hushed decision 8

theorem writeUnder_hushed (value : V) (rung : TierId) (token : CommitToken) :
    (writeUnder a value rung token : Logged V _).Hushed (writeUnder a value rung token) := by
  apply (write_hushed _ _ _ _ _).bind
  intro result
  apply (silent_hushed _).bind
  intro _
  cases result with
  | error e =>
    refine hushed_ite (fun _ => ?_) fun _ => hushed_ret _
    apply (silent_hushed _).bind
    intro _
    exact hushed_ret _
  | ok u =>
    apply (silent_hushed _).bind
    rintro (e | u)
    · refine hushed_ite (fun _ => hushed_ret _) fun _ => ?_
      apply (silent_hushed _).bind
      intro _
      exact hushed_ret _
    · exact hushed_ret _

theorem writeAt_hushed (value : V) (rung : TierId) (races : ℕ) :
    (writeAt a value rung races : Logged V _).Hushed (writeAt a value rung races) := by
  induction races with
  | zero => exact hushed_ret _
  | succ races ih =>
    unfold writeAt
    apply (silent_hushed _).bind
    rintro (e | token)
    · exact hushed_ret _
    · apply (armed_hushed _ (writeUnder_hushed value rung token)).bind
      rintro (_ | _ | e | e)
      · exact hushed_ret _
      · cases races with
        | zero =>
          apply (silent_hushed _).bind
          intro _
          exact hushed_ret _
        | succ races =>
          apply (armed_hushed _ (silent_hushed _)).bind
          intro _
          apply (silent_hushed _).bind
          intro _
          exact ih
      · apply (silent_hushed _).bind
        intro _
        exact hushed_ret _
      · apply (silent_hushed _).bind
        intro _
        exact hushed_ite (fun _ => hushed_ret _) fun _ => hushed_ret _

theorem walk_hushed (value : V) (rungs : List TierId) (lastError : CacheError) :
    (walk tiers a value rungs lastError : Logged V _).Hushed
      (walk tiers a value rungs lastError) := by
  induction rungs generalizing lastError with
  | nil => exact hushed_ret _
  | cons rung rungs ih =>
    refine hushed_ite (fun _ => ih lastError) fun _ => ?_
    apply (writeAt_hushed value rung maxCommitAttempts).bind
    rintro (r | e)
    · exact hushed_ret _
    · exact ih e

theorem setPasses_hushed (value : V) (tier : TierId) (passes : ℕ) (lastError : CacheError) :
    (setPasses tiers a value tier passes lastError : Logged V _).Hushed
      (setPasses tiers a value tier passes lastError) := by
  induction passes generalizing lastError with
  | zero => exact hushed_ret _
  | succ passes ih =>
    apply (walk_hushed value (descent tier) lastError).bind
    rintro (r | e)
    · exact hushed_ret _
    · refine hushed_ite (fun _ => ?_) fun _ => hushed_ret _
      apply (silent_hushed _).bind
      rintro (_ | _)
      · exact hushed_ret _
      · exact ih e

theorem set_hushed (value : V) : (set tiers a value : Logged V _).Hushed (set tiers a value) := by
  unfold Manager.set
  cases a.admitWrite with
  | error e => exact hushed_ret _
  | ok u =>
    apply (silent_hushed _).bind
    intro snapshot
    apply (silent_hushed _).bind
    intro failures
    dsimp only
    cases Args.authorize (a.select (.fromSnapshot snapshot failures)) with
    | error e => exact hushed_ret _
    | ok u =>
      exact hushed_ite (fun _ => hushed_ret _) fun _ => setPasses_hushed value _ 17 .tierUnavailable

theorem moveUnder_hushed (source destination : TierId) (token : CommitToken) :
    (moveUnder a source destination token : Logged V _).Hushed
      (moveUnder a source destination token) := by
  apply (silent_hushed _).bind
  rintro (e | _ | value)
  · exact hushed_ret _
  · exact hushed_ret _
  · apply (write_hushed _ _ _ _ _).bind
    intro result
    apply (silent_hushed _).bind
    intro _
    cases result with
    | error e => exact hushed_ret _
    | ok u =>
      apply (silent_hushed _).bind
      intro removed
      apply (silent_hushed _).bind
      intro _
      apply (silent_hushed _).bind
      rintro (e | u)
      · apply (silent_hushed _).bind
        intro _
        exact hushed_ret _
      · exact hushed_ret _

theorem moveEntry_hushed (source destination : TierId) :
    (moveEntry tiers a source destination : Logged V _).Hushed
      (moveEntry tiers a source destination) := by
  apply (silent_hushed _).bind
  rintro (e | token)
  · exact hushed_ret _
  · refine hushed_ite (fun _ => ?_) fun _ => ?_
    · apply (silent_hushed _).bind
      intro _
      exact hushed_ret _
    · apply (armed_hushed _ (moveUnder_hushed source destination token)).bind
      rintro (_ | e)
      · exact hushed_ret _
      · apply (silent_hushed _).bind
        intro _
        exact hushed_ret _

theorem moveAlong_hushed (f : Fn) (stays : TierId → Bool) (shift : ℕ → ℕ) :
    (moveAlong tiers a f stays shift : Logged V _).Hushed (moveAlong tiers a f stays shift) := by
  apply (silent_hushed _).bind
  intro s
  refine hushed_ite (fun _ => hushed_ret _) fun _ => hushed_ite (fun _ => hushed_ret _) fun _ => ?_
  cases TierId.fromUsize (shift s.tier.asUsize) with
  | none => exact hushed_ret _
  | some destination => exact moveEntry_hushed s.tier destination

theorem promote_hushed : (promote tiers a : Logged V _).Hushed (promote tiers a) := by
  cases ha : a.admitKey with
  | error e =>
    simp only [promote, ha]
    exact hushed_ret _
  | ok d =>
    rw [promote_eq ha, promote_eq ha]
    exact moveAlong_hushed .promote _ _

theorem demote_hushed : (demote tiers a : Logged V _).Hushed (demote tiers a) := by
  cases ha : a.admitKey with
  | error e =>
    simp only [demote, ha]
    exact hushed_ret _
  | ok d =>
    rw [demote_eq ha, demote_eq ha]
    exact moveAlong_hushed .demote _ _

theorem revalidate_hushed (decision : PolicyDecision) (current : Option V) :
    (revalidate tiers a decision current : Logged V _).Hushed
      (revalidate tiers a decision current) := by
  apply (silent_hushed _).bind
  rintro (e | s)
  · exact hushed_ret _
  · refine hushed_ite (fun _ => hushed_ret _) fun _ => ?_
    apply (becomePopulationOwner_hushed { decision with failMode := .closed } s.generation).bind
    rintro (e | value)
    · refine hushed_ite (fun _ => ?_) fun _ => hushed_ret _
      apply (refresh_hushed s e).bind
      intro _
      exact hushed_ret _
    · exact hushed_ret _

theorem refreshDetailed_hushed :
    (refreshDetailed tiers a : Logged V _).Hushed (refreshDetailed tiers a) := by
  unfold refreshDetailed
  cases a.admitPopulation with
  | error e => exact hushed_ret _
  | ok decision =>
    apply (silent_hushed _).bind
    intro before
    apply (silent_hushed _).bind
    intro current
    refine hushed_ite (fun _ => ?_) fun _ => revalidate_hushed decision current
    apply (silent_hushed _).bind
    intro _
    exact revalidate_hushed decision current

/-- **A sink that only notes changes no call.** -/
theorem call_hushed (c : Call V) :
    (c.prog tiers : Logged V _).Hushed (c.prog tiers) := by
  cases c with
  | get a => exact get_hushed.map _
  | getOrFetch a => exact getOrFetch_hushed.map _
  | «exists» a => exact (silent_hushed _).map _
  | set a value => exact (set_hushed value).map _
  | invalidate a => exact (silent_hushed _).map _
  | remove a => exact (silent_hushed _).map _
  | refresh a => exact refreshDetailed_hushed.map _
  | promote a => exact promote_hushed.map _
  | demote a => exact demote_hushed.map _
  | evict => exact (silent_hushed _).map _

end Hushed

end Observed

variable {V : Type}

/-- Without its records, every call is the one that makes none. -/
theorem Call.observed_hushed (tiers : ℕ) (kinds : TierId → BackendKind) (c : Call V) :
    (c.observed tiers kinds).Hushed (c.prog tiers) :=
  Observed.call_hushed (S := Observed.observing tiers kinds c.keyRef) c

/-- The manager at work on one key, with its records. -/
def observedManager (V : Type) (tiers : ℕ) (kinds : TierId → BackendKind) :
    Machine (Call V) Fn (Noting Telemetry.OperationRecord (Req V)) (Noting.Answer Req.Answer) (Reply V)
      (KeyWorld V × List Telemetry.OperationRecord) (Outcome V) ℕ :=
  (manager V tiers).noting (Call.observed tiers kinds)

/-- **Telemetry only observes**: whatever an observed manager does, under any schedule and any
interleaving with drops, the manager without telemetry does under some part of the schedule: the same
requests with the same answers in the same order, the same entry, rungs and breakers, and the same
replies. -/
theorem observed_refines (tiers : ℕ) (kinds : TierId → BackendKind) (w : KeyWorld V)
    (schedule : List (Turn V)) :
    ∃ schedule', schedule'.Sublist schedule ∧
      let s := (observedManager V tiers kinds).run (w, []) schedule
      let s' := (manager V tiers).run w schedule'
      s'.world = s.world.1 ∧ s'.trace = s.trace.filterMap Item.asked ∧
        (∀ i, s.isIdle i = true → s'.isIdle i = true) ∧
        ∀ i r, s.result i = some r → s'.result i = some r := by
  obtain ⟨schedule', hsub, h⟩ := Machine.hushed_run (M := manager V tiers)
    (Call.observed_hushed tiers kinds) w schedule
  exact ⟨schedule', hsub, h.world, h.trace, fun i => h.isIdle, fun i r => h.result⟩

end TheSix
