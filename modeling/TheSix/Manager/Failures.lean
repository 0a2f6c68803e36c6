import TheSix.Lib.Answers
import TheSix.Manager.Programs

/-!
# Where a `ConfigurationError` comes from

No call makes up a `ConfigurationError` after its gates: a `set` or a `get_or_fetch` that fails with
one has been answered one, by the control plane, a rung or the fetch.
-/

namespace TheSix

open Coroutine

variable {V : Type}

/-- The answer does not say `ConfigurationError`. -/
def SoundAnswer : (q : Req V) → q.Answer → Prop
  | .peek, x => x.lastError ≠ some .configurationError
  | .acquire _, x => x ≠ .error .configurationError
  | .prepare _ _, x => x ≠ .error .configurationError
  | .tierGet _, x => x ≠ .error .configurationError
  | .tierContains _, x => x ≠ .error .configurationError
  | .fetch, x => x ≠ .error .configurationError
  | .setState _, x | .publish _ _ _, x | .failWithError _, x | .invalidate, x | .release, x
  | .commit _ _, x | .abort _ _, x | .abortProvenClean _ _, x | .tierSet _ _ _, x | .tierRemove _, x
  | .notified _, x => x ≠ .error .configurationError
  | .evictionCandidate _, _ | .reserveEviction _, _ | .removeIfAddress _ _, _ | .register _, _
  | .sleep, _ | .yieldNow, _ | .tierHealth _, _ | .record _ _, _ => True

/-- The result is not `ConfigurationError`. -/
def SoundResult {β : Type} (r : Except CacheError β) : Prop := r ≠ .error .configurationError

theorem soundResult_error {β : Type} {e : CacheError} :
    SoundResult (.error e : Except CacheError β) ↔ e ≠ .configurationError := by
  simp [SoundResult]

@[simp] theorem soundResult_ok {β : Type} (x : β) : SoundResult (.ok x) := nofun

namespace Manager

theorem waitForPopulation_yields (snapshot : ControlSnapshot) :
    (waitForPopulation snapshot : Step V (Except CacheError Unit)).Yields SoundAnswer
      SoundResult := by
  simp only [waitForPopulation, call, await, Prog.req_bind, Prog.ret_bind, Prog.yields_req]
  intro epoch _ now _
  split_ifs
  · exact soundResult_ok ()
  · exact fun r hr => hr

theorem waitAndGet_yields (tiers : ℕ) (snapshot : ControlSnapshot) :
    (waitAndGet tiers snapshot : Step V (Except CacheError V)).Yields SoundAnswer SoundResult := by
  simp only [waitAndGet, Prog.yields_bind]
  refine (waitForPopulation_yields snapshot).mono fun r hr => ?_
  cases r with
  | error e => exact soundResult_error.2 (soundResult_error.1 hr)
  | ok _ =>
    simp only [call, noTelemetry_eq, await, Prog.req_bind, Prog.ret_bind, Prog.yields_req]
    intro after hafter
    cases hlast : after.lastError with
    | some e => exact soundResult_error.2 fun he => hafter (by rw [hlast, he])
    | none =>
      dsimp only
      split_ifs
      · exact soundResult_error.2 (by decide)
      · exact soundResult_error.2 (by decide)
      · rintro (e | _ | v) hread
        · exact soundResult_error.2 (soundResult_error.1 hread)
        · exact soundResult_error.2 (by decide)
        · exact soundResult_ok v

theorem populateOnce_yields (tiers : ℕ) (a : Args) (decision : PolicyDecision)
    (expected : Generation) :
    (populateOnce tiers a decision expected : Step V (Except CacheError V)).Yields SoundAnswer
      SoundResult := by
  simp only [populateOnce, call, noTelemetry_eq, await, Prog.req_bind, Prog.ret_bind,
    Prog.yields_req]
  rintro (e | value) hfetch
  · exact soundResult_error.2 (soundResult_error.1 hfetch)
  · cases nearestBoundRung tiers decision.tier with
    | none => exact soundResult_error.2 (by decide)
    | some rung =>
      simp only [Prog.yields_req]
      rintro (e | _) hset _ _
      · exact soundResult_error.2 (soundResult_error.1 hset)
      · simp only [Prog.yields_req]
        rintro (e | _) hpublish
        · exact soundResult_error.2 (soundResult_error.1 hpublish)
        · exact soundResult_ok value

theorem populateAttempts_yields (tiers : ℕ) (a : Args) (decision : PolicyDecision)
    (expected : Generation) (retries : ℕ) :
    (populateAttempts tiers a decision expected retries : Step V _).Yields SoundAnswer
      SoundResult := by
  induction retries with
  | zero => exact populateOnce_yields tiers a decision expected
  | succ retries ih =>
    simp only [populateAttempts, Prog.yields_bind]
    refine (populateOnce_yields tiers a decision expected).mono fun r hr => ?_
    cases r with
    | ok value => exact soundResult_ok value
    | error e =>
      dsimp only
      split_ifs
      · simp only [await, noTelemetry_eq, Prog.req_bind, Prog.ret_bind, Prog.yields_req]
        exact fun _ _ => ih
      · exact hr

theorem scanRungs_yields (tiers : ℕ) {cause : CacheError} (hc : cause ≠ .configurationError)
    (rungs : List TierId) : (scanRungs tiers cause rungs : Step V _).Yields SoundAnswer
      SoundResult := by
  induction rungs with
  | nil => exact soundResult_error.2 hc
  | cons rung rungs ih =>
    rw [scanRungs]
    split_ifs
    · exact ih
    · simp only [call, noTelemetry_eq, await, Prog.req_bind, Prog.ret_bind, Prog.yields_req]
      intro failures _
      split_ifs
      · exact ih
      · simp only [Prog.yields_req]
        rintro (e | _ | v) _
        · exact ih
        · exact ih
        · exact soundResult_ok v

theorem becomePopulationOwner_yields (tiers : ℕ) (a : Args) (decision : PolicyDecision)
    (expected : Generation) :
    (becomePopulationOwner tiers a decision expected : Step V _).Yields SoundAnswer
      SoundResult := by
  simp only [becomePopulationOwner, Prog.yields_bind, Prog.yields_guarded, noTelemetry_eq]
  refine (populateAttempts_yields tiers a decision expected 2).mono fun r hr => ?_
  cases r with
  | ok value => exact soundResult_ok value
  | error e =>
    simp only [call, Prog.req_bind, Prog.ret_bind, Prog.yields_req]
    intro _ _
    split_ifs
    · exact soundResult_error.2 (by decide)
    · exact scanRungs_yields tiers (soundResult_error.1 hr) _
    · exact hr

theorem joinOrPopulate_yields (tiers : ℕ) (a : Args) (decision : PolicyDecision)
    (snapshot : ControlSnapshot) {again : Step V (Except CacheError V)}
    (h : again.Yields SoundAnswer SoundResult) :
    (joinOrPopulate tiers a decision snapshot again).Yields SoundAnswer SoundResult := by
  unfold joinOrPopulate
  split_ifs
  · exact waitAndGet_yields tiers snapshot
  · simp only [Prog.yields_bind]
    refine (waitForPopulation_yields snapshot).mono fun r hr => ?_
    cases r with
    | error e => exact soundResult_error.2 (soundResult_error.1 hr)
    | ok _ => exact h
  · exact waitAndGet_yields tiers snapshot
  · exact becomePopulationOwner_yields tiers a decision snapshot.generation

theorem fetchFrom_yields (tiers : ℕ) (a : Args) (decision : PolicyDecision)
    (snapshot : ControlSnapshot) {again : Step V (Except CacheError V)}
    (h : again.Yields SoundAnswer SoundResult) :
    (fetchFrom tiers a decision snapshot again).Yields SoundAnswer SoundResult := by
  have hjoin := joinOrPopulate_yields tiers a decision snapshot h
  unfold fetchFrom
  split_ifs
  · exact soundResult_error.2 (by decide)
  · simp only [await, noTelemetry_eq, Prog.req_bind, Prog.ret_bind, Prog.yields_req]
    rintro (e | _ | v) hread
    · exact soundResult_error.2 (soundResult_error.1 hread)
    · exact hjoin
    · exact soundResult_ok v
  · exact hjoin

theorem fetchAttempts_yields (tiers : ℕ) (a : Args) (decision : PolicyDecision) (attempts : ℕ) :
    (fetchAttempts tiers a decision attempts : Step V _).Yields SoundAnswer SoundResult := by
  induction attempts with
  | zero => exact soundResult_error.2 (by decide)
  | succ attempts ih =>
    simp only [fetchAttempts, call, noTelemetry_eq, Prog.req_bind, Prog.ret_bind, Prog.yields_req]
    rintro (e | first) hacquire
    · exact soundResult_error.2 (soundResult_error.1 hacquire)
    · dsimp only
      split_ifs
      · simp only [Prog.yields_req]
        rintro _ _ (e | snapshot) hagain
        · exact soundResult_error.2 (soundResult_error.1 hagain)
        · exact fetchFrom_yields tiers a decision snapshot ih
      · exact fetchFrom_yields tiers a decision first ih

/-- The errors of a write under its intent. -/
def WriteEnd.Sound : WriteEnd → Prop
  | .committed | .lostRace => True
  | .uncommitted e | .refused e => e ≠ .configurationError

/-- The errors of the writes at a rung. -/
def RungEnd.Sound : RungEnd → Prop
  | .finished r => SoundResult r
  | .nextRung e => e ≠ .configurationError

theorem writeUnder_yields (a : Args) (value : V) (rung : TierId) (token : CommitToken) :
    (writeUnder a value rung token).Yields SoundAnswer WriteEnd.Sound := by
  simp only [writeUnder, call, noTelemetry_eq, await, Prog.req_bind, Prog.ret_bind, Prog.yields_req]
  rintro (e | _) hset _ _
  · have he := soundResult_error.1 hset
    dsimp only
    split_ifs
    · simp only [Prog.yields_req]
      exact fun _ _ => he
    · exact he
  · simp only [Prog.yields_req]
    rintro (e | _) hcommit
    · have he := soundResult_error.1 hcommit
      dsimp only
      split_ifs
      · trivial
      · simp only [Prog.yields_req]
        exact fun _ _ => he
    · trivial

theorem writeAt_yields (a : Args) (value : V) (rung : TierId) (races : ℕ) :
    (writeAt a value rung races).Yields SoundAnswer RungEnd.Sound := by
  induction races with
  | zero => exact soundResult_error.2 (by decide)
  | succ races ih =>
    rw [writeAt.eq_def]
    simp only [call, noTelemetry_eq, Prog.req_bind, Prog.ret_bind, Prog.yields_req]
    rintro (e | token) hprepare
    · exact soundResult_error.2 (soundResult_error.1 hprepare)
    · simp only [Prog.yields_bind, Prog.yields_guarded]
      refine (writeUnder_yields a value rung token).mono fun r hr => ?_
      cases r with
      | committed => exact soundResult_ok ()
      | lostRace =>
        cases races with
        | zero =>
          simp only [Prog.yields_req]
          exact fun _ _ => soundResult_error.2 (by decide)
        | succ races =>
          simp only [await, Prog.yields_bind, Prog.yields_guarded, Prog.yields_req, Prog.yields_ret]
          exact fun _ _ _ _ => ih
      | uncommitted e =>
        simp only [Prog.yields_req]
        exact fun _ _ => soundResult_error.2 hr
      | refused e =>
        simp only [Prog.yields_bind]
        refine Prog.yields_of_forall _ fun _ => ?_
        split_ifs
        · exact hr
        · exact soundResult_error.2 hr

theorem walk_yields (tiers : ℕ) (a : Args) (value : V) (rungs : List TierId) {e : CacheError}
    (he : e ≠ .configurationError) : (walk tiers a value rungs e).Yields SoundAnswer
      RungEnd.Sound := by
  induction rungs generalizing e with
  | nil => exact he
  | cons rung rungs ih =>
    rw [walk]
    split_ifs
    · exact ih he
    · simp only [Prog.yields_bind]
      refine (writeAt_yields a value rung maxCommitAttempts).mono fun r hr => ?_
      cases r with
      | finished r => exact hr
      | nextRung e => exact ih hr

theorem setPasses_yields (tiers : ℕ) (a : Args) (value : V) (tier : TierId) (passes : ℕ)
    {e : CacheError} (he : e ≠ .configurationError) :
    (setPasses tiers a value tier passes e).Yields SoundAnswer SoundResult := by
  induction passes generalizing e with
  | zero => exact soundResult_error.2 he
  | succ passes ih =>
    simp only [setPasses, Prog.yields_bind]
    refine (walk_yields tiers a value (descent tier) he).mono fun r hr => ?_
    cases r with
    | finished r => exact hr
    | nextRung e =>
      dsimp only
      split_ifs
      · simp only [Prog.yields_bind]
        refine Prog.yields_of_forall _ fun freed => ?_
        cases freed with
        | true => exact ih hr
        | false => exact soundResult_error.2 hr
      · exact soundResult_error.2 hr

theorem getOrFetch_yields (tiers : ℕ) {a : Args} {d : PolicyDecision}
    (ha : a.admitPopulation = .ok d) :
    (getOrFetch tiers a : Step V (Except CacheError V)).Yields SoundAnswer SoundResult := by
  rw [getOrFetch, ha]
  exact fetchAttempts_yields tiers a d 8

theorem set_yields (tiers : ℕ) {a : Args} (ha : a.admitWrite = .ok ()) (value : V) :
    (set tiers a value).Yields SoundAnswer SoundResult := by
  rw [set, ha]
  simp only [call, noTelemetry_eq, Prog.req_bind, Prog.ret_bind, Prog.yields_req]
  intro snapshot _ failures _
  cases hauthorize : Args.authorize (a.select (.fromSnapshot snapshot failures)) with
  | error e =>
    refine soundResult_error.2 ?_
    rintro rfl
    unfold Args.authorize at hauthorize
    split_ifs at hauthorize
    cases hauthorize
  | ok _ =>
    dsimp only
    split_ifs
    · exact soundResult_error.2 (by decide)
    · exact setPasses_yields tiers a value _ 17 (by decide)

end Manager

end TheSix
