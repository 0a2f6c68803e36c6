import TheSix.Manager.World
import TheSix.Lib.Coroutine

/-!
# The calls of the manager

The public methods of `CacheManager` as programs of atomic requests. An `.await` of the source is
an await point here, and the two `Drop` guards are the clean-up of the stretches they are armed
over: `PopulationGuard` fails the entry, `IntentGuard` aborts the intent.

Loops carry their bound: the three attempts of a population, the eight of `get_or_fetch`, the
commit races, the rungs of the ladder and the eviction passes of `set`.

The programs that leave records are generic in what becomes of these (`Recording`). With
`noTelemetry` nothing does, and that is the manager of the protocol results. What a sink that keeps
them is told is the subject of `Observed`.
-/

namespace TheSix

open Coroutine

/-- A program of the manager. -/
abbrev Step (V R : Type) := Prog Fn (Req V) Req.Answer R

namespace Manager

variable {V : Type}

/-- A request that runs to its end. -/
def call (f : Fn) (q : Req V) : Step V q.Answer := .req f q none .ret

/-- A request the call awaits. -/
def await (f : Fn) (q : Req V) : Step V q.Answer := .req f q (some []) .ret

/-! ## Telemetry -/

/-- What becomes of the records of a program with the requests `ι`: how a stretch that leaves none is
run and a guard is armed, and the methods of `CacheManager` that leave one. -/
class Recording (V : outParam Type) (ι : Type) (α : ι → Type) where
  /-- A stretch that leaves no record. -/
  silent {R : Type} (p : Step V R) : Prog Fn ι α R
  /-- A guard that is armed over a stretch, with its clean-up. -/
  armed {R : Type} (cleanup : List (Req V)) (p : Prog Fn ι α R) : Prog Fn ι α R
  /-- `observed_read`. -/
  observedRead (f : Fn) (op : Operation) (rung : TierId) :
    Prog Fn ι α (Except CacheError (Option V))
  /-- `observed_write`. -/
  observedWrite (f : Fn) (op : Operation) (rung : TierId) (value : V) (ttl : Option ℕ) :
    Prog Fn ι α (Except CacheError Unit)
  /-- `observed_control_only`. -/
  observedControlOnly (f : Fn) (op : Operation) (rung : TierId) (outcome : RecordedOutcome) :
    Prog Fn ι α Unit
  /-- `record_fallback`. -/
  recordFallback (rung : TierId) (cause : CacheError) : Prog Fn ι α Unit
  /-- `record_telemetry_refresh_failure`. -/
  recordRefreshFailure (snapshot : ControlSnapshot) (cause : CacheError) : Prog Fn ι α Unit
  /-- The record that `become_population_owner` makes of a population that failed for good. -/
  recordPopulationFailure (rung : TierId) (e : CacheError) : Prog Fn ι α Unit

export Recording (silent armed observedRead observedWrite observedControlOnly recordFallback
  recordRefreshFailure recordPopulationFailure)

/-- With `NoTelemetry`: the tier calls are made, and nothing is recorded. -/
@[default_instance]
instance noTelemetry : Recording V (Req V) Req.Answer where
  silent p := p
  armed cleanup p := p.guarded cleanup
  observedRead f _ rung := await f (.tierGet rung)
  observedWrite f _ rung value ttl := await f (.tierSet rung value ttl)
  observedControlOnly _ _ _ _ := .ret ()
  recordFallback _ _ := .ret ()
  recordRefreshFailure _ _ := .ret ()
  recordPopulationFailure _ _ := .ret ()

theorem silent_eq {R : Type} (p : Step V R) : (silent p : Step V R) = p := rfl

theorem armed_eq {R : Type} (cleanup : List (Req V)) (p : Step V R) :
    (armed cleanup p : Step V R) = p.guarded cleanup := rfl

/-- What the methods are without telemetry. -/
@[simp] theorem noTelemetry_eq :
    (∀ {R : Type} (p : Step V R), (silent p : Step V R) = p) ∧
    (∀ {R : Type} (cleanup : List (Req V)) (p : Step V R),
      (armed cleanup p : Step V R) = p.guarded cleanup) ∧
    (∀ f op rung, (observedRead f op rung : Step V _) = await f (.tierGet rung)) ∧
    (∀ f op rung (value : V) ttl,
      (observedWrite f op rung value ttl : Step V _) = await f (.tierSet rung value ttl)) ∧
    (∀ f op rung outcome, (observedControlOnly f op rung outcome : Step V Unit) = .ret ()) ∧
    (∀ rung cause, (recordFallback rung cause : Step V Unit) = .ret ()) ∧
    (∀ snapshot cause, (recordRefreshFailure snapshot cause : Step V Unit) = .ret ()) ∧
    ∀ rung e, (recordPopulationFailure rung e : Step V Unit) = .ret () :=
  ⟨silent_eq, armed_eq, fun _ _ _ => rfl, fun _ _ _ _ _ => rfl, fun _ _ _ _ => rfl,
    fun _ _ => rfl, fun _ _ => rfl, fun _ _ => rfl⟩

variable {ι : Type} {α : ι → Type} [S : Recording V ι α]

/-! ## Rungs -/

/-- `CacheManager::has_tier` of a manager with `tiers` bound rungs. -/
def hasTier (tiers : ℕ) (rung : TierId) : Bool := rung.asUsize < tiers

/-- `previous_rung`. -/
def previousRung (rung : TierId) : TierId :=
  match rung.asUsize with
  | 0 => .L6
  | n + 1 => (TierId.fromUsize n).getD .L0

/-- The rungs a write walks from `rung` on: `rung`, the ones `previous_rung` names, down to `L0`. -/
def descent : TierId → List TierId
  | .L0 => [.L0]
  | .L1 => [.L1, .L0]
  | .L2 => [.L2, .L1, .L0]
  | .L3 => [.L3, .L2, .L1, .L0]
  | .L4 => [.L4, .L3, .L2, .L1, .L0]
  | .L5 => [.L5, .L4, .L3, .L2, .L1, .L0]
  | .L6 => []

theorem descent_eq (rung : TierId) :
    descent rung = if rung.isCacheRung then rung :: descent (previousRung rung) else [] := by
  cases rung <;> rfl

/-- The walk of `nearest_bound_rung` from an index of the ladder. -/
def nearestFrom (tiers : ℕ) : ℕ → Option TierId
  | 0 => if hasTier tiers .L0 then some .L0 else none
  | idx + 1 =>
    match TierId.fromUsize (idx + 1) with
    | none => none
    | some candidate => if hasTier tiers candidate then some candidate else nearestFrom tiers idx

/-- `CacheManager::nearest_bound_rung`. -/
def nearestBoundRung (tiers : ℕ) (wanted : TierId) : Option TierId :=
  if wanted.isCacheRung then nearestFrom tiers wanted.asUsize else none

/-! ## Waiting for a population -/

/-- `CacheManager::wait_for_population`. -/
def waitForPopulation (snapshot : ControlSnapshot) : Step V (Except CacheError Unit) := do
  let epoch ← call .waitForPopulation (.register snapshot.notify)
  let now ← call .waitForPopulation .peek
  if now.state ≠ .inFlight ∧ now.state ≠ .prepared then return .ok ()
  await .waitForPopulation (.notified epoch)

/-- `CacheManager::wait_and_get`. -/
def waitAndGet (tiers : ℕ) (snapshot : ControlSnapshot) : Prog Fn ι α (Except CacheError V) := do
  match ← silent (waitForPopulation snapshot) with
  | .error e => return .error e
  | .ok _ =>
    let after ← silent (call .waitAndGet .peek)
    match after.lastError with
    | some e => return .error e
    | none =>
      if after.state.isReadable = false then return .error .miss
      if hasTier tiers after.tier = false then return .error .tierUnavailable
      match ← observedRead .waitAndGet .getOrFetch after.tier with
      | .ok (some v) => return .ok v
      | .ok none => return .error .miss
      | .error e => return .error e

/-! ## Populating -/

/-- `CacheManager::is_retryable`. -/
def isRetryable : CacheError → Bool
  | .tierUnavailable | .timeout | .populationFailed => true
  | _ => false

/-- `CacheManager::populate_once`. -/
def populateOnce (tiers : ℕ) (a : Args) (decision : PolicyDecision) (expected : Generation) :
    Prog Fn ι α (Except CacheError V) := do
  match ← silent (await .populateOnce .fetch) with
  | .error e => return .error e
  | .ok value =>
    match nearestBoundRung tiers decision.tier with
    | none => return .error .tierUnavailable
    | some rung =>
      let result ← observedWrite .populateOnce .getOrFetch rung value a.ttl
      let _ ← silent (call .populateOnce (.record rung result))
      match result with
      | .error e => return .error e
      | .ok _ =>
        match ← silent (call .populateOnce (.publish expected rung a.ttl)) with
        | .error e => return .error e
        | .ok _ => return .ok value

/-- The attempts of a population, under its guard, with the retries that are left. -/
def populateAttempts (tiers : ℕ) (a : Args) (decision : PolicyDecision) (expected : Generation) :
    ℕ → Prog Fn ι α (Except CacheError V)
  | 0 => populateOnce tiers a decision expected
  | retries + 1 => do
    match ← populateOnce tiers a decision expected with
    | .ok value => return .ok value
    | .error e =>
      if isRetryable e then
        let _ ← silent (await .becomePopulationOwner .sleep)
        populateAttempts tiers a decision expected retries
      else return .error e

/-- The scan of `CacheManager::try_fallback_tier` over the rungs that are left. -/
def scanRungs (tiers : ℕ) (cause : CacheError) : List TierId → Prog Fn ι α (Except CacheError V)
  | [] => return .error cause
  | rung :: rungs =>
    if hasTier tiers rung = false then scanRungs tiers cause rungs
    else do
      let failures ← silent (call .tryFallbackTier (.tierHealth rung))
      if isCircuitOpen failures then scanRungs tiers cause rungs
      else
        match ← silent (await .tryFallbackTier (.tierGet rung)) with
        | .ok (some v) =>
          recordFallback rung cause
          return .ok v
        | _ => scanRungs tiers cause rungs

/-- `CacheManager::try_fallback_tier`. -/
def tryFallbackTier (tiers : ℕ) (cause : CacheError) : Prog Fn ι α (Except CacheError V) :=
  scanRungs tiers cause cacheLadder

/-- `CacheManager::become_population_owner`. -/
def becomePopulationOwner (tiers : ℕ) (a : Args) (decision : PolicyDecision)
    (expected : Generation) : Prog Fn ι α (Except CacheError V) := do
  -- `MAX_POPULATE_ATTEMPTS` is three: the first attempt and two retries
  match ← armed [.failWithError .cancelled] (populateAttempts tiers a decision expected 2) with
  | .ok value => return .ok value
  | .error e =>
    recordPopulationFailure decision.tier e
    let _ ← silent (call .becomePopulationOwner (.failWithError e))
    if e = .staleGeneration then return .error .staleGeneration
    if decision.failMode = .open then tryFallbackTier tiers e
    else return .error e

/-! ## Reading -/

/-- `CacheManager::get`. -/
def get (tiers : ℕ) (a : Args) : Prog Fn ι α (Except CacheError (Option V)) :=
  match a.admitEncoded with
  | .error e => do
    -- the source makes no record when the key is not framed; without a key a sink keeps none
    observedControlOnly .get .get a.refusedTier (.fromError e)
    return .error e
  | .ok _ => do
    let snapshot ← silent (call .get .peek)
    if snapshot.state = .ready ∧ snapshot.expired = false then
      if hasTier tiers snapshot.tier = false then
        observedControlOnly .get .get snapshot.tier (.fromError .tierUnavailable)
        return .error .tierUnavailable
      let result ← observedRead .get .get snapshot.tier
      let _ ← silent (call .get (.record snapshot.tier (result.map fun _ => ())))
      match result with
      | .error e => return .error e
      | .ok v =>
        -- revalidation: only the state is checked again
        let after ← silent (call .get .peek)
        if after.state = .ready then return .ok v else return .error .miss
    else if snapshot.state = .ready then
      let _ ← silent (call .get (.setState .stale))
      observedControlOnly .get .get snapshot.tier .miss
      return .error .miss
    else if (snapshot.state = .inFlight ∨ snapshot.state = .prepared) ∧
        snapshot.populationOwner = false then
      match ← silent (waitForPopulation snapshot) with
      | .error e => return .error e
      | .ok _ =>
        let after ← silent (call .get .peek)
        match after.lastError with
        | some e => return .error e
        | none =>
          if after.state ≠ .ready then return .error .miss
          if hasTier tiers after.tier = false then return .error .tierUnavailable
          let result ← observedRead .get .get after.tier
          let _ ← silent (call .get (.record after.tier (result.map fun _ => ())))
          return result
    else
      observedControlOnly .get .get snapshot.tier .miss
      return .error .miss

/-- The arms of `get_or_fetch` once its fast path is behind it; `again` is the next attempt. -/
def joinOrPopulate (tiers : ℕ) (a : Args) (decision : PolicyDecision) (snapshot : ControlSnapshot)
    (again : Prog Fn ι α (Except CacheError V)) : Prog Fn ι α (Except CacheError V) :=
  if snapshot.state = .inFlight ∧ snapshot.populationOwner = false then waitAndGet tiers snapshot
  else if snapshot.state = .prepared ∧ snapshot.populationOwner = true then do
    match ← silent (waitForPopulation snapshot) with
    | .error e => return .error e
    | .ok _ => again
  else if snapshot.state = .prepared then waitAndGet tiers snapshot
  else becomePopulationOwner tiers a decision snapshot.generation

/-- `get_or_fetch` once it has its snapshot: the fast path, then the arms. -/
def fetchFrom (tiers : ℕ) (a : Args) (decision : PolicyDecision) (snapshot : ControlSnapshot)
    (again : Prog Fn ι α (Except CacheError V)) : Prog Fn ι α (Except CacheError V) :=
  if snapshot.state = .ready ∧ snapshot.expired = false then
    if hasTier tiers snapshot.tier = false then return .error .tierUnavailable
    else do
      match ← observedRead .getOrFetch .getOrFetch snapshot.tier with
      | .ok (some v) => return .ok v
      | .ok none => joinOrPopulate tiers a decision snapshot again
      | .error e => return .error e
  else joinOrPopulate tiers a decision snapshot again

/-- The attempts of `get_or_fetch`. -/
def fetchAttempts (tiers : ℕ) (a : Args) (decision : PolicyDecision) :
    ℕ → Prog Fn ι α (Except CacheError V)
  | 0 => return .error .timeout
  | attempts + 1 => do
    match ← silent (call .getOrFetch (.acquire decision.tier)) with
    | .error e => return .error e
    | .ok first =>
      if first.state = .ready ∧ first.expired = true then
        let _ ← silent (call .getOrFetch (.setState .stale))
        match ← silent (call .getOrFetch (.acquire decision.tier)) with
        | .error e => return .error e
        | .ok snapshot =>
          fetchFrom tiers a decision snapshot (fetchAttempts tiers a decision attempts)
      else fetchFrom tiers a decision first (fetchAttempts tiers a decision attempts)

/-- `CacheManager::get_or_fetch`, with `MAX_POPULATION_ATTEMPTS` of eight. -/
def getOrFetch (tiers : ℕ) (a : Args) : Prog Fn ι α (Except CacheError V) :=
  match a.admitPopulation with
  | .error e => return .error e
  | .ok decision => fetchAttempts tiers a decision 8

/-- `CacheManager::exists`. -/
def «exists» (tiers : ℕ) (a : Args) : Step V (Except CacheError Bool) :=
  match a.admitKey with
  | .error e => return .error e
  | .ok _ => do
    let snapshot ← call .exists .peek
    if snapshot.state ≠ .ready then return .ok false
    if hasTier tiers snapshot.tier = false then return .ok false
    await .exists (.tierContains snapshot.tier)

/-! ## Writing -/

/-- `write_provably_stored_nothing`. -/
def writeProvablyStoredNothing : CacheError → Bool
  | .serializationFailed | .capacityExhausted => true
  | _ => false

/-- The errors of a rung that send a write to the next one. -/
def degrades : CacheError → Bool
  | .capacityExhausted | .tierUnavailable | .timeout | .corrupted | .serializationFailed
  | .writeIndeterminate => true
  | _ => false

/-- How the stretch of a write under its intent guard ends. -/
inductive WriteEnd
  | committed
  | lostRace
  | uncommitted (e : CacheError)
  | refused (e : CacheError)

/-- How the writes at one rung end: with the answer of the call, or with the next rung. -/
inductive RungEnd
  | finished (r : Except CacheError Unit)
  | nextRung (e : CacheError)

/-- The data write and the commit of `set`, under the intent guard. -/
def writeUnder (a : Args) (value : V) (rung : TierId) (token : CommitToken) :
    Prog Fn ι α WriteEnd := do
  let result ← observedWrite .set .set rung value a.ttl
  let _ ← silent (call .set (.record rung result))
  match result with
  | .ok _ =>
    match ← silent (call .set (.commit token a.ttl)) with
    | .ok _ => return .committed
    | .error e =>
      if e = .staleGeneration then return .lostRace
      let _ ← silent (await .set (.tierRemove rung))
      return .uncommitted e
  | .error e =>
    if e = .writeIndeterminate then
      let _ ← silent (await .set (.tierRemove rung))
      return .refused e
    else return .refused e

/-- Release the intent of a refused write: cleanly when the error proves nothing was stored. -/
def abortRefused (token : CommitToken) (e : CacheError) : Step V (Except CacheError Unit) :=
  if writeProvablyStoredNothing e then call .set (.abortProvenClean token e)
  else call .set (.abort token e)

/-- The commit races of `set` at one rung, as many as are left. -/
def writeAt (a : Args) (value : V) (rung : TierId) : ℕ → Prog Fn ι α RungEnd
  | 0 => return .finished (.error .writeContended)
  | races + 1 => do
    match ← silent (call .set (.prepare rung .write)) with
    | .error e => return .finished (.error e)
    | .ok token =>
      match ← armed [.abort token .cancelled] (writeUnder a value rung token) with
      | .committed => return .finished (.ok ())
      | .lostRace =>
        match races with
        | 0 =>
          let _ ← silent (call .set (.abort token .cancelled))
          return .finished (.error .writeContended)
        | races + 1 =>
          -- the guard is still armed while the loser yields, and aborts as the loop goes on
          let _ ← armed [.abort token .cancelled] (silent (await .set .yieldNow))
          let _ ← silent (call .set (.abort token .cancelled))
          writeAt a value rung (races + 1)
      | .uncommitted e =>
        let _ ← silent (call .set (.abort token e))
        return .finished (.error e)
      | .refused e =>
        let _ ← silent (abortRefused token e)
        if degrades e then return .nextRung e else return .finished (.error e)

/-- `MAX_COMMIT_ATTEMPTS`. -/
def maxCommitAttempts : ℕ := 64

/-- The ladder walk of `set` over the rungs that are left; `lastError` is the error of the last
rung that refused. -/
def walk (tiers : ℕ) (a : Args) (value : V) : List TierId → CacheError → Prog Fn ι α RungEnd
  | [], lastError => return .nextRung lastError
  | rung :: rungs, lastError =>
    if hasTier tiers rung = false then walk tiers a value rungs lastError
    else do
      match ← writeAt a value rung maxCommitAttempts with
      | .finished r => return .finished r
      | .nextRung e => walk tiers a value rungs e

/-- `CacheManager::try_evict_at_rung`, with the attempts that are left to the write. -/
def tryEvictAtRung (rung : TierId) : ℕ → Step V (Bool × ℕ)
  | 0 => return (false, 0)
  | attempts + 1 => do
    match ← call .tryEvictAtRung (.evictionCandidate rung) with
    | none => return (false, attempts)
    | some address =>
      match ← call .tryEvictAtRung (.reserveEviction address) with
      | true =>
        let freed ← call .tryEvictAtRung (.removeIfAddress rung address)
        return (freed, attempts)
      | false => tryEvictAtRung rung attempts

/-- `CacheManager::try_free_somewhere_in_the_ladder` over the rungs that are left. -/
def tryFreeSomewhere (tiers : ℕ) : List TierId → ℕ → Step V Bool
  | [], _ => return false
  | rung :: rungs, attempts =>
    if hasTier tiers rung = false then tryFreeSomewhere tiers rungs attempts
    else do
      match ← tryEvictAtRung rung attempts with
      | (true, _) => return true
      | (false, attempts) => tryFreeSomewhere tiers rungs attempts

/-- `MAX_EVICTION_ATTEMPTS`. -/
def maxEvictionAttempts : ℕ := 8

/-- The passes of `set`: walk the ladder, and after a full one free a slot and walk again. -/
def setPasses (tiers : ℕ) (a : Args) (value : V) (tier : TierId) :
    ℕ → CacheError → Prog Fn ι α (Except CacheError Unit)
  | 0, lastError => return .error lastError
  | passes + 1, lastError => do
    match ← walk tiers a value (descent tier) lastError with
    | .finished r => return r
    | .nextRung e =>
      if e = .capacityExhausted then
        match ← silent (tryFreeSomewhere tiers cacheLadder maxEvictionAttempts) with
        | true => setPasses tiers a value tier passes e
        | false => return .error e
      else return .error e

/-- `CacheManager::set`: one walk and `MAX_EVICTION_PASSES` of sixteen after it. -/
def set (tiers : ℕ) (a : Args) (value : V) : Prog Fn ι α (Except CacheError Unit) :=
  match a.admitWrite with
  | .error e => return .error e
  | .ok _ => do
    let snapshot ← silent (call .set .peek)
    let failures ← silent (call .set (.tierHealth snapshot.tier))
    let decision := a.select (.fromSnapshot snapshot failures)
    match Args.authorize decision with
    | .error e => return .error e
    | .ok _ =>
      if decision.tier = authorityTier then return .error .policyDenied
      else setPasses tiers a value decision.tier 17 .tierUnavailable

/-- `CacheManager::invalidate`. -/
def invalidate (a : Args) : Step V (Except CacheError Unit) :=
  match a.admitKey with
  | .error e => return .error e
  | .ok _ => call .invalidate .invalidate

/-- The removals of `remove` from the bound cache rungs. -/
def removeFrom (tiers : ℕ) : List TierId → Step V Unit
  | [] => return ()
  | rung :: rungs =>
    if hasTier tiers rung = false then removeFrom tiers rungs
    else do
      let _ ← await .remove (.tierRemove rung)
      removeFrom tiers rungs

/-- `CacheManager::remove`. -/
def remove (tiers : ℕ) (a : Args) : Step V (Except CacheError Unit) :=
  match a.admitKey with
  | .error e => return .error e
  | .ok _ => do
    removeFrom tiers cacheLadder
    call .remove .release

/-! ## Moving -/

/-- The data steps and the commit of `move_entry`, under the intent guard: `none` when the move
was committed. Its own read leaves no record, and its write one under the name of `promote`, also
when it demotes. -/
def moveUnder (a : Args) (source destination : TierId) (token : CommitToken) :
    Prog Fn ι α (Option CacheError) := do
  match ← silent (await .moveEntry (.tierGet source)) with
  | .error e => return some e
  | .ok none => return some .miss
  | .ok (some value) =>
    let result ← observedWrite .moveEntry .promote destination value a.ttl
    let _ ← silent (call .moveEntry (.record destination result))
    match result with
    | .error e => return some e
    | .ok _ =>
      let removed ← silent (await .moveEntry (.tierRemove source))
      let _ ← silent (call .moveEntry (.record source removed))
      match ← silent (call .moveEntry (.commit token a.ttl)) with
      | .ok _ => return none
      | .error e =>
        let _ ← silent (await .moveEntry (.tierRemove destination))
        return some e

/-- `CacheManager::move_entry`. -/
def moveEntry (tiers : ℕ) (a : Args) (source destination : TierId) :
    Prog Fn ι α (Except CacheError Unit) := do
  match ← silent (call .moveEntry (.prepare destination .move)) with
  | .error e => return .error e
  | .ok token =>
    if hasTier tiers source = false ∨ hasTier tiers destination = false then
      -- the early return drops the armed guard
      let _ ← silent (call .moveEntry (.abort token .cancelled))
      return .error .tierUnavailable
    else
      match ← armed [.abort token .cancelled] (moveUnder a source destination token) with
      | none => return .ok ()
      | some e =>
        let _ ← silent (call .moveEntry (.abort token e))
        return .error e

/-- `CacheManager::promote`. -/
def promote (tiers : ℕ) (a : Args) : Prog Fn ι α (Except CacheError Unit) :=
  match a.admitKey with
  | .error e => return .error e
  | .ok _ => do
    let snapshot ← silent (call .promote .peek)
    if snapshot.state ≠ .ready then return .error .miss
    if snapshot.tier.isCacheRung = false ∨ snapshot.tier.asUsize = 0 then return .ok ()
    match TierId.fromUsize (snapshot.tier.asUsize - 1) with
    | none => return .error .configurationError
    | some destination => moveEntry tiers a snapshot.tier destination

/-- `CacheManager::demote`. -/
def demote (tiers : ℕ) (a : Args) : Prog Fn ι α (Except CacheError Unit) :=
  match a.admitKey with
  | .error e => return .error e
  | .ok _ => do
    let snapshot ← silent (call .demote .peek)
    if snapshot.state ≠ .ready then return .error .miss
    if snapshot.tier.isCacheRung = false ∨ lastCacheTier.asUsize ≤ snapshot.tier.asUsize then
      return .ok ()
    match TierId.fromUsize (snapshot.tier.asUsize + 1) with
    | none => return .error .configurationError
    | some destination => moveEntry tiers a snapshot.tier destination

/-- `promote` and `demote` behind their gates: which rungs an entry stays on, and the index it is
moved to. -/
def moveAlong (tiers : ℕ) (a : Args) (f : Fn) (stays : TierId → Bool) (shift : ℕ → ℕ) :
    Prog Fn ι α (Except CacheError Unit) := do
  let snapshot ← silent (call f .peek)
  if snapshot.state ≠ .ready then return .error .miss
  if stays snapshot.tier then return .ok ()
  match TierId.fromUsize (shift snapshot.tier.asUsize) with
  | none => return .error .configurationError
  | some destination => moveEntry tiers a snapshot.tier destination

theorem promote_eq {tiers : ℕ} {a : Args} {d : PolicyDecision} (h : a.admitKey = .ok d) :
    (promote tiers a : Prog Fn ι α _) =
      moveAlong tiers a .promote (fun t => t.isCacheRung = false ∨ t.asUsize = 0) (· - 1) := by
  simp only [promote, moveAlong, h, decide_eq_true_eq]

theorem demote_eq {tiers : ℕ} {a : Args} {d : PolicyDecision} (h : a.admitKey = .ok d) :
    (demote tiers a : Prog Fn ι α _) = moveAlong tiers a .demote
      (fun t => t.isCacheRung = false ∨ lastCacheTier.asUsize ≤ t.asUsize) (· + 1) := by
  simp only [demote, moveAlong, h, decide_eq_true_eq]

/-- A rung that an entry leaves is a cache rung, and the move leads to another one. -/
def Steps (stays : TierId → Bool) (shift : ℕ → ℕ) : Prop :=
  ∀ rung, stays rung = false → rung.isCacheRung = true ∧
    ∃ d, TierId.fromUsize (shift rung.asUsize) = some d ∧ d.isCacheRung = true ∧ d ≠ rung

theorem promote_steps : Steps (fun t => t.isCacheRung = false ∨ t.asUsize = 0) (· - 1) := by
  intro rung
  cases rung <;> decide

theorem demote_steps :
    Steps (fun t => t.isCacheRung = false ∨ lastCacheTier.asUsize ≤ t.asUsize) (· + 1) := by
  intro rung
  cases rung <;> decide

/-! ## Refreshing -/

/-- `Lookup`: a value, and whether it is `Fresh`. -/
structure Lookup (V : Type) where
  value : Option V
  fresh : Bool
  deriving DecidableEq

/-- The value `refresh_detailed` reads before it revalidates. -/
def readCurrent (tiers : ℕ) (before : ControlSnapshot) : Step V (Option V) :=
  if before.state.isReadable = false ∨ hasTier tiers before.tier = false then return none
  else do
    match ← await .refreshDetailed (.tierGet before.tier) with
    | .ok v => return v
    | .error _ => return none

/-- The claim of `refresh_detailed` and the population behind it, which fails closed whatever the
policy says; `current` is served when there is nothing better. -/
def revalidate (tiers : ℕ) (a : Args) (decision : PolicyDecision) (current : Option V) :
    Prog Fn ι α (Except CacheError (Lookup V)) := do
  match ← silent (call .refreshDetailed (.acquire decision.tier)) with
  | .error e => return .error e
  | .ok snapshot =>
    if snapshot.populationOwner = false then return .ok ⟨current, false⟩
    match ← becomePopulationOwner tiers a { decision with failMode := .closed }
        snapshot.generation with
    | .ok value => return .ok ⟨some value, true⟩
    | .error e =>
      if current.isSome then
        recordRefreshFailure snapshot e
        return .ok ⟨current, false⟩
      else return .error e

/-- `CacheManager::refresh_detailed`. -/
def refreshDetailed (tiers : ℕ) (a : Args) : Prog Fn ι α (Except CacheError (Lookup V)) :=
  match a.admitPopulation with
  | .error e => return .error e
  | .ok decision => do
    let before ← silent (call .refreshDetailed .peek)
    let current ← silent (readCurrent tiers before)
    if before.state = .ready ∧ before.expired = false then
      let _ ← silent (call .refreshDetailed (.setState .stale))
      revalidate tiers a decision current
    else revalidate tiers a decision current

end Manager

end TheSix
