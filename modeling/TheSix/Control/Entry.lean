import TheSix.Basic

/-!
# A control-plane entry and the methods that change it

`ControlEntry` is what the control plane keeps about one key: its state, its generation, the rung
that holds the value, whether a population or a commit owns it, and the outstanding commit intent.
Every method of `Cachelito` locks one shard, finds the entry of its key and changes it under the
lock; the functions below are those method bodies, as functions of the entry and of the instant
`now` at which the method reads the clock.

The claim of `acquire` is a compare-exchange on a state read under the same lock, so it cannot
lose, and its two losing arms are not reachable.
-/

namespace TheSix

/-- `ControlEntry`. Instants and durations are nanoseconds, with `0` for none, as the source
stores them; `lastError` is the stored error code. `notifications` counts the calls of
`notify_waiters`. -/
structure ControlEntry where
  address : KeyAddress
  state : EntryState := .absent
  generation : Generation := 0
  tier : TierId := .L0
  populationOwner : Bool := false
  populationTimestamp : ℕ := 0
  expirationNanos : ℕ := 0
  lastError : ℕ := 0
  intent : Option CommitIntent := none
  intentPrevState : EntryState := .absent
  notifications : ℕ := 0
  deriving DecidableEq, Repr

/-- Which `Notify` object a snapshot carries: the entry's, or a fresh one nobody signals. -/
inductive NotifyRef
  | entry
  | detached
  deriving DecidableEq, Repr

/-- `ControlSnapshot`. -/
structure ControlSnapshot where
  state : EntryState
  generation : Generation
  tier : TierId
  populationOwner : Bool
  populationTimestamp : Option ℕ
  ttl : Option ℕ
  expired : Bool
  lastError : Option CacheError
  intent : Option CommitIntent
  notify : NotifyRef
  deriving DecidableEq, Repr

namespace ControlEntry

/-! ## The fields -/

/-- `ControlEntry::encode_error`. -/
def encodeError : Option CacheError → ℕ
  | none => 0
  | some .timeout => 1
  | some .populationFailed => 2
  | some .tierUnavailable => 3
  | some .cancelled => 4
  | some _ => 2

/-- `ControlEntry::decode_error`. -/
def decodeError : ℕ → Option CacheError
  | 1 => some .timeout
  | 2 => some .populationFailed
  | 3 => some .tierUnavailable
  | 4 => some .cancelled
  | _ => none

/-- `ControlEntry::instant_to_nanos`: an instant as a `u64`, saturating. -/
def instantToNanos (t : ℕ) : ℕ := min t (2 ^ 64 - 1)

/-- `ControlEntry::nanos_to_instant`. -/
def nanosToInstant (nanos : ℕ) : Option ℕ := if nanos = 0 then none else some nanos

/-- What `ControlEntry::set_ttl` stores: the nanoseconds of a duration, truncated to a `u64`. -/
def ttlNanos (ttl : Option ℕ) : ℕ := ttl.elim 0 (· % 2 ^ 64)

/-- `ControlEntry::ttl`. -/
def ttl (e : ControlEntry) : Option ℕ :=
  if e.expirationNanos = 0 then none else some e.expirationNanos

/-- `ControlEntry::is_expired`. -/
def isExpired (e : ControlEntry) (now : ℕ) : Bool :=
  match e.ttl, nanosToInstant e.populationTimestamp with
  | some ttl, some populatedAt => ttl ≤ now - populatedAt
  | _, _ => false

/-- `Cachelito::snapshot_of`. -/
def snapshotOf (e : ControlEntry) (now : ℕ) (state : EntryState) (generation : Generation)
    (tier : TierId) (populationOwner : Bool) (populationTimestamp : Option ℕ) :
    ControlSnapshot where
  state := state
  generation := generation
  tier := tier
  populationOwner := populationOwner
  populationTimestamp := populationTimestamp
  ttl := e.ttl
  expired := e.isExpired now
  lastError := decodeError e.lastError
  intent := e.intent
  notify := .entry

/-! ## The methods -/

/-- An entry claimed by a population. -/
@[simps address state generation tier populationOwner intent intentPrevState notifications]
def claimed (e : ControlEntry) (tier : TierId) (now : ℕ) : ControlEntry :=
  { e with
    state := .inFlight
    populationOwner := true
    generation := e.generation + 1
    tier := tier
    lastError := encodeError none
    populationTimestamp := instantToNanos now }

/-- `Cachelito::acquire` on an entry: claim it from a claimable state, or report it. -/
def acquire (e : ControlEntry) (tier : TierId) (now : ℕ) : ControlSnapshot × ControlEntry :=
  match e.state with
  | .absent | .failed | .stale =>
    ((e.claimed tier now).snapshotOf now .inFlight (e.generation + 1) tier true (some now),
      e.claimed tier now)
  | s => (e.snapshotOf now s e.generation e.tier false none, e)

/-- An entry a population has published. -/
@[simps address state generation tier populationOwner intent intentPrevState notifications]
def published (e : ControlEntry) (tier : TierId) (ttl : Option ℕ) (now : ℕ) : ControlEntry :=
  { e with
    state := .ready
    tier := tier
    expirationNanos := ttlNanos ttl
    lastError := encodeError none
    populationOwner := false
    populationTimestamp := instantToNanos now
    notifications := e.notifications + 1 }

/-- `Cachelito::publish` on an entry. Only the generation is checked. -/
def publish (e : ControlEntry) (expected : Generation) (tier : TierId) (ttl : Option ℕ)
    (now : ℕ) : Except CacheError Unit × ControlEntry :=
  if expected.isStale e.generation || expected != e.generation then (.error .staleGeneration, e)
  else (.ok (), e.published tier ttl now)

/-- `Cachelito::fail_with_error` on an entry. -/
@[simps address state generation tier populationOwner intent intentPrevState notifications]
def failWithError (e : ControlEntry) (error : CacheError) : ControlEntry :=
  { e with
    state := .failed
    lastError := encodeError (some error)
    populationOwner := false
    populationTimestamp := 0
    notifications := e.notifications + 1 }

/-- `Cachelito::release` on an entry. -/
@[simps address state generation tier populationOwner intent intentPrevState notifications]
def release (e : ControlEntry) : ControlEntry :=
  { e with
    generation := e.generation + 1
    state := .absent
    populationOwner := false
    populationTimestamp := 0
    expirationNanos := ttlNanos none
    lastError := encodeError none
    notifications := e.notifications + 1 }

/-- `Cachelito::invalidate` on an entry: the body of `release`. -/
def invalidate (e : ControlEntry) : ControlEntry := e.release

/-- `Cachelito::set_state` on an entry. -/
@[simps address state generation tier populationOwner intent intentPrevState notifications]
def setState (e : ControlEntry) (state : EntryState) : ControlEntry :=
  { e with state := state, notifications := e.notifications + 1 }

/-- The snapshot `Cachelito::peek` takes of an entry. -/
def peek (e : ControlEntry) (now : ℕ) : ControlSnapshot :=
  e.snapshotOf now e.state e.generation e.tier e.populationOwner
    (nanosToInstant e.populationTimestamp)

/-- `Cachelito::bump_generation` on an entry. -/
def bumpGeneration (e : ControlEntry) : Generation × ControlEntry :=
  (e.generation + 1,
    { e with generation := e.generation + 1, notifications := e.notifications + 1 })

/-- `Cachelito::release_population_claim` on an entry: the intent is kept. -/
def releasePopulationClaim (e : ControlEntry) : Bool × ControlEntry :=
  if e.state ≠ .prepared ∨ e.populationOwner = false then (false, e)
  else (true, { e with
      state := .failed
      generation := e.generation + 1
      populationOwner := false
      notifications := e.notifications + 1 })

/-- An entry given up for eviction. -/
@[simps address state generation tier populationOwner intent intentPrevState notifications]
def evicted (e : ControlEntry) : ControlEntry :=
  { e with
    generation := e.generation + 1
    state := .stale
    notifications := e.notifications + 1 }

/-- `Cachelito::reserve_eviction` on an entry. -/
def reserveEviction (e : ControlEntry) : Bool × ControlEntry :=
  if e.state ≠ .ready ∨ e.populationOwner = true then (false, e)
  else if e.intent.isSome then (false, e)
  else (true, e.evicted)

/-- The intent a `prepare` records. -/
def intentFor (e : ControlEntry) (targetTier : TierId) (kind : IntentKind) (now : ℕ) :
    CommitIntent where
  kind := kind
  targetTier := targetTier.asU8
  generation := e.generation
  startedNanos := instantToNanos now

/-- The token a `prepare` hands out. -/
def tokenFor (e : ControlEntry) (targetTier : TierId) (kind : IntentKind) : CommitToken where
  address := e.address
  generation := e.generation
  kind := kind
  targetTier := targetTier.asU8

/-- An entry with a recorded intent. -/
@[simps address state generation tier populationOwner intent intentPrevState notifications]
def preparedFor (e : ControlEntry) (intent : CommitIntent) : ControlEntry :=
  { e with
    intentPrevState := e.state
    intent := some intent
    state := .prepared
    populationOwner := true }

/-- `Cachelito::prepare` on an entry. It overwrites an outstanding intent, and leaves the
generation as it is. -/
def prepare (e : ControlEntry) (expected : Option Generation) (targetTier : TierId)
    (kind : IntentKind) (now : ℕ) : Except CacheError CommitToken × ControlEntry :=
  if expected.elim false (· != e.generation) then (.error .staleGeneration, e)
  else (.ok (e.tokenFor targetTier kind), e.preparedFor (e.intentFor targetTier kind now))

/-- An entry whose intent was committed. -/
@[simps address state generation tier populationOwner intent intentPrevState notifications]
def committed (e : ControlEntry) (token : CommitToken) (ttl : Option ℕ) (now : ℕ) :
    ControlEntry :=
  { e with
    state := .ready
    tier := (TierId.fromIndex token.targetTier).getD e.tier
    expirationNanos := ttlNanos ttl
    intentPrevState := .ready
    populationOwner := false
    intent := none
    populationTimestamp := instantToNanos now
    lastError := encodeError none
    notifications := e.notifications + 1 }

/-- `Cachelito::commit` on an entry. -/
def commit (e : ControlEntry) (token : CommitToken) (ttl : Option ℕ) (now : ℕ) :
    Except CacheError Unit × ControlEntry :=
  if token.expiredBy e.generation || e.state != .prepared then (.error .staleGeneration, e)
  else (.ok (), e.committed token ttl now)

/-- An entry whose intent was given up: restored when the write provably stored nothing, else
unservable under a new generation. -/
@[simps address state generation tier populationOwner intent intentPrevState notifications]
def aborted (e : ControlEntry) (error : CacheError) (provenClean : Bool) : ControlEntry :=
  { e with
    state := if provenClean then e.intentPrevState else .failed
    generation := if provenClean then e.generation else e.generation + 1
    populationOwner := false
    intent := none
    lastError := encodeError (some error)
    notifications := e.notifications + 1 }

/-- `Cachelito::abort_inner` on an entry. The token only finds the entry: the intent that is
aborted is whichever is outstanding. -/
def abortInner (e : ControlEntry) (error : CacheError) (provenClean : Bool) : ControlEntry :=
  if e.state ≠ .prepared then e else e.aborted error provenClean

/-- `Cachelito::abort`: the write may have landed. -/
def abort (e : ControlEntry) (error : CacheError) : ControlEntry := e.abortInner error false

/-- `Cachelito::abort_proven_clean`: the write provably stored nothing. -/
def abortProvenClean (e : ControlEntry) (error : CacheError) : ControlEntry :=
  e.abortInner error true

/-- `Cachelito::abort_intent_by_address` on an entry. -/
def abortIntentByAddress (e : ControlEntry) (error : CacheError) : Bool × ControlEntry :=
  if e.intent.isNone then (false, e)
  else if e.state ≠ .prepared then (false, e)
  else (true, e.aborted error false)

/-- `Cachelito::sweep_expired` on an entry: whether it was demoted. -/
def sweepExpired (e : ControlEntry) (now : ℕ) : Bool × ControlEntry :=
  if e.tier.isAuthorityRung then (false, e)
  else if e.state = .ready ∧ e.isExpired now = true then
    (true, e.setState .stale)
  else (false, e)

/-! ## The cases of the methods -/

section Cases

variable (e : ControlEntry)

theorem acquire_of_claimable {e : ControlEntry} (h : e.state.isClaimable = true) (tier : TierId)
    (now : ℕ) :
    e.acquire tier now =
      ((e.claimed tier now).snapshotOf now .inFlight (e.generation + 1) tier true (some now),
        e.claimed tier now) := by
  unfold acquire
  cases hs : e.state <;> simp_all [EntryState.isClaimable]

theorem acquire_of_not_claimable {e : ControlEntry} (h : e.state.isClaimable = false)
    (tier : TierId) (now : ℕ) :
    e.acquire tier now = (e.snapshotOf now e.state e.generation e.tier false none, e) := by
  unfold acquire
  cases hs : e.state <;> simp_all [EntryState.isClaimable]

theorem publish_of_eq (tier : TierId) (ttl : Option ℕ) (now : ℕ) :
    e.publish e.generation tier ttl now = (.ok (), e.published tier ttl now) := by
  simp [publish, Generation.isStale]

theorem publish_of_ne {e : ControlEntry} {expected : Generation} (h : expected ≠ e.generation)
    (tier : TierId) (ttl : Option ℕ) (now : ℕ) :
    e.publish expected tier ttl now = (.error .staleGeneration, e) := by
  simp [publish, h]

theorem prepare_none (targetTier : TierId) (kind : IntentKind) (now : ℕ) :
    e.prepare none targetTier kind now =
      (.ok (e.tokenFor targetTier kind), e.preparedFor (e.intentFor targetTier kind now)) := by
  simp [prepare]

theorem commit_of_live {e : ControlEntry} {token : CommitToken}
    (hg : e.generation = token.generation) (hs : e.state = .prepared) (ttl : Option ℕ) (now : ℕ) :
    e.commit token ttl now = (.ok (), e.committed token ttl now) := by
  simp [commit, CommitToken.expiredBy, hg, hs]

theorem commit_of_dead {e : ControlEntry} {token : CommitToken}
    (h : ¬(e.generation = token.generation ∧ e.state = .prepared)) (ttl : Option ℕ) (now : ℕ) :
    e.commit token ttl now = (.error .staleGeneration, e) := by
  unfold commit
  rw [if_pos]
  by_contra hn
  exact h (by simpa [CommitToken.expiredBy] using hn)

theorem abortInner_of_prepared {e : ControlEntry} (h : e.state = .prepared) (error : CacheError)
    (clean : Bool) : e.abortInner error clean = e.aborted error clean := by
  simp [abortInner, h]

theorem abortInner_of_ne {e : ControlEntry} (h : e.state ≠ .prepared) (error : CacheError)
    (clean : Bool) : e.abortInner error clean = e := by
  simp [abortInner, h]

end Cases

end ControlEntry

/-- The snapshot `peek` reports for a key that has no entry. -/
def ControlSnapshot.neverWritten : ControlSnapshot where
  state := .absent
  generation := 0
  tier := .L0
  populationOwner := false
  populationTimestamp := none
  ttl := none
  expired := false
  lastError := none
  intent := none
  notify := .detached

end TheSix
