import TheSix.Manager.Context
import TheSix.Control.KeySlot

/-!
# One key's share of the two planes

The manager reaches the control plane, the rungs, the fetch and the clock only through atomic
calls. `Req` lists them for the calls on one key, `KeyWorld` is what they act on: the key's
control-plane entry, the value each rung holds for the key, and the health of the rungs.

What the environment decides about a call is its `Outcome`: whether a tier call fails, and
whether a failed one took effect all the same, whether a read misses, what the fetch returns,
whether a wait times out. `exec` is the atomic effect of a request. Only a wait for a notification
can be blocked.
-/

namespace TheSix

/-- The functions of `manager.rs` that make requests. -/
inductive Fn
  | get
  | getOrFetch
  | set
  | tryEvictAtRung
  | invalidate
  | remove
  | exists
  | refreshDetailed
  | promote
  | demote
  | moveEntry
  | waitForPopulation
  | waitAndGet
  | becomePopulationOwner
  | populateOnce
  | tryFallbackTier
  deriving DecidableEq, Repr

/-- The requests of the manager about one key. -/
inductive Req (V : Type)
  | peek
  | acquire (tier : TierId)
  | setState (state : EntryState)
  | publish (expected : Generation) (tier : TierId) (ttl : Option ℕ)
  | failWithError (error : CacheError)
  | invalidate
  | release
  | prepare (targetTier : TierId) (kind : IntentKind)
  | commit (token : CommitToken) (ttl : Option ℕ)
  | abort (token : CommitToken) (error : CacheError)
  | abortProvenClean (token : CommitToken) (error : CacheError)
  | evictionCandidate (rung : TierId)
  | reserveEviction (address : KeyAddress)
  | removeIfAddress (rung : TierId) (address : KeyAddress)
  | tierGet (rung : TierId)
  | tierSet (rung : TierId) (value : V) (ttl : Option ℕ)
  | tierRemove (rung : TierId)
  | tierContains (rung : TierId)
  | fetch
  | register (notify : NotifyRef)
  | notified (epoch : Option ℕ)
  | sleep
  | yieldNow
  | tierHealth (rung : TierId)
  | record (rung : TierId) (result : Except CacheError Unit)

/-- The type of a request's answer. -/
@[reducible] def Req.Answer {V : Type} : Req V → Type
  | .peek => ControlSnapshot
  | .acquire _ => Except CacheError ControlSnapshot
  | .prepare _ _ => Except CacheError CommitToken
  | .evictionCandidate _ => Option KeyAddress
  | .reserveEviction _ | .removeIfAddress _ _ => Bool
  | .tierGet _ => Except CacheError (Option V)
  | .tierContains _ => Except CacheError Bool
  | .fetch => Except CacheError V
  | .register _ => Option ℕ
  | .tierHealth _ => ℕ
  | .sleep | .yieldNow | .record _ _ => Unit
  | .setState _ | .publish _ _ _ | .failWithError _ | .invalidate | .release | .commit _ _
  | .abort _ _ | .abortProvenClean _ _ | .tierSet _ _ _ | .tierRemove _ | .notified _ =>
    Except CacheError Unit

/-- What the environment decides about a request. A tier call with no `error` answers `Ok`; a
failed one may have taken `effect`, and so may a removal that answers `Ok` and removed nothing.
A read without `effect` misses. `room` is a free slot in the shard. -/
structure Outcome (V : Type) where
  error : Option CacheError := none
  effect : Bool := true
  room : Bool := true
  fetched : Except CacheError V := .error .populationFailed
  timeout : Bool := false
  candidate : Option KeyAddress := none

/-- The state of one key. -/
structure KeyWorld (V : Type) where
  now : ℕ
  address : KeyAddress
  slot : KeySlot
  rungs : TierId → Option V
  failures : TierId → ℕ

namespace KeyWorld

variable {V : Type}

/-- A key nobody has written. -/
def empty (a : KeyAddress) : KeyWorld V where
  now := 1
  address := a
  slot := none
  rungs := fun _ => none
  failures := fun _ => 0

/-- The key `k` before anybody writes it. -/
def unwritten : KeyWorld V := empty (.of [0, 107] .default)

/-- The number of notifications the key's entry has sent. -/
def notifications (w : KeyWorld V) : ℕ := w.slot.elim 0 (·.notifications)

/-- The effect of a control-plane method. -/
def onSlot {β : Type} (w : KeyWorld V) (r : β × KeySlot) : β × KeyWorld V :=
  (r.1, { w with slot := r.2 })

/-- Change what a rung holds for the key. -/
def store (w : KeyWorld V) (rung : TierId) (v : Option V) : KeyWorld V :=
  { w with rungs := Function.update w.rungs rung v }

/-- Store only when the call took effect. -/
def storeIf (w : KeyWorld V) (effect : Bool) (rung : TierId) (v : Option V) : KeyWorld V :=
  if effect then w.store rung v else w

/-- `TierRegistry::fail` and `recover`, as `record_outcome` and `record_read` call them. -/
def recordOutcome (w : KeyWorld V) (rung : TierId) : Except CacheError Unit → KeyWorld V
  | .ok _ => { w with failures := Function.update w.failures rung 0 }
  | .error .tierUnavailable =>
    { w with failures := Function.update w.failures rung (w.failures rung + 1) }
  | .error _ => w

/-- The atomic effect of a request. -/
def exec : (q : Req V) → Outcome V → KeyWorld V → Option (q.Answer × KeyWorld V)
  | .peek, _, w => some (w.slot.peek w.now, w)
  | .acquire tier, o, w => some (w.onSlot (w.slot.acquire w.address o.room tier w.now))
  | .setState state, o, w => some (w.onSlot (w.slot.setState w.address o.room state))
  | .publish g tier ttl, _, w => some (w.onSlot (w.slot.publish g tier ttl w.now))
  | .failWithError e, _, w => some (w.onSlot (w.slot.failWithError e))
  | .invalidate, _, w => some (w.onSlot w.slot.invalidate)
  | .release, _, w => some (w.onSlot w.slot.release)
  | .prepare tier kind, o, w =>
    some (w.onSlot (w.slot.prepare w.address o.room none tier kind w.now))
  | .commit token ttl, _, w => some (w.onSlot (w.slot.commit token ttl w.now))
  | .abort _ e, _, w => some (w.onSlot (w.slot.abort e))
  | .abortProvenClean _ e, _, w => some (w.onSlot (w.slot.abortProvenClean e))
  | .evictionCandidate _, o, w => some (o.candidate, w)
  | .reserveEviction address, o, w =>
    -- another key's entry is outside this world
    if address = w.address then some (w.onSlot w.slot.reserveEviction) else some (o.effect, w)
  | .removeIfAddress rung address, o, w =>
    if address = w.address then some (o.effect, w.storeIf o.effect rung none)
    else some (o.effect, w)
  | .tierGet rung, o, w =>
    match o.error with
    | some e => some (.error e, w)
    | none => some (.ok (if o.effect then w.rungs rung else none), w)
  | .tierSet rung value _, o, w =>
    match o.error with
    | some e => some (.error e, w.storeIf o.effect rung (some value))
    | none => some (.ok (), w.store rung (some value))
  | .tierRemove rung, o, w =>
    match o.error with
    | some e => some (.error e, w.storeIf o.effect rung none)
    | none => some (.ok (), w.storeIf o.effect rung none)
  | .tierContains rung, o, w =>
    match o.error with
    | some e => some (.error e, w)
    | none => some (.ok (o.effect && (w.rungs rung).isSome), w)
  | .fetch, o, w => some (o.fetched, w)
  | .register notify, _, w =>
    match notify with
    | .entry => some (some w.notifications, w)
    | .detached => some (none, w)
  | .notified epoch, o, w =>
    if o.timeout then some (.error .timeout, w)
    else if epoch.elim false (· != w.notifications) then some (.ok (), w)
    else none
  | .sleep, _, w => some ((), w)
  | .yieldNow, _, w => some ((), w)
  | .tierHealth rung, _, w => some (w.failures rung, w)
  | .record rung result, _, w => some ((), w.recordOutcome rung result)

/-- Time passes. -/
def tick (d : ℕ) (w : KeyWorld V) : KeyWorld V := { w with now := w.now + d }

end KeyWorld

end TheSix
