import TheSix.Control.KeySlot
import TheSix.Lib.OpenTable

/-!
# The table of the control plane

`Cachelito` spreads its entries over shards, each an open-addressed table behind a lock. The
placement of an address chooses the shard and the cell a probe starts from; whose cell it is the
whole address decides. A cell, once taken, is never given back.

A method locks one shard, finds the cell of its address and works on the entry there; methods that
create an entry take an empty cell for an address that has none, and fail with
`ConfigurationError` when the shard has no empty one. The two sweeps go from shard to shard, and
are listed by shard. `PlaneStats` and the health stubs, which only observe, are left out.
-/

namespace TheSix

/-- `DEFAULT_SHARD_COUNT`. -/
def defaultShardCount : ℕ := 16

/-- `DEFAULT_CAPACITY_PER_SHARD`. -/
def defaultCapacityPerShard : ℕ := 1024

/-- `RecoveryOutcome`, as far as `resolve_intent` makes it. -/
inductive RecoveryOutcome
  | aborted (kind : IntentKind)
  | completed (kind : IntentKind)
  deriving DecidableEq, Repr

/-- The token `resolve_intent` makes up from a recorded intent. -/
def CommitIntent.tokenFor (intent : CommitIntent) (a : KeyAddress) : CommitToken where
  address := a
  generation := intent.generation
  kind := intent.kind
  targetTier := intent.targetTier

/-- The number a probe for an address starts from. -/
def KeyAddress.home (a : KeyAddress) : ℕ := a.placement.toNat

/-! ## A shard -/

/-- `Shard`. -/
structure Shard where
  entries : List (Option ControlEntry)
  deriving DecidableEq

namespace Shard

variable {β : Type}

/-- `Shard::new`. -/
def new (capacity : ℕ) : Shard := ⟨List.replicate capacity none⟩

/-- `Shard::find_slot`: stop at the first empty cell. -/
def findSlot (s : Shard) (a : KeyAddress) : Option ℕ :=
  OpenTable.find ControlEntry.address KeyAddress.home s.entries a

/-- `Shard::find_empty`: the first cell that is empty, or the address's own. -/
def findEmpty (s : Shard) (a : KeyAddress) : Option ℕ :=
  OpenTable.findEmpty ControlEntry.address KeyAddress.home s.entries a

/-- The entry in a cell. -/
def entryAt (s : Shard) (idx : ℕ) : Option ControlEntry := OpenTable.entryAt s.entries idx

/-- Write an entry into a cell. -/
def put (s : Shard) (idx : ℕ) (e : ControlEntry) : Shard := ⟨s.entries.set idx (some e)⟩

/-- `Shard::find_or_create_entry`: the cell of the entry, in the shard that has it. -/
def findOrCreateEntry (s : Shard) (a : KeyAddress) : Except CacheError (ℕ × Shard) :=
  match s.findSlot a with
  | some idx => .ok (idx, s)
  | none =>
    match s.findEmpty a with
    | some idx => .ok (idx, s.put idx { address := a })
    | none => .error .configurationError

/-- `Shard::find_entry`. -/
def findEntry (s : Shard) (a : KeyAddress) : KeySlot := (s.findSlot a).bind s.entryAt

/-- Work on the entry in a cell. -/
def work (s : Shard) (idx : ℕ) (missing : β) (f : ControlEntry → β × ControlEntry) : β × Shard :=
  match s.entryAt idx with
  | some e => ((f e).1, s.put idx (f e).2)
  | none => (missing, s)

/-- A method that finds the entry, and answers `missing` without one. -/
def withEntry (s : Shard) (a : KeyAddress) (missing : β) (f : ControlEntry → β × ControlEntry) :
    β × Shard :=
  match s.findSlot a with
  | some idx => s.work idx missing f
  | none => (missing, s)

/-- A method that creates a missing entry, and answers `full` when it cannot. -/
def withOrCreate (s : Shard) (a : KeyAddress) (full : β) (f : ControlEntry → β × ControlEntry) :
    β × Shard :=
  match s.findOrCreateEntry a with
  | .ok (idx, s') => s'.work idx full f
  | .error _ => (full, s)

/-- All cells are occupied. -/
def Full (s : Shard) : Prop := ∀ c ∈ s.entries, c.isSome = true

instance : DecidablePred Full := fun s => inferInstanceAs (Decidable (∀ c ∈ s.entries, _))

/-- The part of `stale_intents` that reads one shard. -/
def staleIntents (s : Shard) (cutoff : ℕ) : List (KeyAddress × CommitIntent) :=
  s.entries.filterMap fun c => c.bind fun e => e.intent.bind fun intent =>
    if intent.startedNanos ≤ cutoff then some (e.address, intent) else none

/-- The part of `sweep_expired` that goes over one shard: how many entries it has demoted. -/
def sweepExpired (s : Shard) (now : ℕ) : ℕ × Shard :=
  (s.entries.countP fun c => c.any fun e => (e.sweepExpired now).1,
    ⟨s.entries.map (Option.map fun e => (e.sweepExpired now).2)⟩)

end Shard

/-! ## The table -/

/-- `Cachelito`. -/
structure Cachelito where
  shards : List Shard
  placement : Placement
  nonempty : 0 < shards.length
  deriving DecidableEq

namespace Cachelito

variable {β : Type}

/-- A table of the given numbers of shards and of cells in each: `Cachelito::with_shards` makes at
least one shard. -/
def sized (shardCount capacityPerShard : ℕ) : Cachelito where
  shards := List.replicate (max shardCount 1) (.new capacityPerShard)
  placement := .default
  nonempty := by
    rw [List.length_replicate]
    omega

/-- `Cachelito::with_shards`. -/
def withShards (shardCount : ℕ) : Cachelito := sized shardCount defaultCapacityPerShard

/-- `Cachelito::new`. -/
def new : Cachelito := withShards defaultShardCount

/-- `Cachelito::with_placement`. -/
def withPlacement (t : Cachelito) (placement : Placement) : Cachelito :=
  { t with placement := placement }

/-- `Cachelito::address_of`. -/
def addressOf (t : Cachelito) (key : KeyRef) : KeyAddress := .of key t.placement

/-- `Cachelito::shard_for`. -/
def shardFor (t : Cachelito) (a : KeyAddress) : ℕ := a.placement.toNat % t.shards.length

theorem shardFor_lt (t : Cachelito) (a : KeyAddress) : t.shardFor a < t.shards.length :=
  Nat.mod_lt _ t.nonempty

/-- The shard of an address. -/
def shard (t : Cachelito) (a : KeyAddress) : Shard := t.shards.get ⟨t.shardFor a, t.shardFor_lt a⟩

/-- Replace a shard. -/
def putShard (t : Cachelito) (i : ℕ) (s : Shard) : Cachelito where
  shards := t.shards.set i s
  placement := t.placement
  nonempty := by
    rw [List.length_set]
    exact t.nonempty

/-- Work on the shard of an address. -/
def onShard (t : Cachelito) (a : KeyAddress) (r : β × Shard) : β × Cachelito :=
  (r.1, t.putShard (t.shardFor a) r.2)

def withEntry (t : Cachelito) (a : KeyAddress) (missing : β) (f : ControlEntry → β × ControlEntry) :
    β × Cachelito :=
  t.onShard a ((t.shard a).withEntry a missing f)

def withOrCreate (t : Cachelito) (a : KeyAddress) (full : β) (f : ControlEntry → β × ControlEntry) :
    β × Cachelito :=
  t.onShard a ((t.shard a).withOrCreate a full f)

/-! ## The methods -/

def acquire (t : Cachelito) (a : KeyAddress) (tier : TierId) (now : ℕ) :
    Except CacheError ControlSnapshot × Cachelito :=
  t.withOrCreate a (.error .configurationError) fun e =>
    (.ok (e.acquire tier now).1, (e.acquire tier now).2)

def publish (t : Cachelito) (a : KeyAddress) (expected : Generation) (tier : TierId)
    (ttl : Option ℕ) (now : ℕ) : Except CacheError Unit × Cachelito :=
  t.withEntry a (.error .miss) fun e => e.publish expected tier ttl now

def failWithError (t : Cachelito) (a : KeyAddress) (error : CacheError) :
    Except CacheError Unit × Cachelito :=
  t.withEntry a (.error .miss) fun e => (.ok (), e.failWithError error)

def release (t : Cachelito) (a : KeyAddress) : Except CacheError Unit × Cachelito :=
  t.withEntry a (.ok ()) fun e => (.ok (), e.release)

def invalidate (t : Cachelito) (a : KeyAddress) : Except CacheError Unit × Cachelito :=
  t.withEntry a (.ok ()) fun e => (.ok (), e.invalidate)

def setGeneration (t : Cachelito) (a : KeyAddress) (generation : Generation) :
    Except CacheError Unit × Cachelito :=
  t.withOrCreate a (.error .configurationError) fun e =>
    (.ok (), { e with generation := generation })

def setTier (t : Cachelito) (a : KeyAddress) (tier : TierId) : Except CacheError Unit × Cachelito :=
  t.withOrCreate a (.error .configurationError) fun e => (.ok (), { e with tier := tier })

def setState (t : Cachelito) (a : KeyAddress) (state : EntryState) :
    Except CacheError Unit × Cachelito :=
  t.withOrCreate a (.error .configurationError) fun e => (.ok (), e.setState state)

/-- `Cachelito::peek`. -/
def peek (t : Cachelito) (a : KeyAddress) (now : ℕ) : ControlSnapshot :=
  match (t.shard a).findEntry a with
  | none => .neverWritten
  | some e => e.peek now

def bumpGeneration (t : Cachelito) (a : KeyAddress) : Except CacheError Generation × Cachelito :=
  t.withOrCreate a (.error .configurationError) fun e =>
    (.ok e.bumpGeneration.1, e.bumpGeneration.2)

def releasePopulationClaim (t : Cachelito) (a : KeyAddress) : Bool × Cachelito :=
  t.withEntry a false fun e => e.releasePopulationClaim

def reserveEviction (t : Cachelito) (a : KeyAddress) : Bool × Cachelito :=
  t.withEntry a false fun e => e.reserveEviction

def prepare (t : Cachelito) (a : KeyAddress) (expected : Option Generation) (targetTier : TierId)
    (kind : IntentKind) (now : ℕ) : Except CacheError CommitToken × Cachelito :=
  t.withOrCreate a (.error .configurationError) fun e => e.prepare expected targetTier kind now

def commit (t : Cachelito) (token : CommitToken) (ttl : Option ℕ) (now : ℕ) :
    Except CacheError Unit × Cachelito :=
  t.withEntry token.address (.error .miss) fun e => e.commit token ttl now

def abort (t : Cachelito) (token : CommitToken) (error : CacheError) :
    Except CacheError Unit × Cachelito :=
  t.withEntry token.address (.ok ()) fun e => (.ok (), e.abort error)

def abortProvenClean (t : Cachelito) (token : CommitToken) (error : CacheError) :
    Except CacheError Unit × Cachelito :=
  t.withEntry token.address (.ok ()) fun e => (.ok (), e.abortProvenClean error)

def abortIntentByAddress (t : Cachelito) (a : KeyAddress) (error : CacheError) : Bool × Cachelito :=
  t.withEntry a false fun e => e.abortIntentByAddress error

/-- `Cachelito::resolve_intent`. -/
def resolveIntent (t : Cachelito) (a : KeyAddress) (intent : CommitIntent)
    (direction : RecoveryDirection) (now : ℕ) : Except CacheError RecoveryOutcome × Cachelito :=
  match direction with
  | .abort =>
    let r := t.abort (intent.tokenFor a) .uncommittedIntent
    (r.1.map fun _ => .aborted intent.kind, r.2)
  | .completeForward =>
    let r := t.commit (intent.tokenFor a) none now
    (r.1.map fun _ => .completed intent.kind, r.2)
  | .externalReconciliation => (.error .configurationError, t)

/-- One shard of `Cachelito::stale_intents`. -/
def staleIntentsIn (t : Cachelito) (i : ℕ) (cutoff : ℕ) : List (KeyAddress × CommitIntent) :=
  (t.shards[i]?).elim [] (·.staleIntents cutoff)

/-- One shard of `Cachelito::sweep_expired`. -/
def sweepExpiredIn (t : Cachelito) (i : ℕ) (now : ℕ) : ℕ × Cachelito :=
  match t.shards[i]? with
  | some s => ((s.sweepExpired now).1, t.putShard i (s.sweepExpired now).2)
  | none => (0, t)

end Cachelito

/-! ## Histories of calls -/

/-- A call about one address. -/
inductive EntryOp
  | acquire (a : KeyAddress) (tier : TierId)
  | publish (a : KeyAddress) (expected : Generation) (tier : TierId) (ttl : Option ℕ)
  | failWithError (a : KeyAddress) (error : CacheError)
  | release (a : KeyAddress)
  | invalidate (a : KeyAddress)
  | setGeneration (a : KeyAddress) (generation : Generation)
  | setTier (a : KeyAddress) (tier : TierId)
  | setState (a : KeyAddress) (state : EntryState)
  | peek (a : KeyAddress)
  | bumpGeneration (a : KeyAddress)
  | releasePopulationClaim (a : KeyAddress)
  | reserveEviction (a : KeyAddress)
  | prepare (a : KeyAddress) (expected : Option Generation) (targetTier : TierId)
      (kind : IntentKind)
  | commit (token : CommitToken) (ttl : Option ℕ)
  | abort (token : CommitToken) (error : CacheError)
  | abortProvenClean (token : CommitToken) (error : CacheError)
  | abortIntentByAddress (a : KeyAddress) (error : CacheError)
  | resolveIntent (a : KeyAddress) (intent : CommitIntent) (direction : RecoveryDirection)
  deriving DecidableEq

namespace EntryOp

/-- The type of a call's answer. -/
@[reducible] def Answer : EntryOp → Type
  | acquire _ _ => Except CacheError ControlSnapshot
  | peek _ => ControlSnapshot
  | bumpGeneration _ => Except CacheError Generation
  | prepare _ _ _ _ => Except CacheError CommitToken
  | releasePopulationClaim _ | reserveEviction _ | abortIntentByAddress _ _ => Bool
  | resolveIntent _ _ _ => Except CacheError RecoveryOutcome
  | publish _ _ _ _ | failWithError _ _ | release _ | invalidate _ | setGeneration _ _
  | setTier _ _ | setState _ _ | commit _ _ | abort _ _ | abortProvenClean _ _ =>
    Except CacheError Unit

/-- The address a call is about. -/
def address : EntryOp → KeyAddress
  | acquire a _ | publish a _ _ _ | failWithError a _ | release a | invalidate a | setGeneration a _
  | setTier a _ | setState a _ | peek a | bumpGeneration a | releasePopulationClaim a
  | reserveEviction a | prepare a _ _ _ | abortIntentByAddress a _ | resolveIntent a _ _ => a
  | commit token _ | abort token _ | abortProvenClean token _ => token.address

/-- The calls that create a missing entry. -/
def Creates : EntryOp → Prop
  | acquire _ _ | prepare _ _ _ _ | bumpGeneration _ | setState _ _ | setTier _ _
  | setGeneration _ _ => True
  | _ => False

/-- A creating call answers `ConfigurationError`. -/
def fails : (op : EntryOp) → op.Answer → Bool
  | acquire _ _, .error .configurationError | prepare _ _ _ _, .error .configurationError
  | bumpGeneration _, .error .configurationError | setState _ _, .error .configurationError
  | setTier _ _, .error .configurationError | setGeneration _ _, .error .configurationError => true
  | _, _ => false

end EntryOp

/-- A call of the control plane. The sweeps lock one shard at a time, and are listed by shard. -/
inductive TableOp
  | entry (op : EntryOp)
  | staleIntents (shard cutoff : ℕ)
  | sweepExpired (shard : ℕ)
  deriving DecidableEq

namespace Cachelito

/-- The effect of a call at the instant `now`. -/
def call (t : Cachelito) (now : ℕ) : (op : EntryOp) → op.Answer × Cachelito
  | .acquire a tier => t.acquire a tier now
  | .publish a expected tier ttl => t.publish a expected tier ttl now
  | .failWithError a error => t.failWithError a error
  | .release a => t.release a
  | .invalidate a => t.invalidate a
  | .setGeneration a generation => t.setGeneration a generation
  | .setTier a tier => t.setTier a tier
  | .setState a state => t.setState a state
  | .peek a => (t.peek a now, t)
  | .bumpGeneration a => t.bumpGeneration a
  | .releasePopulationClaim a => t.releasePopulationClaim a
  | .reserveEviction a => t.reserveEviction a
  | .prepare a expected targetTier kind => t.prepare a expected targetTier kind now
  | .commit token ttl => t.commit token ttl now
  | .abort token error => t.abort token error
  | .abortProvenClean token error => t.abortProvenClean token error
  | .abortIntentByAddress a error => t.abortIntentByAddress a error
  | .resolveIntent a intent direction => t.resolveIntent a intent direction now

/-- The table after a call, made at the given instant. -/
def step (t : Cachelito) (x : ℕ × TableOp) : Cachelito :=
  match x.2 with
  | .entry op => (t.call x.1 op).2
  | .staleIntents _ _ => t
  | .sweepExpired i => (t.sweepExpiredIn i x.1).2

end Cachelito

end TheSix
