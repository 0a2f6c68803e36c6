import TheSix.Basic
import TheSix.Lib.Probe

/-!
# The fixed-capacity rung

`FixedTierStub` is one rung's storage: a pre-allocated pool of values (`pool.rs`) and an
open-addressed index of slots (`tier/fixed_tier_stub.rs`). A slot names a key by its fingerprint,
points into the pool, and carries the digest of the value and an optional deadline.

Two scans of the slot table are in play, and they do not follow one rule. `findSlot`, used by
`get`, `remove` and `contains`, passes over holes and other keys' slots and looks at the whole
table; `findEmpty`, used by `set`, ends at the first hole, own slot or expired slot.
-/

namespace TheSix

/-! ## The pool -/

/-- `MemoryPool`. -/
structure MemoryPool (V : Type) where
  slots : List (Option V)
  freeIndices : List ℕ
  capacity : ℕ

namespace MemoryPool

variable {V : Type}

/-- `MemoryPool::new`. The free list is a stack; its top is the last element. -/
def new (capacity : ℕ) : Except CacheError (MemoryPool V) :=
  if capacity = 0 then .error .configurationError
  else .ok
    { slots := List.replicate capacity none
      freeIndices := List.range capacity
      capacity := capacity }

/-- `MemoryPool::allocate`: pop a free index and fill it. -/
def allocate (p : MemoryPool V) (value : V) : Except CacheError (ℕ × MemoryPool V) :=
  match p.freeIndices.getLast? with
  | some idx => .ok (idx,
      { p with slots := p.slots.set idx (some value), freeIndices := p.freeIndices.dropLast })
  | none => .error .configurationError

/-- `MemoryPool::deallocate`. -/
def deallocate (p : MemoryPool V) (idx : ℕ) : Except CacheError (MemoryPool V) :=
  if p.capacity ≤ idx then .error .configurationError
  else .ok { p with slots := p.slots.set idx none, freeIndices := p.freeIndices ++ [idx] }

/-- `MemoryPool::get`. -/
def get (p : MemoryPool V) (idx : ℕ) : Option V :=
  if p.capacity ≤ idx then none else (p.slots[idx]?).join

/-- Writing through `MemoryPool::get_mut`, when it returns a value. -/
def overwrite (p : MemoryPool V) (idx : ℕ) (value : V) : MemoryPool V :=
  { p with slots := p.slots.set idx (some value) }

end MemoryPool

/-! ## The stub -/

/-- A value with a content digest (`IntegrityCheck`). -/
class IntegrityCheck (V : Type) where
  contentDigest : V → BitVec 128

/-- The bytes a `Vec<u8>` feeds to a hasher: its length, little-endian, and its content. -/
def hashStream (bytes : List UInt8) : List UInt8 :=
  (List.range 8).map (fun i => (bytes.length / 2 ^ (8 * i)).toUInt8) ++ bytes

/-- The blanket digest of a byte vector: two seeded FNV lanes over its hash stream. -/
instance : IntegrityCheck (List UInt8) where
  contentDigest bytes :=
    (fnv1a (hashStream bytes) fnvOffsetA).toBitVec ++ (fnv1a (hashStream bytes) fnvOffsetB).toBitVec

/-- `Slot`. The expiry is the instant the slot was written and its TTL. -/
structure Slot where
  placement : UInt64
  fingerprint : KeyFingerprint
  digest : BitVec 128
  poolIdx : ℕ
  expiry : Option (ℕ × ℕ)
  address : KeyAddress
  deriving DecidableEq, Repr

/-- `Slot::is_expired` at the instant `now`. -/
def Slot.isExpired (s : Slot) (now : ℕ) : Bool :=
  match s.expiry with
  | some (armed, ttl) => ttl ≤ now - armed
  | none => false

/-- The slot belongs to the key with this placement and fingerprint. -/
def Slot.holds (s : Slot) (placement : UInt64) (fingerprint : KeyFingerprint) : Bool :=
  s.placement == placement && s.fingerprint == fingerprint

/-- `FixedTierStub`. -/
structure FixedTierStub (V : Type) where
  pool : MemoryPool V
  slots : List (Option Slot)
  placement : Placement
  corruptionsDetected : ℕ
  evictionCursor : ℕ

namespace FixedTierStub

variable {V : Type}

/-- `FixedTierStub::with_capacity`, addressed by `with_placement`. -/
def withCapacity (capacity : ℕ) (placement : Placement) : Except CacheError (FixedTierStub V) :=
  if capacity = 0 then .error .configurationError
  else
    match MemoryPool.new capacity with
    | .error e => .error e
    | .ok pool => .ok
        { pool := pool
          slots := List.replicate capacity none
          placement := placement
          corruptionsDetected := 0
          evictionCursor := 0 }

/-- What `find_slot` makes of a slot: its own slot ends the scan, and an expired one counts as
absent; holes and other keys' slots are passed over. -/
def lookFind (placement : UInt64) (fingerprint : KeyFingerprint) (now : ℕ) :
    Option Slot → Probe.Look
  | some s =>
    if s.holds placement fingerprint then
      if s.isExpired now then .stop else .hit
    else .next
  | none => .next

/-- What `find_empty` makes of a slot: a hole, the key's own slot or an expired slot is taken. -/
def lookEmpty (placement : UInt64) (fingerprint : KeyFingerprint) (now : ℕ) :
    Option Slot → Probe.Look
  | none => .hit
  | some s =>
    if s.holds placement fingerprint then .hit
    else if s.isExpired now then .hit
    else .next

/-- The slot a probe for this placement starts from. -/
def home (t : FixedTierStub V) (placement : UInt64) : ℕ := placement.toNat % t.slots.length

/-- `FixedTierStub::find_slot`. -/
def findSlot (t : FixedTierStub V) (placement : UInt64) (fingerprint : KeyFingerprint)
    (now : ℕ) : Option ℕ :=
  if t.slots.isEmpty then none
  else Probe.scan (lookFind placement fingerprint now) t.slots t.slots.length (t.home placement)

/-- `FixedTierStub::find_empty`. -/
def findEmpty (t : FixedTierStub V) (placement : UInt64) (fingerprint : KeyFingerprint)
    (now : ℕ) : Option ℕ :=
  if t.slots.isEmpty then none
  else Probe.scan (lookEmpty placement fingerprint now) t.slots t.slots.length (t.home placement)

/-- `FixedTierStub::placement_of`. -/
def placementOf (t : FixedTierStub V) (key : KeyRef) : UInt64 := t.placement.hash key

/-- `FixedTierStub::get`: the answer, and the state with the corruption counter. -/
def get [IntegrityCheck V] (t : FixedTierStub V) (key : KeyRef) (now : ℕ) :
    Except CacheError (Option V) × FixedTierStub V :=
  match t.findSlot (t.placementOf key) (KeyFingerprint.of key) now with
  | none => (.ok none, t)
  | some idx =>
    match (t.slots[idx]?).join with
    | none => (.ok none, t)
    | some slot =>
      match t.pool.get slot.poolIdx with
      | none => (.ok none, t)
      | some value =>
        if IntegrityCheck.contentDigest value ≠ slot.digest then
          (.error .corrupted, { t with corruptionsDetected := t.corruptionsDetected + 1 })
        else (.ok (some value), t)

/-- `FixedTierStub::set`. -/
def set [IntegrityCheck V] (t : FixedTierStub V) (key : KeyRef) (value : V) (ttl : Option ℕ)
    (now : ℕ) : Except CacheError Unit × FixedTierStub V :=
  let placement := t.placementOf key
  let fingerprint := KeyFingerprint.of key
  match t.findEmpty placement fingerprint now with
  | none => (.error .capacityExhausted, t)
  | some idx =>
    -- an occupied slot keeps its pool index; a hole takes a fresh one
    let stored : Except CacheError (ℕ × MemoryPool V) :=
      match (t.slots[idx]?).join with
      | some old =>
        match t.pool.get old.poolIdx with
        | some _ => .ok (old.poolIdx, t.pool.overwrite old.poolIdx value)
        | none => t.pool.allocate value
      | none => t.pool.allocate value
    match stored with
    | .error e => (.error e, t)
    | .ok (poolIdx, pool) =>
      let slot : Slot :=
        { placement := placement
          fingerprint := fingerprint
          digest := IntegrityCheck.contentDigest value
          poolIdx := poolIdx
          expiry := ttl.map fun d => (now, d)
          address := KeyAddress.of key t.placement }
      (.ok (), { t with pool := pool, slots := t.slots.set idx (some slot) })

/-- `FixedTierStub::remove`. -/
def remove (t : FixedTierStub V) (key : KeyRef) (now : ℕ) :
    Except CacheError Unit × FixedTierStub V :=
  match t.findSlot (t.placementOf key) (KeyFingerprint.of key) now with
  | none => (.ok (), t)
  | some idx =>
    match (t.slots[idx]?).join with
    | none => (.ok (), t)
    | some slot =>
      let t' := { t with slots := t.slots.set idx none }
      match t.pool.deallocate slot.poolIdx with
      | .error _ => (.ok (), t')
      | .ok pool => (.ok (), { t' with pool := pool })

/-- `FixedTierStub::contains`. -/
def contains (t : FixedTierStub V) (key : KeyRef) (now : ℕ) : Except CacheError Bool :=
  .ok (t.findSlot (t.placementOf key) (KeyFingerprint.of key) now).isSome

/-! ## Eviction -/

/-- What `eviction_candidate` makes of a slot: an occupied slot that has not expired is nominated. -/
def lookLive (now : ℕ) : Option Slot → Probe.Look
  | some s => if s.isExpired now then .next else .hit
  | none => .next

/-- `FixedTierStub::eviction_candidate`: the nominee, and the state with the cursor moved. When no
slot is live, the first occupied one is nominated. -/
def evictionCandidate (t : FixedTierStub V) (now : ℕ) : Option KeyAddress × FixedTierStub V :=
  if t.slots.length = 0 then (none, t)
  else
    match Probe.scan (lookLive now) t.slots t.slots.length (t.evictionCursor % t.slots.length) with
    | some idx => ((t.slots[idx]?).join.map (·.address), { t with evictionCursor := idx + 1 })
    | none =>
      ((t.slots.find? Option.isSome).join.map (·.address),
        { t with evictionCursor := t.evictionCursor + 1 })

/-- The slot holds this address. -/
def atAddress (address : KeyAddress) (c : Option Slot) : Bool :=
  c.any fun s => s.address == address

/-- `FixedTierStub::remove_if_address`: whether the first slot with the address was taken out. -/
def removeIfAddress (t : FixedTierStub V) (address : KeyAddress) :
    Except CacheError Bool × FixedTierStub V :=
  match t.slots.findIdx? (atAddress address) with
  | none => (.ok false, t)
  | some idx =>
    match (t.slots[idx]?).join with
    | none => (.ok true, t)
    | some slot =>
      let t' := { t with slots := t.slots.set idx none }
      match t.pool.deallocate slot.poolIdx with
      | .error _ => (.ok true, t')
      | .ok pool => (.ok true, { t' with pool := pool })

end FixedTierStub

end TheSix
