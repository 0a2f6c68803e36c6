import Mathlib

/-!
# Identities, rungs and errors

The vocabulary the two planes share: the errors of `error.rs`, the rungs of `tier/mod.rs`, the
entry states and commit intents of `entry.rs`, the words of a record of `telemetry.rs`, and the key
identities of `integrity.rs`.

Two things about a key are kept apart on purpose. The *fingerprint* decides who a slot belongs
to and is compared in full; the *placement* only chooses where a probe starts, so two keys may
share it. A `KeyAddress` bundles the two.

Machine integers are the source's: generations and hash lanes are 64-bit and wrap, fingerprints
are 128-bit. Times are nanoseconds since the process clock anchor.
-/

namespace TheSix

/-- `CacheError`. -/
inductive CacheError
  | unauthenticated
  | unauthorized
  | tierUnavailable
  | writeIndeterminate
  | policyDenied
  | miss
  | populationFailed
  | timeout
  | cancelled
  | staleGeneration
  | writeContended
  | serializationFailed
  | configurationError
  | capacityExhausted
  | corrupted
  | uncommittedIntent
  deriving DecidableEq, Repr

/-! ## Rungs -/

/-- `TierId`: six cache rungs and the authority `L6`. -/
inductive TierId
  | L0 | L1 | L2 | L3 | L4 | L5 | L6
  deriving DecidableEq, Repr

namespace TierId

def asUsize : TierId → ℕ
  | L0 => 0 | L1 => 1 | L2 => 2 | L3 => 3 | L4 => 4 | L5 => 5 | L6 => 6

def fromUsize : ℕ → Option TierId
  | 0 => some L0 | 1 => some L1 | 2 => some L2 | 3 => some L3 | 4 => some L4 | 5 => some L5
  | 6 => some L6 | _ => none

/-- `LAST_CACHE_RUNG_INDEX`. -/
def lastCacheRungIndex : ℕ := 5

/-- `AUTHORITY_RUNG_INDEX`. -/
def authorityRungIndex : ℕ := 6

def isCacheRung (t : TierId) : Bool := t.asUsize ≤ lastCacheRungIndex

def isAuthorityRung (t : TierId) : Bool := t.asUsize == authorityRungIndex

def asU8 (t : TierId) : UInt8 := t.asUsize.toUInt8

def fromIndex (index : UInt8) : Option TierId :=
  if index.toNat < 7 then fromUsize index.toNat else none

@[simp] theorem fromUsize_asUsize (t : TierId) : fromUsize t.asUsize = some t := by
  cases t <;> rfl

@[simp] theorem fromIndex_asU8 (t : TierId) : fromIndex t.asU8 = some t := by
  cases t <;> rfl

theorem asUsize_of_fromUsize {n : ℕ} {t : TierId} (h : fromUsize n = some t) :
    t.asUsize = n := by
  unfold fromUsize at h
  split at h <;> cases h <;> rfl

theorem asUsize_injective : Function.Injective asUsize := by
  intro s t h
  have := congrArg fromUsize h
  simpa using this

end TierId

/-- `policy::AUTHORITY_TIER`. -/
def authorityTier : TierId := .L6

/-- `policy::LAST_CACHE_TIER`. -/
def lastCacheTier : TierId := .L5

/-- `policy::cache_ladder`. -/
def cacheLadder : List TierId := [.L0, .L1, .L2, .L3, .L4, .L5]

/-! ## Entry states and commit intents -/

/-- `Generation`, a `u64` that wraps. -/
abbrev Generation := UInt64

/-- `Generation::is_stale`. -/
def Generation.isStale (g current : Generation) : Bool := g < current

/-- `EntryState`, the control-plane state of one entry. -/
inductive EntryState
  | absent
  | ready
  | stale
  | inFlight
  | prepared
  | failed
  deriving DecidableEq, Repr

namespace EntryState

def isReadable : EntryState → Bool
  | ready | stale => true
  | _ => false

def isClaimable : EntryState → Bool
  | absent | failed | stale => true
  | _ => false

/-- Somebody populates the entry, or commits to it. -/
def Busy (s : EntryState) : Prop := s = .inFlight ∨ s = .prepared

instance : DecidablePred Busy := fun _ => inferInstanceAs (Decidable (_ ∨ _))

end EntryState

/-- `IntentKind`. -/
inductive IntentKind
  | write
  | move
  deriving DecidableEq, Repr

/-! ## The words of a record -/

/-- `telemetry::Operation`. -/
inductive Operation
  | get | getOrFetch | set | invalidate | remove | exists | refresh | promote | demote | recover
  deriving DecidableEq, Repr

/-- `telemetry::Outcome`. -/
inductive RecordedOutcome
  | served | miss | populated | fellBack | denied | failed | cancelled
  deriving DecidableEq, Repr

/-- `Outcome::from_error`. -/
def RecordedOutcome.fromError : CacheError → RecordedOutcome
  | .unauthenticated | .unauthorized | .policyDenied => .denied
  | .cancelled => .cancelled
  | .miss => .miss
  | _ => .failed

/-! ## Key identities -/

/-- The bytes of an encoded key. -/
abbrev KeyRef := List UInt8

def fnvOffsetA : UInt64 := 0xcbf29ce484222325

def fnvOffsetB : UInt64 := 0x9ae16a3b2f90404f

def fnvPrime : UInt64 := 0x00000100000001b3

/-- The prime is odd, so a multiplication by it can be undone. -/
theorem fnvPrime_inverse : fnvPrime * 0xce965057aff6957b = 1 := by decide

/-- `fnv1a`. -/
def fnv1a (bytes : List UInt8) (offset : UInt64) : UInt64 :=
  bytes.foldl (fun hash b => (hash ^^^ b.toUInt64) * fnvPrime) offset

/-- `KeyFingerprint`, the identity of a key. -/
abbrev KeyFingerprint := BitVec 128

/-- `KeyFingerprint::of`: two FNV lanes, with the length mixed in. -/
def KeyFingerprint.of (bytes : KeyRef) : KeyFingerprint :=
  ((fnv1a bytes fnvOffsetA).toBitVec ++ (fnv1a bytes fnvOffsetB).toBitVec : BitVec 128) ^^^
    (BitVec.ofNat 128 (bytes.length % 2 ^ 64) * BitVec.ofNat 128 fnvPrime.toNat)

/-- `Placement`: which slot a key starts probing from. -/
inductive Placement
  | default
  | allToZero
  | collidingPair (pre : List UInt8)
  deriving DecidableEq, Repr

/-- `Placement::hash`. -/
def Placement.hash : Placement → KeyRef → UInt64
  | .default, bytes => fnv1a bytes fnvOffsetA
  | .allToZero, _ => 0
  | .collidingPair pre, bytes =>
    if pre.isPrefixOf bytes then 42
    else bytes.length.toUInt64 ^^^ 0xdeadbeefcafef00d

/-- `KeyAddress`: identity and placement. -/
structure KeyAddress where
  fingerprint : KeyFingerprint
  placement : UInt64
  deriving DecidableEq, Repr

/-- `KeyAddress::of`. -/
def KeyAddress.of (key : KeyRef) (strategy : Placement) : KeyAddress where
  fingerprint := KeyFingerprint.of key
  placement := strategy.hash key

/-- `CommitIntent`: a recorded, not yet committed write. It holds no payload. -/
structure CommitIntent where
  kind : IntentKind
  targetTier : UInt8
  generation : Generation
  startedNanos : ℕ
  deriving DecidableEq, Repr

/-- `CommitToken`: what `prepare` hands to its caller and `commit` checks. -/
structure CommitToken where
  address : KeyAddress
  generation : Generation
  kind : IntentKind
  targetTier : UInt8
  deriving DecidableEq, Repr

/-- `CommitToken::expired_by`. -/
def CommitToken.expiredBy (token : CommitToken) (current : Generation) : Bool :=
  current != token.generation

/-- `ByteValue`: a value that can be encoded to and decoded from bytes. -/
class ByteValue (V : Type) where
  encodeBytes : V → Except CacheError (List UInt8)
  decodeBytes : List UInt8 → Except CacheError V

/-- `Vec<u8>`, passed through. -/
instance : ByteValue (List UInt8) where
  encodeBytes := .ok
  decodeBytes := .ok

/-- `Duration::MAX`, in nanoseconds. -/
def durationMax : ℕ := (2 ^ 64 - 1) * 10 ^ 9 + 999999999

end TheSix
