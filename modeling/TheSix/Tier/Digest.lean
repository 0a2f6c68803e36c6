import TheSix.Tier.FixedTierStub
import TheSix.Tier.Sled

/-!
# Digests and single bytes

A step of FNV-1a can be undone, in the state and in the byte, so whatever byte of a string changes,
each lane of its digest moves, and with it each lane of its fingerprint (`digest_moves`).

The blanket digest of a value is computed by a hasher that is fed piece by piece. How the bytes are
split among the pieces does not matter (`SeededFnv.finish_foldl_write`).
-/

namespace TheSix

/-! ## Lanes -/

/-- The upper 64 bits of a 128-bit digest. -/
def laneA (digest : ℕ) : ℕ := digest / 2 ^ 64

/-- The lower 64 bits of a digest. -/
def laneB (digest : ℕ) : ℕ := digest % 2 ^ 64

theorem laneA_contentDigest (bytes : List UInt8) :
    laneA (contentDigest bytes) = (fnv1a bytes fnvOffsetA).toNat := by
  have hB := (fnv1a bytes fnvOffsetB).toNat_lt
  unfold laneA contentDigest
  omega

theorem laneB_contentDigest (bytes : List UInt8) :
    laneB (contentDigest bytes) = (fnv1a bytes fnvOffsetB).toNat := by
  have hB := (fnv1a bytes fnvOffsetB).toNat_lt
  unfold laneB contentDigest
  omega

/-- What the length contributes to a fingerprint. -/
def lengthMix (length : ℕ) : BitVec 128 :=
  BitVec.ofNat 128 (length % 2 ^ 64) * BitVec.ofNat 128 fnvPrime.toNat

/-- A fingerprint is the digest with the length mixed in. -/
theorem toNat_fingerprint (bytes : List UInt8) :
    (KeyFingerprint.of bytes).toNat = contentDigest bytes ^^^ (lengthMix bytes.length).toNat := by
  have hB := (fnv1a bytes fnvOffsetB).toNat_lt
  have hlanes : ((fnv1a bytes fnvOffsetA).toBitVec ++ (fnv1a bytes fnvOffsetB).toBitVec :
      BitVec 128).toNat = contentDigest bytes := by
    rw [BitVec.toNat_append, UInt64.toNat_toBitVec, UInt64.toNat_toBitVec, contentDigest,
      ← Nat.shiftLeft_add_eq_or_of_lt hB, Nat.shiftLeft_eq]
  rw [KeyFingerprint.of, BitVec.toNat_xor, hlanes, lengthMix]

/-! ## Hashing piece by piece -/

/-- `SeededFnv`. -/
structure SeededFnv where
  state : UInt64

namespace SeededFnv

/-- `SeededFnv::new`. -/
def new (seed : UInt64) : SeededFnv := ⟨seed⟩

/-- `Hasher::finish`. -/
def finish (h : SeededFnv) : UInt64 := h.state

/-- `Hasher::write`. -/
def write (h : SeededFnv) (bytes : List UInt8) : SeededFnv :=
  ⟨bytes.foldl (fun state b => (state ^^^ b.toUInt64) * fnvPrime) h.state⟩

theorem write_append (h : SeededFnv) (bytes more : List UInt8) :
    h.write (bytes ++ more) = (h.write bytes).write more := by
  simp only [write, List.foldl_append]

theorem foldl_write (h : SeededFnv) (writes : List (List UInt8)) :
    writes.foldl write h = h.write writes.flatten := by
  induction writes generalizing h with
  | nil => rfl
  | cons bytes writes ih => rw [List.foldl_cons, List.flatten_cons, ih, write_append]

/-- A hasher that is fed in pieces has the lane of the whole. -/
theorem finish_foldl_write (seed : UInt64) (writes : List (List UInt8)) :
    (writes.foldl write (new seed)).finish = fnv1a writes.flatten seed := by
  rw [foldl_write]
  rfl

end SeededFnv

/-- The digest of a byte vector comes from two hashers, fed the length and then the content. -/
theorem contentDigest_eq_seeded (bytes : List UInt8) :
    IntegrityCheck.contentDigest bytes =
      ([(hashStream bytes).take 8, bytes].foldl SeededFnv.write
          (.new fnvOffsetA)).finish.toBitVec ++
        ([(hashStream bytes).take 8, bytes].foldl SeededFnv.write
          (.new fnvOffsetB)).finish.toBitVec := by
  have hstream : [(hashStream bytes).take 8, bytes].flatten = hashStream bytes := by
    rw [List.flatten_cons, List.flatten_singleton, hashStream, List.take_left' (by simp)]
  rw [SeededFnv.finish_foldl_write, SeededFnv.finish_foldl_write, hstream]
  rfl

/-! ## One byte -/

/-- **Every change of one byte moves the digest.** Both lanes of the digest of a string differ from
those of the string with one byte changed, and so do both lanes of the fingerprint. A seeded hasher
has the lane of the string however the string is split. -/
theorem digest_moves (bytes : List UInt8) :
    (∀ i (hi : i < bytes.length) b, b ≠ bytes[i] →
      (laneA (contentDigest (bytes.set i b)) ≠ laneA (contentDigest bytes) ∧
        laneB (contentDigest (bytes.set i b)) ≠ laneB (contentDigest bytes)) ∧
      laneA (KeyFingerprint.of (bytes.set i b)).toNat ≠ laneA (KeyFingerprint.of bytes).toNat ∧
        laneB (KeyFingerprint.of (bytes.set i b)).toNat ≠ laneB (KeyFingerprint.of bytes).toNat) ∧
    ∀ (seed : UInt64) (writes : List (List UInt8)), writes.flatten = bytes →
      (writes.foldl SeededFnv.write (.new seed)).finish = fnv1a bytes seed := by
  constructor
  · intro i hi b hb
    have hA : laneA (contentDigest (bytes.set i b)) ≠ laneA (contentDigest bytes) := by
      rw [laneA_contentDigest, laneA_contentDigest]
      exact fnv1a_set_ne hi hb fnvOffsetA
    have hB : laneB (contentDigest (bytes.set i b)) ≠ laneB (contentDigest bytes) := by
      rw [laneB_contentDigest, laneB_contentDigest]
      exact fnv1a_set_ne hi hb fnvOffsetB
    refine ⟨⟨hA, hB⟩, ?_, ?_⟩
    · rw [toNat_fingerprint, toNat_fingerprint, List.length_set]
      unfold laneA at hA ⊢
      rw [Nat.xor_div_two_pow, Nat.xor_div_two_pow]
      exact fun h => hA (Nat.xor_left_injective h)
    · rw [toNat_fingerprint, toNat_fingerprint, List.length_set]
      unfold laneB at hB ⊢
      rw [Nat.xor_mod_two_pow, Nat.xor_mod_two_pow]
      exact fun h => hB (Nat.xor_left_injective h)
  · rintro seed writes rfl
    exact SeededFnv.finish_foldl_write seed writes

end TheSix
