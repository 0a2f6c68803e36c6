import Mathlib

/-!
# Numbers as bytes, and digests of bytes

* `toLe n x` are the `n` low bytes of `x`, the lowest first, and `ofLe` reads them back.
* `foldl_set_ne` is about digests that absorb one byte at a time: when every step can be undone,
  in the state and in the byte, changing one byte changes the digest.
* FNV-1a is such a digest (`fnvStep_left_injective`, `fnvStep_right_injective`), because its prime
  is odd.
-/

namespace Bytes

/-! ## Little-endian numbers -/

/-- The `n` low bytes of a number, the lowest first. -/
def toLe : ℕ → ℕ → List UInt8
  | 0, _ => []
  | n + 1, x => UInt8.ofNat x :: toLe n (x / 256)

/-- The number that bytes spell, the lowest first. -/
def ofLe : List UInt8 → ℕ
  | [] => 0
  | b :: bs => b.toNat + 256 * ofLe bs

@[simp] theorem length_toLe (n x : ℕ) : (toLe n x).length = n := by
  induction n generalizing x with
  | zero => rfl
  | succ n ih => simp [toLe, ih]

theorem ofLe_toLe {n x : ℕ} (h : x < 256 ^ n) : ofLe (toLe n x) = x := by
  induction n generalizing x with
  | zero =>
    simp only [pow_zero] at h
    simp only [toLe, ofLe]
    omega
  | succ n ih =>
    have hdiv : x / 256 < 256 ^ n := by
      rw [pow_succ] at h
      exact Nat.div_lt_of_lt_mul (by omega)
    rw [toLe, ofLe, ih hdiv, UInt8.toNat_ofNat']
    omega

/-- As many bytes spell another number when they differ. -/
theorem ofLe_injective {bs bs' : List UInt8} (hlength : bs.length = bs'.length)
    (h : ofLe bs = ofLe bs') : bs = bs' := by
  induction bs generalizing bs' with
  | nil => exact (List.length_eq_zero_iff.mp hlength.symm).symm
  | cons b bs ih =>
    cases bs' with
    | nil => simp at hlength
    | cons b' bs' =>
      have hb := b.toNat_lt
      have hb' := b'.toNat_lt
      simp only [ofLe] at h
      obtain rfl : b = b' := UInt8.toNat_inj.mp (by omega)
      rw [ih (by simpa using hlength) (by omega)]

/-! ## Digests -/

/-- A digest tells two messages apart that differ in one place, when its step is injective in the
state and in what it absorbs. -/
theorem foldl_set_ne {α σ : Type} {f : σ → α → σ} (hleft : ∀ a, Function.Injective fun s => f s a)
    (hright : ∀ s, Function.Injective (f s)) {l : List α} {i : ℕ} (hi : i < l.length) {a : α}
    (ha : a ≠ l[i]) (s : σ) : (l.set i a).foldl f s ≠ l.foldl f s := by
  -- states that differ stay apart
  have hapart : ∀ (l : List α) {s s' : σ}, s ≠ s' → l.foldl f s ≠ l.foldl f s' := by
    intro l
    induction l with
    | nil => exact id
    | cons b l ih => exact fun hs => ih fun h => hs (hleft b h)
  induction l generalizing i s with
  | nil => simp at hi
  | cons b l ih =>
    cases i with
    | zero => exact hapart l fun h => ha (hright s h)
    | succ i => exact ih (by simpa using hi) (by simpa using ha) (f s b)

/-- One step of FNV-1a. -/
def fnvStep (prime : UInt64) (hash : UInt64) (b : UInt8) : UInt64 := (hash ^^^ b.toUInt64) * prime

variable {prime inverse : UInt64}

theorem mul_injective (h : prime * inverse = 1) : Function.Injective fun x : UInt64 => x * prime := by
  intro x y hxy
  have hback : ∀ z : UInt64, z * prime * inverse = z := fun z => by
    rw [UInt64.mul_assoc, h, UInt64.mul_one]
  dsimp only at hxy
  rw [← hback x, hxy, hback y]

theorem fnvStep_left_injective (h : prime * inverse = 1) (b : UInt8) :
    Function.Injective fun hash => fnvStep prime hash b := by
  intro x y hxy
  exact (UInt64.xor_left_inj _).mp (mul_injective h hxy)

theorem fnvStep_right_injective (h : prime * inverse = 1) (hash : UInt64) :
    Function.Injective (fnvStep prime hash) := by
  intro b c hbc
  have := (UInt64.xor_right_inj _).mp (mul_injective h hbc)
  exact UInt8.toUInt64_inj.mp this

end Bytes
