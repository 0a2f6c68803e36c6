import Mathlib

/-!
# Xorshift steps are injective

A xorshift generator mixes its state with shifted copies of itself. Shifting is additive for `^^^`, and
a proper shift fixes nothing but zero, so a step `x ↦ x ^^^ s x` loses nothing: it is injective, and
takes zero to zero and nothing else there.
-/

namespace Xorshift

/-- Mixing with an additive map that fixes nothing but zero is injective. -/
theorem xor_injective {s : UInt64 → UInt64} (hs : ∀ x y, s (x ^^^ y) = s x ^^^ s y)
    (hfix : ∀ x, s x = x → x = 0) : Function.Injective fun x => x ^^^ s x := by
  intro x y h
  have hxor : x ^^^ s x = y ^^^ s y := h
  have hdiff : s (x ^^^ y) = x ^^^ y := by
    rw [hs, ← UInt64.xor_eq_zero_iff]
    calc s x ^^^ s y ^^^ (x ^^^ y)
      _ = (x ^^^ s x) ^^^ (y ^^^ s y) := by ac_rfl
      _ = 0 := by rw [hxor, UInt64.xor_self]
  exact UInt64.xor_eq_zero_iff.1 (hfix _ hdiff)

/-- A number below `2 ^ 64` that a shift to the left takes to itself is zero. -/
theorem eq_zero_of_shiftLeft {x c : UInt64} (hc : 0 < c.toNat % 64) (h : x <<< c = x) : x = 0 := by
  have hmod : x.toNat * 2 ^ (c.toNat % 64) ≡ x.toNat * 1 [MOD 2 ^ 64] := by
    have hnat := congrArg UInt64.toNat h
    rw [UInt64.toNat_shiftLeft, Nat.shiftLeft_eq] at hnat
    rw [Nat.ModEq, hnat, mul_one, Nat.mod_eq_of_lt x.toNat_lt]
  have hone : 1 ≤ 2 ^ (c.toNat % 64) := Nat.one_le_two_pow
  have hdvd : 2 ^ 64 ∣ x.toNat * (2 ^ (c.toNat % 64) - 1) := by
    rw [Nat.mul_sub]
    exact (Nat.modEq_iff_dvd' (Nat.mul_le_mul_left _ hone)).1 hmod.symm
  -- the factor is odd
  have hcoprime : Nat.Coprime (2 ^ 64) (2 ^ (c.toNat % 64) - 1) := by
    apply Nat.Coprime.pow_left
    rw [Nat.coprime_two_left]
    exact Nat.Even.sub_odd hone (Nat.even_pow.2 ⟨even_two, hc.ne'⟩) odd_one
  have hzero : x.toNat = 0 := Nat.eq_zero_of_dvd_of_lt (hcoprime.dvd_of_dvd_mul_right hdvd) x.toNat_lt
  exact UInt64.toNat_inj.1 hzero

theorem eq_zero_of_shiftRight {x c : UInt64} (hc : 0 < c.toNat % 64) (h : x >>> c = x) : x = 0 := by
  have hnat := congrArg UInt64.toNat h
  rw [UInt64.toNat_shiftRight, Nat.shiftRight_eq_div_pow] at hnat
  by_contra hx
  have hpos : 0 < x.toNat := by
    apply Nat.pos_of_ne_zero
    intro hzero
    exact hx (UInt64.toNat_inj.1 hzero)
  have hlt : x.toNat / 2 ^ (c.toNat % 64) < x.toNat := Nat.div_lt_self hpos (Nat.one_lt_two_pow hc.ne')
  omega

theorem shiftRight_injective {c : UInt64} (hc : 0 < c.toNat % 64) :
    Function.Injective fun x : UInt64 => x ^^^ (x >>> c) :=
  xor_injective (fun _ _ => UInt64.shiftRight_xor) fun _ => eq_zero_of_shiftRight hc

theorem shiftLeft_injective {c : UInt64} (hc : 0 < c.toNat % 64) :
    Function.Injective fun x : UInt64 => x ^^^ (x <<< c) :=
  xor_injective (fun _ _ => UInt64.shiftLeft_xor) fun _ => eq_zero_of_shiftLeft hc

end Xorshift
