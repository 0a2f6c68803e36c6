import Mathlib

/-!
# Nearest ranks

The nearest-rank quantile of a list is one of its elements: at least the asked share of the list is
no larger, and less than that is smaller. A sorted list has it at the rounded-up share of its
length, counted from one (`nearestRank_getElem`).
-/

namespace Ranks

variable {α : Type*} [LinearOrder α] {l s : List α} {x : α} {q : ℚ}

/-- `x` is the nearest-rank `q`-quantile of `l`. -/
def NearestRank (l : List α) (q : ℚ) (x : α) : Prop :=
  x ∈ l ∧ ⌈q * l.length⌉₊ ≤ l.countP (· ≤ x) ∧ l.countP (· < x) < max 1 ⌈q * l.length⌉₊

/-- The rank of the quantile, counted from one. -/
def rank (q : ℚ) (n : ℕ) : ℕ := max 1 ⌈q * n⌉₊

theorem rank_pos (q : ℚ) (n : ℕ) : 1 ≤ rank q n := le_max_left ..

theorem rank_le {n : ℕ} (hn : 0 < n) (hq : q ≤ 1) : rank q n ≤ n := by
  apply max_le hn
  apply Nat.ceil_le.2
  exact mul_le_of_le_one_left (Nat.cast_nonneg n) hq

theorem rank_mono {q' : ℚ} (h : q ≤ q') (n : ℕ) : rank q n ≤ rank q' n := by
  apply max_le_max le_rfl
  apply Nat.ceil_mono
  exact mul_le_mul_of_nonneg_right h (Nat.cast_nonneg n)

theorem nearestRank_congr (h : l.Perm s) : NearestRank l q x ↔ NearestRank s q x := by
  unfold NearestRank
  rw [h.mem_iff, h.length_eq, h.countP_eq, h.countP_eq]

/-! ## Sorted lists -/

/-- The elements up to the one at `i` are no larger. -/
theorem lt_countP_le (h : s.SortedLE) {i : ℕ} (hi : i < s.length) :
    i < s.countP (· ≤ s[i]) := by
  have hfront : (s.take (i + 1)).countP (· ≤ s[i]) = (s.take (i + 1)).length := by
    apply List.countP_eq_length.2
    intro x hx
    obtain ⟨j, hj, rfl⟩ := List.getElem_of_mem hx
    rw [List.length_take] at hj
    rw [List.getElem_take]
    exact decide_eq_true (h.getElem_le_getElem_of_le (by omega))
  have hle := (List.take_sublist (i + 1) s).countP_le (p := (· ≤ s[i]))
  rw [hfront, List.length_take] at hle
  omega

/-- No others are smaller than the ones before `i`. -/
theorem countP_lt_le (h : s.SortedLE) {i : ℕ} (hi : i < s.length) :
    s.countP (· < s[i]) ≤ i := by
  have hback : (s.drop i).countP (· < s[i]) = 0 := by
    apply List.countP_eq_zero.2
    intro x hx
    obtain ⟨j, hj, rfl⟩ := List.getElem_of_mem hx
    rw [List.length_drop] at hj
    rw [List.getElem_drop]
    simpa using h.getElem_le_getElem_of_le (Nat.le_add_right i j)
  have hfront : (s.take i).countP (· < s[i]) ≤ (s.take i).length := List.countP_le_length
  calc s.countP (· < s[i])
      = (s.take i).countP (· < s[i]) + (s.drop i).countP (· < s[i]) := by
        rw [← List.countP_append, List.take_append_drop]
    _ ≤ i := by
        rw [hback, List.length_take] at *
        omega

/-- **A sorted list has its quantile at the nearest rank.** -/
theorem nearestRank_getElem (h : s.SortedLE) (hi : rank q s.length - 1 < s.length) :
    NearestRank s q s[rank q s.length - 1] := by
  have hle := lt_countP_le h hi
  have hlt := countP_lt_le h hi
  have hpos := rank_pos q s.length
  have hrank : ⌈q * s.length⌉₊ ≤ rank q s.length := le_max_right ..
  refine ⟨List.getElem_mem hi, by omega, ?_⟩
  change s.countP (· < s[rank q s.length - 1]) < rank q s.length
  omega

/-! ## Rounding up -/

/-- A share of a whole, rounded up: the quotient, and one more if anything is left. -/
theorem ceil_share (num den n : ℕ) (hden : 0 < den) :
    ⌈((num : ℚ) / den) * n⌉₊ = if 0 < num * n % den then num * n / den + 1 else num * n / den := by
  have hshare : ((num : ℚ) / den) * n = ((num * n : ℕ) : ℚ) / den := by
    push_cast
    ring
  have hpos : (0 : ℚ) < den := by exact_mod_cast hden
  rw [hshare]
  apply eq_of_forall_ge_iff
  intro k
  rw [Nat.ceil_le, div_le_iff₀ hpos]
  have hcast : ((num * n : ℕ) : ℚ) ≤ (k : ℚ) * den ↔ num * n ≤ k * den := by
    exact_mod_cast Iff.rfl
  rw [hcast]
  split_ifs with hrest
  · rw [Nat.add_one_le_iff, Nat.div_lt_iff_lt_mul hden]
    constructor
    · intro hle
      refine lt_of_le_of_ne hle fun heq => ?_
      rw [heq, Nat.mul_mod_left] at hrest
      exact absurd hrest (lt_irrefl 0)
    · exact le_of_lt
  · obtain ⟨c, hc⟩ := Nat.dvd_of_mod_eq_zero (Nat.eq_zero_of_not_pos hrest)
    rw [hc, Nat.mul_div_cancel_left c hden, Nat.mul_comm k]
    exact Nat.mul_le_mul_left_iff hden

end Ranks
