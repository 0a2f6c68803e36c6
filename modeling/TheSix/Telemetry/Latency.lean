import TheSix.Lib.Ranks
import TheSix.Lib.Slice

/-!
# Latency percentiles

`LatencyPercentiles::from_samples` sorts its samples and reads them at nearest ranks, in integer
arithmetic. Every step that may fail is one that may fail here, and is `none` then: a product beyond
128 bits, a clamp between bounds that cross, a difference below zero, an index out of bounds. None
does, and what is reported are the nearest-rank quantiles (`fromSamples_nearestRank`).
-/

namespace TheSix

open Ranks

/-- `LatencyPercentiles`, in microseconds. -/
structure LatencyPercentiles where
  count : ℕ
  p50 : ℕ
  p95 : ℕ
  p99 : ℕ
  p99_9 : ℕ
  max : ℕ
  deriving DecidableEq, Repr

namespace LatencyPercentiles

/-- `LatencyPercentiles::default`. -/
def default : LatencyPercentiles := ⟨0, 0, 0, 0, 0, 0⟩

/-! ## Integers -/

/-- A product of `u128`. -/
def mulU128 (a b : ℕ) : Option ℕ := if a * b < 2 ^ 128 then some (a * b) else none

/-- `u128::div_ceil`. -/
def divCeil (a b : ℕ) : Option ℕ :=
  if b = 0 then none else some (if 0 < a % b then a / b + 1 else a / b)

/-- `Ord::clamp`. -/
def clamp (a low high : ℕ) : Option ℕ :=
  if high < low then none else some (if a < low then low else if high < a then high else a)

/-- A difference of `usize`. -/
def subUsize (a b : ℕ) : Option ℕ := if b ≤ a then some (a - b) else none

/-! ## Percentiles -/

/-- The closure `at` of `from_samples`: the sample at a nearest rank. -/
def atRank (samples : List ℕ) (num den : ℕ) : Option ℕ := do
  let rank ← clamp (← divCeil (← mulU128 num samples.length) den) 1 samples.length
  samples[← subUsize (rank % 2 ^ 64) 1]?

/-- `LatencyPercentiles::from_samples`: the percentiles, and the samples as they are left. -/
def fromSamples (samples : List ℕ) : Option (LatencyPercentiles × List ℕ) :=
  if samples.isEmpty then some (default, samples)
  else do
    let samples := samples.insertionSort (· ≤ ·)
    return ({
      count := samples.length
      p50 := ← atRank samples 50 100
      p95 := ← atRank samples 95 100
      p99 := ← atRank samples 99 100
      p99_9 := ← atRank samples 999 1000
      max := samples.getLast?.getD 0 }, samples)

variable {samples sorted : List ℕ}

/-- **No step of a rank fails.** -/
theorem atRank_eq {num den : ℕ} (hden : 0 < den) (hnum : num ≤ den) (hsmall : num < 2 ^ 64)
    (hne : 0 < sorted.length) (hlength : sorted.length ≤ Slice.maxLength) :
    ∃ h : rank (num / den) sorted.length - 1 < sorted.length,
      atRank sorted num den = some sorted[rank (num / den) sorted.length - 1] := by
  have hmax := Slice.length_lt hlength
  have hproduct : num * sorted.length < 2 ^ 128 := by
    calc num * sorted.length < 2 ^ 64 * 2 ^ 63 := Nat.mul_lt_mul_of_lt_of_lt hsmall hmax
      _ ≤ 2 ^ 128 := by norm_num
  have hshare : (num : ℚ) / den ≤ 1 := by
    apply div_le_one_of_le₀ (by exact_mod_cast hnum) (Nat.cast_nonneg den)
  have hpos := rank_pos ((num : ℚ) / den) sorted.length
  have hle := rank_le hne hshare
  have hceil := ceil_share num den sorted.length hden
  have hclamp : clamp ⌈((num : ℚ) / den) * sorted.length⌉₊ 1 sorted.length =
      some (rank (num / den) sorted.length) := by
    unfold rank at hle ⊢
    rw [clamp, if_neg (by omega)]
    congr 1
    split_ifs <;> omega
  refine ⟨by omega, ?_⟩
  rw [atRank, mulU128, if_pos hproduct]
  simp only [Option.bind_eq_bind, Option.bind_some, divCeil, if_neg hden.ne', ← hceil, hclamp]
  rw [Nat.mod_eq_of_lt (by omega), subUsize, if_pos hpos, Option.bind_some]
  exact List.getElem?_eq_getElem _

theorem fromSamples_eq (hne : samples ≠ []) (hsort : samples.insertionSort (· ≤ ·) = sorted)
    {a b c d : ℕ} (ha : atRank sorted 50 100 = some a) (hb : atRank sorted 95 100 = some b)
    (hc : atRank sorted 99 100 = some c) (hd : atRank sorted 999 1000 = some d) :
    fromSamples samples =
      some (⟨sorted.length, a, b, c, d, sorted.getLast?.getD 0⟩, sorted) := by
  rw [fromSamples, if_neg (by simpa using hne), hsort]
  dsimp only
  rw [ha, hb, hc, hd]
  rfl

theorem fromSamples_perm {other : List ℕ} (h : other.Perm samples) (hne : samples ≠ []) :
    fromSamples other = fromSamples samples := by
  have hother : other ≠ [] := by
    rintro rfl
    exact hne h.nil_eq.symm
  have hsort : other.insertionSort (· ≤ ·) = samples.insertionSort (· ≤ ·) := by
    apply List.Perm.eq_of_sortedLE List.sortedLE_insertionSort List.sortedLE_insertionSort
    exact (List.perm_insertionSort _ _).trans (h.trans (List.perm_insertionSort _ _).symm)
  unfold fromSamples
  rw [if_neg (by simpa using hother), if_neg (by simpa using hne), hsort]

/-- **Nearest-rank percentiles.** Of samples that are not none, no step fails; each percentile that
is reported is the nearest-rank quantile of the samples; they are in order; and the order of the
samples does not matter. -/
theorem fromSamples_nearestRank (samples : Slice ℕ) (hne : samples.1 ≠ []) :
    ∃ r sorted, fromSamples samples.1 = some (r, sorted) ∧
      (NearestRank samples.1 (50 / 100) r.p50 ∧ NearestRank samples.1 (95 / 100) r.p95 ∧
        NearestRank samples.1 (99 / 100) r.p99 ∧ NearestRank samples.1 (999 / 1000) r.p99_9) ∧
      (r.p50 ≤ r.p95 ∧ r.p95 ≤ r.p99 ∧ r.p99 ≤ r.p99_9 ∧ r.p99_9 ≤ r.max) ∧
      ∀ other : List ℕ, other.Perm samples.1 → fromSamples other = some (r, sorted) := by
  obtain ⟨samples, hfits⟩ := samples
  dsimp only at hne ⊢
  have hsort : (samples.insertionSort (· ≤ ·)).SortedLE := List.sortedLE_insertionSort
  have hperm : (samples.insertionSort (· ≤ ·)).Perm samples := List.perm_insertionSort _ _
  have hlength : 0 < samples.length := List.length_pos_of_ne_nil hne
  rw [← hperm.length_eq] at hfits hlength
  generalize hsorted : samples.insertionSort (· ≤ ·) = sorted at *
  obtain ⟨h50, hat50⟩ := @atRank_eq sorted 50 100 (by decide) (by decide) (by decide) hlength hfits
  obtain ⟨h95, hat95⟩ := @atRank_eq sorted 95 100 (by decide) (by decide) (by decide) hlength hfits
  obtain ⟨h99, hat99⟩ := @atRank_eq sorted 99 100 (by decide) (by decide) (by decide) hlength hfits
  obtain ⟨h999, hat999⟩ :=
    @atRank_eq sorted 999 1000 (by decide) (by decide) (by decide) hlength hfits
  have hdone := fromSamples_eq hne hsorted hat50 hat95 hat99 hat999
  have hmax : sorted.getLast?.getD 0 = sorted[sorted.length - 1] := by
    rw [List.getLast?_eq_getElem?, List.getElem?_eq_getElem (by omega)]
    rfl
  have hquantile : ∀ {q : ℚ} (h : rank q sorted.length - 1 < sorted.length),
      NearestRank samples q sorted[rank q sorted.length - 1] :=
    fun h => (nearestRank_congr hperm).1 (nearestRank_getElem hsort h)
  have horder : ∀ {q q' : ℚ} (_ : q ≤ q') (h : rank q sorted.length - 1 < sorted.length)
      (h' : rank q' sorted.length - 1 < sorted.length),
      sorted[rank q sorted.length - 1] ≤ sorted[rank q' sorted.length - 1] :=
    fun hq _ _ => hsort.getElem_le_getElem_of_le (Nat.sub_le_sub_right (rank_mono hq _) 1)
  refine ⟨_, _, hdone, ⟨?_, ?_, ?_, ?_⟩, ⟨?_, ?_, ?_, ?_⟩, ?_⟩
  · exact_mod_cast hquantile h50
  · exact_mod_cast hquantile h95
  · exact_mod_cast hquantile h99
  · exact_mod_cast hquantile h999
  · exact horder (by norm_num) h50 h95
  · exact horder (by norm_num) h95 h99
  · exact horder (by norm_num) h99 h999
  · show _ ≤ sorted.getLast?.getD 0
    rw [hmax]
    exact hsort.getElem_le_getElem_of_le (by omega)
  · exact fun other hother => (fromSamples_perm hother hne).trans hdone

/-- The percentiles of three samples. -/
theorem fromSamples_nearestRank_three : ∃ r sorted, fromSamples [30, 10, 20] = some (r, sorted) ∧
    NearestRank [30, 10, 20] (50 / 100) r.p50 ∧ r.p50 = 20 ∧ r.p99_9 = 30 := by
  have hfits : [30, 10, 20].length ≤ Slice.maxLength := by decide
  obtain ⟨r, sorted, hfrom, ⟨h50, -⟩, -⟩ :=
    fromSamples_nearestRank ⟨[30, 10, 20], hfits⟩ (List.cons_ne_nil _ _)
  have hvalue : fromSamples [30, 10, 20] = some (⟨3, 20, 30, 30, 30, 30⟩, [10, 20, 30]) := by decide
  rw [hvalue] at hfrom
  cases hfrom
  exact ⟨_, _, hvalue, h50, rfl, rfl⟩

end LatencyPercentiles

end TheSix
