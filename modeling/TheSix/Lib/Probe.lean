import Mathlib

/-!
# Circular probing of a fixed table

A table is a list of cells. A probe starts at some cell and walks the table circularly, one cell
at a time, looking at each cell: the look is a *hit* (the probe returns the index), a *stop* (the
probe returns nothing) or *next*. This is the loop of an open-addressed table, with the wrap
around written as `(idx + 1) % len`.

`scan_eq_some_iff` says which index a probe returns: the first cell on the way that is not
`next`, provided it is a hit. `scan_length_eq_none` says that a full probe without stops that
returns nothing has looked at every cell of the table.
-/

namespace Probe

/-- What a probe makes of a cell. -/
inductive Look
  | hit
  | stop
  | next
  deriving DecidableEq

variable {α : Type*}

/-- Walk the table circularly from `idx`, over at most the given number of cells. -/
def scan (look : α → Look) (cells : List α) : ℕ → ℕ → Option ℕ
  | 0, _ => none
  | left + 1, idx =>
    match cells[idx]? with
    | none => none
    | some c =>
      match look c with
      | .hit => some idx
      | .stop => none
      | .next => scan look cells left ((idx + 1) % cells.length)

/-- The cell met after `j` moves from `start`. -/
def cellAt (cells : List α) (start j : ℕ) : Option α := cells[(start + j) % cells.length]?

/-- The number of moves from `start` to the cell `idx` in a table of `len` cells. -/
def moves (len start idx : ℕ) : ℕ := (idx + (len - start)) % len

variable {look : α → Look} {cells : List α}

theorem cellAt_zero {start : ℕ} (h : start < cells.length) :
    cellAt cells start 0 = cells[start]? := by
  rw [cellAt, Nat.add_zero, Nat.mod_eq_of_lt h]

theorem cellAt_succ (start j : ℕ) :
    cellAt cells ((start + 1) % cells.length) j = cellAt cells start (j + 1) := by
  rw [cellAt, cellAt, Nat.mod_add_mod, show start + 1 + j = start + (j + 1) by omega]

theorem moves_lt {len start : ℕ} (idx : ℕ) (h : start < len) : moves len start idx < len :=
  Nat.mod_lt _ (by omega)

/-- The moves to a cell lead to it. -/
theorem add_moves_mod {len start idx : ℕ} (hs : start < len) (hi : idx < len) :
    (start + moves len start idx) % len = idx := by
  rw [moves, Nat.add_mod_mod, show start + (idx + (len - start)) = idx + len by omega,
    Nat.add_mod_right, Nat.mod_eq_of_lt hi]

/-- Within one round, the number of moves is determined by the cell reached. -/
theorem moves_add_mod {len start j : ℕ} (hs : start < len) (hj : j < len) :
    moves len start ((start + j) % len) = j := by
  rw [moves, Nat.mod_add_mod, show start + j + (len - start) = j + len by omega,
    Nat.add_mod_right, Nat.mod_eq_of_lt hj]

theorem cellAt_moves {start idx : ℕ} (hs : start < cells.length) (hi : idx < cells.length) :
    cellAt cells start (moves cells.length start idx) = cells[idx]? := by
  rw [cellAt, add_moves_mod hs hi]

theorem cellAt_isSome {start : ℕ} (h : start < cells.length) (j : ℕ) :
    ∃ c, cellAt cells start j = some c := by
  have hlt : (start + j) % cells.length < cells.length := Nat.mod_lt _ (by omega)
  exact ⟨cells[(start + j) % cells.length], List.getElem?_eq_getElem hlt⟩

/-- **What a probe returns**: the first cell on the way that does not look like `next`, when it
is a hit. -/
theorem scan_eq_some_iff {left start idx : ℕ} (hs : start < cells.length) :
    scan look cells left start = some idx ↔
      ∃ j < left, idx = (start + j) % cells.length ∧
        (∃ c, cellAt cells start j = some c ∧ look c = .hit) ∧
        ∀ i < j, ∃ c, cellAt cells start i = some c ∧ look c = .next := by
  induction left generalizing start with
  | zero => simp [scan]
  | succ left ih =>
    have hmod : (start + 1) % cells.length < cells.length := Nat.mod_lt _ (by omega)
    have hc : cells[start]? = some cells[start] := List.getElem?_eq_getElem hs
    have h0 : cellAt cells start 0 = some cells[start] := by rw [cellAt_zero hs, hc]
    rw [scan, hc]
    cases hl : look cells[start] with
    | hit =>
      simp only [hl, Option.some.injEq]
      constructor
      · rintro rfl
        exact ⟨0, by omega, by simp [Nat.mod_eq_of_lt hs], ⟨_, h0, hl⟩, by simp⟩
      · rintro ⟨j, -, hj, -, hnext⟩
        rcases Nat.eq_zero_or_pos j with rfl | hpos
        · rw [hj, Nat.add_zero, Nat.mod_eq_of_lt hs]
        · obtain ⟨c, hc0, hcn⟩ := hnext 0 hpos
          rw [h0, Option.some.injEq] at hc0
          rw [← hc0, hl] at hcn
          cases hcn
    | stop =>
      simp only [hl, reduceCtorEq, false_iff]
      rintro ⟨j, -, -, ⟨c, hcj, hch⟩, hnext⟩
      rcases Nat.eq_zero_or_pos j with rfl | hpos
      · rw [h0, Option.some.injEq] at hcj
        rw [← hcj, hl] at hch
        cases hch
      · obtain ⟨c', hc0, hcn⟩ := hnext 0 hpos
        rw [h0, Option.some.injEq] at hc0
        rw [← hc0, hl] at hcn
        cases hcn
    | next =>
      simp only [hl]
      rw [ih hmod]
      constructor
      · rintro ⟨j, hj, rfl, hhit, hnext⟩
        refine ⟨j + 1, by omega, ?_, ?_, ?_⟩
        · rw [Nat.mod_add_mod, show start + 1 + j = start + (j + 1) by omega]
        · simpa only [cellAt_succ] using hhit
        · intro i hi
          cases i with
          | zero => exact ⟨_, h0, hl⟩
          | succ i => simpa only [cellAt_succ] using hnext i (by omega)
      · rintro ⟨j, hj, rfl, hhit, hnext⟩
        cases j with
        | zero =>
          obtain ⟨c, hc0, hch⟩ := hhit
          rw [h0, Option.some.injEq] at hc0
          rw [← hc0, hl] at hch
          cases hch
        | succ j =>
          refine ⟨j, by omega, ?_, ?_, ?_⟩
          · rw [Nat.mod_add_mod, show start + 1 + j = start + (j + 1) by omega]
          · simpa only [cellAt_succ] using hhit
          · intro i hi
            simpa only [cellAt_succ] using hnext (i + 1) (by omega)

/-- The index a probe returns lies in the table. -/
theorem scan_lt {left start idx : ℕ} (hs : start < cells.length)
    (h : scan look cells left start = some idx) : idx < cells.length := by
  obtain ⟨j, -, rfl, -⟩ := (scan_eq_some_iff hs).1 h
  exact Nat.mod_lt _ (by omega)

/-- The cell a probe returns is a hit. -/
theorem scan_hit {left start idx : ℕ} (hs : start < cells.length)
    (h : scan look cells left start = some idx) : ∃ c, cells[idx]? = some c ∧ look c = .hit := by
  obtain ⟨j, -, rfl, ⟨c, hc, hl⟩, -⟩ := (scan_eq_some_iff hs).1 h
  exact ⟨c, hc, hl⟩

/-- The cells before the one returned, in probe order, all looked like `next`. -/
theorem scan_before {start idx k : ℕ} (hs : start < cells.length)
    (h : scan look cells cells.length start = some idx) (hk : k < cells.length)
    (hlt : moves cells.length start k < moves cells.length start idx) :
    ∃ c, cells[k]? = some c ∧ look c = .next := by
  obtain ⟨j, hj, rfl, -, hnext⟩ := (scan_eq_some_iff hs).1 h
  rw [moves_add_mod hs hj] at hlt
  obtain ⟨c, hc, hl⟩ := hnext _ hlt
  rw [cellAt_moves hs hk] at hc
  exact ⟨c, hc, hl⟩

/-- A full probe returns `idx` when `idx` is a hit and every cell before it is `next`. -/
theorem scan_eq_some_of_before {start idx : ℕ} {c : α} (hs : start < cells.length)
    (hi : idx < cells.length) (hc : cells[idx]? = some c) (hl : look c = .hit)
    (hbefore : ∀ k < cells.length, moves cells.length start k < moves cells.length start idx →
      ∃ c, cells[k]? = some c ∧ look c = .next) :
    scan look cells cells.length start = some idx := by
  refine (scan_eq_some_iff hs).2 ⟨moves cells.length start idx, moves_lt idx hs,
    (add_moves_mod hs hi).symm, ⟨c, by rw [cellAt_moves hs hi, hc], hl⟩, fun i hi' => ?_⟩
  have hilt : i < cells.length := hi'.trans (moves_lt idx hs)
  have hmod : (start + i) % cells.length < cells.length := Nat.mod_lt _ (by omega)
  exact hbefore _ hmod (by rw [moves_add_mod hs hilt]; exact hi')

/-- A full probe that returns nothing either met a stop, with only `next` before it, or looked
at every cell of the table. -/
theorem scan_length_eq_none {start : ℕ} (hs : start < cells.length)
    (h : scan look cells cells.length start = none) :
    (∃ k < cells.length, (∃ c, cells[k]? = some c ∧ look c = .stop) ∧
      ∀ k' < cells.length, moves cells.length start k' < moves cells.length start k →
        ∃ c, cells[k']? = some c ∧ look c = .next) ∨
      ∀ k < cells.length, ∃ c, cells[k]? = some c ∧ look c = .next := by
  by_contra hcon
  rw [not_or] at hcon
  obtain ⟨hstop, hall⟩ := hcon
  -- the first cell that is not `next` is neither a stop nor a hit
  have hfirst : ∃ j, ∃ k < cells.length, moves cells.length start k = j ∧
      ¬ ∃ c, cells[k]? = some c ∧ look c = .next := by
    push Not at hall
    obtain ⟨k, hk, hne⟩ := hall
    exact ⟨_, k, hk, rfl, fun hx => hx.elim fun c hc => hne c hc.1 hc.2⟩
  classical
  obtain ⟨k, hk, hkj, hne⟩ := Nat.find_spec hfirst
  have hbefore : ∀ k' < cells.length,
      moves cells.length start k' < moves cells.length start k →
        ∃ c, cells[k']? = some c ∧ look c = .next := by
    intro k' hk' hlt
    by_contra hnot
    exact Nat.find_min hfirst (hkj ▸ hlt) ⟨k', hk', rfl, hnot⟩
  have hc : cells[k]? = some cells[k] := List.getElem?_eq_getElem hk
  cases hl : look cells[k] with
  | hit => rw [scan_eq_some_of_before hs hk hc hl hbefore] at h; cases h
  | stop => exact hstop ⟨k, hk, ⟨_, hc, hl⟩, hbefore⟩
  | next => exact hne ⟨_, hc, hl⟩

/-- A probe does not notice a cell that changes into one it makes as much of. -/
theorem scan_set {idx : ℕ} {c c' : α} (hc : cells[idx]? = some c) (hlook : look c' = look c)
    (left start : ℕ) : scan look (cells.set idx c') left start = scan look cells left start := by
  induction left generalizing start with
  | zero => rfl
  | succ left ih =>
    rw [scan, scan]
    by_cases hi : start = idx
    · subst hi
      have hlt : start < cells.length := (List.getElem?_eq_some_iff.1 hc).1
      rw [List.getElem?_set_self hlt, hc]
      simp only [hlook, ih, List.length_set]
    · rw [List.getElem?_set_ne (Ne.symm hi)]
      simp only [ih, List.length_set]

/-- A probe goes by what it makes of the cells. -/
theorem scan_congr {look' : α → Look} (h : ∀ c ∈ cells, look c = look' c) (left start : ℕ) :
    scan look cells left start = scan look' cells left start := by
  induction left generalizing start with
  | zero => rfl
  | succ left ih =>
    rw [scan, scan]
    cases hc : cells[start]? with
    | none => rfl
    | some c => simp only [h c (List.mem_of_getElem? hc), ih]

/-- With no stop in the table, a probe returns nothing only when no cell is a hit. -/
theorem scan_length_eq_none_of_no_stop {start : ℕ} (hs : start < cells.length)
    (hnostop : ∀ c ∈ cells, look c ≠ .stop) :
    scan look cells cells.length start = none ↔ ∀ c ∈ cells, look c = .next := by
  constructor
  · intro h
    rcases scan_length_eq_none hs h with ⟨k, hk, ⟨c, hc, hl⟩, -⟩ | hall
    · exact absurd hl (hnostop c (List.mem_of_getElem? hc))
    · intro c hc
      obtain ⟨k, hk, rfl⟩ := List.getElem_of_mem hc
      obtain ⟨c', hc', hl⟩ := hall k hk
      rw [List.getElem?_eq_getElem hk, Option.some.injEq] at hc'
      rwa [hc']
  · intro h
    by_contra hne
    obtain ⟨idx, hidx⟩ := Option.ne_none_iff_exists'.1 hne
    obtain ⟨c, hc, hl⟩ := scan_hit hs hidx
    rw [h c (List.mem_of_getElem? hc)] at hl
    cases hl

/-! ## Going round

The hits of a table in the order a walk from `start` meets them. A probe returns the first; the
hits from just past that one are the same ones, with it moved to the end. -/

/-- Whether the cell `i` is a hit. -/
def hitAt (look : α → Look) (cells : List α) (i : ℕ) : Bool :=
  match cells[i]? with
  | some c => look c == .hit
  | none => false

/-- The indices of the hits, in circular order from `start`. -/
def hitsFrom (look : α → Look) (cells : List α) (start : ℕ) : List ℕ :=
  ((List.range cells.length).rotate start).filter (hitAt look cells)

@[simp]
theorem hitAt_iff {i : ℕ} : hitAt look cells i = true ↔ ∃ c, cells[i]? = some c ∧ look c = .hit := by
  unfold hitAt
  cases cells[i]? with
  | none => simp
  | some c => simp

theorem nodup_hitsFrom (start : ℕ) : (hitsFrom look cells start).Nodup :=
  (List.nodup_rotate.2 List.nodup_range).filter _

theorem length_hitsFrom (start : ℕ) :
    (hitsFrom look cells start).length = cells.countP fun c => look c == .hit := by
  have hcells : (List.range cells.length).map (fun i => cells[i]?) = cells.map some := by
    refine List.ext_getElem? fun i => ?_
    by_cases hi : i < cells.length
    · simp [List.getElem?_range hi, List.getElem?_eq_getElem hi]
    · simp [hi]
  have hsome : ((fun o : Option α => o.any fun c => look c == .hit) ∘ some) =
      fun c => look c == .hit := by
    funext c
    rfl
  have hhit : hitAt look cells = (fun o => o.any fun c => look c == .hit) ∘ fun i => cells[i]? := by
    funext i
    simp only [hitAt, Function.comp_apply]
    cases cells[i]? with
    | none => rfl
    | some c => rfl
  rw [hitsFrom, ← List.countP_eq_length_filter, (List.rotate_perm _ _).countP_eq, hhit,
    ← List.countP_map, hcells, List.countP_map, hsome]

/-- The index `j` moves from `start`. -/
theorem getElem?_rotate_range {n j : ℕ} (start : ℕ) (hj : j < n) :
    ((List.range n).rotate start)[j]? = some ((start + j) % n) := by
  have hlt : (j + start) % n < n := Nat.mod_lt _ (by omega)
  rw [List.getElem?_rotate (by simpa using hj), List.length_range, List.getElem?_range hlt,
    Nat.add_comm]

section NoStop

variable (hnostop : ∀ c ∈ cells, look c ≠ .stop)

include hnostop

/-- A full probe returns the first hit, and the next round starts just past it. -/
theorem scan_hitsFrom {start i : ℕ} {rest : List ℕ}
    (h : hitsFrom look cells start = i :: rest) :
    scan look cells cells.length (start % cells.length) = some i ∧
      hitsFrom look cells (i + 1) = rest ++ [i] := by
  obtain ⟨pre, post, hsplit, hpre, hi, hrest⟩ := List.filter_eq_cons_iff.1 h
  have hlen : pre.length < cells.length := by
    have := congrArg List.length hsplit
    simp only [List.length_rotate, List.length_range, List.length_append, List.length_cons] at this
    omega
  have hs : start % cells.length < cells.length := Nat.mod_lt _ (by omega)
  have hat : i = (start + pre.length) % cells.length := by
    have hget := getElem?_rotate_range start hlen
    rw [hsplit, List.getElem?_append_right le_rfl, Nat.sub_self, List.getElem?_cons_zero,
      Option.some.injEq] at hget
    exact hget
  refine ⟨(scan_eq_some_iff hs).2 ⟨pre.length, hlen, ?_, ?_, ?_⟩, ?_⟩
  · rw [Nat.mod_add_mod, hat]
  · rw [cellAt, Nat.mod_add_mod, ← hat]
    exact hitAt_iff.1 hi
  · intro j hj
    have hget := getElem?_rotate_range start (hj.trans hlen)
    rw [hsplit, List.getElem?_append_left hj] at hget
    have hmiss := hpre _ (List.mem_of_getElem? hget)
    obtain ⟨c, hc⟩ := cellAt_isSome hs j
    refine ⟨c, hc, ?_⟩
    rw [cellAt, Nat.mod_add_mod] at hc
    cases hl : look c with
    | hit => exact absurd (hitAt_iff.2 ⟨c, hc, hl⟩) hmiss
    | stop => exact absurd hl (hnostop c (List.mem_of_getElem? hc))
    | next => rfl
  · have hrot : (List.range cells.length).rotate (i + 1) = post ++ (pre ++ [i]) := by
      have hstep : ((List.range cells.length).rotate start).rotate (pre.length + 1) =
          post ++ (pre ++ [i]) := by
        rw [hsplit, List.append_cons, show pre.length + 1 = (pre ++ [i]).length by simp,
          List.rotate_append_length_eq]
      rw [← hstep, List.rotate_rotate, ← List.rotate_mod, ← List.rotate_mod _ (start + _),
        List.length_range, hat, Nat.mod_add_mod, Nat.add_assoc]
    rw [hitsFrom, hrot, List.filter_append, List.filter_append, hrest, List.filter_eq_nil_iff.2 hpre,
      List.nil_append, List.filter_cons_of_pos hi, List.filter_nil]

end NoStop

end Probe
