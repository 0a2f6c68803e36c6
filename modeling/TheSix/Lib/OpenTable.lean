import TheSix.Lib.Probe

/-!
# Open-addressed tables that never give a cell back

A table of optional entries, each under a key of its own, in which a probe for a key starts at the
key's home cell. A lookup stops at the first empty cell; an insertion takes it. As long as no cell
is ever emptied, everything between the home of an entry and the entry itself stays occupied
(`Probed.path`), and no key has two cells (`Probed.distinct`): these two are what makes the lookup
find exactly the entries of the table (`find_eq_some_iff`), and an insertion fail exactly when the
table is full (`findEmpty_eq_none_iff`).
-/

namespace OpenTable

open Probe

variable {α K : Type*} {key : α → K} {home : K → ℕ} {cells : List (Option α)}

/-- What a lookup makes of a cell. -/
def lookFind [DecidableEq K] (key : α → K) (k : K) : Option α → Look
  | some a => if key a = k then .hit else .next
  | none => .stop

/-- What an insertion makes of a cell. -/
def lookEmpty [DecidableEq K] (key : α → K) (k : K) : Option α → Look
  | none => .hit
  | some a => if key a = k then .hit else .next

/-- The cell of a key. -/
def find [DecidableEq K] (key : α → K) (home : K → ℕ) (cells : List (Option α)) (k : K) : Option ℕ :=
  scan (lookFind key k) cells cells.length (home k % cells.length)

/-- The cell of a key, or the empty cell it may take. -/
def findEmpty [DecidableEq K] (key : α → K) (home : K → ℕ) (cells : List (Option α)) (k : K) :
    Option ℕ :=
  scan (lookEmpty key k) cells cells.length (home k % cells.length)

/-- The entry in a cell. -/
def entryAt (cells : List (Option α)) (i : ℕ) : Option α := (cells[i]?).join

/-- The entry of a key. -/
def lookup [DecidableEq K] (key : α → K) (home : K → ℕ) (cells : List (Option α)) (k : K) :
    Option α :=
  (find key home cells k).bind (entryAt cells)

theorem entryAt_eq_some {i : ℕ} {a : α} : entryAt cells i = some a ↔ cells[i]? = some (some a) := by
  unfold entryAt
  rcases cells[i]? with _ | _ | b <;> simp

theorem lt_of_entryAt {i : ℕ} {a : α} (h : entryAt cells i = some a) : i < cells.length :=
  (List.getElem?_eq_some_iff.1 (entryAt_eq_some.1 h)).1

/-- No key has two cells, and every cell from the home of an entry to the entry is occupied. -/
structure Probed (key : α → K) (home : K → ℕ) (cells : List (Option α)) : Prop where
  distinct : ∀ i j a b, entryAt cells i = some a → entryAt cells j = some b → key a = key b → i = j
  path : ∀ i a, entryAt cells i = some a → ∀ j < cells.length,
    moves cells.length (home (key a) % cells.length) j <
      moves cells.length (home (key a) % cells.length) i → (entryAt cells j).isSome = true

@[simp] theorem entryAt_replicate (n i : ℕ) :
    entryAt (List.replicate n (none : Option α)) i = none := by
  unfold entryAt
  rw [List.getElem?_replicate]
  split <;> rfl

theorem probed_replicate (key : α → K) (home : K → ℕ) (n : ℕ) :
    Probed key home (List.replicate n none) :=
  ⟨fun i j a b hi => by simp at hi, fun i a hi => by simp at hi⟩

theorem home_lt (k : K) {i : ℕ} (h : i < cells.length) : home k % cells.length < cells.length :=
  Nat.mod_lt _ (by omega)

/-! ## Changing one cell -/

theorem entryAt_set {i : ℕ} (hi : i < cells.length) (b : α) (j : ℕ) :
    entryAt (cells.set i (some b)) j = if j = i then some b else entryAt cells j := by
  unfold entryAt
  by_cases hj : j = i
  · subst hj
    rw [List.getElem?_set_self hi, if_pos rfl]
    rfl
  · rw [List.getElem?_set_ne (Ne.symm hj), if_neg hj]

/-- A cell is filled, or its entry replaced, without leaving a gap or a second cell of a key. -/
theorem Probed.set (h : Probed key home cells) {i : ℕ} (hi : i < cells.length) {b : α}
    (hown : ∀ j a, entryAt cells j = some a → key a = key b → j = i)
    (hpath : ∀ j < cells.length, moves cells.length (home (key b) % cells.length) j <
      moves cells.length (home (key b) % cells.length) i → (entryAt cells j).isSome = true) :
    Probed key home (cells.set i (some b)) := by
  have hsome : ∀ j, (entryAt cells j).isSome = true →
      (entryAt (cells.set i (some b)) j).isSome = true := by
    intro j hj
    rw [entryAt_set hi]
    split
    · rfl
    · exact hj
  refine ⟨fun j j' a a' ha ha' hkey => ?_, fun j a ha j' hj' hm => ?_⟩
  · rw [entryAt_set hi] at ha ha'
    split_ifs at ha ha' with hj hj' hj'
    · omega
    · obtain rfl := Option.some.inj ha
      exact hj.trans (hown j' a' ha' hkey.symm).symm
    · obtain rfl := Option.some.inj ha'
      exact (hown j a ha hkey).trans hj'.symm
    · exact h.distinct j j' a a' ha ha' hkey
  · rw [List.length_set] at hj' hm
    apply hsome
    rw [entryAt_set hi] at ha
    split_ifs at ha with hj
    · obtain rfl := Option.some.inj ha
      exact hpath j' hj' (hj ▸ hm)
    · exact h.path j a ha j' hj' hm

/-! ## Lookup -/

variable [DecidableEq K]

/-- **A lookup finds exactly the entries of the table.** -/
theorem find_eq_some_iff (h : Probed key home cells) {k : K} {i : ℕ} :
    find key home cells k = some i ↔ ∃ a, entryAt cells i = some a ∧ key a = k := by
  constructor
  · intro hf
    have hpos : 0 < cells.length := by
      by_contra hn
      rw [find, show cells.length = 0 by omega] at hf
      cases hf
    obtain ⟨c, hc, hl⟩ := scan_hit (home_lt k hpos) hf
    cases c with
    | none => cases hl
    | some a =>
      refine ⟨a, entryAt_eq_some.2 hc, ?_⟩
      by_contra hne
      simp [lookFind, hne] at hl
  · rintro ⟨a, ha, rfl⟩
    have hi := lt_of_entryAt ha
    refine scan_eq_some_of_before (home_lt _ hi) hi (entryAt_eq_some.1 ha) (by simp [lookFind]) ?_
    intro j hj hlt
    obtain ⟨b, hb⟩ := Option.isSome_iff_exists.1 (h.path i a ha j hj hlt)
    refine ⟨some b, entryAt_eq_some.1 hb, ?_⟩
    have hne : key b ≠ key a := by
      intro hkey
      obtain rfl := h.distinct j i b a hb ha hkey
      exact lt_irrefl _ hlt
    simp [lookFind, hne]

theorem find_eq_none_iff (h : Probed key home cells) {k : K} :
    find key home cells k = none ↔ ∀ i a, entryAt cells i = some a → key a ≠ k := by
  rw [Option.eq_none_iff_forall_not_mem]
  constructor
  · intro hn i a ha hk
    exact hn i ((find_eq_some_iff h).2 ⟨a, ha, hk⟩)
  · intro hn i hi
    obtain ⟨a, ha, hk⟩ := (find_eq_some_iff h).1 hi
    exact hn i a ha hk

theorem lookup_eq_some_iff (h : Probed key home cells) {k : K} {a : α} :
    lookup key home cells k = some a ↔ ∃ i, entryAt cells i = some a ∧ key a = k := by
  unfold lookup
  rw [Option.bind_eq_some_iff]
  constructor
  · rintro ⟨i, hi, ha⟩
    obtain ⟨b, hb, hk⟩ := (find_eq_some_iff h).1 hi
    rw [ha, Option.some.injEq] at hb
    exact ⟨i, ha, hb ▸ hk⟩
  · rintro ⟨i, ha, hk⟩
    exact ⟨i, (find_eq_some_iff h).2 ⟨a, ha, hk⟩, ha⟩

theorem lookup_eq_none_iff (h : Probed key home cells) {k : K} :
    lookup key home cells k = none ↔ find key home cells k = none := by
  cases hf : find key home cells k with
  | none => simp [lookup, hf]
  | some i =>
    obtain ⟨a, ha, hk⟩ := (find_eq_some_iff h).1 hf
    simp [lookup, hf, ha]

/-! ## Insertion -/

/-- A key without a cell is inserted into an empty one, behind occupied ones only. -/
theorem findEmpty_spec (h : Probed key home cells) {k : K} (hk : find key home cells k = none)
    {i : ℕ} (hi : findEmpty key home cells k = some i) :
    i < cells.length ∧ entryAt cells i = none ∧ ∀ j < cells.length,
      moves cells.length (home k % cells.length) j < moves cells.length (home k % cells.length) i →
        (entryAt cells j).isSome = true := by
  have hpos : 0 < cells.length := by
    by_contra hn
    rw [findEmpty, show cells.length = 0 by omega] at hi
    cases hi
  have hhome : home k % cells.length < cells.length := home_lt k hpos
  have hlt := scan_lt hhome hi
  refine ⟨hlt, ?_, fun j hj hm => ?_⟩
  · obtain ⟨c, hc, hl⟩ := scan_hit hhome hi
    cases c with
    | none => simp [entryAt, hc]
    | some a =>
      have hne := (find_eq_none_iff h).1 hk i a (entryAt_eq_some.2 hc)
      simp [lookEmpty, hne] at hl
  · obtain ⟨c, hc, hl⟩ := scan_before hhome hi hj hm
    cases c with
    | none => cases hl
    | some a => simp [entryAt, hc]

/-- **An insertion fails exactly when the table is full.** -/
theorem findEmpty_eq_none_iff (h : Probed key home cells) {k : K}
    (hk : find key home cells k = none) :
    findEmpty key home cells k = none ↔ ∀ c ∈ cells, c.isSome = true := by
  rcases Nat.eq_zero_or_pos cells.length with hz | hpos
  · obtain rfl := List.length_eq_zero_iff.1 hz
    simp [findEmpty, scan]
  · have hnostop : ∀ c ∈ cells, lookEmpty key k c ≠ .stop := by
      intro c _
      cases c with
      | none => simp [lookEmpty]
      | some a =>
        simp only [lookEmpty]
        split <;> simp
    rw [findEmpty, scan_length_eq_none_of_no_stop (home_lt k hpos) hnostop]
    refine forall₂_congr fun c hc => ?_
    cases c with
    | none => simp [lookEmpty]
    | some a =>
      obtain ⟨i, hi, hia⟩ := List.getElem_of_mem hc
      have hne : key a ≠ k :=
        (find_eq_none_iff h).1 hk i a (entryAt_eq_some.2 (by rw [List.getElem?_eq_getElem hi, hia]))
      simp [lookEmpty, hne]

/-- The entries after a cell was filled or replaced. -/
theorem lookup_set (h : Probed key home cells) {i : ℕ} (hi : i < cells.length) {b : α}
    (h' : Probed key home (cells.set i (some b)))
    (hold : ∀ a, entryAt cells i = some a → key a = key b) (k : K) :
    lookup key home (cells.set i (some b)) k =
      if key b = k then some b else lookup key home cells k := by
  split_ifs with hk
  · refine (lookup_eq_some_iff h').2 ⟨i, ?_, hk⟩
    rw [entryAt_set hi, if_pos rfl]
  · apply Option.ext
    intro a
    rw [lookup_eq_some_iff h', lookup_eq_some_iff h]
    refine exists_congr fun j => and_congr_left fun ha => ?_
    rw [entryAt_set hi]
    split_ifs with hj
    · subst hj
      constructor
      · intro hb
        obtain rfl := Option.some.inj hb
        exact absurd ha hk
      · intro hja
        exact absurd ((hold a hja).symm.trans ha) hk
    · exact Iff.rfl

/-! ## Changing every entry -/

theorem entryAt_map (f : α → α) (i : ℕ) :
    entryAt (cells.map (Option.map f)) i = (entryAt cells i).map f := by
  unfold entryAt
  rw [List.getElem?_map]
  rcases cells[i]? with _ | _ | a <;> rfl

omit [DecidableEq K] in
/-- A change of the entries that keeps their keys leaves every entry where it is. -/
theorem Probed.map (h : Probed key home cells) {f : α → α} (hf : ∀ a, key (f a) = key a) :
    Probed key home (cells.map (Option.map f)) := by
  have hmap : ∀ {i a}, entryAt (cells.map (Option.map f)) i = some a →
      ∃ b, entryAt cells i = some b ∧ f b = a := by
    intro i a ha
    rw [entryAt_map] at ha
    exact Option.map_eq_some_iff.1 ha
  refine ⟨fun i j a a' ha ha' hkey => ?_, fun i a ha j hj hm => ?_⟩
  · obtain ⟨b, hb, rfl⟩ := hmap ha
    obtain ⟨b', hb', rfl⟩ := hmap ha'
    rw [hf, hf] at hkey
    exact h.distinct i j b b' hb hb' hkey
  · obtain ⟨b, hb, rfl⟩ := hmap ha
    rw [List.length_map] at hj hm
    rw [hf] at hm
    rw [entryAt_map, Option.isSome_map]
    exact h.path i b hb j hj hm

theorem lookup_map (h : Probed key home cells) {f : α → α} (hf : ∀ a, key (f a) = key a) (k : K) :
    lookup key home (cells.map (Option.map f)) k = (lookup key home cells k).map f := by
  ext a
  rw [lookup_eq_some_iff (h.map hf), Option.map_eq_some_iff]
  constructor
  · rintro ⟨i, hi, hk⟩
    rw [entryAt_map, Option.map_eq_some_iff] at hi
    obtain ⟨b, hb, rfl⟩ := hi
    rw [hf] at hk
    exact ⟨b, (lookup_eq_some_iff h).2 ⟨i, hb, hk⟩, rfl⟩
  · rintro ⟨b, hb, rfl⟩
    obtain ⟨i, hi, hk⟩ := (lookup_eq_some_iff h).1 hb
    refine ⟨i, ?_, by rw [hf, hk]⟩
    rw [entryAt_map, hi]
    rfl

end OpenTable
