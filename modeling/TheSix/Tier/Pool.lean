import TheSix.Lib.Run
import TheSix.Tier.FixedTierStub

/-!
# The pool and its live allocations

An allocation of a `MemoryPool` is live until its index is deallocated. `deallocate` checks that the
index is one of the pool, not that it is in use, so an index that is released twice is on the free
list twice, and two later allocations share it.

The live allocations and the free indices are told apart, and make up the pool, along exactly those
histories in which whatever is released is live (`pool_sound_iff`); in these every live allocation
keeps its value (`holds_of_releasesLive`).
-/

namespace TheSix

open Run

variable {V : Type}

/-- A call on a pool. -/
inductive PoolOp (V : Type)
  | allocate (value : V)
  | deallocate (idx : ℕ)

/-- A pool, and what was allocated from it and not deallocated since: the indices, with the values
they were allocated for. -/
structure PoolLedger (V : Type) where
  pool : MemoryPool V
  live : List (ℕ × V)

namespace PoolLedger

/-- A call, and the allocations that are live after it. -/
def step (l : PoolLedger V) : PoolOp V → PoolLedger V
  | .allocate value =>
    match l.pool.allocate value with
    | .ok (idx, pool) => ⟨pool, (idx, value) :: l.live⟩
    | .error _ => l
  | .deallocate idx =>
    match l.pool.deallocate idx with
    | .ok pool => ⟨pool, l.live.eraseP (·.1 == idx)⟩
    | .error _ => l

/-- The indices of the live allocations. -/
def indices (l : PoolLedger V) : List ℕ := l.live.map Prod.fst

/-- No two live allocations share an index, they and the free indices make up the capacity, and
`allocate` fails exactly when the whole capacity is live. -/
def Sound (l : PoolLedger V) : Prop :=
  l.indices.Nodup ∧ l.live.length + l.pool.freeIndices.length = l.pool.capacity ∧
    ∀ value, (∃ e, l.pool.allocate value = .error e) ↔ l.live.length = l.pool.capacity

/-- What is released is live. -/
def ReleasesLive (l : PoolLedger V) : PoolOp V → Prop
  | .allocate _ => True
  | .deallocate idx => idx < l.pool.capacity → idx ∈ l.indices

/-- What every call keeps: the indices are in bounds, and none is lost. -/
structure Covered (l : PoolLedger V) : Prop where
  slots : l.pool.slots.length = l.pool.capacity
  free_lt : ∀ i ∈ l.pool.freeIndices, i < l.pool.capacity
  live_lt : ∀ i ∈ l.indices, i < l.pool.capacity
  cover : ∀ i < l.pool.capacity, i ∈ l.indices ∨ i ∈ l.pool.freeIndices

variable {l : PoolLedger V}

/-! ## What a call does -/

theorem allocate_cases (p : MemoryPool V) (value : V) :
    (p.freeIndices = [] ∧ p.allocate value = .error .configurationError) ∨
      ∃ free idx, p.freeIndices = free ++ [idx] ∧ p.allocate value =
        .ok (idx, { p with slots := p.slots.set idx (some value), freeIndices := free }) := by
  rcases List.eq_nil_or_concat p.freeIndices with hfree | ⟨free, idx, hfree⟩
  · exact .inl ⟨hfree, by simp [MemoryPool.allocate, hfree]⟩
  · rw [List.concat_eq_append] at hfree
    exact .inr ⟨free, idx, hfree, by simp [MemoryPool.allocate, hfree]⟩

theorem step_allocate (l : PoolLedger V) (value : V) :
    (l.pool.freeIndices = [] ∧ l.step (.allocate value) = l) ∨
      ∃ free idx, l.pool.freeIndices = free ++ [idx] ∧ l.step (.allocate value) =
        ⟨{ l.pool with slots := l.pool.slots.set idx (some value), freeIndices := free },
          (idx, value) :: l.live⟩ := by
  rcases allocate_cases l.pool value with ⟨hfree, hfail⟩ | ⟨free, idx, hfree, hdone⟩
  · exact .inl ⟨hfree, by rw [step, hfail]⟩
  · exact .inr ⟨free, idx, hfree, by rw [step, hdone]⟩

theorem step_deallocate_of_lt {idx : ℕ} (h : idx < l.pool.capacity) :
    l.step (.deallocate idx) = ⟨{ l.pool with
      slots := l.pool.slots.set idx none
      freeIndices := l.pool.freeIndices ++ [idx] }, l.live.eraseP (·.1 == idx)⟩ := by
  rw [step, MemoryPool.deallocate, if_neg (Nat.not_le.2 h)]

theorem step_deallocate_of_ge {idx : ℕ} (h : l.pool.capacity ≤ idx) :
    l.step (.deallocate idx) = l := by
  rw [step, MemoryPool.deallocate, if_pos h]

theorem map_eraseP (live : List (ℕ × V)) (idx : ℕ) :
    (live.eraseP (·.1 == idx)).map Prod.fst = (live.map Prod.fst).erase idx := by
  rw [List.erase_eq_eraseP', List.eraseP_map]
  rfl

/-- No call leaves the bounds or loses an index. -/
theorem Covered.step (h : l.Covered) (op : PoolOp V) : (l.step op).Covered := by
  cases op with
  | allocate value =>
    rcases step_allocate l value with ⟨-, hsame⟩ | ⟨free, idx, hfree, hstep⟩
    · rw [hsame]
      exact h
    · have hmem : ∀ i ∈ free, i ∈ l.pool.freeIndices := fun i hi => by simp [hfree, hi]
      have hidx : idx ∈ l.pool.freeIndices := by simp [hfree]
      rw [hstep]
      refine ⟨by simpa using h.slots, fun i hi => h.free_lt i (hmem i hi), ?_, ?_⟩
      · intro i hi
        rcases List.mem_cons.1 hi with rfl | hi
        · exact h.free_lt _ hidx
        · exact h.live_lt i hi
      · intro i hi
        rcases h.cover i hi with hlive | hi
        · exact .inl (List.mem_cons_of_mem _ hlive)
        · rw [hfree, List.mem_append, List.mem_singleton] at hi
          rcases hi with hi | rfl
          · exact .inr hi
          · exact .inl List.mem_cons_self
  | deallocate idx =>
    rcases Nat.lt_or_ge idx l.pool.capacity with hlt | hge
    · rw [step_deallocate_of_lt hlt]
      refine ⟨by simpa using h.slots, ?_, ?_, ?_⟩
      · intro i hi
        rcases List.mem_append.1 hi with hi | hi
        · exact h.free_lt i hi
        · exact List.mem_singleton.1 hi ▸ hlt
      · intro i hi
        rw [indices, map_eraseP] at hi
        exact h.live_lt i (List.mem_of_mem_erase hi)
      · intro i hi
        rw [indices, map_eraseP]
        by_cases heq : i = idx
        · exact .inr (by simp [heq])
        · exact (h.cover i hi).imp (List.mem_erase_of_ne heq).2 (List.mem_append_left _)
    · rw [step_deallocate_of_ge hge]
      exact h

/-! ## When the indices are told apart -/

/-- The indices are told apart when there are as many as the pool has. -/
theorem Covered.perm (h : l.Covered)
    (hlength : l.live.length + l.pool.freeIndices.length = l.pool.capacity) :
    (List.range l.pool.capacity).Perm (l.indices ++ l.pool.freeIndices) := by
  have hsub : List.range l.pool.capacity ⊆ l.indices ++ l.pool.freeIndices := by
    intro i hi
    exact List.mem_append.2 (h.cover i (List.mem_range.1 hi))
  apply (List.nodup_range.subperm hsub).perm_of_length_le
  rw [List.length_append, indices, List.length_map, List.length_range, hlength]

theorem Covered.sound_iff (h : l.Covered) :
    l.Sound ↔ l.live.length + l.pool.freeIndices.length = l.pool.capacity := by
  constructor
  · exact fun hsound => hsound.2.1
  · intro hlength
    have hnodup := (h.perm hlength).nodup_iff.1 List.nodup_range
    refine ⟨(List.nodup_append.1 hnodup).1, hlength, fun value => ?_⟩
    rcases allocate_cases l.pool value with ⟨hfree, hfail⟩ | ⟨free, idx, hfree, hdone⟩
    · rw [hfree, List.length_nil] at hlength
      exact iff_of_true ⟨_, hfail⟩ hlength
    · rw [hfree, List.length_append, List.length_singleton] at hlength
      refine iff_of_false ?_ (by omega)
      rw [hdone]
      nofun

/-- A call keeps the indices apart exactly when what it releases is live. -/
theorem Covered.sound_step_iff (h : l.Covered) (hsound : l.Sound) (op : PoolOp V) :
    (l.step op).Sound ↔ l.ReleasesLive op := by
  rw [(h.step op).sound_iff]
  have hlength := hsound.2.1
  cases op with
  | allocate value =>
    refine iff_of_true ?_ trivial
    rcases step_allocate l value with ⟨-, hsame⟩ | ⟨free, idx, hfree, hstep⟩
    · rw [hsame]
      exact hlength
    · rw [hfree, List.length_append, List.length_singleton] at hlength
      rw [hstep]
      dsimp only
      rw [List.length_cons]
      omega
  | deallocate idx =>
    rcases Nat.lt_or_ge idx l.pool.capacity with hlt | hge
    · have hleft : (l.live.eraseP (·.1 == idx)).length = (l.indices.erase idx).length := by
        rw [indices, ← map_eraseP, List.length_map]
      have hall : l.indices.length = l.live.length := List.length_map ..
      rw [step_deallocate_of_lt hlt]
      dsimp only
      rw [hleft, List.length_append, List.length_singleton]
      constructor
      · intro hkept _
        by_contra hdead
        rw [List.erase_of_not_mem hdead] at hkept
        omega
      · intro hreleases
        have hmem := hreleases hlt
        have hpos := List.length_pos_of_mem hmem
        rw [List.length_erase_of_mem hmem]
        omega
    · rw [step_deallocate_of_ge hge]
      exact iff_of_true hlength fun hlt => absurd hlt (Nat.not_lt.2 hge)

/-- A new pool, from which nothing is allocated. -/
theorem covered_new {capacity : ℕ} {pool : MemoryPool V} (h : MemoryPool.new capacity = .ok pool) :
    (⟨pool, []⟩ : PoolLedger V).Covered ∧ (⟨pool, []⟩ : PoolLedger V).Sound := by
  unfold MemoryPool.new at h
  split_ifs at h
  cases h
  have hcovered : (⟨⟨List.replicate capacity none, List.range capacity, capacity⟩, []⟩ :
      PoolLedger V).Covered :=
    ⟨by simp, by simp, by simp [indices], fun i hi => .inr (List.mem_range.2 hi)⟩
  exact ⟨hcovered, hcovered.sound_iff.2 (by simp)⟩

end PoolLedger

open PoolLedger

/-- **Indices are never shared exactly when nothing is released twice.** Along every history of a
new pool, its live allocations and its free indices are told apart and make up the capacity, in
every state, if and only if every index that is released is the one of a live allocation, or none of
the pool. -/
theorem pool_sound_iff {capacity : ℕ} {pool : MemoryPool V}
    (hnew : MemoryPool.new capacity = .ok pool) (ops : List (PoolOp V)) :
    (Sound ⟨pool, []⟩ ∧ Along step (fun l op => (l.step op).Sound) ⟨pool, []⟩ ops) ↔
      Along step ReleasesLive ⟨pool, []⟩ ops := by
  obtain ⟨hcovered, hsound⟩ := covered_new hnew
  rw [and_iff_right hsound]
  exact along_inv_iff (I := Sound) (K := Covered) (fun l op h => h.step op)
    (fun l op h hs => h.sound_step_iff hs op) hcovered hsound ops

/-- Two values, one released before a third takes its place. -/
theorem pool_sound_iff_reused : ∃ pool : MemoryPool ℕ, MemoryPool.new 2 = .ok pool ∧
    Along step (fun l op => (l.step op).Sound) ⟨pool, []⟩
      [.allocate 5, .allocate 6, .deallocate 1, .allocate 7] := by
  have hnew : MemoryPool.new 2 = .ok (⟨[none, none], [0, 1], 2⟩ : MemoryPool ℕ) := rfl
  refine ⟨_, hnew, ((pool_sound_iff hnew _).2 ?_).2⟩
  exact ⟨trivial, trivial, fun _ => by decide, trivial, trivial⟩

/-- **An index that is released twice is handed out twice.** The second value takes the place of the
first, which is live. -/
theorem released_twice : ∃ pool : MemoryPool ℕ, MemoryPool.new 2 = .ok pool ∧
    ([.allocate 5, .deallocate 1, .deallocate 1, .allocate 6, .allocate 7].foldl step
      ⟨pool, []⟩).live = [(1, 7), (1, 6)] ∧
    ([.allocate 5, .deallocate 1, .deallocate 1, .allocate 6, .allocate 7].foldl step
      ⟨pool, []⟩).pool.get 1 = some 7 :=
  ⟨_, rfl, by decide, by decide⟩

/-! ## What is live is kept -/

namespace PoolLedger

variable {l : PoolLedger V}

/-- Every live allocation has its value. -/
def Holds (l : PoolLedger V) : Prop := ∀ x ∈ l.live, l.pool.get x.1 = some x.2

theorem get_set_ne {p : MemoryPool V} {i idx : ℕ} (hne : idx ≠ i) (s : Option V) (free : List ℕ) :
    ({ p with slots := p.slots.set idx s, freeIndices := free } : MemoryPool V).get i =
      p.get i := by
  rw [MemoryPool.get, MemoryPool.get, List.getElem?_set_ne hne]

theorem Covered.holds_step (h : l.Covered) (hsound : l.Sound) (hholds : l.Holds) (op : PoolOp V) :
    (l.step op).Holds := by
  have hnodup := (h.perm hsound.2.1).nodup_iff.1 List.nodup_range
  cases op with
  | allocate value =>
    rcases step_allocate l value with ⟨-, hsame⟩ | ⟨free, idx, hfree, hstep⟩
    · rw [hsame]
      exact hholds
    · have hidx : idx ∈ l.pool.freeIndices := by simp [hfree]
      rw [hstep]
      intro x hx
      rcases List.mem_cons.1 hx with rfl | hlive
      · have hlt := h.free_lt idx hidx
        simp [MemoryPool.get, h.slots, hlt]
      · -- a free index is not live
        have hne : idx ≠ x.1 := by
          rintro rfl
          exact (List.nodup_append.1 hnodup).2.2 _ (List.mem_map_of_mem hlive) _ hidx rfl
        rw [get_set_ne hne]
        exact hholds x hlive
  | deallocate idx =>
    rcases Nat.lt_or_ge idx l.pool.capacity with hlt | hge
    · rw [step_deallocate_of_lt hlt]
      intro x hx
      have hne : idx ≠ x.1 := by
        rintro rfl
        have hmem : x.1 ∈ (l.live.eraseP (·.1 == x.1)).map Prod.fst := List.mem_map_of_mem hx
        rw [map_eraseP] at hmem
        exact hsound.1.not_mem_erase hmem
      rw [get_set_ne hne]
      exact hholds x (List.mem_of_mem_eraseP hx)
    · rw [step_deallocate_of_ge hge]
      exact hholds

end PoolLedger

/-- **No live value is overwritten** in a history that releases nothing twice. -/
theorem holds_of_releasesLive {capacity : ℕ} {pool : MemoryPool V}
    (hnew : MemoryPool.new capacity = .ok pool) {ops : List (PoolOp V)}
    (h : Along step ReleasesLive ⟨pool, []⟩ ops) : (ops.foldl step ⟨pool, []⟩).Holds := by
  obtain ⟨hcovered, hsound⟩ := covered_new hnew
  have hstep : ∀ (l : PoolLedger V) op, l.Covered ∧ l.Sound ∧ l.Holds → l.ReleasesLive op →
      (l.step op).Covered ∧ (l.step op).Sound ∧ (l.step op).Holds := by
    intro l op hl hop
    exact ⟨hl.1.step op, (hl.1.sound_step_iff hl.2.1 op).2 hop, hl.1.holds_step hl.2.1 hl.2.2 op⟩
  exact (inv_foldl hstep ⟨hcovered, hsound, nofun⟩ h).2.2

end TheSix
