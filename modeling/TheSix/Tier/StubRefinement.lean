import TheSix.Tier.FixedTierStub

/-!
# The fixed-capacity rung as a map with deadlines

A rung is for remembering, per key, the last value written until it is removed or its TTL runs
out. `TtlMap` is that map. `FixedTierStub` follows it along a history of calls exactly as long as
its two probe rules agree: every `set` must reach the key's own slot, when the key has one,
before it meets a hole or an expired slot (`ProbeClear`). Removing an earlier key of a probe chain
punches such a hole, and the next `set` of a key behind the hole then writes a second slot for it.

The storage invariant `Stored` ties the slot table, the pool and the map together; the steps keep
it as long as the probes are clear (`Stored.step`), and one step off a clear probe leaves two slots
with one fingerprint (`not_atMostOne_of_not_probeClear`).
-/

namespace TheSix

/-! ## The map with deadlines -/

/-- A deadline has passed: it was armed with a TTL, and the TTL has elapsed. -/
def deadlinePassed (expiry : Option (ℕ × ℕ)) (now : ℕ) : Bool :=
  match expiry with
  | some (armed, ttl) => ttl ≤ now - armed
  | none => false

theorem deadlinePassed_mono {e : Option (ℕ × ℕ)} {τ now : ℕ} (hle : τ ≤ now)
    (h : deadlinePassed e τ = true) : deadlinePassed e now = true := by
  rcases e with _ | ⟨armed, ttl⟩
  · simp [deadlinePassed] at h
  · simp only [deadlinePassed, decide_eq_true_eq] at h ⊢
    omega

/-- A finite map with TTLs: per key, the last value written and its deadline. -/
abbrev TtlMap (V : Type) := KeyRef → Option (V × Option (ℕ × ℕ))

namespace TtlMap

variable {V : Type}

/-- The value of a key whose deadline has not passed. -/
def lookup (m : TtlMap V) (k : KeyRef) (now : ℕ) : Option V :=
  match m k with
  | some (v, e) => if deadlinePassed e now then none else some v
  | none => none

theorem lookup_eq_some {m : TtlMap V} {k : KeyRef} {now : ℕ} {v : V} :
    m.lookup k now = some v ↔ ∃ e, m k = some (v, e) ∧ deadlinePassed e now = false := by
  unfold lookup
  rcases m k with _ | ⟨v', e⟩
  · simp
  · cases h : deadlinePassed e now <;> simp [h]

end TtlMap

/-! ## Histories -/

/-- A call on a rung. -/
inductive StubOp (V : Type)
  | set (key : KeyRef) (value : V) (ttl : Option ℕ)
  | remove (key : KeyRef)
  | get (key : KeyRef)
  | contains (key : KeyRef)

/-- The key a call is about. -/
def StubOp.key {V : Type} : StubOp V → KeyRef
  | .set k _ _ | .remove k | .get k | .contains k => k

namespace FixedTierStub

variable {V : Type}

/-- The slot at an index of the table. -/
def slotAt (t : FixedTierStub V) (i : ℕ) : Option Slot := (t.slots[i]?).join

theorem slotAt_lt {t : FixedTierStub V} {i : ℕ} {s : Slot} (h : t.slotAt i = some s) :
    i < t.slots.length := by
  by_contra hn
  simp [slotAt, List.getElem?_eq_none (not_lt.1 hn)] at h

theorem slotAt_eq {t : FixedTierStub V} {i : ℕ} {c : Option Slot} (h : t.slots[i]? = some c) :
    t.slotAt i = c := by
  simp [slotAt, h]

theorem slots_eq {t : FixedTierStub V} {i : ℕ} (h : i < t.slots.length) :
    t.slots[i]? = some (t.slotAt i) := by
  simp [slotAt, List.getElem?_eq_getElem h]

variable [IntegrityCheck V]

/-- The rung after a call made at the instant `now`. -/
def step (t : FixedTierStub V) (now : ℕ) : StubOp V → FixedTierStub V
  | .set k v ttl => (t.set k v ttl now).2
  | .remove k => (t.remove k now).2
  | .get k => (t.get k now).2
  | .contains _ => t

/-- The map after a call: a `set` counts when the rung answered `Ok`. -/
def specStep (t : FixedTierStub V) (m : TtlMap V) (now : ℕ) : StubOp V → TtlMap V
  | .set k v ttl =>
    match (t.set k v ttl now).1 with
    | .ok _ => Function.update m k (some (v, ttl.map fun d => (now, d)))
    | .error _ => m
  | .remove k => Function.update m k none
  | _ => m

/-- No two slots hold one fingerprint. -/
def AtMostOne (t : FixedTierStub V) : Prop :=
  ∀ i j s s', t.slotAt i = some s → t.slotAt j = some s' → s.fingerprint = s'.fingerprint → i = j

/-- The rung answers as the map does, at every instant from `τ` on, for every key in use; and no
two slots hold one fingerprint. -/
def Agrees (U : Set KeyRef) (t : FixedTierStub V) (m : TtlMap V) (τ : ℕ) : Prop :=
  (∀ k ∈ U, ∀ now, τ ≤ now → (t.get k now).1 = .ok (m.lookup k now) ∧
    t.contains k now = .ok (m.lookup k now).isSome) ∧ t.AtMostOne

/-- The rung and the map agree before, between and after all calls of a history. -/
def AgreesAlong (U : Set KeyRef) (t : FixedTierStub V) (m : TtlMap V) (τ : ℕ) :
    List (ℕ × StubOp V) → Prop
  | [] => Agrees U t m τ
  | (now, op) :: h => Agrees U t m τ ∧ AgreesAlong U (t.step now op) (t.specStep m now op) now h

/-- The way from the home slot of `key` to a slot that holds it is free of holes and of expired
slots. -/
def ProbeClear (t : FixedTierStub V) (key : KeyRef) (now : ℕ) : Prop :=
  ∀ j s, t.slotAt j = some s → s.fingerprint = KeyFingerprint.of key →
    ∀ i < t.slots.length,
      Probe.moves t.slots.length (t.home (t.placementOf key)) i <
        Probe.moves t.slots.length (t.home (t.placementOf key)) j →
      ∃ s', t.slotAt i = some s' ∧ s'.isExpired now = false

/-- Every `set` of a history starts from a clear probe. -/
def ProbesClear (t : FixedTierStub V) : List (ℕ × StubOp V) → Prop
  | [] => True
  | (now, op) :: h =>
    (∀ k v ttl, op = .set k v ttl → t.ProbeClear k now) ∧ ProbesClear (t.step now op) h

/-- The instants of a history do not decrease. -/
def TimesFrom (τ : ℕ) : List (ℕ × StubOp V) → Prop
  | [] => True
  | (now, _) :: h => τ ≤ now ∧ TimesFrom now h

/-! ## The storage invariant -/

/-- The slot table, the pool and the map describe one content at the instant `τ`, for keys of
`U`. -/
structure Stored (U : Set KeyRef) (t : FixedTierStub V) (m : TtlMap V) (τ : ℕ) : Prop where
  slots_length : t.slots.length = t.pool.capacity
  pool_length : t.pool.slots.length = t.pool.capacity
  capacity_pos : 0 < t.pool.capacity
  unique : t.AtMostOne
  key : ∀ i s, t.slotAt i = some s →
    ∃ k ∈ U, s.placement = t.placement.hash k ∧ s.fingerprint = KeyFingerprint.of k
  value : ∀ i s, t.slotAt i = some s →
    s.poolIdx < t.pool.capacity ∧
      ∃ v, t.pool.slots[s.poolIdx]? = some (some v) ∧ IntegrityCheck.contentDigest v = s.digest
  distinct : ∀ i j s s', t.slotAt i = some s → t.slotAt j = some s' → s.poolIdx = s'.poolIdx →
    i = j
  free : ∀ x ∈ t.pool.freeIndices, x < t.pool.capacity ∧ ∀ i s, t.slotAt i = some s → s.poolIdx ≠ x
  free_nodup : t.pool.freeIndices.Nodup
  cover : ∀ x < t.pool.capacity, x ∈ t.pool.freeIndices ∨ ∃ i s, t.slotAt i = some s ∧ s.poolIdx = x
  described : ∀ k ∈ U, ∀ i s v, t.slotAt i = some s → s.fingerprint = KeyFingerprint.of k →
    t.pool.slots[s.poolIdx]? = some (some v) → s.isExpired τ = false → m k = some (v, s.expiry)
  present : ∀ k ∈ U, ∀ v e, m k = some (v, e) → deadlinePassed e τ = false →
    ∃ i s, t.slotAt i = some s ∧ s.fingerprint = KeyFingerprint.of k ∧ s.expiry = e ∧
      t.pool.slots[s.poolIdx]? = some (some v)

theorem isExpired_eq (s : Slot) (now : ℕ) : s.isExpired now = deadlinePassed s.expiry now := rfl

variable {U : Set KeyRef} {t : FixedTierStub V} {m : TtlMap V} {τ now : ℕ} {k : KeyRef}

namespace Stored

theorem mono (h : Stored U t m τ) (hle : τ ≤ now) : Stored U t m now where
  __ := h
  described k hk i s v hs hf hv he := by
    refine h.described k hk i s v hs hf hv ?_
    by_contra hne
    rw [Bool.not_eq_false, isExpired_eq] at hne
    rw [isExpired_eq, deadlinePassed_mono hle hne] at he
    cases he
  present k hk v e hm he := by
    refine h.present k hk v e hm ?_
    by_contra hne
    rw [Bool.not_eq_false] at hne
    rw [deadlinePassed_mono hle hne] at he
    cases he

theorem slots_pos (h : Stored U t m τ) : 0 < t.slots.length := h.slots_length ▸ h.capacity_pos

theorem home_lt (h : Stored U t m τ) (p : UInt64) : t.home p < t.slots.length :=
  Nat.mod_lt _ h.slots_pos

theorem isEmpty_slots (h : Stored U t m τ) : t.slots.isEmpty = false := by
  have := h.slots_pos
  rcases hs : t.slots with _ | ⟨a, l⟩
  · simp [hs] at this
  · rfl

/-- A slot holds a key in use exactly when it has the key's fingerprint. -/
theorem holds_iff (h : Stored U t m τ) (hU : Set.InjOn KeyFingerprint.of U) (hk : k ∈ U)
    {i : ℕ} {s : Slot} (hs : t.slotAt i = some s) :
    s.holds (t.placementOf k) (KeyFingerprint.of k) = true ↔
      s.fingerprint = KeyFingerprint.of k := by
  obtain ⟨k', hk', hp, hf⟩ := h.key i s hs
  simp only [Slot.holds, Bool.and_eq_true, beq_iff_eq]
  refine ⟨fun h => h.2, fun hfp => ⟨?_, hfp⟩⟩
  rw [hp, placementOf, hU hk' hk (hf.symm.trans hfp)]

/-- The index `find_slot` returns: the key's own unexpired slot. -/
theorem findSlot_eq_some (h : Stored U t m τ) (hU : Set.InjOn KeyFingerprint.of U) (hk : k ∈ U)
    {idx : ℕ} :
    t.findSlot (t.placementOf k) (KeyFingerprint.of k) now = some idx ↔
      ∃ s, t.slotAt idx = some s ∧ s.fingerprint = KeyFingerprint.of k ∧
        s.isExpired now = false := by
  have hhome := h.home_lt (t.placementOf k)
  rw [findSlot, h.isEmpty_slots, if_neg (by simp)]
  constructor
  · intro hscan
    obtain ⟨c, hc, hl⟩ := Probe.scan_hit hhome hscan
    rcases c with _ | s
    · simp [lookFind] at hl
    · have hs := slotAt_eq hc
      simp only [lookFind] at hl
      split at hl
      · rename_i hholds
        split at hl
        · cases hl
        · rename_i hexp
          exact ⟨s, hs, (h.holds_iff hU hk hs).1 hholds, by simpa using hexp⟩
      · cases hl
  · rintro ⟨s, hs, hf, hexp⟩
    refine Probe.scan_eq_some_of_before hhome (slotAt_lt hs) (c := some s)
      (by rw [slots_eq (slotAt_lt hs), hs])
      (by simp [lookFind, (h.holds_iff hU hk hs).2 hf, hexp]) fun i hi hlt => ?_
    refine ⟨t.slotAt i, slots_eq hi, ?_⟩
    rcases hsi : t.slotAt i with _ | s'
    · rfl
    · -- another slot with the key's fingerprint would be the same slot
      have hne : s'.fingerprint ≠ KeyFingerprint.of k := by
        intro hf'
        obtain rfl := h.unique i idx s' s hsi hs (hf'.trans hf.symm)
        exact absurd hlt (lt_irrefl _)
      simp [lookFind, (not_congr (h.holds_iff hU hk hsi)).2 hne]

/-- `find_slot` returns nothing exactly when the key has no unexpired slot. -/
theorem findSlot_eq_none (h : Stored U t m τ) (hU : Set.InjOn KeyFingerprint.of U) (hk : k ∈ U) :
    t.findSlot (t.placementOf k) (KeyFingerprint.of k) now = none ↔
      ∀ i s, t.slotAt i = some s → s.fingerprint = KeyFingerprint.of k →
        s.isExpired now = true := by
  constructor
  · intro hnone i s hs hf
    by_contra hexp
    rw [Bool.not_eq_true] at hexp
    rw [(h.findSlot_eq_some hU hk).2 ⟨s, hs, hf, hexp⟩] at hnone
    cases hnone
  · intro hall
    by_contra hne
    obtain ⟨idx, hidx⟩ := Option.ne_none_iff_exists'.1 hne
    obtain ⟨s, hs, hf, hexp⟩ := (h.findSlot_eq_some hU hk).1 hidx
    rw [hall idx s hs hf] at hexp
    cases hexp

/-- The index `find_empty` returns is a hole, a slot of the key, or an expired slot. -/
theorem findEmpty_hit (h : Stored U t m τ) (hU : Set.InjOn KeyFingerprint.of U) (hk : k ∈ U)
    {idx : ℕ} (hidx : t.findEmpty (t.placementOf k) (KeyFingerprint.of k) now = some idx) :
    idx < t.slots.length ∧ ∀ s, t.slotAt idx = some s →
      s.fingerprint = KeyFingerprint.of k ∨ s.isExpired now = true := by
  have hhome := h.home_lt (t.placementOf k)
  rw [findEmpty, h.isEmpty_slots, if_neg (by simp)] at hidx
  refine ⟨Probe.scan_lt hhome hidx, fun s hs => ?_⟩
  obtain ⟨c, hc, hl⟩ := Probe.scan_hit hhome hidx
  rw [slots_eq (Probe.scan_lt hhome hidx), hs, Option.some.injEq] at hc
  subst hc
  simp only [lookEmpty] at hl
  split at hl
  · rename_i hholds
    exact Or.inl ((h.holds_iff hU hk hs).1 hholds)
  · split at hl
    · rename_i hexp
      exact Or.inr hexp
    · cases hl

/-- On a clear probe, `find_empty` passes over no slot of the key. -/
theorem findEmpty_own (h : Stored U t m τ) (hU : Set.InjOn KeyFingerprint.of U) (hk : k ∈ U)
    (hclear : t.ProbeClear k now) {idx : ℕ}
    (hidx : t.findEmpty (t.placementOf k) (KeyFingerprint.of k) now = some idx) {j : ℕ} {s : Slot}
    (hs : t.slotAt j = some s) (hf : s.fingerprint = KeyFingerprint.of k) : j = idx := by
  have hhome := h.home_lt (t.placementOf k)
  obtain ⟨hlt, hhit⟩ := h.findEmpty_hit hU hk hidx
  rw [findEmpty, h.isEmpty_slots, if_neg (by simp)] at hidx
  set len := t.slots.length
  set start := t.home (t.placementOf k)
  rcases lt_trichotomy (Probe.moves len start idx) (Probe.moves len start j) with hm | hm | hm
  · -- the slot taken lies on the way to the key's own: it is occupied and unexpired
    obtain ⟨s', hs', hexp⟩ := hclear j s hs hf idx hlt hm
    rcases hhit s' hs' with hf' | hexp'
    · exact h.unique j idx s s' hs hs' (hf.trans hf'.symm)
    · rw [hexp] at hexp'
      cases hexp'
  · have h1 := Probe.add_moves_mod hhome hlt
    have h2 := Probe.add_moves_mod hhome (slotAt_lt hs)
    rw [← h1, hm, h2]
  · -- the key's own slot lies before the one taken, and would have been taken
    obtain ⟨c, hc, hl⟩ := Probe.scan_before hhome hidx (slotAt_lt hs) hm
    rw [slots_eq (slotAt_lt hs), hs, Option.some.injEq] at hc
    subst hc
    simp [lookEmpty, (h.holds_iff hU hk hs).2 hf] at hl

/-- A rung that stores what the map says answers as the map does. -/
theorem agrees (h : Stored U t m τ) (hU : Set.InjOn KeyFingerprint.of U) : Agrees U t m τ := by
  refine ⟨fun k hk now hle => ?_, h.unique⟩
  have h' := h.mono hle
  rcases hfind : t.findSlot (t.placementOf k) (KeyFingerprint.of k) now with _ | idx
  · have hlook : m.lookup k now = none := by
      by_contra hne
      obtain ⟨v, hv⟩ := Option.ne_none_iff_exists'.1 hne
      obtain ⟨e, hm, he⟩ := TtlMap.lookup_eq_some.1 hv
      obtain ⟨i, s, hs, hf, rfl, -⟩ := h'.present k hk v e hm he
      rw [← isExpired_eq, (h'.findSlot_eq_none hU hk).1 hfind i s hs hf] at he
      cases he
    simp [get, contains, hfind, hlook]
  · obtain ⟨s, hs, hf, hexp⟩ := (h'.findSlot_eq_some hU hk).1 hfind
    obtain ⟨hlt, v, hv, hdig⟩ := h'.value idx s hs
    have hm := h'.described k hk idx s v hs hf hv hexp
    have hlook : m.lookup k now = some v := TtlMap.lookup_eq_some.2 ⟨_, hm, hexp⟩
    have hslot : (t.slots[idx]?).join = some s := hs
    have hpool : t.pool.get s.poolIdx = some v := by
      rw [MemoryPool.get, if_neg (by omega), hv]
      rfl
    simp [get, contains, hfind, hlook, hslot, hpool, hdig]

/-- A table with a hole has a free pool index: otherwise the pool indices would fill the table. -/
theorem free_ne_nil (h : Stored U t m τ) {idx : ℕ} (hlt : idx < t.slots.length)
    (hhole : t.slotAt idx = none) : t.pool.freeIndices ≠ [] := by
  intro hnil
  have hused : ∀ x : Fin t.pool.capacity, ∃ i : Fin t.pool.capacity, ∃ s,
      t.slotAt i = some s ∧ s.poolIdx = x := by
    intro x
    rcases h.cover x x.2 with hx | ⟨i, s, hs, hx⟩
    · simp [hnil] at hx
    · exact ⟨⟨i, h.slots_length ▸ slotAt_lt hs⟩, s, hs, hx⟩
  choose f hf using hused
  have hinj : Function.Injective f := by
    intro x y hxy
    obtain ⟨s, hs, hx⟩ := hf x
    obtain ⟨s', hs', hy⟩ := hf y
    rw [hxy, hs', Option.some.injEq] at hs
    exact Fin.ext (by rw [← hx, ← hy, hs])
  obtain ⟨x, hx⟩ := (Finite.injective_iff_surjective.1 hinj) ⟨idx, h.slots_length ▸ hlt⟩
  obtain ⟨s, hs, -⟩ := hf x
  rw [hx, hhole] at hs
  cases hs

end Stored

/-- The slot `set` writes. -/
def newSlot (t : FixedTierStub V) (k : KeyRef) (v : V) (ttl : Option ℕ) (now poolIdx : ℕ) : Slot where
  placement := t.placementOf k
  fingerprint := KeyFingerprint.of k
  digest := IntegrityCheck.contentDigest v
  poolIdx := poolIdx
  expiry := ttl.map fun d => (now, d)
  address := KeyAddress.of k t.placement

/-- The rung after writing the slot `idx` through the pool index `poolIdx`. -/
def written (t : FixedTierStub V) (k : KeyRef) (v : V) (ttl : Option ℕ) (now idx poolIdx : ℕ)
    (pool : MemoryPool V) : FixedTierStub V :=
  { t with pool := pool, slots := t.slots.set idx (some (newSlot t k v ttl now poolIdx)) }

/-- The pool after a write through `poolIdx`, an index no slot but `idx` uses. -/
structure PoolWrite (t : FixedTierStub V) (v : V) (idx poolIdx : ℕ) (pool : MemoryPool V) :
    Prop where
  capacity : pool.capacity = t.pool.capacity
  slots : pool.slots = t.pool.slots.set poolIdx (some v)
  lt : poolIdx < t.pool.capacity
  alone : ∀ i s, t.slotAt i = some s → s.poolIdx = poolIdx → i = idx
  own : ∀ s, t.slotAt idx = some s → s.poolIdx = poolIdx
  mem_free : ∀ x, x ∈ pool.freeIndices ↔ x ∈ t.pool.freeIndices ∧ x ≠ poolIdx
  free_nodup : pool.freeIndices.Nodup

/-- **What `set` does when it finds a slot**: it answers `Ok` and writes that slot, through the
slot's own pool index when it is occupied and through a free one when it is a hole. -/
theorem Stored.set_eq (h : Stored U t m τ) (v : V) (ttl : Option ℕ) {idx : ℕ}
    (hlt : idx < t.slots.length)
    (hidx : t.findEmpty (t.placementOf k) (KeyFingerprint.of k) now = some idx) :
    ∃ poolIdx pool, PoolWrite t v idx poolIdx pool ∧
      t.set k v ttl now = (.ok (), written t k v ttl now idx poolIdx pool) := by
  rcases hslot : t.slotAt idx with _ | old
  · -- a hole: the top of the free list
    have hne := h.free_ne_nil hlt hslot
    obtain ⟨fs, x, hfree⟩ : ∃ fs x, t.pool.freeIndices = fs ++ [x] :=
      ⟨_, _, (List.dropLast_append_getLast hne).symm⟩
    have hnodup := h.free_nodup
    rw [hfree, List.nodup_append] at hnodup
    have hx := h.free x (by simp [hfree])
    have hjoin : (t.slots[idx]?).join = none := hslot
    refine ⟨x, ⟨t.pool.slots.set x (some v), fs, t.pool.capacity⟩,
      ⟨rfl, rfl, hx.1, fun i s hs he => absurd he (hx.2 i s hs), by simp [hslot], ?_, hnodup.1⟩, ?_⟩
    · intro y
      simp only [hfree, List.mem_append, List.mem_singleton]
      refine ⟨fun hy => ⟨Or.inl hy, hnodup.2.2 y hy x (by simp)⟩, ?_⟩
      rintro ⟨hy | rfl, hyx⟩
      · exact hy
      · exact absurd rfl hyx
    · simp [set, hidx, hjoin, MemoryPool.allocate, hfree, written, newSlot]
  · -- an occupied slot: its own pool index
    obtain ⟨hlt', v', hv', -⟩ := h.value idx old hslot
    have hjoin : (t.slots[idx]?).join = some old := hslot
    have hpool : t.pool.get old.poolIdx = some v' := by
      rw [MemoryPool.get, if_neg (by omega), hv']
      rfl
    refine ⟨old.poolIdx, t.pool.overwrite old.poolIdx v,
      ⟨rfl, rfl, hlt', fun i s hs he => h.distinct i idx s old hs hslot he, ?_, ?_,
        h.free_nodup⟩, ?_⟩
    · intro s hs
      rw [hslot, Option.some.injEq] at hs
      rw [hs]
    · intro x
      exact ⟨fun hx => ⟨hx, fun he => (h.free x hx).2 idx old hslot he.symm⟩, fun hx => hx.1⟩
    · simp [set, hidx, hjoin, hpool, written, newSlot]

theorem slotAt_written (t : FixedTierStub V) (k : KeyRef) (v : V) (ttl : Option ℕ) (now : ℕ)
    {idx : ℕ} (hlt : idx < t.slots.length) (poolIdx : ℕ) (pool : MemoryPool V) (i : ℕ) :
    (written t k v ttl now idx poolIdx pool).slotAt i =
      if i = idx then some (newSlot t k v ttl now poolIdx) else t.slotAt i := by
  simp only [slotAt, written, List.getElem?_set]
  by_cases hi : i = idx
  · subst hi
    simp [hlt]
  · simp [hi, Ne.symm hi]

/-- Writing a slot keeps the content described, when no other slot holds the key and the slot
held no unexpired other key. -/
theorem Stored.written (h : Stored U t m now) (hU : Set.InjOn KeyFingerprint.of U) (hk : k ∈ U)
    {idx poolIdx : ℕ} {v : V} {ttl : Option ℕ} {pool : MemoryPool V} (hlt : idx < t.slots.length)
    (hown : ∀ j s, t.slotAt j = some s → s.fingerprint = KeyFingerprint.of k → j = idx)
    (hhit : ∀ s, t.slotAt idx = some s →
      s.fingerprint = KeyFingerprint.of k ∨ s.isExpired now = true)
    (hp : PoolWrite t v idx poolIdx pool) :
    Stored U (FixedTierStub.written t k v ttl now idx poolIdx pool)
      (Function.update m k (some (v, ttl.map fun d => (now, d)))) now := by
  have hslot := slotAt_written t k v ttl now hlt poolIdx pool
  -- a slot of the new table is the new slot at `idx`, or an old slot elsewhere
  have hcases : ∀ i s, (FixedTierStub.written t k v ttl now idx poolIdx pool).slotAt i = some s →
      (i = idx ∧ s = newSlot t k v ttl now poolIdx) ∨ (i ≠ idx ∧ t.slotAt i = some s) := by
    intro i s hs
    rw [hslot i] at hs
    by_cases hi : i = idx
    · rw [if_pos hi, Option.some.injEq] at hs
      exact Or.inl ⟨hi, hs.symm⟩
    · rw [if_neg hi] at hs
      exact Or.inr ⟨hi, hs⟩
  have hold : ∀ i s, i ≠ idx → t.slotAt i = some s → s.poolIdx ≠ poolIdx :=
    fun i s hi hs he => hi (hp.alone i s hs he)
  have hpoolOld : ∀ i s, i ≠ idx → t.slotAt i = some s →
      pool.slots[s.poolIdx]? = t.pool.slots[s.poolIdx]? := by
    intro i s hi hs
    rw [hp.slots, List.getElem?_set_ne (Ne.symm (hold i s hi hs))]
  have hpoolNew : pool.slots[poolIdx]? = some (some v) := by
    rw [hp.slots, List.getElem?_set_self (by rw [h.pool_length]; exact hp.lt)]
  refine
    { slots_length := ?_, pool_length := ?_, capacity_pos := ?_, unique := ?_, key := ?_,
      value := ?_, distinct := ?_, free := ?_, free_nodup := hp.free_nodup, cover := ?_,
      described := ?_, present := ?_ }
  · simpa [FixedTierStub.written, hp.capacity] using h.slots_length
  · simpa [FixedTierStub.written, hp.capacity, hp.slots] using h.pool_length
  · simpa [FixedTierStub.written, hp.capacity] using h.capacity_pos
  · intro i j s s' hs hs' hf
    rcases hcases i s hs with ⟨hi, rfl⟩ | ⟨hi, hsi⟩ <;>
      rcases hcases j s' hs' with ⟨hj, rfl⟩ | ⟨hj, hsj⟩
    · exact hi.trans hj.symm
    · exact absurd (hown j s' hsj hf.symm) hj
    · exact absurd (hown i s hsi hf) hi
    · exact h.unique i j s s' hsi hsj hf
  · intro i s hs
    rcases hcases i s hs with ⟨-, rfl⟩ | ⟨-, hs⟩
    · exact ⟨k, hk, rfl, rfl⟩
    · exact h.key i s hs
  · intro i s hs
    change s.poolIdx < pool.capacity ∧ ∃ v', pool.slots[s.poolIdx]? = some (some v') ∧ _
    rw [hp.capacity]
    rcases hcases i s hs with ⟨-, rfl⟩ | ⟨hi, hs⟩
    · exact ⟨hp.lt, v, hpoolNew, rfl⟩
    · rw [hpoolOld i s hi hs]
      exact h.value i s hs
  · intro i j s s' hs hs' he
    rcases hcases i s hs with ⟨hi, rfl⟩ | ⟨hi, hsi⟩ <;>
      rcases hcases j s' hs' with ⟨hj, rfl⟩ | ⟨hj, hsj⟩
    · exact hi.trans hj.symm
    · exact absurd he.symm (hold j s' hj hsj)
    · exact absurd he (hold i s hi hsi)
    · exact h.distinct i j s s' hsi hsj he
  · intro x hx
    obtain ⟨hx, hne⟩ := (hp.mem_free x).1 hx
    refine ⟨hp.capacity ▸ (h.free x hx).1, fun i s hs => ?_⟩
    rcases hcases i s hs with ⟨-, rfl⟩ | ⟨-, hs⟩
    · exact Ne.symm hne
    · exact (h.free x hx).2 i s hs
  · intro x hx
    have hx' : x < t.pool.capacity := hp.capacity ▸ hx
    by_cases hxp : x = poolIdx
    · exact Or.inr ⟨idx, _, by rw [hslot idx, if_pos rfl], hxp.symm⟩
    · rcases h.cover x hx' with hf | ⟨i, s, hs, he⟩
      · exact Or.inl ((hp.mem_free x).2 ⟨hf, hxp⟩)
      · have hi : i ≠ idx := by
          rintro rfl
          exact hxp (he.symm.trans (hp.own s hs))
        exact Or.inr ⟨i, s, by rw [hslot i, if_neg hi, hs], he⟩
  · intro k' hk' i s v' hs hf hv' hexp
    change pool.slots[s.poolIdx]? = some (some v') at hv'
    rcases hcases i s hs with ⟨-, rfl⟩ | ⟨hi, hsi⟩
    · obtain rfl : k = k' := hU hk hk' hf
      have hvv : v = v' := by simpa [newSlot, hpoolNew] using hv'
      simp [hvv, newSlot]
    · rw [hpoolOld i s hi hsi] at hv'
      have hne : k' ≠ k := fun he => hi (hown i s hsi (he ▸ hf))
      rw [Function.update_of_ne hne]
      exact h.described k' hk' i s v' hsi hf hv' hexp
  · intro k' hk' v' e hm he
    by_cases hkk : k' = k
    · subst hkk
      simp only [Function.update_self, Option.some.injEq, Prod.mk.injEq] at hm
      obtain ⟨rfl, rfl⟩ := hm
      exact ⟨idx, newSlot t k' v ttl now poolIdx, by rw [hslot idx, if_pos rfl], rfl, rfl, hpoolNew⟩
    · rw [Function.update_of_ne hkk] at hm
      obtain ⟨i, s, hs, hf, rfl, hv'⟩ := h.present k' hk' v' e hm he
      have hi : i ≠ idx := by
        rintro rfl
        rcases hhit s hs with hf' | hexp
        · exact hkk (hU hk' hk (hf.symm.trans hf'))
        · rw [isExpired_eq, he] at hexp
          cases hexp
      exact ⟨i, s, by rw [hslot i, if_neg hi, hs], hf, rfl,
        (hpoolOld i s hi hs).trans hv'⟩

/-- Removing a slot of the key keeps the content described. -/
theorem Stored.removed (h : Stored U t m now) (hU : Set.InjOn KeyFingerprint.of U) (hk : k ∈ U)
    {idx : ℕ} {s₀ : Slot} (hs₀ : t.slotAt idx = some s₀)
    (hf₀ : s₀.fingerprint = KeyFingerprint.of k) :
    Stored U
      { t with
        slots := t.slots.set idx none
        pool := { t.pool with
          slots := t.pool.slots.set s₀.poolIdx none
          freeIndices := t.pool.freeIndices ++ [s₀.poolIdx] } }
      (Function.update m k none) now := by
  set t' : FixedTierStub V := { t with
        slots := t.slots.set idx none
        pool := { t.pool with
          slots := t.pool.slots.set s₀.poolIdx none
          freeIndices := t.pool.freeIndices ++ [s₀.poolIdx] } } with ht'
  have hlt := slotAt_lt hs₀
  have hslot : ∀ i, t'.slotAt i = if i = idx then none else t.slotAt i := by
    intro i
    simp only [slotAt, ht', List.getElem?_set]
    by_cases hi : i = idx
    · subst hi
      simp [hlt]
    · simp [hi, Ne.symm hi]
  have hcases : ∀ i s, t'.slotAt i = some s → i ≠ idx ∧ t.slotAt i = some s := by
    intro i s hs
    rw [hslot i] at hs
    by_cases hi : i = idx
    · simp [hi] at hs
    · rw [if_neg hi] at hs
      exact ⟨hi, hs⟩
  have hold : ∀ i s, i ≠ idx → t.slotAt i = some s → s.poolIdx ≠ s₀.poolIdx :=
    fun i s hi hs he => hi (h.distinct i idx s s₀ hs hs₀ he)
  have hpool : ∀ i s, i ≠ idx → t.slotAt i = some s →
      t'.pool.slots[s.poolIdx]? = t.pool.slots[s.poolIdx]? := by
    intro i s hi hs
    simp only [ht', List.getElem?_set_ne (Ne.symm (hold i s hi hs))]
  refine
    { slots_length := ?_, pool_length := ?_, capacity_pos := h.capacity_pos, unique := ?_,
      key := ?_, value := ?_, distinct := ?_, free := ?_, free_nodup := ?_, cover := ?_,
      described := ?_, present := ?_ }
  · simpa [ht'] using h.slots_length
  · simpa [ht'] using h.pool_length
  · intro i j s s' hs hs' hf
    exact h.unique i j s s' (hcases i s hs).2 (hcases j s' hs').2 hf
  · intro i s hs
    exact h.key i s (hcases i s hs).2
  · intro i s hs
    obtain ⟨hi, hs⟩ := hcases i s hs
    rw [hpool i s hi hs]
    exact h.value i s hs
  · intro i j s s' hs hs' he
    exact h.distinct i j s s' (hcases i s hs).2 (hcases j s' hs').2 he
  · intro x hx
    rcases List.mem_append.1 hx with hx | hx
    · exact ⟨(h.free x hx).1, fun i s hs => (h.free x hx).2 i s (hcases i s hs).2⟩
    · rw [List.mem_singleton] at hx
      subst hx
      exact ⟨(h.value idx s₀ hs₀).1, fun i s hs => hold i s (hcases i s hs).1 (hcases i s hs).2⟩
  · rw [List.nodup_append]
    refine ⟨h.free_nodup, by simp, fun x hx y hy => ?_⟩
    rw [List.mem_singleton] at hy
    subst hy
    exact ((h.free x hx).2 idx s₀ hs₀).symm
  · intro x hx
    rcases h.cover x hx with hf | ⟨i, s, hs, he⟩
    · exact Or.inl (List.mem_append_left _ hf)
    · by_cases hi : i = idx
      · subst hi
        rw [hs₀, Option.some.injEq] at hs
        exact Or.inl (List.mem_append_right _ (by simp [← he, hs]))
      · exact Or.inr ⟨i, s, by rw [hslot i, if_neg hi, hs], he⟩
  · intro k' hk' i s v' hs hf hv' hexp
    obtain ⟨hi, hs⟩ := hcases i s hs
    rw [hpool i s hi hs] at hv'
    have hne : k' ≠ k := fun he => hi (h.unique i idx s s₀ hs hs₀ (by rw [hf, hf₀, he]))
    rw [Function.update_of_ne hne]
    exact h.described k' hk' i s v' hs hf hv' hexp
  · intro k' hk' v' e hm he
    have hkk : k' ≠ k := by
      rintro rfl
      simp at hm
    rw [Function.update_of_ne hkk] at hm
    obtain ⟨i, s, hs, hf, rfl, hv'⟩ := h.present k' hk' v' e hm he
    have hi : i ≠ idx := by
      rintro rfl
      rw [hs₀, Option.some.injEq] at hs
      exact hkk (hU hk' hk (by rw [← hf, ← hs, hf₀]))
    exact ⟨i, s, by rw [hslot i, if_neg hi, hs], hf, rfl, (hpool i s hi hs).trans hv'⟩

/-- Forgetting a key whose slot has expired keeps the content described. -/
theorem Stored.forgotten (h : Stored U t m now)
    (hexp : ∀ i s, t.slotAt i = some s → s.fingerprint = KeyFingerprint.of k →
      s.isExpired now = true) :
    Stored U t (Function.update m k none) now where
  __ := h
  described k' hk' i s v hs hf hv he := by
    have hne : k' ≠ k := by
      rintro rfl
      rw [hexp i s hs hf] at he
      cases he
    rw [Function.update_of_ne hne]
    exact h.described k' hk' i s v hs hf hv he
  present k' hk' v e hm he := by
    have hkk : k' ≠ k := by
      rintro rfl
      simp at hm
    rw [Function.update_of_ne hkk] at hm
    exact h.present k' hk' v e hm he

theorem get_snd_slots (t : FixedTierStub V) (k : KeyRef) (now : ℕ) :
    (t.get k now).2.slots = t.slots ∧
    (t.get k now).2.pool = t.pool ∧ (t.get k now).2.placement = t.placement := by
  unfold get
  repeat' split
  all_goals exact ⟨rfl, rfl, rfl⟩

theorem Stored.get (h : Stored U t m now) (k : KeyRef) : Stored U (t.get k now).2 m now := by
  obtain ⟨h1, h2, h3⟩ := get_snd_slots t k now
  generalize (t.get k now).2 = t' at h1 h2 h3
  have hslot : t'.slotAt = t.slotAt := by
    funext i
    rw [slotAt, slotAt, h1]
  have hone : t'.AtMostOne ↔ t.AtMostOne := by rw [AtMostOne, AtMostOne, hslot]
  constructor <;> simp only [h1, h2, h3, hslot, hone]
  exacts [h.slots_length, h.pool_length, h.capacity_pos, h.unique, h.key, h.value, h.distinct,
    h.free, h.free_nodup, h.cover, h.described, h.present]

/-- **A call keeps the content described**, a `set` when its probe is clear. -/
theorem Stored.step (h : Stored U t m τ) (hU : Set.InjOn KeyFingerprint.of U) (hle : τ ≤ now)
    {op : StubOp V} (hop : op.key ∈ U)
    (hclear : ∀ k v ttl, op = .set k v ttl → t.ProbeClear k now) :
    Stored U (t.step now op) (t.specStep m now op) now := by
  replace h := h.mono hle
  cases op with
  | set k v ttl =>
    have hk : k ∈ U := hop
    simp only [FixedTierStub.step, specStep]
    rcases hidx : t.findEmpty (t.placementOf k) (KeyFingerprint.of k) now with _ | idx
    · simpa [FixedTierStub.set, hidx] using h
    · obtain ⟨hlt, hhit⟩ := h.findEmpty_hit hU hk hidx
      obtain ⟨poolIdx, pool, hp, heq⟩ := h.set_eq v ttl hlt hidx
      rw [heq]
      exact h.written hU hk hlt
        (fun j s hs hf => h.findEmpty_own hU hk (hclear k v ttl rfl) hidx hs hf) hhit hp
  | remove k =>
    have hk : k ∈ U := hop
    simp only [FixedTierStub.step, specStep]
    rcases hidx : t.findSlot (t.placementOf k) (KeyFingerprint.of k) now with _ | idx
    · simpa [FixedTierStub.remove, hidx] using
        h.forgotten ((h.findSlot_eq_none hU hk).1 hidx)
    · obtain ⟨s, hs, hf, -⟩ := (h.findSlot_eq_some hU hk).1 hidx
      have hjoin : (t.slots[idx]?).join = some s := hs
      have hlt := (h.value idx s hs).1
      simpa [FixedTierStub.remove, hidx, hjoin, MemoryPool.deallocate, not_le.2 hlt] using
        h.removed hU hk hs hf
  | get k => exact h.get k
  | contains k => exact h

/-- A `set` off a clear probe leaves two slots with one fingerprint. -/
theorem not_atMostOne_of_not_probeClear (h : Stored U t m τ)
    (hU : Set.InjOn KeyFingerprint.of U) (hk : k ∈ U) {v : V} {ttl : Option ℕ}
    (hclear : ¬ t.ProbeClear k now) : ¬ (t.step now (.set k v ttl)).AtMostOne := by
  have hhome := h.home_lt (t.placementOf k)
  simp only [ProbeClear, not_forall] at hclear
  obtain ⟨j, s, hs, hf, i, hi, hlt, hbad⟩ := hclear
  -- the hole or expired slot on the way ends the probe before the key's own slot
  rcases hidx : t.findEmpty (t.placementOf k) (KeyFingerprint.of k) now with _ | idx
  · rw [findEmpty, h.isEmpty_slots, if_neg (by simp)] at hidx
    have hnext := (Probe.scan_length_eq_none_of_no_stop hhome (fun c hc => by
      rcases c with _ | s
      · simp [lookEmpty]
      · simp only [lookEmpty]
        split_ifs <;> simp)).1 hidx
    have hown := hnext (some s) (List.mem_of_getElem? (by rw [slots_eq (slotAt_lt hs), hs]))
    simp [lookEmpty, (h.holds_iff hU hk hs).2 hf] at hown
  · obtain ⟨hlt', -⟩ := h.findEmpty_hit hU hk hidx
    obtain ⟨poolIdx, pool, -, heq⟩ := h.set_eq v ttl hlt' hidx
    have hne : j ≠ idx := by
      rintro rfl
      rw [findEmpty, h.isEmpty_slots, if_neg (by simp)] at hidx
      obtain ⟨c, hc, hl⟩ := Probe.scan_before hhome hidx hi hlt
      rw [slots_eq hi, Option.some.injEq] at hc
      subst hc
      rcases hsi : t.slotAt i with _ | s'
      · simp [hsi, lookEmpty] at hl
      · rw [hsi] at hl
        simp only [lookEmpty] at hl
        split_ifs at hl with h1 h2
        exact hbad ⟨s', hsi, by simpa using h2⟩
    intro hone
    have hslot := slotAt_written t k v ttl now hlt' poolIdx pool
    simp only [FixedTierStub.step, heq] at hone
    exact hne (hone j idx s (newSlot t k v ttl now poolIdx) (by rw [hslot j, if_neg hne, hs])
      (by rw [hslot idx, if_pos rfl]) hf)

/-- A rung that stores what the map says agrees with it along a history exactly when every `set`
of the history starts from a clear probe. -/
theorem Stored.agreesAlong_iff (hU : Set.InjOn KeyFingerprint.of U) (h : Stored U t m τ)
    {ops : List (ℕ × StubOp V)} (hkeys : ∀ x ∈ ops, x.2.key ∈ U) (htimes : TimesFrom τ ops) :
    AgreesAlong U t m τ ops ↔ ProbesClear t ops := by
  induction ops generalizing t m τ with
  | nil => exact ⟨fun _ => trivial, fun _ => h.agrees hU⟩
  | cons x ops ih =>
    obtain ⟨now, op⟩ := x
    have hop : op.key ∈ U := hkeys (now, op) (by simp)
    have hrest : ∀ x ∈ ops, x.2.key ∈ U := fun x hx => hkeys x (by simp [hx])
    constructor
    · rintro ⟨-, hnext⟩
      have hclear : ∀ k v ttl, op = .set k v ttl → t.ProbeClear k now := by
        rintro k v ttl rfl
        by_contra hnot
        -- the state after this call already has two slots with one fingerprint
        have hone : (t.step now (.set k v ttl)).AtMostOne := by
          rcases ops with _ | ⟨⟨now', op'⟩, ops⟩
          · exact hnext.2
          · exact hnext.1.2
        exact not_atMostOne_of_not_probeClear h hU hop hnot hone
      exact ⟨hclear, (ih (h.step hU htimes.1 hop hclear) hrest htimes.2).1 hnext⟩
    · rintro ⟨hclear, hnext⟩
      exact ⟨h.agrees hU,
        (ih (h.step hU htimes.1 hop hclear) hrest htimes.2).2 hnext⟩

/-- An empty rung stores the empty map. -/
theorem stored_withCapacity {n : ℕ} {p : Placement} (ht : withCapacity n p = .ok t) :
    Stored U t (fun _ => none) 0 := by
  unfold withCapacity MemoryPool.new at ht
  split_ifs at ht with hn
  cases ht
  have hslot : ∀ i : ℕ, (List.replicate n (none : Option Slot))[i]?.join = none := by
    intro i
    rw [List.getElem?_replicate]
    split_ifs <;> rfl
  constructor <;> simp [AtMostOne, slotAt, hslot, List.nodup_range]
  omega

/-- **The fixed-capacity rung refines a map with TTLs exactly along the histories whose probes are
clear**: for every capacity, placement and history of calls on keys with distinct fingerprints, at
non-decreasing instants, the rung answers as the map does and never holds one fingerprint twice if
and only if every `set` reaches the key's own slot before a hole or an expired slot. -/
theorem agreesAlong_iff_probesClear {n : ℕ} {p : Placement} {t : FixedTierStub V}
    (ht : withCapacity n p = .ok t) {U : Set KeyRef} (hU : Set.InjOn KeyFingerprint.of U)
    {ops : List (ℕ × StubOp V)} (hkeys : ∀ x ∈ ops, x.2.key ∈ U) (htimes : TimesFrom 0 ops) :
    AgreesAlong U t (fun _ => none) 0 ops ↔ ProbesClear t ops :=
  (stored_withCapacity ht).agreesAlong_iff hU hkeys htimes

/-- The empty rung of two slots on which every key starts probing at slot zero. -/
def pairRung : FixedTierStub (List UInt8) where
  pool := ⟨[none, none], [0, 1], 2⟩
  slots := [none, none]
  placement := .allToZero
  corruptionsDetected := 0
  evictionCursor := 0

theorem pairKeys_injOn : Set.InjOn KeyFingerprint.of {[65], [66]} := by
  rintro a (rfl | rfl) b (rfl | rfl) h
  · rfl
  · exact absurd h (by decide)
  · exact absurd h (by decide)
  · rfl

theorem agreesAlong_iff_probesClear_pairRung :
    withCapacity 2 .allToZero = .ok pairRung ∧
      (AgreesAlong {[65], [66]} pairRung (fun _ => none) 0
          [(0, .set [65] [1] none), (3, .set [66] [2] (some 5)), (4, .remove [65])] ↔
        ProbesClear pairRung
          [(0, .set [65] [1] none), (3, .set [66] [2] (some 5)), (4, .remove [65])]) :=
  ⟨rfl, agreesAlong_iff_probesClear (n := 2) (p := .allToZero) rfl pairKeys_injOn
    (by simp [StubOp.key]) (by simp [TimesFrom])⟩

/-- Two colliding keys: the first is removed, the second is set again and then removed. The second
`set` took the hole the first key left, so the key's first value is still in the table and is read
after the key was removed. -/
theorem pairRung_reads_removed_value :
    withCapacity 2 .allToZero = .ok pairRung ∧ Set.InjOn KeyFingerprint.of {[65], [66]} ∧
      ((([(0, .set [65] [1] none), (0, .set [66] [2] none), (0, .remove [65]),
          (0, .set [66] [3] none), (0, .remove [66])] : List (ℕ × StubOp (List UInt8))).foldl
        (fun t x => t.step x.1 x.2) pairRung).get [66] 0).1 = .ok (some [2]) ∧
      ¬ AgreesAlong {[65], [66]} pairRung (fun _ => none) 0
        [(0, .set [65] [1] none), (0, .set [66] [2] none), (0, .remove [65]),
          (0, .set [66] [3] none), (0, .remove [66])] := by
  have hread : ((([(0, .set [65] [1] none), (0, .set [66] [2] none), (0, .remove [65]),
      (0, .set [66] [3] none), (0, .remove [66])] : List (ℕ × StubOp (List UInt8))).foldl
        (fun t x => t.step x.1 x.2) pairRung).get [66] 0).1 = .ok (some [2]) := by
    decide +kernel
  refine ⟨rfl, pairKeys_injOn, hread, ?_⟩
  rintro ⟨-, -, -, -, -, h, -⟩
  have hget := (h [66] (by simp) 0 le_rfl).1
  -- the map has forgotten the key
  rw [show TtlMap.lookup _ [66] 0 = none by simp [specStep, TtlMap.lookup]] at hget
  exact absurd (hread.symm.trans hget) (by decide)

end FixedTierStub

end TheSix
