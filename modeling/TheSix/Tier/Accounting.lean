import TheSix.Tier.StubRefinement

/-!
# The accounts of the fixed-capacity rung

Whatever is written, removed, expired or evicted, and in whichever order, the pool indices of the
occupied slots and the free indices of the pool are the indices of the pool, each of them once
(`Accounted`). So a `set` that finds a slot is stored, and a `set` is refused exactly when no slot is
a hole, the key's own or expired, with nothing changed (`Accounted.set_cases`).

An eviction touches one slot: what it leaves of every other address reads as before
(`Accounted.get_removeIfAddress`).
-/

namespace TheSix

namespace FixedTierStub

variable {V : Type}

/-- The occupied slots. -/
def occupied (t : FixedTierStub V) : List Slot := t.slots.reduceOption

/-- The pool indices in use. -/
def used (t : FixedTierStub V) : List ℕ := t.occupied.map (·.poolIdx)

/-- The slot table and the pool agree on what is in use, and the slots are those of keys addressed
by `p`. -/
structure Accounted (p : Placement) (t : FixedTierStub V) : Prop where
  placement : t.placement = p
  slots_length : t.slots.length = t.pool.capacity
  pool_length : t.pool.slots.length = t.pool.capacity
  capacity_pos : 0 < t.pool.capacity
  account : (t.used ++ t.pool.freeIndices).Perm (List.range t.pool.capacity)
  filled : ∀ s ∈ t.occupied, ((t.pool.slots[s.poolIdx]?).join).isSome = true
  addressed : ∀ s ∈ t.occupied, s.address = ⟨s.fingerprint, s.placement⟩

theorem mem_occupied {t : FixedTierStub V} {i : ℕ} {s : Slot} (h : t.slotAt i = some s) :
    s ∈ t.occupied := by
  have hlt := slotAt_lt h
  rw [occupied, List.reduceOption_mem_iff]
  exact List.mem_of_getElem? ((slots_eq hlt).trans (congrArg some h))

/-- The table around a slot. -/
theorem split_at {t : FixedTierStub V} {idx : ℕ} (hlt : idx < t.slots.length) :
    ∃ xs ys, t.slots = xs ++ t.slotAt idx :: ys ∧ ∀ c, t.slots.set idx c = xs ++ c :: ys := by
  refine ⟨t.slots.take idx, t.slots.drop (idx + 1), ?_, fun c => ?_⟩
  · have hcell : t.slotAt idx = t.slots[idx] := by simp [slotAt, List.getElem?_eq_getElem hlt]
    rw [hcell]
    simp
  · rw [List.set_eq_take_append_cons_drop, if_pos hlt]

/-- Some slot holds the address. -/
def has (t : FixedTierStub V) (address : KeyAddress) : Bool := t.slots.any (atAddress address)

theorem removeIfAddress_fst (t : FixedTierStub V) (address : KeyAddress) :
    (t.removeIfAddress address).1 = .ok (t.has address) := by
  unfold removeIfAddress has
  cases hfind : t.slots.findIdx? (atAddress address) with
  | none =>
    have hnone := List.findIdx?_eq_none_iff.1 hfind
    simp only [Except.ok.injEq]
    rw [eq_comm, List.any_eq_false]
    simpa using hnone
  | some idx =>
    obtain ⟨hlt, hat, -⟩ := List.findIdx?_eq_some_iff_getElem.1 hfind
    have hany : t.slots.any (atAddress address) = true :=
      List.any_eq_true.2 ⟨_, List.getElem_mem hlt, hat⟩
    simp only [hany]
    split
    · rfl
    · split <;> rfl

theorem slots_evictionCandidate (t : FixedTierStub V) (now : ℕ) :
    (t.evictionCandidate now).2.slots = t.slots := by
  unfold evictionCandidate
  split_ifs
  · rfl
  · split <;> rfl

/-- A nominee is in the table. -/
theorem has_of_evictionCandidate {t : FixedTierStub V} {now : ℕ} {address : KeyAddress}
    (h : (t.evictionCandidate now).1 = some address) : t.has address = true := by
  have hmem : ∀ c : Option Slot, c ∈ t.slots → c.map (·.address) = some address →
      t.has address = true := by
    intro c hc hat
    refine List.any_eq_true.2 ⟨c, hc, ?_⟩
    rw [Option.map_eq_some_iff] at hat
    obtain ⟨s, rfl, hs⟩ := hat
    simp [atAddress, hs]
  unfold evictionCandidate at h
  split_ifs at h with hlen
  cases hscan : Probe.scan (lookLive now) t.slots t.slots.length
      (t.evictionCursor % t.slots.length) with
  | some idx =>
    rw [hscan] at h
    have hlt := Probe.scan_lt (Nat.mod_lt _ (Nat.pos_of_ne_zero hlen)) hscan
    simp only [List.getElem?_eq_getElem hlt, Option.join_some] at h
    exact hmem _ (List.getElem_mem hlt) h
  | none =>
    rw [hscan] at h
    cases hfind : t.slots.find? Option.isSome with
    | none => simp [hfind] at h
    | some c =>
      simp only [hfind, Option.join_some] at h
      exact hmem c (List.mem_of_find?_eq_some hfind) h

/-- Some slot is a hole, the key's own, or expired. -/
def hasRoom (t : FixedTierStub V) (key : KeyRef) (now : ℕ) : Bool :=
  (t.findEmpty (t.placementOf key) (KeyFingerprint.of key) now).isSome

/-- What a read makes of the slot it has found. -/
def readSlot [IntegrityCheck V] (pool : MemoryPool V) : Option Slot → Except CacheError (Option V)
  | none => .ok none
  | some s =>
    match pool.get s.poolIdx with
    | none => .ok none
    | some v =>
      if IntegrityCheck.contentDigest v ≠ s.digest then .error .corrupted else .ok (some v)

theorem get_fst [IntegrityCheck V] (t : FixedTierStub V) (k : KeyRef) (now : ℕ) :
    (t.get k now).1 = readSlot t.pool
      ((t.findSlot (t.placementOf k) (KeyFingerprint.of k) now).bind t.slotAt) := by
  unfold get
  cases t.findSlot (t.placementOf k) (KeyFingerprint.of k) now with
  | none => rfl
  | some idx =>
    simp only [Option.bind_some, slotAt]
    cases (t.slots[idx]?).join with
    | none => rfl
    | some s =>
      simp only [readSlot]
      cases t.pool.get s.poolIdx with
      | none => rfl
      | some v =>
        simp only
        split_ifs <;> rfl

theorem get_evictionCandidate [IntegrityCheck V] (t : FixedTierStub V) (k : KeyRef) (now now' : ℕ) :
    ((t.evictionCandidate now).2.get k now').1 = (t.get k now').1 := by
  unfold evictionCandidate
  split_ifs
  · rfl
  · split
    · rw [get_fst, get_fst]
      rfl
    · rw [get_fst, get_fst]
      rfl

namespace Accounted

variable {p : Placement} {t : FixedTierStub V} {now : ℕ}

theorem slots_pos (h : Accounted p t) : 0 < t.slots.length := h.slots_length ▸ h.capacity_pos

theorem isEmpty_slots (h : Accounted p t) : t.slots.isEmpty = false := by
  rw [List.isEmpty_eq_false_iff, ← List.length_pos_iff]
  exact h.slots_pos

theorem home_lt (h : Accounted p t) (x : UInt64) : t.home x < t.slots.length :=
  Nat.mod_lt _ h.slots_pos

theorem nodup (h : Accounted p t) : (t.used ++ t.pool.freeIndices).Nodup :=
  h.account.nodup_iff.2 List.nodup_range

theorem lt_capacity (h : Accounted p t) {s : Slot} (hs : s ∈ t.occupied) :
    s.poolIdx < t.pool.capacity := by
  have hmem : s.poolIdx ∈ t.used ++ t.pool.freeIndices :=
    List.mem_append_left _ (List.mem_map_of_mem hs)
  exact List.mem_range.1 (h.account.mem_iff.1 hmem)

/-- A slot of the table holds a value of the pool. -/
theorem pool_get (h : Accounted p t) {i : ℕ} {s : Slot} (hs : t.slotAt i = some s) :
    ∃ v, t.pool.get s.poolIdx = some v := by
  have hocc := mem_occupied hs
  have hlt := h.lt_capacity hocc
  rw [MemoryPool.get, if_neg (by omega)]
  exact Option.isSome_iff_exists.1 (h.filled s hocc)

/-- A table with a hole has a free pool index. -/
theorem free_ne_nil (h : Accounted p t) {idx : ℕ} (hlt : idx < t.slots.length)
    (hhole : t.slotAt idx = none) : t.pool.freeIndices ≠ [] := by
  intro hnil
  have hmem : none ∈ t.slots := List.mem_of_getElem? ((slots_eq hlt).trans (congrArg some hhole))
  have hless := List.reduceOption_length_lt_iff.2 hmem
  have hlen := h.account.length_eq
  rw [hnil, List.append_nil, List.length_range, ← h.slots_length, used, List.length_map,
    occupied] at hlen
  omega

/-- No other slot of the table uses the pool index of a slot. -/
theorem poolIdx_ne (h : Accounted p t) {idx : ℕ} {s : Slot} (hs : t.slotAt idx = some s) {x : Slot}
    (hx : x ∈ (t.slots.set idx none).reduceOption) : s.poolIdx ≠ x.poolIdx := by
  obtain ⟨xs, ys, hslots, hset⟩ := split_at (slotAt_lt hs)
  rw [hset, List.reduceOption_append, List.reduceOption_cons_of_none] at hx
  intro he
  have hnodup := (List.nodup_append.1 h.nodup).1
  rw [used, occupied, hslots, hs, List.reduceOption_append, List.reduceOption_cons_of_some,
    List.map_append, List.map_cons, List.nodup_middle] at hnodup
  apply (List.nodup_cons.1 hnodup).1
  rw [he, ← List.map_append]
  exact List.mem_map_of_mem hx

/-- Two slots of the table use two pool indices. -/
theorem poolIdx_inj (h : Accounted p t) {i j : ℕ} {s s' : Slot} (hi : t.slotAt i = some s)
    (hj : t.slotAt j = some s') (he : s.poolIdx = s'.poolIdx) : i = j := by
  by_contra hne
  have hmem : s' ∈ (t.slots.set i none).reduceOption := by
    rw [List.reduceOption_mem_iff]
    refine List.mem_of_getElem? (i := j) ?_
    rw [List.getElem?_set_ne hne, slots_eq (slotAt_lt hj), hj]
  exact h.poolIdx_ne hi hmem he

/-- Taking a slot out of the table returns its pool index. -/
theorem clear (h : Accounted p t) {idx : ℕ} {s : Slot} (hs : t.slotAt idx = some s)
    {pool : MemoryPool V} (hpool : t.pool.deallocate s.poolIdx = .ok pool) :
    Accounted p { t with slots := t.slots.set idx none, pool := pool } := by
  have hlt := h.lt_capacity (mem_occupied hs)
  rw [MemoryPool.deallocate, if_neg (by omega), Except.ok.injEq] at hpool
  subst hpool
  obtain ⟨xs, ys, hslots, hset⟩ := split_at (slotAt_lt hs)
  rw [hs] at hslots
  have hocc : t.occupied = xs.reduceOption ++ s :: ys.reduceOption := by
    rw [occupied, hslots, List.reduceOption_append, List.reduceOption_cons_of_some]
  have hocc' : (xs ++ none :: ys).reduceOption = xs.reduceOption ++ ys.reduceOption := by
    rw [List.reduceOption_append, List.reduceOption_cons_of_none]
  have hsub : ∀ x ∈ xs.reduceOption ++ ys.reduceOption, x ∈ t.occupied := by
    intro x hx
    rw [hocc]
    exact List.mem_append.2 ((List.mem_append.1 hx).imp id (List.mem_cons_of_mem s))
  refine ⟨h.placement, by simpa using h.slots_length, by simpa using h.pool_length, h.capacity_pos,
    ?_, ?_, ?_⟩
  · refine List.Perm.trans ?_ h.account
    simp only [used, occupied, hset, hocc']
    rw [← occupied, hocc, List.map_append, List.map_append, List.map_cons]
    generalize (xs.reduceOption).map (·.poolIdx) = a, (ys.reduceOption).map (·.poolIdx) = b,
      t.pool.freeIndices = c
    grind
  · intro x hx
    rw [List.getElem?_set_ne (h.poolIdx_ne hs hx)]
    simp only [occupied, hset, hocc'] at hx
    exact h.filled x (hsub x hx)
  · simp only [occupied, hset, hocc']
    exact fun x hx => h.addressed x (hsub x hx)

/-- Writing the slot `idx` through `poolIdx` keeps the accounts, when the slot used `poolIdx` before
or `poolIdx` was the top of the free list. -/
theorem written [IntegrityCheck V] (h : Accounted p t) {k : KeyRef} {v : V} {ttl : Option ℕ}
    {idx poolIdx : ℕ} {pool : MemoryPool V} (hlt : idx < t.slots.length)
    (hcapacity : pool.capacity = t.pool.capacity)
    (hslots : pool.slots = t.pool.slots.set poolIdx (some v)) (hidx : poolIdx < t.pool.capacity)
    (haccount : ((t.slotAt idx).toList.map (·.poolIdx) ++ t.pool.freeIndices).Perm
      (poolIdx :: pool.freeIndices)) :
    Accounted p (FixedTierStub.written t k v ttl now idx poolIdx pool) := by
  obtain ⟨xs, ys, hsplit, hset⟩ := split_at hlt
  have hocc : t.occupied = xs.reduceOption ++ (t.slotAt idx).toList ++ ys.reduceOption := by
    rw [occupied, hsplit, ← List.singleton_append, List.reduceOption_append,
      List.reduceOption_append, List.reduceOption_singleton, List.append_assoc]
  have hocc' : (FixedTierStub.written t k v ttl now idx poolIdx pool).occupied =
      xs.reduceOption ++ newSlot t k v ttl now poolIdx :: ys.reduceOption := by
    rw [occupied, FixedTierStub.written, hset, List.reduceOption_append,
      List.reduceOption_cons_of_some]
  refine ⟨h.placement, ?_, ?_, ?_, ?_, ?_, ?_⟩
  · simpa [FixedTierStub.written, hcapacity] using h.slots_length
  · simpa [FixedTierStub.written, hcapacity, hslots] using h.pool_length
  · simpa [FixedTierStub.written, hcapacity] using h.capacity_pos
  · have hbefore := h.account
    rw [used, hocc, List.map_append, List.map_append] at hbefore
    rw [used, hocc', List.map_append, List.map_cons]
    simp only [FixedTierStub.written, newSlot, hcapacity]
    refine List.Perm.trans (List.perm_iff_count.2 fun x => ?_) hbefore
    have hx := haccount.count_eq x
    simp only [List.count_append, List.count_cons] at hx ⊢
    omega
  · rw [hocc']
    intro x hx
    simp only [FixedTierStub.written, hslots, List.getElem?_set, h.pool_length, hidx, if_true]
    split_ifs with he
    · rfl
    · refine h.filled x ?_
      rw [hocc]
      simp only [List.mem_append, List.mem_cons] at hx ⊢
      rcases hx with hx | rfl | hx
      · exact Or.inl (Or.inl hx)
      · exact absurd rfl he
      · exact Or.inr hx
  · rw [hocc']
    intro x hx
    rcases List.mem_append.1 hx with hx | hx
    · exact h.addressed x (by rw [hocc]; simp [hx])
    · rcases List.mem_cons.1 hx with rfl | hx
      · rfl
      · exact h.addressed x (by rw [hocc]; simp [hx])

theorem findEmpty_lt (h : Accounted p t) {x : UInt64} {f : KeyFingerprint} {idx : ℕ}
    (hidx : t.findEmpty x f now = some idx) : idx < t.slots.length := by
  rw [findEmpty, h.isEmpty_slots] at hidx
  exact Probe.scan_lt (h.home_lt x) hidx

section Values

variable [IntegrityCheck V]

/-- What `set` does when it finds a slot: it writes that slot, through the slot's own pool index when
it is occupied and through the top of the free list when it is a hole. -/
theorem set_eq (h : Accounted p t) {k : KeyRef} (v : V) (ttl : Option ℕ) {idx : ℕ}
    (hidx : t.findEmpty (t.placementOf k) (KeyFingerprint.of k) now = some idx) :
    ∃ poolIdx pool,
      t.set k v ttl now = (.ok (), FixedTierStub.written t k v ttl now idx poolIdx pool) ∧
      pool.capacity = t.pool.capacity ∧ pool.slots = t.pool.slots.set poolIdx (some v) ∧
      poolIdx < t.pool.capacity ∧
      ((t.slotAt idx).toList.map (·.poolIdx) ++ t.pool.freeIndices).Perm
        (poolIdx :: pool.freeIndices) := by
  cases hslot : t.slotAt idx with
  | none =>
    have hjoin : (t.slots[idx]?).join = none := hslot
    have hne := h.free_ne_nil (h.findEmpty_lt hidx) hslot
    obtain ⟨fs, x, hfree⟩ : ∃ fs x, t.pool.freeIndices = fs ++ [x] :=
      ⟨_, _, (List.dropLast_append_getLast hne).symm⟩
    have hx : x < t.pool.capacity := by
      have hmem : x ∈ t.used ++ t.pool.freeIndices := by simp [hfree]
      exact List.mem_range.1 (h.account.mem_iff.1 hmem)
    refine ⟨x, ⟨t.pool.slots.set x (some v), fs, t.pool.capacity⟩, ?_, rfl, rfl, hx, ?_⟩
    · simp [FixedTierStub.set, hidx, hjoin, MemoryPool.allocate, hfree, FixedTierStub.written, newSlot]
    · simp [hfree, List.perm_append_singleton]
  | some old =>
    have hjoin : (t.slots[idx]?).join = some old := hslot
    obtain ⟨v', hv'⟩ := h.pool_get hslot
    refine ⟨old.poolIdx, t.pool.overwrite old.poolIdx v, ?_, rfl, rfl,
      h.lt_capacity (mem_occupied hslot), ?_⟩
    · simp [FixedTierStub.set, hidx, hjoin, hv', FixedTierStub.written, newSlot]
    · simp [MemoryPool.overwrite]

/-- **What `set` does**: it stores the value exactly when there is room, and changes nothing when
there is none. -/
theorem set_cases (h : Accounted p t) (k : KeyRef) (v : V) (ttl : Option ℕ) (now : ℕ) :
    (t.hasRoom k now = false ∧ t.set k v ttl now = (.error .capacityExhausted, t)) ∨
      ∃ t', t.hasRoom k now = true ∧ t.set k v ttl now = (.ok (), t') ∧ Accounted p t' := by
  unfold hasRoom
  cases hidx : t.findEmpty (t.placementOf k) (KeyFingerprint.of k) now with
  | none => exact Or.inl ⟨rfl, by simp [FixedTierStub.set, hidx]⟩
  | some idx =>
    obtain ⟨poolIdx, pool, hset, hcapacity, hslots, hlt, haccount⟩ := h.set_eq v ttl hidx
    exact Or.inr ⟨_, rfl, hset, h.written (h.findEmpty_lt hidx) hcapacity hslots hlt haccount⟩

theorem set (h : Accounted p t) (k : KeyRef) (v : V) (ttl : Option ℕ) (now : ℕ) :
    Accounted p (t.set k v ttl now).2 := by
  rcases h.set_cases k v ttl now with ⟨-, heq⟩ | ⟨t', -, heq, ht'⟩
  · rwa [heq]
  · rwa [heq]

theorem get (h : Accounted p t) (k : KeyRef) (now : ℕ) : Accounted p (t.get k now).2 := by
  have hkeep : ∀ n, Accounted p { t with corruptionsDetected := n } := fun n =>
    ⟨h.placement, h.slots_length, h.pool_length, h.capacity_pos, h.account, h.filled, h.addressed⟩
  unfold FixedTierStub.get
  split
  · exact h
  · split
    · exact h
    · split
      · exact h
      · split_ifs
        · exact hkeep _
        · exact h

end Values

/-- Clearing a slot, as `remove` and `remove_if_address` do. -/
theorem cleared (h : Accounted p t) {idx : ℕ} {s : Slot} (hs : t.slotAt idx = some s) :
    ∃ pool, t.pool.deallocate s.poolIdx = .ok pool ∧
      Accounted p { t with slots := t.slots.set idx none, pool := pool } := by
  have hlt := h.lt_capacity (mem_occupied hs)
  have hpool : t.pool.deallocate s.poolIdx = .ok
      { t.pool with
        slots := t.pool.slots.set s.poolIdx none
        freeIndices := t.pool.freeIndices ++ [s.poolIdx] } := if_neg (by omega)
  exact ⟨_, hpool, h.clear hs hpool⟩

theorem remove (h : Accounted p t) (k : KeyRef) (now : ℕ) : Accounted p (t.remove k now).2 := by
  unfold FixedTierStub.remove
  cases hfind : t.findSlot (t.placementOf k) (KeyFingerprint.of k) now with
  | none => exact h
  | some idx =>
    cases hs : t.slotAt idx with
    | none =>
      have hjoin : (t.slots[idx]?).join = none := hs
      simpa only [hjoin] using h
    | some s =>
      have hjoin : (t.slots[idx]?).join = some s := hs
      obtain ⟨pool, hpool, hclear⟩ := h.cleared hs
      simpa only [hjoin, hpool] using hclear

theorem evictionCandidate (h : Accounted p t) (now : ℕ) : Accounted p (t.evictionCandidate now).2 := by
  have hkeep : ∀ n, Accounted p { t with evictionCursor := n } := fun n =>
    ⟨h.placement, h.slots_length, h.pool_length, h.capacity_pos, h.account, h.filled, h.addressed⟩
  unfold FixedTierStub.evictionCandidate
  split_ifs
  · exact h
  · split
    · exact hkeep _
    · exact hkeep _

/-- What `remove_if_address` finds. -/
theorem removeIfAddress_cases (h : Accounted p t) (address : KeyAddress) :
    t.removeIfAddress address = (.ok false, t) ∨
      ∃ idx s pool, t.slotAt idx = some s ∧ s.address = address ∧
        t.pool.deallocate s.poolIdx = .ok pool ∧
        t.removeIfAddress address =
          (.ok true, { t with slots := t.slots.set idx none, pool := pool }) := by
  unfold FixedTierStub.removeIfAddress
  cases hfind : t.slots.findIdx? (atAddress address) with
  | none => exact Or.inl rfl
  | some idx =>
    obtain ⟨hlt, hat, -⟩ := List.findIdx?_eq_some_iff_getElem.1 hfind
    have hslot : t.slotAt idx = t.slots[idx] := by simp [slotAt, List.getElem?_eq_getElem hlt]
    rw [← hslot] at hat
    cases hs : t.slotAt idx with
    | none => simp [hs, atAddress] at hat
    | some s =>
      have hjoin : (t.slots[idx]?).join = some s := hs
      obtain ⟨pool, hpool, -⟩ := h.cleared hs
      refine Or.inr ⟨idx, s, pool, hs, ?_, hpool, by simp only [hjoin, hpool]⟩
      simpa [hs, atAddress] using hat

theorem removeIfAddress (h : Accounted p t) (address : KeyAddress) :
    Accounted p (t.removeIfAddress address).2 := by
  rcases h.removeIfAddress_cases address with heq | ⟨idx, s, pool, hs, -, hpool, heq⟩
  · rwa [heq]
  · rw [heq]
    exact h.clear hs hpool

section Reads

variable [IntegrityCheck V]

/-- **An eviction touches no other address**: every key with another address reads as before. -/
theorem get_removeIfAddress (h : Accounted p t) {k : KeyRef} {address : KeyAddress}
    (hne : KeyAddress.of k p ≠ address) (now : ℕ) :
    ((t.removeIfAddress address).2.get k now).1 = (t.get k now).1 := by
  rcases h.removeIfAddress_cases address with heq | ⟨idx, s, pool, hs, haddr, hpool, heq⟩
  · rw [heq]
  · rw [heq]
    have hcell : t.slots[idx]? = some (some s) := (slots_eq (slotAt_lt hs)).trans (congrArg some hs)
    have hlook : lookFind (t.placementOf k) (KeyFingerprint.of k) now (some s) = .next := by
      have hholds : s.holds (t.placementOf k) (KeyFingerprint.of k) = false := by
        rw [Bool.eq_false_iff]
        intro hx
        simp only [Slot.holds, Bool.and_eq_true, beq_iff_eq] at hx
        rw [← haddr, h.addressed s (mem_occupied hs), hx.1, hx.2, placementOf, h.placement] at hne
        exact hne rfl
      simp [lookFind, hholds]
    have hfind : ({ t with slots := t.slots.set idx none, pool := pool } : FixedTierStub V).findSlot
        (t.placementOf k) (KeyFingerprint.of k) now =
        t.findSlot (t.placementOf k) (KeyFingerprint.of k) now := by
      simp only [findSlot, home, List.length_set]
      rw [Probe.scan_set hcell (by rw [hlook]; rfl)]
      simp [List.isEmpty_iff, List.set_eq_nil_iff]
    rw [get_fst, get_fst]
    simp only [placementOf] at hfind ⊢
    rw [hfind]
    cases hi : t.findSlot (t.placement.hash k) (KeyFingerprint.of k) now with
    | none => rfl
    | some i =>
      have hidx : i ≠ idx := by
        rintro rfl
        rw [findSlot, h.isEmpty_slots] at hi
        obtain ⟨c, hc, hhit⟩ := Probe.scan_hit (h.home_lt _) hi
        rw [hcell, Option.some.injEq] at hc
        rw [← hc] at hhit
        exact absurd (hlook.symm.trans hhit) (by simp)
      have hsame : slotAt { t with slots := t.slots.set idx none, pool := pool } i = t.slotAt i := by
        simp only [slotAt, List.getElem?_set_ne (Ne.symm hidx)]
      simp only [Option.bind_some, hsame]
      cases hx : t.slotAt i with
      | none => rfl
      | some x =>
        have hmem := mem_occupied (hsame.trans hx)
        have hpne := h.poolIdx_ne hs hmem
        rw [MemoryPool.deallocate] at hpool
        split_ifs at hpool
        rw [Except.ok.injEq] at hpool
        have hget : pool.get x.poolIdx = t.pool.get x.poolIdx := by
          rw [← hpool]
          simp only [MemoryPool.get, List.getElem?_set_ne hpne]
        simp only [readSlot, hget]

end Reads

end Accounted

theorem accounted_withCapacity {n : ℕ} {p : Placement} {t : FixedTierStub V}
    (h : withCapacity n p = .ok t) : Accounted p t := by
  unfold withCapacity MemoryPool.new at h
  split_ifs at h with hn
  simp only [Except.ok.injEq] at h
  subst h
  refine ⟨rfl, by simp, by simp, Nat.pos_of_ne_zero hn, ?_, ?_, ?_⟩
  · simp [used, occupied]
  · simp [occupied]
  · simp [occupied]

end FixedTierStub

end TheSix
