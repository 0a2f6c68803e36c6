import TheSix.Tier.RoundRobin

/-!
# The integrity of the fixed-capacity rung

A rung that is written, read, emptied and evicted from, in whichever order, keeps three structures in
step: the slots, the cells of the pool, and the free list. Every slot points at a cell of its own that
holds a value with the slot's digest, and the value came with the slot's key (`Backed`). So a read
never finds a digest that does not match, and returns only what was stored under its key
(`storage_integrity`), also where a key has come to own two slots.
-/

namespace TheSix

namespace FixedTierStub

/-- A call on a rung, the ones of an eviction included. -/
inductive RungOp (V : Type)
  | set (key : KeyRef) (value : V) (ttl : Option ℕ)
  | get (key : KeyRef)
  | remove (key : KeyRef)
  | contains (key : KeyRef)
  | evictionCandidate
  | removeIfAddress (address : KeyAddress)

variable {V : Type} [IntegrityCheck V]

/-- The key a call is about. -/
def RungOp.key? : RungOp V → Option KeyRef
  | .set k _ _ | .get k | .remove k | .contains k => some k
  | .evictionCandidate | .removeIfAddress _ => none

/-- The rung after a call made at the instant `now`. -/
def perform (t : FixedTierStub V) (now : ℕ) : RungOp V → FixedTierStub V
  | .set k v ttl => (t.set k v ttl now).2
  | .get k => (t.get k now).2
  | .remove k => (t.remove k now).2
  | .contains _ => t
  | .evictionCandidate => (t.evictionCandidate now).2
  | .removeIfAddress address => (t.removeIfAddress address).2

/-- The rung after a history of calls, each with its instant. -/
def performs (t : FixedTierStub V) (h : List (ℕ × RungOp V)) : FixedTierStub V :=
  h.foldl (fun t c => t.perform c.1 c.2) t

/-- A `set` of this value under this key was answered `Ok` in the history. -/
def Supplied (t : FixedTierStub V) (h : List (ℕ × RungOp V)) (k : KeyRef) (v : V) : Prop :=
  ∃ pre now ttl post, h = pre ++ (now, .set k v ttl) :: post ∧
    ((t.performs pre).set k v ttl now).1 = .ok ()

/-! ## What a slot stands for -/

/-- Every slot is that of a key in use, and points at a value with its digest that came with the
key. -/
def Backed (U : Set KeyRef) (came : KeyRef → V → Prop) (t : FixedTierStub V) : Prop :=
  ∀ i s, t.slotAt i = some s → ∃ k ∈ U, ∃ v,
    s.placement = t.placement.hash k ∧ s.fingerprint = KeyFingerprint.of k ∧
      t.pool.get s.poolIdx = some v ∧ IntegrityCheck.contentDigest v = s.digest ∧ came k v

section Steps

variable {U : Set KeyRef} {came came' : KeyRef → V → Prop} {p : Placement} {t : FixedTierStub V}
  {now : ℕ} {k : KeyRef}

theorem Backed.mono (h : Backed U came t) (hle : ∀ k v, came k v → came' k v) :
    Backed U came' t := by
  intro i s hs
  obtain ⟨k, hk, v, hp, hf, hget, hdigest, hv⟩ := h i s hs
  exact ⟨k, hk, v, hp, hf, hget, hdigest, hle k v hv⟩

/-- A rung with the same slots and values. -/
theorem Backed.same {t' : FixedTierStub V} (h : Backed U came t) (hslots : t'.slots = t.slots)
    (hpool : t'.pool = t.pool) (hplacement : t'.placement = t.placement) : Backed U came t' := by
  intro i s hs
  rw [hpool, hplacement]
  exact h i s (by rwa [slotAt, ← hslots])

/-- **What a call can do to the storage**: nothing, write one slot, or take one slot out. Only a `set`
that answers `Ok` writes, and a `set` writes or fails for want of room. -/
theorem perform_cases (hacc : Accounted p t) (now : ℕ) (c : RungOp V) :
    ((t.perform now c).slots = t.slots ∧ (t.perform now c).pool = t.pool ∧
        (t.perform now c).placement = t.placement) ∨
      (∃ k v ttl idx poolIdx pool, c = .set k v ttl ∧ idx < t.slots.length ∧
        t.set k v ttl now = (.ok (), FixedTierStub.written t k v ttl now idx poolIdx pool) ∧
        pool.capacity = t.pool.capacity ∧ pool.slots = t.pool.slots.set poolIdx (some v) ∧
        poolIdx < t.pool.capacity ∧
        Accounted p (FixedTierStub.written t k v ttl now idx poolIdx pool)) ∨
      ∃ idx s pool, t.slotAt idx = some s ∧ t.pool.deallocate s.poolIdx = .ok pool ∧
        t.perform now c = { t with slots := t.slots.set idx none, pool := pool } := by
  cases c with
  | set k v ttl =>
    cases hidx : t.findEmpty (t.placementOf k) (KeyFingerprint.of k) now with
    | none => exact Or.inl (by simp [perform, FixedTierStub.set, hidx])
    | some idx =>
      have hlt := hacc.findEmpty_lt hidx
      obtain ⟨poolIdx, pool, hset, hcapacity, hslots, hpool, haccount⟩ := hacc.set_eq v ttl hidx
      exact Or.inr (Or.inl ⟨k, v, ttl, idx, poolIdx, pool, rfl, hlt, hset, hcapacity, hslots, hpool,
        hacc.written hlt hcapacity hslots hpool haccount⟩)
  | get k =>
    refine Or.inl ?_
    simp only [perform, FixedTierStub.get]
    split
    · simp
    · split
      · simp
      · split
        · simp
        · split_ifs
          · simp
          · simp
  | remove k =>
    simp only [perform, FixedTierStub.remove]
    cases t.findSlot (t.placementOf k) (KeyFingerprint.of k) now with
    | none => exact Or.inl ⟨rfl, rfl, rfl⟩
    | some idx =>
      cases hs : t.slotAt idx with
      | none =>
        have hjoin : (t.slots[idx]?).join = none := hs
        exact Or.inl (by simp [hjoin])
      | some s =>
        have hjoin : (t.slots[idx]?).join = some s := hs
        obtain ⟨pool, hpool, -⟩ := hacc.cleared hs
        exact Or.inr (Or.inr ⟨idx, s, pool, hs, hpool, by simp only [hjoin, hpool]⟩)
  | contains k => exact Or.inl ⟨rfl, rfl, rfl⟩
  | evictionCandidate =>
    refine Or.inl ?_
    simp only [perform, FixedTierStub.evictionCandidate]
    split_ifs
    · simp
    · split
      · simp
      · simp
  | removeIfAddress address =>
    simp only [perform]
    rcases hacc.removeIfAddress_cases address with heq | ⟨idx, s, pool, hs, -, hpool, heq⟩
    · exact Or.inl (by simp [heq])
    · exact Or.inr (Or.inr ⟨idx, s, pool, hs, hpool, by rw [heq]⟩)

theorem Accounted.perform (h : Accounted p t) (now : ℕ) (c : RungOp V) :
    Accounted p (t.perform now c) := by
  cases c with
  | set k v ttl => exact h.set k v ttl now
  | get k => exact h.get k now
  | remove k => exact h.remove k now
  | contains k => exact h
  | evictionCandidate => exact h.evictionCandidate now
  | removeIfAddress address => exact h.removeIfAddress address

theorem capacity_perform (hacc : Accounted p t) (now : ℕ) (c : RungOp V) :
    (t.perform now c).pool.capacity = t.pool.capacity := by
  rcases perform_cases hacc now c with
    ⟨-, hpool, -⟩ | ⟨k, v, ttl, idx, poolIdx, pool, rfl, -, hset, hcapacity, -⟩ |
    ⟨idx, s, pool, hs, hpool, heq⟩
  · rw [hpool]
  · rw [FixedTierStub.perform, hset]
    exact hcapacity
  · rw [heq]
    rw [MemoryPool.deallocate] at hpool
    split_ifs at hpool
    rw [← Except.ok.inj hpool]

/-- Writing a slot leaves the others as they were, and the one written stands for its key. -/
theorem Backed.written (h : Backed U came t) (hk : k ∈ U) {v : V} {ttl : Option ℕ}
    {idx poolIdx : ℕ} {pool : MemoryPool V} (hidx : idx < t.slots.length)
    (hcapacity : pool.capacity = t.pool.capacity)
    (hslots : pool.slots = t.pool.slots.set poolIdx (some v)) (hlt : poolIdx < t.pool.capacity)
    (hlength : t.pool.slots.length = t.pool.capacity)
    (hacc : Accounted p (FixedTierStub.written t k v ttl now idx poolIdx pool)) (hv : came k v) :
    Backed U came (FixedTierStub.written t k v ttl now idx poolIdx pool) := by
  have hat := slotAt_written t k v ttl now hidx poolIdx pool
  intro i s hs
  by_cases hi : i = idx
  · subst hi
    rw [hat, if_pos rfl, Option.some.injEq] at hs
    subst hs
    refine ⟨k, hk, v, rfl, rfl, ?_, rfl, hv⟩
    simp [MemoryPool.get, FixedTierStub.written, newSlot, hcapacity, hlt, hslots, hlength]
  · -- another slot keeps its pool index, which is not the one written through
    have hne : poolIdx ≠ s.poolIdx := by
      intro he
      exact hi (hacc.poolIdx_inj hs ((hat idx).trans (if_pos rfl)) he.symm)
    rw [hat, if_neg hi] at hs
    obtain ⟨k', hk', v', hp, hf, hget, hdigest, hv'⟩ := h i s hs
    refine ⟨k', hk', v', hp, hf, ?_, hdigest, hv'⟩
    rw [← hget]
    simp only [MemoryPool.get, FixedTierStub.written, hcapacity, hslots,
      List.getElem?_set_ne hne]

/-- Taking a slot out leaves the others as they were. -/
theorem Backed.cleared (h : Backed U came t) (hacc : Accounted p t) {idx : ℕ} {x : Slot}
    (hx : t.slotAt idx = some x) {pool : MemoryPool V}
    (hpool : t.pool.deallocate x.poolIdx = .ok pool) :
    Backed U came { t with slots := t.slots.set idx none, pool := pool } := by
  intro i s hs
  have hi : i ≠ idx := by
    rintro rfl
    simp [slotAt, slotAt_lt hx] at hs
  have hs' : t.slotAt i = some s := by
    rw [← hs]
    simp only [slotAt, List.getElem?_set_ne (Ne.symm hi)]
  have hne : x.poolIdx ≠ s.poolIdx := fun he => hi (hacc.poolIdx_inj hs' hx he.symm)
  obtain ⟨k, hk, v, hp, hf, hget, hdigest, hv⟩ := h i s hs'
  refine ⟨k, hk, v, hp, hf, ?_, hdigest, hv⟩
  rw [MemoryPool.deallocate] at hpool
  split_ifs at hpool
  rw [← hget, ← Except.ok.inj hpool]
  simp only [MemoryPool.get, List.getElem?_set_ne hne]

/-- **Every call keeps the slots backed**, when what it stores came with its key. -/
theorem Backed.perform (h : Backed U came t) (hacc : Accounted p t) (now : ℕ) (c : RungOp V)
    (hkey : ∀ k ∈ c.key?, k ∈ U)
    (hcame : ∀ k v ttl, c = .set k v ttl → (t.set k v ttl now).1 = .ok () → came k v) :
    Backed U came (t.perform now c) := by
  rcases perform_cases hacc now c with
    ⟨hslots, hpool, hplacement⟩ |
    ⟨k, v, ttl, idx, poolIdx, pool, rfl, hidx, hset, hcapacity, hslots, hlt, hacc'⟩ |
    ⟨idx, s, pool, hs, hpool, heq⟩
  · exact h.same hslots hpool hplacement
  · have hv := hcame k v ttl rfl (by rw [hset])
    rw [FixedTierStub.perform, hset]
    exact h.written (hkey k rfl) hidx hcapacity hslots hlt hacc.pool_length hacc' hv
  · rw [heq]
    exact h.cleared hacc hs hpool

/-- A read that finds a backed slot of its key answers with the value it is backed by. -/
theorem Backed.get_fst (h : Backed U came t) (hacc : Accounted p t)
    (hU : Set.InjOn KeyFingerprint.of U) (hk : k ∈ U) (now : ℕ) :
    ∃ r, (t.get k now).1 = .ok r ∧ ∀ v, r = some v → came k v := by
  rw [FixedTierStub.get_fst]
  cases hfind : t.findSlot (t.placementOf k) (KeyFingerprint.of k) now with
  | none => exact ⟨none, rfl, by simp⟩
  | some idx =>
    rw [findSlot, hacc.isEmpty_slots, if_neg (by simp)] at hfind
    obtain ⟨c, hc, hhit⟩ := Probe.scan_hit (hacc.home_lt _) hfind
    cases c with
    | none => simp [lookFind] at hhit
    | some s =>
      have hs := slotAt_eq hc
      have hholds : s.holds (t.placementOf k) (KeyFingerprint.of k) = true := by
        by_contra hnot
        simp [lookFind, hnot] at hhit
      obtain ⟨k', hk', v, -, hf, hget, hdigest, hv⟩ := h idx s hs
      have hkey : k' = k := by
        simp only [Slot.holds, Bool.and_eq_true, beq_iff_eq] at hholds
        exact hU hk' hk (hf.symm.trans hholds.2)
      subst hkey
      refine ⟨some v, ?_, fun v' hv' => ?_⟩
      · simp [hs, readSlot, hget, hdigest]
      · rw [Option.some.injEq] at hv'
        rwa [← hv']

theorem lookEmpty_ne_stop (x : UInt64) (f : KeyFingerprint) (now : ℕ) (c : Option Slot) :
    lookEmpty x f now c ≠ .stop := by
  cases c with
  | none => simp [lookEmpty]
  | some s =>
    simp only [lookEmpty]
    split_ifs
    all_goals simp

theorem lookEmpty_eq_next_iff {x : UInt64} {f : KeyFingerprint} {c : Option Slot} :
    lookEmpty x f now c = .next ↔
      ∃ s, c = some s ∧ s.isExpired now = false ∧ s.holds x f = false := by
  cases c with
  | none => simp [lookEmpty]
  | some s =>
    simp only [lookEmpty]
    cases hholds : s.holds x f with
    | true => simp [hholds]
    | false => cases hexp : s.isExpired now <;> simp [hholds, hexp]

/-- There is no room exactly when every slot is an unexpired one of another key. -/
theorem Backed.hasRoom_eq_false_iff (h : Backed U came t) (hacc : Accounted p t)
    (hU : Set.InjOn KeyFingerprint.of U) (hk : k ∈ U) :
    t.hasRoom k now = false ↔ ∀ i < t.slots.length, ∃ s, t.slotAt i = some s ∧
      s.isExpired now = false ∧ ∃ k' ∈ U, k' ≠ k ∧ s.fingerprint = KeyFingerprint.of k' := by
  have hscan : t.hasRoom k now = false ↔ ∀ c ∈ t.slots,
      lookEmpty (t.placementOf k) (KeyFingerprint.of k) now c = .next := by
    rw [hasRoom, Option.isSome_eq_false_iff, Option.isNone_iff_eq_none, findEmpty,
      hacc.isEmpty_slots, if_neg (by simp)]
    exact Probe.scan_length_eq_none_of_no_stop (hacc.home_lt _)
      fun c _ => lookEmpty_ne_stop _ _ now c
  rw [hscan]
  constructor
  · intro hall i hi
    obtain ⟨s, hs, hexp, hholds⟩ :=
      lookEmpty_eq_next_iff.1 (hall _ (List.mem_of_getElem? (slots_eq hi)))
    obtain ⟨k', hk', v, hp, hf, -⟩ := h i s hs
    refine ⟨s, hs, hexp, k', hk', ?_, hf⟩
    rintro rfl
    simp [Slot.holds, hp, hf, placementOf] at hholds
  · intro hall c hc
    obtain ⟨i, hi, rfl⟩ := List.getElem_of_mem hc
    obtain ⟨s, hs, hexp, k', hk', hne, hf⟩ := hall i hi
    have hcell : t.slots[i] = some s := by
      rw [← hs, slotAt, List.getElem?_eq_getElem hi, Option.join_some]
    refine lookEmpty_eq_next_iff.2 ⟨s, hcell, hexp, ?_⟩
    rw [Bool.eq_false_iff]
    intro hholds
    simp only [Slot.holds, Bool.and_eq_true, beq_iff_eq] at hholds
    exact hne (hU hk' hk (hf.symm.trans hholds.2))

end Steps

/-! ## Histories -/

section Histories

variable {U : Set KeyRef} {p : Placement} {n : ℕ} {t : FixedTierStub V}

theorem performs_concat (t : FixedTierStub V) (h : List (ℕ × RungOp V)) (c : ℕ × RungOp V) :
    t.performs (h ++ [c]) = (t.performs h).perform c.1 c.2 := by
  simp [performs]

theorem Supplied.concat {h : List (ℕ × RungOp V)} {k : KeyRef} {v : V} (hs : Supplied t h k v)
    (c : ℕ × RungOp V) : Supplied t (h ++ [c]) k v := by
  obtain ⟨pre, now, ttl, post, rfl, hok⟩ := hs
  exact ⟨pre, now, ttl, post ++ [c], by simp, hok⟩

/-- After any history, the accounts are in order and every slot is backed by a value the history
supplied for its key. -/
theorem backed_performs (ht : withCapacity n p = .ok t) (h : List (ℕ × RungOp V))
    (hkeys : ∀ c ∈ h, ∀ k ∈ c.2.key?, k ∈ U) :
    Accounted p (t.performs h) ∧ (t.performs h).pool.capacity = n ∧
      Backed U (Supplied t h) (t.performs h) := by
  induction h using List.reverseRecOn with
  | nil =>
    refine ⟨accounted_withCapacity ht, ?_, ?_⟩
    · unfold withCapacity MemoryPool.new at ht
      split_ifs at ht
      rw [← Except.ok.inj ht]
      rfl
    · intro i s hs
      have hhole : (none : Option Slot) = some s := by
        have hmem := List.mem_of_getElem? ((slots_eq (slotAt_lt hs)).trans (congrArg some hs))
        unfold withCapacity MemoryPool.new at ht
        split_ifs at ht
        rw [← Except.ok.inj ht] at hmem
        exact (List.eq_of_mem_replicate hmem).symm
      cases hhole
  | append_singleton h c ih =>
    obtain ⟨hacc, hcapacity, hbacked⟩ := ih fun c hc => hkeys c (List.mem_append_left _ hc)
    rw [performs_concat]
    refine ⟨hacc.perform c.1 c.2, (capacity_perform hacc c.1 c.2).trans hcapacity, ?_⟩
    refine (hbacked.mono fun k v hs => hs.concat c).perform hacc c.1 c.2 (hkeys c (by simp)) ?_
    intro k v ttl hc hok
    exact ⟨h, c.1, ttl, [], by rw [← hc], hok⟩

/-- **The storage keeps its integrity.** After any history of calls on keys with distinct
fingerprints: the occupied slots use distinct cells of the pool, each with a value of the slot's
digest; the free list holds every other cell, once; a read of such a key succeeds, and returns only a
value that an earlier `set` stored under it; and a `set` fails only for want of room, exactly when
every slot is an unexpired one of another key, and then changes nothing. -/
theorem storage_integrity (ht : withCapacity n p = .ok t) (hU : Set.InjOn KeyFingerprint.of U)
    (h : List (ℕ × RungOp V)) (hkeys : ∀ c ∈ h, ∀ k ∈ c.2.key?, k ∈ U) :
    (t.performs h).used.Nodup ∧
    (∀ s ∈ (t.performs h).occupied, ∃ v, (t.performs h).pool.get s.poolIdx = some v ∧
      IntegrityCheck.contentDigest v = s.digest) ∧
    (t.performs h).pool.freeIndices.Nodup ∧
    (∀ x, x ∈ (t.performs h).pool.freeIndices ↔ x < n ∧ x ∉ (t.performs h).used) ∧
    (∀ k ∈ U, ∀ now, ∃ r, ((t.performs h).get k now).1 = .ok r ∧
      ∀ v, r = some v → Supplied t h k v) ∧
    ∀ k ∈ U, ∀ v ttl now,
      (((t.performs h).set k v ttl now).1 ≠ .ok () →
        (t.performs h).set k v ttl now = (.error .capacityExhausted, t.performs h)) ∧
      (((t.performs h).set k v ttl now).1 ≠ .ok () ↔
        ∀ i < (t.performs h).slots.length, ∃ s, (t.performs h).slotAt i = some s ∧
          s.isExpired now = false ∧
          ∃ k' ∈ U, k' ≠ k ∧ s.fingerprint = KeyFingerprint.of k') := by
  obtain ⟨hacc, hcapacity, hbacked⟩ := backed_performs ht h hkeys
  obtain ⟨hused, hfree, hdisjoint⟩ := List.nodup_append.1 hacc.nodup
  refine ⟨hused, ?_, hfree, ?_, fun k hk now => hbacked.get_fst hacc hU hk now, ?_⟩
  · intro s hs
    obtain ⟨i, hi, hcell⟩ := List.getElem_of_mem (List.reduceOption_mem_iff.1 hs)
    have hat : (t.performs h).slotAt i = some s :=
      slotAt_eq (by rw [List.getElem?_eq_getElem hi, hcell])
    obtain ⟨k, -, v, -, -, hget, hdigest, -⟩ := hbacked i s hat
    exact ⟨v, hget, hdigest⟩
  · intro x
    have hmem := hacc.account.mem_iff (a := x)
    rw [List.mem_append, List.mem_range, hcapacity] at hmem
    constructor
    · intro hx
      exact ⟨hmem.1 (Or.inr hx), fun hu => hdisjoint x hu x hx rfl⟩
    · rintro ⟨hlt, hnot⟩
      exact (hmem.2 hlt).resolve_left hnot
  · intro k hk v ttl now
    rw [← hbacked.hasRoom_eq_false_iff hacc hU hk]
    rcases hacc.set_cases k v ttl now with ⟨hno, heq⟩ | ⟨t', hyes, heq, -⟩
    · simp [heq, hno]
    · simp [heq, hyes]

end Histories

/-- Two colliding keys, where the second comes to own both slots, one of them is evicted, and the
other is read. -/
def doubledHistory : List (ℕ × RungOp (List UInt8)) :=
  [(0, .set [65] [1] none), (0, .set [66] [2] none), (1, .remove [65]), (1, .set [66] [3] none),
    (2, .evictionCandidate), (3, .removeIfAddress (KeyAddress.of [66] .allToZero)), (4, .get [66])]

theorem storage_integrity_doubledHistory :
    ((pairRung.performs doubledHistory).get [66] 5).1 = .ok (some [2]) ∧
      Supplied pairRung doubledHistory [66] [2] ∧
      (pairRung.performs doubledHistory).pool.freeIndices.Nodup := by
  have hread : ((pairRung.performs doubledHistory).get [66] 5).1 = .ok (some [2]) := by
    decide +kernel
  have hnew : withCapacity 2 .allToZero = .ok pairRung := rfl
  obtain ⟨-, -, hfree, -, hget, -⟩ := storage_integrity hnew pairKeys_injOn doubledHistory
    (by simp [doubledHistory, RungOp.key?])
  obtain ⟨r, hr, hsupplied⟩ := hget [66] (by simp) 5
  rw [hread, Except.ok.injEq] at hr
  exact ⟨hread, hsupplied [2] hr.symm, hfree⟩

end FixedTierStub

end TheSix
