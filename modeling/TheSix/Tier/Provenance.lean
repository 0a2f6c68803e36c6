import TheSix.Tier.CacheTier
import TheSix.Tier.Integrity

/-!
# Where the values of a tier come from

`OnlyStored` is the part of a tier's contract that keeps keys apart: with `came` for the values that
came with a key, a tier that `Holds` only such values returns only such values, and goes on to hold
only such values as long as only such values are stored. The in-memory rungs keep to it on keys with
distinct fingerprints, whatever their placement is. A ladder may mix them with other tiers, as `⊕`.
-/

namespace TheSix

/-- A tier returns for a key only what was stored for that key. `U` are the keys in use. -/
class OnlyStored (T : Type) (V : outParam Type) [CacheTier T V] where
  Holds : Set KeyRef → (KeyRef → V → Prop) → T → Prop
  mono : ∀ {U came came' t}, (∀ k v, came k v → came' k v) → Holds U came t → Holds U came' t
  returns : ∀ {U came t k now v}, Set.InjOn KeyFingerprint.of U → k ∈ U → Holds U came t →
    (CacheTier.get t k now).1 = .ok (some v) → came k v
  get : ∀ {U came t k} now, k ∈ U → Holds U came t → Holds U came (CacheTier.get t k now).2
  set : ∀ {U came t k v} ttl now, k ∈ U → came k v → Holds U came t →
    Holds U came (CacheTier.set t k v ttl now).2
  remove : ∀ {U came t k} now, k ∈ U → Holds U came t → Holds U came (CacheTier.remove t k now).2
  evictionCandidate : ∀ {U came t} now cursor, Holds U came t →
    Holds U came (CacheTier.evictionCandidate t now cursor).2.2
  removeIfAddress : ∀ {U came t} address, Holds U came t →
    Holds U came (CacheTier.removeIfAddress t address).2

/-! ## The in-memory rungs -/

namespace FixedTierStub

variable {V : Type} [IntegrityCheck V] {U : Set KeyRef} {came : KeyRef → V → Prop} {p : Placement}
  {t : FixedTierStub V}

/-- A call that is no `set` keeps the slots backed, on whichever key it is. -/
theorem Backed.perform_of_ne_set (h : t.Backed U came) (hacc : t.Accounted p) (now : ℕ) {c : RungOp V}
    (hc : ∀ k v ttl, c ≠ .set k v ttl) : (t.perform now c).Backed U came := by
  rcases perform_cases hacc now c with
    ⟨hslots, hpool, hplacement⟩ | ⟨k, v, ttl, idx, poolIdx, pool, rfl, -⟩ | ⟨idx, s, pool, hs, hpool, heq⟩
  · exact h.same hslots hpool hplacement
  · exact absurd rfl (hc k v ttl)
  · rw [heq]
    exact h.cleared hacc hs hpool

theorem Backed.set (h : t.Backed U came) (hacc : t.Accounted p) {k : KeyRef} {v : V} (ttl : Option ℕ)
    (now : ℕ) (hk : k ∈ U) (hv : came k v) : (t.set k v ttl now).2.Backed U came := by
  refine Backed.perform h hacc now (.set k v ttl) ?_ ?_
  · intro k' hk'
    obtain rfl : k = k' := Option.some.inj hk'
    exact hk
  · intro k' v' ttl' heq _
    cases heq
    exact hv

end FixedTierStub

instance {V : Type} [IntegrityCheck V] : OnlyStored (FixedTierStub V) V where
  Holds U came t := (∃ p, t.Accounted p) ∧ t.Backed U came
  mono hle h := ⟨h.1, h.2.mono hle⟩
  returns {U came t k now v} hU hk h hget := by
    obtain ⟨⟨p, hacc⟩, hbacked⟩ := h
    obtain ⟨r, hr, hcame⟩ := hbacked.get_fst hacc hU hk now
    have hget' : (t.get k now).1 = .ok (some v) := hget
    rw [hr, Except.ok.injEq] at hget'
    exact hcame v hget'
  get {_ _ _ k} now _ h := by
    obtain ⟨⟨p, hacc⟩, hbacked⟩ := h
    exact ⟨⟨p, hacc.get k now⟩, hbacked.perform_of_ne_set hacc now (c := .get k) (by simp)⟩
  set {_ _ _ k v} ttl now hk hv h := by
    obtain ⟨⟨p, hacc⟩, hbacked⟩ := h
    exact ⟨⟨p, hacc.set k v ttl now⟩, hbacked.set hacc ttl now hk hv⟩
  remove {_ _ _ k} now _ h := by
    obtain ⟨⟨p, hacc⟩, hbacked⟩ := h
    exact ⟨⟨p, hacc.remove k now⟩, hbacked.perform_of_ne_set hacc now (c := .remove k) (by simp)⟩
  evictionCandidate now _ h := by
    obtain ⟨⟨p, hacc⟩, hbacked⟩ := h
    exact ⟨⟨p, hacc.evictionCandidate now⟩,
      hbacked.perform_of_ne_set hacc now (c := .evictionCandidate) (by simp)⟩
  removeIfAddress address h := by
    obtain ⟨⟨p, hacc⟩, hbacked⟩ := h
    exact ⟨⟨p, hacc.removeIfAddress address⟩,
      hbacked.perform_of_ne_set hacc 0 (c := .removeIfAddress address) (by simp)⟩

namespace ShardedTierStub

variable {V : Type} [IntegrityCheck V] {U : Set KeyRef} {came : KeyRef → V → Prop} {p : Placement}
  {t : ShardedTierStub V} {s : FixedTierStub V}

/-- Every slot of every shard is backed. -/
def Backed (U : Set KeyRef) (came : KeyRef → V → Prop) (t : ShardedTierStub V) : Prop :=
  ∀ s ∈ t.shards, s.Backed U came

theorem Backed.putShard (h : t.Backed U came) (hs : s.Backed U came) (idx : ℕ) :
    (t.putShard idx s).Backed U came :=
  fun x hx => (List.mem_or_eq_of_mem_set hx).elim (h x) fun he => he ▸ hs

theorem Backed.onShard {β : Type} (h : t.Backed U came) (hacc : t.Accounted p) (k : KeyRef)
    {f : FixedTierStub V → Except CacheError β × FixedTierStub V}
    (hf : ∀ s : FixedTierStub V, s.Accounted p → s.Backed U came → (f s).2.Backed U came) :
    (t.onShard (t.shardFor k) f).2.Backed U came := by
  obtain ⟨s, hs, hs'⟩ := hacc.shardFor k
  rw [onShard_some hs]
  exact h.putShard (hf s hs' (h s (List.mem_of_getElem? hs))) _

theorem Backed.nominate (h : t.Backed U came) (hacc : t.Accounted p) (now left idx : ℕ) :
    (t.nominate now left idx).2.Backed U came := by
  induction left generalizing t idx with
  | zero => exact h
  | succ left ih =>
    rw [ShardedTierStub.nominate]
    cases hs : t.shards[idx]? with
    | none => exact h
    | some s =>
      have hmem := List.mem_of_getElem? hs
      have hshard := hacc.shard s hmem
      have hbacked : (s.evictionCandidate now).2.Backed U came :=
        (h s hmem).perform_of_ne_set hshard now (c := .evictionCandidate) (by simp)
      have hput := h.putShard hbacked idx
      simp only
      cases (s.evictionCandidate now).1 with
      | some address => exact hput
      | none => exact ih hput (hacc.putShard (hshard.evictionCandidate now) idx) _

theorem Backed.removeFrom (h : t.Backed U came) (hacc : t.Accounted p) (address : KeyAddress)
    (left idx : ℕ) : (t.removeFrom address left idx).2.Backed U came := by
  induction left generalizing t idx with
  | zero => exact h
  | succ left ih =>
    rw [ShardedTierStub.removeFrom]
    cases hs : t.shards[idx]? with
    | none => exact h
    | some s =>
      have hmem := List.mem_of_getElem? hs
      have hshard := hacc.shard s hmem
      have hbacked : (s.removeIfAddress address).2.Backed U came :=
        (h s hmem).perform_of_ne_set hshard 0 (c := .removeIfAddress address) (by simp)
      have hput := h.putShard hbacked idx
      simp only
      cases (s.removeIfAddress address).1 with
      | error e => exact hput
      | ok taken =>
        cases taken with
        | true => exact hput
        | false => exact ih hput (hacc.putShard (hshard.removeIfAddress address) idx) _

end ShardedTierStub

instance {V : Type} [IntegrityCheck V] : OnlyStored (ShardedTierStub V) V where
  Holds U came t := (∃ p, t.Accounted p) ∧ t.Backed U came
  mono hle h := ⟨h.1, fun s hs => (h.2 s hs).mono hle⟩
  returns {U came t k now v} hU hk h hget := by
    obtain ⟨⟨p, hacc⟩, hbacked⟩ := h
    obtain ⟨s, hs, hs'⟩ := hacc.shardFor k
    obtain ⟨r, hr, hcame⟩ := (hbacked s (List.mem_of_getElem? hs)).get_fst hs' hU hk now
    have hget' : (t.get k now).1 = .ok (some v) := hget
    rw [ShardedTierStub.get, ShardedTierStub.onShard_some hs, hr, Except.ok.injEq] at hget'
    exact hcame v hget'
  get {_ _ _ k} now _ h := by
    obtain ⟨⟨p, hacc⟩, hbacked⟩ := h
    refine ⟨⟨p, hacc.onShard k fun _ hs => hs.get k now⟩, hbacked.onShard hacc k fun s hs hs' => ?_⟩
    exact hs'.perform_of_ne_set hs now (c := .get k) (by simp)
  set {_ _ _ k v} ttl now hk hv h := by
    obtain ⟨⟨p, hacc⟩, hbacked⟩ := h
    exact ⟨⟨p, hacc.onShard k fun _ hs => hs.set k v ttl now⟩,
      hbacked.onShard hacc k fun s hs hs' => hs'.set hs ttl now hk hv⟩
  remove {_ _ _ k} now _ h := by
    obtain ⟨⟨p, hacc⟩, hbacked⟩ := h
    refine ⟨⟨p, hacc.onShard k fun _ hs => hs.remove k now⟩, hbacked.onShard hacc k fun s hs hs' => ?_⟩
    exact hs'.perform_of_ne_set hs now (c := .remove k) (by simp)
  evictionCandidate {U came t} now cursor h := by
    obtain ⟨⟨p, hacc⟩, hbacked⟩ := h
    refine ⟨⟨p, (hacc.evictionCandidate now cursor).1⟩, ?_⟩
    have hnominated : (t.evictionCandidate now cursor).2.2.Backed U came := by
      unfold ShardedTierStub.evictionCandidate
      split_ifs
      · exact hbacked
      · exact hbacked.nominate hacc now _ _
    exact hnominated
  removeIfAddress address h := by
    obtain ⟨⟨p, hacc⟩, hbacked⟩ := h
    exact ⟨⟨p, (ShardedTierStub.removeFrom_spec hacc address _ 0).1⟩, hbacked.removeFrom hacc address _ 0⟩

/-! ### Rungs that hold nothing yet -/

theorem FixedTierStub.backed_withCapacity {V : Type} [IntegrityCheck V] {U : Set KeyRef}
    {came : KeyRef → V → Prop} {n : ℕ} {p : Placement} {t : FixedTierStub V}
    (h : withCapacity n p = .ok t) : t.Backed U came := by
  have hempty := (backed_performs (U := U) h [] (by simp)).2.2
  refine Backed.mono hempty ?_
  rintro k v ⟨pre, now, ttl, post, hsplit, -⟩
  simp at hsplit

theorem ShardedTierStub.backed_withShards {V : Type} [IntegrityCheck V] {U : Set KeyRef}
    {came : KeyRef → V → Prop} {hasher : KeyRef → UInt64} {shards n : ℕ} {t : ShardedTierStub V}
    (h : withShards hasher shards n = .ok t) : t.Backed U came := by
  intro s hs
  exact FixedTierStub.backed_withCapacity ((withShards_eq_ok h).2 s hs)

namespace StubTier

variable {V : Type}

/-- An in-memory rung as it is built, at any placement. -/
inductive Unused : StubTier V → Prop
  | fixed {n : ℕ} {p : Placement} {t : FixedTierStub V} (h : FixedTierStub.withCapacity n p = .ok t) :
      Unused (.fixed t)
  | sharded {hasher : KeyRef → UInt64} {shards n : ℕ} {t : ShardedTierStub V}
      (h : ShardedTierStub.withShards hasher shards n = .ok t) : Unused (.sharded t)

variable [IntegrityCheck V]

/-- What the stub inside holds came with its keys. -/
def Holds (U : Set KeyRef) (came : KeyRef → V → Prop) : StubTier V → Prop
  | fixed t => OnlyStored.Holds U came t
  | sharded t => OnlyStored.Holds U came t

theorem Unused.holds {U : Set KeyRef} {came : KeyRef → V → Prop} {t : StubTier V} (h : t.Unused) :
    t.Holds U came := by
  cases h with
  | fixed h => exact ⟨⟨_, FixedTierStub.accounted_withCapacity h⟩, FixedTierStub.backed_withCapacity h⟩
  | sharded h =>
    exact ⟨⟨_, ShardedTierStub.accounted_withShards h⟩, ShardedTierStub.backed_withShards h⟩

end StubTier

instance {V : Type} [IntegrityCheck V] : OnlyStored (StubTier V) V where
  Holds := StubTier.Holds
  mono {_ _ _ t} hle h := by
    cases t with
    | fixed t => exact OnlyStored.mono hle h
    | sharded t => exact OnlyStored.mono hle h
  returns {_ _ t _ _ _} hU hk h hget := by
    cases t with
    | fixed t => exact OnlyStored.returns hU hk h hget
    | sharded t => exact OnlyStored.returns hU hk h hget
  get {_ _ t _} now hk h := by
    cases t with
    | fixed t => exact OnlyStored.get now hk h
    | sharded t => exact OnlyStored.get now hk h
  set {_ _ t _ _} ttl now hk hv h := by
    cases t with
    | fixed t => exact OnlyStored.set ttl now hk hv h
    | sharded t => exact OnlyStored.set ttl now hk hv h
  remove {_ _ t _} now hk h := by
    cases t with
    | fixed t => exact OnlyStored.remove now hk h
    | sharded t => exact OnlyStored.remove now hk h
  evictionCandidate {_ _ t} now cursor h := by
    cases t with
    | fixed t => exact OnlyStored.evictionCandidate now cursor h
    | sharded t => exact OnlyStored.evictionCandidate now cursor h
  removeIfAddress {_ _ t} address h := by
    cases t with
    | fixed t => exact OnlyStored.removeIfAddress address h
    | sharded t => exact OnlyStored.removeIfAddress address h

/-! ## Ladders of different tiers -/

section Mixed

variable {T T' V : Type} [CacheTier T V] [CacheTier T' V]

/-- A rung that is one of two kinds. -/
instance : CacheTier (T ⊕ T') V where
  get
    | .inl t, key, now => ((CacheTier.get t key now).1, .inl (CacheTier.get t key now).2)
    | .inr t, key, now => ((CacheTier.get t key now).1, .inr (CacheTier.get t key now).2)
  set
    | .inl t, key, v, ttl, now =>
      ((CacheTier.set t key v ttl now).1, .inl (CacheTier.set t key v ttl now).2)
    | .inr t, key, v, ttl, now =>
      ((CacheTier.set t key v ttl now).1, .inr (CacheTier.set t key v ttl now).2)
  remove
    | .inl t, key, now => ((CacheTier.remove t key now).1, .inl (CacheTier.remove t key now).2)
    | .inr t, key, now => ((CacheTier.remove t key now).1, .inr (CacheTier.remove t key now).2)
  contains
    | .inl t, key, now => CacheTier.contains t key now
    | .inr t, key, now => CacheTier.contains t key now
  evictionCandidate
    | .inl t, now, cursor =>
      ((CacheTier.evictionCandidate t now cursor).1, (CacheTier.evictionCandidate t now cursor).2.1,
        .inl (CacheTier.evictionCandidate t now cursor).2.2)
    | .inr t, now, cursor =>
      ((CacheTier.evictionCandidate t now cursor).1, (CacheTier.evictionCandidate t now cursor).2.1,
        .inr (CacheTier.evictionCandidate t now cursor).2.2)
  removeIfAddress
    | .inl t, address =>
      ((CacheTier.removeIfAddress t address).1, .inl (CacheTier.removeIfAddress t address).2)
    | .inr t, address =>
      ((CacheTier.removeIfAddress t address).1, .inr (CacheTier.removeIfAddress t address).2)

variable [OnlyStored T V] [OnlyStored T' V]

instance : OnlyStored (T ⊕ T') V where
  Holds U came := Sum.elim (OnlyStored.Holds U came) (OnlyStored.Holds U came)
  mono {_ _ _ t} hle h := by
    cases t with
    | inl t => exact OnlyStored.mono (T := T) hle h
    | inr t => exact OnlyStored.mono (T := T') hle h
  returns {_ _ t _ _ _} hU hk h hget := by
    cases t with
    | inl t => exact OnlyStored.returns (T := T) hU hk h hget
    | inr t => exact OnlyStored.returns (T := T') hU hk h hget
  get {_ _ t _} now hk h := by
    cases t with
    | inl t => exact OnlyStored.get (T := T) now hk h
    | inr t => exact OnlyStored.get (T := T') now hk h
  set {_ _ t _ _} ttl now hk hv h := by
    cases t with
    | inl t => exact OnlyStored.set (T := T) ttl now hk hv h
    | inr t => exact OnlyStored.set (T := T') ttl now hk hv h
  remove {_ _ t _} now hk h := by
    cases t with
    | inl t => exact OnlyStored.remove (T := T) now hk h
    | inr t => exact OnlyStored.remove (T := T') now hk h
  evictionCandidate {_ _ t} now cursor h := by
    cases t with
    | inl t => exact OnlyStored.evictionCandidate (T := T) now cursor h
    | inr t => exact OnlyStored.evictionCandidate (T := T') now cursor h
  removeIfAddress {_ _ t} address h := by
    cases t with
    | inl t => exact OnlyStored.removeIfAddress (T := T) address h
    | inr t => exact OnlyStored.removeIfAddress (T := T') address h

end Mixed

end TheSix
