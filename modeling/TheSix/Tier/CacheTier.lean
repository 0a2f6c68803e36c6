import TheSix.Tier.Accounting

/-!
# Tiers

`CacheTier` is the trait of `tier/trait.rs`: what the manager may ask of a rung, at an instant.
`ShardedTierStub` splits a rung into fixed-capacity shards. A key lives in the shard its hash selects,
while victims are looked for in all shards, from a start that rotates with a counter the whole process
shares.

`BoundedTier` is the part of the contract that reclaiming a slot relies on: a write that is refused is
refused for want of room and changes nothing, a nomination changes nothing that is stored, and a
removal by address touches that address only. Both stubs keep to it.
-/

namespace TheSix

/-- `CacheTier`. The counter of `ShardedTierStub::next_shard` is passed through
`eviction_candidate`. -/
class CacheTier (T : Type) (V : outParam Type) where
  get : T → KeyRef → ℕ → Except CacheError (Option V) × T
  set : T → KeyRef → V → Option ℕ → ℕ → Except CacheError Unit × T
  remove : T → KeyRef → ℕ → Except CacheError Unit × T
  contains : T → KeyRef → ℕ → Except CacheError Bool
  evictionCandidate : T → ℕ → ℕ → Option KeyAddress × ℕ × T
  removeIfAddress : T → KeyAddress → Except CacheError Bool × T

instance {V : Type} [IntegrityCheck V] : CacheTier (FixedTierStub V) V where
  get := FixedTierStub.get
  set := FixedTierStub.set
  remove := FixedTierStub.remove
  contains := FixedTierStub.contains
  evictionCandidate t now cursor := ((t.evictionCandidate now).1, cursor, (t.evictionCandidate now).2)
  removeIfAddress := FixedTierStub.removeIfAddress

/-! ## The sharded rung -/

/-- `ShardedTierStub`. `hasher` is the standard library's default hasher on a key. -/
structure ShardedTierStub (V : Type) where
  shards : List (FixedTierStub V)
  mask : ℕ
  hasher : KeyRef → UInt64

namespace ShardedTierStub

variable {V : Type}

/-- `ShardedTierStub::with_shards`. -/
def withShards (hasher : KeyRef → UInt64) (shards capacityPerShard : ℕ) :
    Except CacheError (ShardedTierStub V) :=
  let n := (max shards 1).nextPowerOfTwo
  match FixedTierStub.withCapacity capacityPerShard .default with
  | .error e => .error e
  | .ok shard => .ok ⟨List.replicate n shard, n - 1, hasher⟩

/-- The index of `shard_for`. -/
def shardFor (t : ShardedTierStub V) (key : KeyRef) : ℕ := (t.hasher key).toNat &&& t.mask

/-- Run a method on one shard. The index of `shard_for` is always in the table. -/
def onShard {β : Type} (t : ShardedTierStub V) (idx : ℕ)
    (f : FixedTierStub V → Except CacheError β × FixedTierStub V) :
    Except CacheError β × ShardedTierStub V :=
  match t.shards[idx]? with
  | none => (.error .configurationError, t)
  | some s => ((f s).1, { t with shards := t.shards.set idx (f s).2 })

/-- `ShardedTierStub::get`. -/
def get [IntegrityCheck V] (t : ShardedTierStub V) (key : KeyRef) (now : ℕ) :
    Except CacheError (Option V) × ShardedTierStub V :=
  t.onShard (t.shardFor key) fun s => s.get key now

/-- `ShardedTierStub::set`. -/
def set [IntegrityCheck V] (t : ShardedTierStub V) (key : KeyRef) (value : V) (ttl : Option ℕ)
    (now : ℕ) : Except CacheError Unit × ShardedTierStub V :=
  t.onShard (t.shardFor key) fun s => s.set key value ttl now

/-- `ShardedTierStub::remove`. -/
def remove (t : ShardedTierStub V) (key : KeyRef) (now : ℕ) :
    Except CacheError Unit × ShardedTierStub V :=
  t.onShard (t.shardFor key) fun s => s.remove key now

/-- `ShardedTierStub::contains`. -/
def contains (t : ShardedTierStub V) (key : KeyRef) (now : ℕ) : Except CacheError Bool :=
  (t.onShard (t.shardFor key) fun s => (s.contains key now, s)).1

/-- The shards `eviction_candidate` asks in turn, as many as are left, until one nominates. -/
def nominate (now : ℕ) (t : ShardedTierStub V) : ℕ → ℕ → Option KeyAddress × ShardedTierStub V
  | 0, _ => (none, t)
  | left + 1, idx =>
    match t.shards[idx]? with
    | none => (none, t)
    | some s =>
      let t' := { t with shards := t.shards.set idx (s.evictionCandidate now).2 }
      match (s.evictionCandidate now).1 with
      | some address => (some address, t')
      | none => nominate now t' left ((idx + 1) % t.shards.length)

/-- `ShardedTierStub::eviction_candidate`, with the counter of `next_shard`. -/
def evictionCandidate (t : ShardedTierStub V) (now cursor : ℕ) :
    Option KeyAddress × ℕ × ShardedTierStub V :=
  if t.shards.length = 0 then (none, cursor, t)
  else
    let r := t.nominate now t.shards.length (cursor % t.shards.length)
    (r.1, cursor + 1, r.2)

/-- The shards `remove_if_address` asks from an index on, until one has the address. -/
def removeFrom (address : KeyAddress) (t : ShardedTierStub V) : ℕ → ℕ → Except CacheError Bool × ShardedTierStub V
  | 0, _ => (.ok false, t)
  | left + 1, idx =>
    match t.shards[idx]? with
    | none => (.ok false, t)
    | some s =>
      let t' := { t with shards := t.shards.set idx (s.removeIfAddress address).2 }
      match (s.removeIfAddress address).1 with
      | .error e => (.error e, t')
      | .ok true => (.ok true, t')
      | .ok false => removeFrom address t' left (idx + 1)

/-- `ShardedTierStub::remove_if_address`. -/
def removeIfAddress (t : ShardedTierStub V) (address : KeyAddress) :
    Except CacheError Bool × ShardedTierStub V :=
  t.removeFrom address t.shards.length 0

end ShardedTierStub

instance {V : Type} [IntegrityCheck V] : CacheTier (ShardedTierStub V) V where
  get := ShardedTierStub.get
  set := ShardedTierStub.set
  remove := ShardedTierStub.remove
  contains := ShardedTierStub.contains
  evictionCandidate t now cursor := t.evictionCandidate now cursor
  removeIfAddress := ShardedTierStub.removeIfAddress

/-! ## The contract -/

/-- What reclaiming a slot relies on. `Valid p t` says that the tier is intact and addresses its keys
by `p`. -/
class BoundedTier (T : Type) (V : outParam Type) [CacheTier T V] where
  Valid : Placement → T → Prop
  valid_get : ∀ {p t} k now, Valid p t → Valid p (CacheTier.get t k now).2
  valid_set : ∀ {p t} k v ttl now, Valid p t → Valid p (CacheTier.set t k v ttl now).2
  valid_remove : ∀ {p t} k now, Valid p t → Valid p (CacheTier.remove t k now).2
  valid_evictionCandidate : ∀ {p t} now cursor, Valid p t →
    Valid p (CacheTier.evictionCandidate t now cursor).2.2
  valid_removeIfAddress : ∀ {p t} address, Valid p t →
    Valid p (CacheTier.removeIfAddress t address).2
  refused : ∀ {p t k v ttl now e t'}, Valid p t → CacheTier.set t k v ttl now = (.error e, t') →
    e = .capacityExhausted ∧ t' = t
  get_evictionCandidate : ∀ {p t} k now now' cursor, Valid p t →
    (CacheTier.get (CacheTier.evictionCandidate t now cursor).2.2 k now').1 =
      (CacheTier.get t k now').1
  get_removeIfAddress : ∀ {p t k address} now, Valid p t → KeyAddress.of k p ≠ address →
    (CacheTier.get (CacheTier.removeIfAddress t address).2 k now).1 = (CacheTier.get t k now).1
  nominated : ∀ {p t now cursor address}, Valid p t →
    (CacheTier.evictionCandidate t now cursor).1 = some address →
      (CacheTier.removeIfAddress (CacheTier.evictionCandidate t now cursor).2.2 address).1 = .ok true

theorem FixedTierStub.Accounted.refused {V : Type} [IntegrityCheck V] {p : Placement}
    {t t' : FixedTierStub V} {k : KeyRef} {v : V} {ttl : Option ℕ} {now : ℕ} {e : CacheError}
    (h : t.Accounted p) (hset : t.set k v ttl now = (.error e, t')) :
    e = .capacityExhausted ∧ t' = t := by
  rcases h.set_cases k v ttl now with ⟨-, heq⟩ | ⟨t'', -, heq, -⟩
  · rw [heq] at hset
    cases hset
    exact ⟨rfl, rfl⟩
  · rw [heq] at hset
    cases hset

theorem FixedTierStub.removeIfAddress_of_nominated {V : Type} {t : FixedTierStub V} {now : ℕ}
    {address : KeyAddress} (h : (t.evictionCandidate now).1 = some address) :
    ((t.evictionCandidate now).2.removeIfAddress address).1 = .ok true := by
  rw [removeIfAddress_fst, has, slots_evictionCandidate]
  exact congrArg Except.ok (has_of_evictionCandidate h)

instance {V : Type} [IntegrityCheck V] : BoundedTier (FixedTierStub V) V where
  Valid p t := t.Accounted p
  valid_get k now h := h.get k now
  valid_set k v ttl now h := h.set k v ttl now
  valid_remove k now h := h.remove k now
  valid_evictionCandidate now _ h := h.evictionCandidate now
  valid_removeIfAddress address h := h.removeIfAddress address
  refused h hset := h.refused hset
  get_evictionCandidate k now now' _ _ := FixedTierStub.get_evictionCandidate _ k now now'
  get_removeIfAddress now h hne := h.get_removeIfAddress hne now
  nominated _ hn := FixedTierStub.removeIfAddress_of_nominated hn

namespace ShardedTierStub

variable {V : Type}

/-- Every shard keeps its accounts, and the mask selects one of them. -/
structure Accounted (p : Placement) (t : ShardedTierStub V) : Prop where
  shards_length : t.shards.length = t.mask + 1
  shard : ∀ s ∈ t.shards, s.Accounted p

/-- The shards are copies of one empty stub, and the mask selects one of them. -/
theorem withShards_eq_ok {hasher : KeyRef → UInt64} {shards n : ℕ} {t : ShardedTierStub V}
    (h : withShards hasher shards n = .ok t) : t.shards.length = t.mask + 1 ∧
      ∀ s ∈ t.shards, FixedTierStub.withCapacity n .default = .ok s := by
  unfold withShards at h
  cases hs : (FixedTierStub.withCapacity n .default : Except CacheError (FixedTierStub V)) with
  | error e => simp [hs] at h
  | ok s =>
    simp only [hs, Except.ok.injEq] at h
    subst h
    have hpos : 0 < (max shards 1).nextPowerOfTwo :=
      (Nat.isPowerOfTwo_nextPowerOfTwo _).elim fun k hk => hk ▸ Nat.two_pow_pos k
    refine ⟨by simp only [List.length_replicate]; omega, fun x hx => ?_⟩
    rw [List.eq_of_mem_replicate hx]

theorem accounted_withShards {hasher : KeyRef → UInt64} {shards n : ℕ} {t : ShardedTierStub V}
    (h : withShards hasher shards n = .ok t) : t.Accounted .default := by
  obtain ⟨hlength, hshards⟩ := withShards_eq_ok h
  exact ⟨hlength, fun s hs => FixedTierStub.accounted_withCapacity (hshards s hs)⟩

/-- Replace a shard. -/
def putShard (t : ShardedTierStub V) (idx : ℕ) (s : FixedTierStub V) : ShardedTierStub V :=
  { t with shards := t.shards.set idx s }

variable {p : Placement} {t : ShardedTierStub V} {idx : ℕ} {s s' : FixedTierStub V}

theorem Accounted.putShard (h : t.Accounted p) (hs : s.Accounted p) (idx : ℕ) :
    (t.putShard idx s).Accounted p where
  shards_length := by rw [ShardedTierStub.putShard, List.length_set, h.shards_length]
  shard x hx := (List.mem_or_eq_of_mem_set hx).elim (h.shard x) fun he => he ▸ hs

theorem putShard_self (hs : t.shards[idx]? = some s) : t.putShard idx s = t := by
  obtain ⟨hlt, rfl⟩ := List.getElem?_eq_some_iff.1 hs
  simp [putShard]

/-- The shard a key lives in is there. -/
theorem Accounted.shardFor (h : t.Accounted p) (k : KeyRef) :
    ∃ s, t.shards[t.shardFor k]? = some s ∧ s.Accounted p := by
  have hlt : t.shardFor k < t.shards.length := by
    have hle : t.shardFor k ≤ t.mask := Nat.and_le_right
    have hlen := h.shards_length
    omega
  exact ⟨t.shards[t.shardFor k], List.getElem?_eq_getElem hlt, h.shard _ (List.getElem_mem hlt)⟩

theorem onShard_some {β : Type} (hs : t.shards[idx]? = some s)
    (f : FixedTierStub V → Except CacheError β × FixedTierStub V) :
    t.onShard idx f = ((f s).1, t.putShard idx (f s).2) := by
  simp [onShard, hs, putShard]

theorem Accounted.onShard {β : Type} (h : t.Accounted p) (k : KeyRef)
    {f : FixedTierStub V → Except CacheError β × FixedTierStub V}
    (hf : ∀ s, s.Accounted p → (f s).2.Accounted p) :
    (t.onShard (t.shardFor k) f).2.Accounted p := by
  obtain ⟨s, hs, hacc⟩ := h.shardFor k
  rw [onShard_some hs]
  exact h.putShard (hf s hacc) _

/-- A nominee is in one of the shards that are left behind. -/
theorem has_of_nominate {now left : ℕ} {address : KeyAddress}
    (h : (t.nominate now left idx).1 = some address) :
    ∃ j : ℕ, ∃ s, (t.nominate now left idx).2.shards[j]? = some s ∧ s.has address = true := by
  induction left generalizing t idx with
  | zero => simp [nominate] at h
  | succ left ih =>
    rw [nominate] at h ⊢
    cases hs : t.shards[idx]? with
    | none => simp [hs] at h
    | some s =>
      simp only [hs] at h ⊢
      cases hc : (s.evictionCandidate now).1 with
      | none =>
        simp only [hc] at h ⊢
        exact ih h
      | some x =>
        simp only [hc, Option.some.injEq] at h ⊢
        subst h
        have hlt : idx < t.shards.length := (List.getElem?_eq_some_iff.1 hs).1
        refine ⟨idx, _, List.getElem?_set_self hlt, ?_⟩
        rw [FixedTierStub.has, FixedTierStub.slots_evictionCandidate]
        exact FixedTierStub.has_of_evictionCandidate hc

/-- An address in one of the shards that are asked is taken out. -/
theorem removeFrom_of_has {address : KeyAddress} {left j : ℕ} (hle : idx ≤ j) (hlt : j < idx + left)
    (hs : t.shards[j]? = some s) (hhas : s.has address = true) :
    (t.removeFrom address left idx).1 = .ok true := by
  induction left generalizing t idx with
  | zero => omega
  | succ left ih =>
    have hj : j < t.shards.length := (List.getElem?_eq_some_iff.1 hs).1
    have hx : t.shards[idx]? = some t.shards[idx] := List.getElem?_eq_getElem (by omega)
    rw [removeFrom, hx]
    simp only [FixedTierStub.removeIfAddress_fst]
    cases hfound : t.shards[idx].has address with
    | true => rfl
    | false =>
      have hne : idx ≠ j := by
        rintro rfl
        rw [hx, Option.some.injEq] at hs
        rw [hs, hhas] at hfound
        cases hfound
      refine ih (by omega) (by omega) ?_
      rw [List.getElem?_set_ne hne]
      exact hs

theorem removeIfAddress_of_nominated {now cursor : ℕ} {address : KeyAddress}
    (h : (t.evictionCandidate now cursor).1 = some address) :
    ((t.evictionCandidate now cursor).2.2.removeIfAddress address).1 = .ok true := by
  unfold ShardedTierStub.evictionCandidate at h ⊢
  split_ifs at h ⊢
  obtain ⟨j, s, hs, hhas⟩ := has_of_nominate h
  exact removeFrom_of_has (Nat.zero_le j) (by simpa using (List.getElem?_eq_some_iff.1 hs).1) hs hhas

variable [IntegrityCheck V]

/-- A shard that is replaced by one that reads the same changes no read. -/
theorem get_putShard {k : KeyRef} {now : ℕ} (hs : t.shards[idx]? = some s)
    (hsame : (s'.get k now).1 = (s.get k now).1) :
    ((t.putShard idx s').get k now).1 = (t.get k now).1 := by
  have hfor : (t.putShard idx s').shardFor k = t.shardFor k := rfl
  rw [get, get, hfor]
  by_cases hi : t.shardFor k = idx
  · subst hi
    have hlt : t.shardFor k < t.shards.length := (List.getElem?_eq_some_iff.1 hs).1
    rw [onShard_some hs, onShard_some (List.getElem?_set_self hlt)]
    exact hsame
  · have hother : (t.putShard idx s').shards[t.shardFor k]? = t.shards[t.shardFor k]? :=
      List.getElem?_set_ne (Ne.symm hi)
    simp only [onShard, hother]
    cases t.shards[t.shardFor k]? <;> rfl

theorem nominate_spec (h : t.Accounted p) (now left idx : ℕ) :
    (t.nominate now left idx).2.Accounted p ∧
      ∀ k now', ((t.nominate now left idx).2.get k now').1 = (t.get k now').1 := by
  induction left generalizing t idx with
  | zero => exact ⟨h, fun _ _ => rfl⟩
  | succ left ih =>
    rw [nominate]
    cases hs : t.shards[idx]? with
    | none => exact ⟨h, fun _ _ => rfl⟩
    | some s =>
      have hacc := h.shard s (List.mem_of_getElem? hs)
      have hput : (t.putShard idx (s.evictionCandidate now).2).Accounted p :=
        h.putShard (hacc.evictionCandidate now) idx
      have hreads : ∀ k now', ((t.putShard idx (s.evictionCandidate now).2).get k now').1 =
          (t.get k now').1 :=
        fun k now' => get_putShard hs (s.get_evictionCandidate k now now')
      simp only
      cases (s.evictionCandidate now).1 with
      | some address => exact ⟨hput, hreads⟩
      | none =>
        obtain ⟨hvalid, hsame⟩ := ih hput ((idx + 1) % t.shards.length)
        exact ⟨hvalid, fun k now' => (hsame k now').trans (hreads k now')⟩

theorem removeFrom_spec (h : t.Accounted p) (address : KeyAddress) (left idx : ℕ) :
    (t.removeFrom address left idx).2.Accounted p ∧
      ∀ k now, KeyAddress.of k p ≠ address →
        ((t.removeFrom address left idx).2.get k now).1 = (t.get k now).1 := by
  induction left generalizing t idx with
  | zero => exact ⟨h, fun _ _ _ => rfl⟩
  | succ left ih =>
    rw [removeFrom]
    cases hs : t.shards[idx]? with
    | none => exact ⟨h, fun _ _ _ => rfl⟩
    | some s =>
      have hacc := h.shard s (List.mem_of_getElem? hs)
      have hput : (t.putShard idx (s.removeIfAddress address).2).Accounted p :=
        h.putShard (hacc.removeIfAddress address) idx
      have hreads : ∀ k now, KeyAddress.of k p ≠ address →
          ((t.putShard idx (s.removeIfAddress address).2).get k now).1 = (t.get k now).1 :=
        fun k now hne => get_putShard hs (hacc.get_removeIfAddress hne now)
      simp only
      cases (s.removeIfAddress address).1 with
      | error e => exact ⟨hput, hreads⟩
      | ok taken =>
        cases taken with
        | true => exact ⟨hput, hreads⟩
        | false =>
          obtain ⟨hvalid, hsame⟩ := ih hput (idx + 1)
          exact ⟨hvalid, fun k now hne => (hsame k now hne).trans (hreads k now hne)⟩

theorem Accounted.evictionCandidate (h : t.Accounted p) (now cursor : ℕ) :
    (t.evictionCandidate now cursor).2.2.Accounted p ∧
      ∀ k now', ((t.evictionCandidate now cursor).2.2.get k now').1 = (t.get k now').1 := by
  unfold ShardedTierStub.evictionCandidate
  split_ifs
  · exact ⟨h, fun _ _ => rfl⟩
  · exact nominate_spec h now _ _

/-- The shard a key lives in has room for it. -/
def hasRoom (t : ShardedTierStub V) (key : KeyRef) (now : ℕ) : Bool :=
  (t.shards[t.shardFor key]?).any fun s => s.hasRoom key now

/-- What `set` does on a sharded rung: the room that counts is that of the key's shard. -/
theorem Accounted.set_cases (h : t.Accounted p) (k : KeyRef) (v : V) (ttl : Option ℕ) (now : ℕ) :
    (t.hasRoom k now = false ∧ t.set k v ttl now = (.error .capacityExhausted, t)) ∨
      ∃ t', t.hasRoom k now = true ∧ t.set k v ttl now = (.ok (), t') ∧ t'.Accounted p := by
  obtain ⟨s, hs, hacc⟩ := h.shardFor k
  have hroom : t.hasRoom k now = s.hasRoom k now := by simp [hasRoom, hs]
  have heq := onShard_some hs fun s => s.set k v ttl now
  rw [hroom]
  rcases hacc.set_cases k v ttl now with ⟨hno, hset⟩ | ⟨s', hyes, hset, hacc'⟩
  · refine Or.inl ⟨hno, ?_⟩
    rw [set, heq, hset, putShard_self hs]
  · refine Or.inr ⟨t.putShard (t.shardFor k) s', hyes, ?_, h.putShard hacc' _⟩
    rw [set, heq, hset]

end ShardedTierStub

instance {V : Type} [IntegrityCheck V] : BoundedTier (ShardedTierStub V) V where
  Valid p t := t.Accounted p
  valid_get k now h := h.onShard k fun _ hs => hs.get k now
  valid_set k v ttl now h := h.onShard k fun _ hs => hs.set k v ttl now
  valid_remove k now h := h.onShard k fun _ hs => hs.remove k now
  valid_evictionCandidate now cursor h := (h.evictionCandidate now cursor).1
  valid_removeIfAddress address h := (ShardedTierStub.removeFrom_spec h address _ 0).1
  refused {_ t k v ttl now _ _} h hset := by
    have hset' : t.set k v ttl now = _ := hset
    rcases h.set_cases k v ttl now with ⟨-, heq⟩ | ⟨t'', -, heq, -⟩
    · rw [heq] at hset'
      cases hset'
      exact ⟨rfl, rfl⟩
    · rw [heq] at hset'
      cases hset'
  get_evictionCandidate k now now' cursor h := (h.evictionCandidate now cursor).2 k now'
  get_removeIfAddress now h hne := (ShardedTierStub.removeFrom_spec h _ _ 0).2 _ now hne
  nominated _ hn := ShardedTierStub.removeIfAddress_of_nominated hn

/-! ## The in-memory rungs -/

/-- A rung kept in memory. -/
inductive StubTier (V : Type)
  | fixed (t : FixedTierStub V)
  | sharded (t : ShardedTierStub V)

namespace StubTier

variable {V : Type}

/-- Run a method of the stub inside. -/
def lift {β : Type} (f : FixedTierStub V → β × FixedTierStub V)
    (g : ShardedTierStub V → β × ShardedTierStub V) : StubTier V → β × StubTier V
  | fixed t => ((f t).1, fixed (f t).2)
  | sharded t => ((g t).1, sharded (g t).2)

/-- The stub keeps its accounts. -/
def Accounted (p : Placement) : StubTier V → Prop
  | fixed t => t.Accounted p
  | sharded t => t.Accounted p

/-- A rung as `with_capacity` or `with_shards` builds it. -/
inductive IsNew : StubTier V → Prop
  | fixed {n : ℕ} {t : FixedTierStub V} (h : FixedTierStub.withCapacity n .default = .ok t) :
      IsNew (.fixed t)
  | sharded {hasher : KeyRef → UInt64} {shards n : ℕ} {t : ShardedTierStub V}
      (h : ShardedTierStub.withShards hasher shards n = .ok t) : IsNew (.sharded t)

theorem IsNew.accounted {t : StubTier V} (h : t.IsNew) : t.Accounted .default := by
  cases h with
  | fixed h => exact FixedTierStub.accounted_withCapacity h
  | sharded h => exact ShardedTierStub.accounted_withShards h

/-- The stub has room for a key. -/
def hasRoom (key : KeyRef) (now : ℕ) : StubTier V → Bool
  | fixed t => t.hasRoom key now
  | sharded t => t.hasRoom key now

instance [IntegrityCheck V] : CacheTier (StubTier V) V where
  get t key now := t.lift (·.get key now) (·.get key now)
  set t key value ttl now := t.lift (·.set key value ttl now) (·.set key value ttl now)
  remove t key now := t.lift (·.remove key now) (·.remove key now)
  contains
    | fixed t, key, now => t.contains key now
    | sharded t, key, now => t.contains key now
  evictionCandidate
    | fixed t, now, cursor =>
      ((t.evictionCandidate now).1, cursor, fixed (t.evictionCandidate now).2)
    | sharded t, now, cursor =>
      ((t.evictionCandidate now cursor).1, (t.evictionCandidate now cursor).2.1,
        sharded (t.evictionCandidate now cursor).2.2)
  removeIfAddress t address := t.lift (·.removeIfAddress address) (·.removeIfAddress address)

variable [IntegrityCheck V]

/-- What `set` does on an in-memory rung. -/
theorem Accounted.set_cases {p : Placement} {t : StubTier V} (h : t.Accounted p) (k : KeyRef) (v : V)
    (ttl : Option ℕ) (now : ℕ) :
    (t.hasRoom k now = false ∧ CacheTier.set t k v ttl now = (.error .capacityExhausted, t)) ∨
      ∃ t', t.hasRoom k now = true ∧ CacheTier.set t k v ttl now = (.ok (), t') ∧
        t'.Accounted p := by
  cases t with
  | fixed t =>
    rcases FixedTierStub.Accounted.set_cases h k v ttl now with ⟨hno, heq⟩ | ⟨t', hyes, heq, ht'⟩
    · exact Or.inl ⟨hno, by simp [CacheTier.set, lift, heq]⟩
    · exact Or.inr ⟨fixed t', hyes, by simp [CacheTier.set, lift, heq], ht'⟩
  | sharded t =>
    rcases ShardedTierStub.Accounted.set_cases h k v ttl now with ⟨hno, heq⟩ | ⟨t', hyes, heq, ht'⟩
    · exact Or.inl ⟨hno, by simp [CacheTier.set, lift, heq]⟩
    · exact Or.inr ⟨sharded t', hyes, by simp [CacheTier.set, lift, heq], ht'⟩

theorem Accounted.refused {p : Placement} {t t' : StubTier V} {k : KeyRef} {v : V} {ttl : Option ℕ}
    {now : ℕ} {e : CacheError} (h : t.Accounted p)
    (hset : CacheTier.set t k v ttl now = (.error e, t')) : e = .capacityExhausted ∧ t' = t := by
  rcases h.set_cases k v ttl now with ⟨-, heq⟩ | ⟨t'', -, heq, -⟩
  · rw [heq] at hset
    cases hset
    exact ⟨rfl, rfl⟩
  · rw [heq] at hset
    cases hset

theorem Accounted.isOk_set {p : Placement} {t : StubTier V} (h : t.Accounted p) (k : KeyRef) (v : V)
    (ttl : Option ℕ) (now : ℕ) : (CacheTier.set t k v ttl now).1.isOk = t.hasRoom k now := by
  rcases h.set_cases k v ttl now with ⟨hno, heq⟩ | ⟨t', hyes, heq, -⟩
  · rw [hno, heq]
    rfl
  · rw [hyes, heq]
    rfl

instance : BoundedTier (StubTier V) V where
  Valid p t := t.Accounted p
  valid_get {_ t} k now h := by
    cases t with
    | fixed t => exact FixedTierStub.Accounted.get h k now
    | sharded t => exact ShardedTierStub.Accounted.onShard h k fun _ hs => hs.get k now
  valid_set {_ t} k v ttl now h := by
    cases t with
    | fixed t => exact FixedTierStub.Accounted.set h k v ttl now
    | sharded t => exact ShardedTierStub.Accounted.onShard h k fun _ hs => hs.set k v ttl now
  valid_remove {_ t} k now h := by
    cases t with
    | fixed t => exact FixedTierStub.Accounted.remove h k now
    | sharded t => exact ShardedTierStub.Accounted.onShard h k fun _ hs => hs.remove k now
  valid_evictionCandidate {_ t} now cursor h := by
    cases t with
    | fixed t => exact FixedTierStub.Accounted.evictionCandidate h now
    | sharded t => exact (ShardedTierStub.Accounted.evictionCandidate h now cursor).1
  valid_removeIfAddress {_ t} address h := by
    cases t with
    | fixed t => exact FixedTierStub.Accounted.removeIfAddress h address
    | sharded t => exact (ShardedTierStub.removeFrom_spec h address _ 0).1
  refused h hset := h.refused hset
  get_evictionCandidate {_ t} k now now' cursor h := by
    cases t with
    | fixed t => exact t.get_evictionCandidate k now now'
    | sharded t => exact (ShardedTierStub.Accounted.evictionCandidate h now cursor).2 k now'
  get_removeIfAddress {_ t _ _} now h hne := by
    cases t with
    | fixed t => exact FixedTierStub.Accounted.get_removeIfAddress h hne now
    | sharded t => exact (ShardedTierStub.removeFrom_spec h _ _ 0).2 _ now hne
  nominated {_ t _ _ _} _ hn := by
    cases t with
    | fixed t => exact FixedTierStub.removeIfAddress_of_nominated hn
    | sharded t => exact ShardedTierStub.removeIfAddress_of_nominated hn

end StubTier

end TheSix
