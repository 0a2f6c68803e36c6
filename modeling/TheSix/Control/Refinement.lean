import TheSix.Control.Cachelito
import TheSix.Lib.Run

/-!
# The table is a finite map

What `Cachelito` is for: a finite map from addresses to control entries. `Cachelito.slots` reads the
map off the table, and every method does to the table what the methods of `KeySlot` do to one entry
of the map (`Refines`), whatever addresses share a shard or a home cell. What makes this go through
is that no cell is ever given back (`OpenTable.Probed`).
-/

namespace TheSix

/-! ## The address of an entry stays -/

namespace ControlEntry

variable (e : ControlEntry)

theorem address_acquire (tier : TierId) (now : ℕ) : (e.acquire tier now).2.address = e.address := by
  unfold acquire
  split <;> rfl

theorem address_publish (g : Generation) (tier : TierId) (ttl : Option ℕ) (now : ℕ) :
    (e.publish g tier ttl now).2.address = e.address := by
  unfold publish
  split <;> rfl

theorem address_prepare (expected : Option Generation) (tier : TierId) (kind : IntentKind)
    (now : ℕ) : (e.prepare expected tier kind now).2.address = e.address := by
  unfold prepare
  split <;> rfl

theorem address_commit (token : CommitToken) (ttl : Option ℕ) (now : ℕ) :
    (e.commit token ttl now).2.address = e.address := by
  unfold commit
  split <;> rfl

theorem address_abortInner (error : CacheError) (clean : Bool) :
    (e.abortInner error clean).address = e.address := by
  unfold abortInner
  split <;> rfl

theorem address_abortIntentByAddress (error : CacheError) :
    (e.abortIntentByAddress error).2.address = e.address := by
  unfold abortIntentByAddress
  split_ifs <;> rfl

theorem address_releasePopulationClaim : e.releasePopulationClaim.2.address = e.address := by
  unfold releasePopulationClaim
  split <;> rfl

theorem address_sweepExpired (now : ℕ) : (e.sweepExpired now).2.address = e.address := by
  unfold sweepExpired
  split_ifs <;> rfl

theorem address_reserveEviction : e.reserveEviction.2.address = e.address := by
  unfold reserveEviction
  split_ifs <;> rfl

end ControlEntry

/-! ## One shard -/

namespace Shard

variable {s : Shard} {a : KeyAddress} {β : Type}

/-- The cells before an entry on its probe are occupied, and no address has two cells. -/
def Probed (s : Shard) : Prop := OpenTable.Probed ControlEntry.address KeyAddress.home s.entries

/-- A method on a shard does to its entries what it does to the slot of one address. -/
structure Refines (s : Shard) (a : KeyAddress) (r : β × Shard) (r' : β × KeySlot) : Prop where
  answer : r.1 = r'.1
  probed : r.2.Probed
  length : r.2.entries.length = s.entries.length
  entry : ∀ b, r.2.findEntry b = if b = a then r'.2 else s.findEntry b
  /-- A new cell belongs to the address. -/
  own : ∀ j e, r.2.entryAt j = some e → e.address = a ∨ s.entryAt j = some e
  cell : ∀ b i, s.findSlot b = some i → r.2.findSlot b = some i

theorem findSlot_eq_some_iff (h : s.Probed) {i : ℕ} :
    s.findSlot a = some i ↔ ∃ e, s.entryAt i = some e ∧ e.address = a :=
  OpenTable.find_eq_some_iff h

theorem findEntry_eq_none_iff (h : s.Probed) : s.findEntry a = none ↔ s.findSlot a = none :=
  OpenTable.lookup_eq_none_iff h

theorem findEntry_eq_some_iff (h : s.Probed) {e : ControlEntry} :
    s.findEntry a = some e ↔ ∃ i, s.entryAt i = some e ∧ e.address = a :=
  OpenTable.lookup_eq_some_iff h

/-- The shard is left alone. -/
theorem Refines.same (h : s.Probed) {x : β} (hs : s.findEntry a = none) :
    s.Refines a (x, s) (x, none) := by
  refine ⟨rfl, h, rfl, fun b => ?_, fun j e he => Or.inr he, fun b i hb => hb⟩
  split_ifs with hb
  · rw [hb, hs]
  · rfl

/-- An entry is written into the cell of its address, or into the empty one the address may take. -/
theorem Refines.put (h : s.Probed) {x : β} {idx : ℕ} {e : ControlEntry}
    (hidx : idx < s.entries.length) (he : e.address = a) (hold : ∀ e', s.entryAt idx = some e' → e'.address = a)
    (hown : ∀ j e', s.entryAt j = some e' → e'.address = a → j = idx)
    (hpath : ∀ j < s.entries.length,
      Probe.moves s.entries.length (a.home % s.entries.length) j <
        Probe.moves s.entries.length (a.home % s.entries.length) idx → (s.entryAt j).isSome = true) :
    s.Refines a (x, s.put idx e) (x, some e) := by
  subst he
  have h' : (s.put idx e).Probed := OpenTable.Probed.set h hidx hown hpath
  have hat : ∀ j, (s.put idx e).entryAt j = if j = idx then some e else s.entryAt j :=
    OpenTable.entryAt_set hidx e
  refine ⟨rfl, h', by simp [Shard.put], fun b => ?_, fun j e' he' => ?_, fun b i hb => ?_⟩
  · have hl : (s.put idx e).findEntry b = if e.address = b then some e else s.findEntry b :=
      OpenTable.lookup_set h hidx h' hold b
    rw [hl]
    exact if_congr eq_comm rfl rfl
  · rw [hat] at he'
    split_ifs at he' with hj
    · exact Or.inl (by rw [Option.some.inj he'])
    · exact Or.inr he'
  · obtain ⟨e', he', hb'⟩ := (findSlot_eq_some_iff h).1 hb
    refine (findSlot_eq_some_iff h').2 ?_
    simp only [hat]
    split_ifs with hi
    · subst hi
      exact ⟨e, rfl, (hold e' he').symm.trans hb'⟩
    · exact ⟨e', he', hb'⟩

/-- A method that finds the entry. -/
theorem Probed.withEntry (h : s.Probed) (a : KeyAddress) (missing : β)
    {f : ControlEntry → β × ControlEntry} (hf : ∀ e, (f e).2.address = e.address) :
    s.Refines a (s.withEntry a missing f) ((s.findEntry a).withEntry missing f) := by
  cases hs : s.findSlot a with
  | none =>
    have hnone := (findEntry_eq_none_iff h).2 hs
    rw [Shard.withEntry, hs, hnone]
    exact .same h hnone
  | some idx =>
    obtain ⟨e, he, ha⟩ := (findSlot_eq_some_iff h).1 hs
    have hentry : s.findEntry a = some e := (findEntry_eq_some_iff h).2 ⟨idx, he, ha⟩
    rw [Shard.withEntry, hs, hentry]
    simp only [work, he, KeySlot.withEntry_some]
    refine .put h (OpenTable.lt_of_entryAt he) ((hf e).trans ha) ?_ ?_ ?_
    · intro e' he'
      rw [he, Option.some.injEq] at he'
      exact he' ▸ ha
    · intro j e' he' ha'
      exact h.distinct j idx e' e he' he (ha'.trans ha.symm)
    · subst ha
      exact h.path idx e he

/-- A method that creates a missing entry. -/
theorem Probed.withOrCreate (h : s.Probed) (a : KeyAddress) (full : β)
    {f : ControlEntry → β × ControlEntry} (hf : ∀ e, (f e).2.address = e.address) :
    s.Refines a (s.withOrCreate a full f)
      ((s.findEntry a).withOrCreate a (decide ¬s.Full) full f) := by
  cases hs : s.findSlot a with
  | some idx =>
    obtain ⟨e, he, ha⟩ := (findSlot_eq_some_iff h).1 hs
    have hentry : s.findEntry a = some e := (findEntry_eq_some_iff h).2 ⟨idx, he, ha⟩
    have heq : s.withOrCreate a full f = s.withEntry a full f := by
      simp only [Shard.withOrCreate, findOrCreateEntry, Shard.withEntry, hs]
    have := h.withEntry a full hf
    rw [hentry] at this ⊢
    rw [heq]
    exact this
  | none =>
    have hnone := (findEntry_eq_none_iff h).2 hs
    rw [hnone]
    cases hempty : s.findEmpty a with
    | none =>
      have hfull : s.Full := (OpenTable.findEmpty_eq_none_iff h hs).1 hempty
      simp only [Shard.withOrCreate, findOrCreateEntry, hs, hempty, KeySlot.withOrCreate, hfull,
        not_true_eq_false, decide_false, Bool.false_eq_true, if_false]
      exact .same h hnone
    | some idx =>
      have hroom : ¬s.Full := by
        intro hfull
        have hnone' : s.findEmpty a = none := (OpenTable.findEmpty_eq_none_iff h hs).2 hfull
        rw [hempty] at hnone'
        cases hnone'
      obtain ⟨hidx, hcell, hpath⟩ := OpenTable.findEmpty_spec h hs hempty
      have hnew : (s.put idx { address := a }).entryAt idx = some { address := a } := by
        rw [entryAt, Shard.put, OpenTable.entryAt_set hidx, if_pos rfl]
      simp only [Shard.withOrCreate, findOrCreateEntry, hs, hempty, work, hnew, KeySlot.withOrCreate,
        hroom, not_false_eq_true, decide_true, if_true]
      have hput : (s.put idx { address := a }).put idx (f { address := a }).2 =
          s.put idx (f { address := a }).2 := by
        simp only [Shard.put, List.set_set]
      rw [hput]
      refine .put h hidx (hf _) ?_ ?_ hpath
      · intro e' he'
        rw [entryAt, hcell] at he'
        cases he'
      · intro j e' he' ha'
        exact absurd ha' ((OpenTable.find_eq_none_iff h).1 hs j e' he')

/-- A sweep over a shard does the same to every entry. -/
theorem Probed.sweepExpired (h : s.Probed) (now : ℕ) :
    (s.sweepExpired now).2.Probed ∧
      (∀ b, (s.sweepExpired now).2.findEntry b = ((s.findEntry b).sweepExpired now).2) ∧
      ∀ b i, s.findSlot b = some i → (s.sweepExpired now).2.findSlot b = some i := by
  have hf : ∀ e : ControlEntry, (e.sweepExpired now).2.address = e.address :=
    fun e => e.address_sweepExpired now
  have h' : (s.sweepExpired now).2.Probed := OpenTable.Probed.map h hf
  refine ⟨h', fun b => ?_, fun b i hb => ?_⟩
  · have hl : (s.sweepExpired now).2.findEntry b =
        (s.findEntry b).map fun e => (e.sweepExpired now).2 := OpenTable.lookup_map h hf b
    rw [hl]
    cases s.findEntry b <;> rfl
  · obtain ⟨e, he, hb'⟩ := (findSlot_eq_some_iff h).1 hb
    refine (findSlot_eq_some_iff h').2 ⟨(e.sweepExpired now).2, ?_, (hf e).trans hb'⟩
    have hat : (s.sweepExpired now).2.entryAt i =
        (s.entryAt i).map fun e => (e.sweepExpired now).2 := OpenTable.entryAt_map _ i
    rw [hat, he]
    rfl

end Shard

/-! ## The table -/

namespace Cachelito

variable {t : Cachelito} {a : KeyAddress} {β : Type}

/-- The map a table stands for. -/
def slots (t : Cachelito) (a : KeyAddress) : KeySlot := (t.shard a).findEntry a

/-- Where the entry of an address is: its shard, and its cell there. -/
def locate (t : Cachelito) (a : KeyAddress) : Option (ℕ × ℕ) :=
  ((t.shard a).findSlot a).map fun idx => (t.shardFor a, idx)

/-- The entry in a cell of a shard. -/
def entryAt (t : Cachelito) (at' : ℕ × ℕ) : Option ControlEntry :=
  (t.shards[at'.1]?).bind (·.entryAt at'.2)

/-- No address has two cells. -/
def AtMostOne (t : Cachelito) : Prop :=
  ∀ p q e e', t.entryAt p = some e → t.entryAt q = some e' → e.address = e'.address → p = q

/-- All cells of the shard of an address are occupied. -/
def Full (t : Cachelito) (a : KeyAddress) : Prop := (t.shard a).Full

instance (t : Cachelito) (a : KeyAddress) : Decidable (t.Full a) :=
  inferInstanceAs (Decidable (t.shard a).Full)

/-- Every shard is probed as it was filled, and holds entries of its own addresses only. -/
structure WellFormed (t : Cachelito) : Prop where
  probed : ∀ s ∈ t.shards, s.Probed
  homed : ∀ i s, t.shards[i]? = some s → ∀ j e, s.entryAt j = some e → t.shardFor e.address = i

/-- A method on the table does to the map what it does to the slot of one address. -/
structure Refines (t : Cachelito) (a : KeyAddress) (r : β × Cachelito) (r' : β × KeySlot) : Prop where
  answer : r.1 = r'.1
  wellFormed : r.2.WellFormed
  slots : r.2.slots = Function.update t.slots a r'.2
  shape : r.2.shards.map (·.entries.length) = t.shards.map (·.entries.length)
  locate : ∀ b p, t.locate b = some p → r.2.locate b = some p

theorem getElem?_shardFor (t : Cachelito) (a : KeyAddress) :
    t.shards[t.shardFor a]? = some (t.shard a) := List.getElem?_eq_getElem (t.shardFor_lt a)

theorem shard_congr {b : KeyAddress} (h : t.shardFor a = t.shardFor b) : t.shard a = t.shard b := by
  have ha := t.getElem?_shardFor a
  rw [h, t.getElem?_shardFor b, Option.some.injEq] at ha
  exact ha.symm

theorem WellFormed.shard (h : t.WellFormed) (a : KeyAddress) : (t.shard a).Probed :=
  h.probed _ (List.mem_of_getElem? (t.getElem?_shardFor a))

@[simp] theorem shardFor_putShard (t : Cachelito) (i : ℕ) (s : Shard) (a : KeyAddress) :
    (t.putShard i s).shardFor a = t.shardFor a := by
  simp [shardFor, putShard]

theorem shard_putShard (t : Cachelito) {i : ℕ} (hi : i < t.shards.length) (s : Shard)
    (a : KeyAddress) : (t.putShard i s).shard a = if t.shardFor a = i then s else t.shard a := by
  have hget := (t.putShard i s).getElem?_shardFor a
  rw [shardFor_putShard] at hget
  split_ifs with ha
  · rw [ha] at hget
    simpa [putShard, List.getElem?_set_self hi, eq_comm] using hget
  · simpa [putShard, List.getElem?_set_ne (Ne.symm ha), t.getElem?_shardFor a, eq_comm] using hget

/-- No address has two cells. -/
theorem WellFormed.atMostOne (h : t.WellFormed) : t.AtMostOne := by
  intro ⟨i, j⟩ ⟨i', j'⟩ e e' he he' ha
  simp only [entryAt, Option.bind_eq_some_iff] at he he'
  obtain ⟨s, hs, he⟩ := he
  obtain ⟨s', hs', he'⟩ := he'
  obtain rfl : i = i' := by
    rw [← h.homed i s hs j e he, ← h.homed i' s' hs' j' e' he', ha]
  rw [hs, Option.some.injEq] at hs'
  subst hs'
  have := (h.probed s (List.mem_of_getElem? hs)).distinct j j' e e' he he' ha
  rw [this]

/-- What refines on a shard refines on the table. -/
theorem WellFormed.onShard (h : t.WellFormed) {r : β × Shard} {r' : β × KeySlot}
    (hr : (t.shard a).Refines a r r') : t.Refines a (t.onShard a r) r' := by
  have hlt := t.shardFor_lt a
  have hget : ∀ i s, (t.putShard (t.shardFor a) r.2).shards[i]? = some s →
      (i = t.shardFor a ∧ s = r.2) ∨ (i ≠ t.shardFor a ∧ t.shards[i]? = some s) := by
    intro i s hs
    by_cases hi : i = t.shardFor a
    · subst hi
      simp only [putShard, List.getElem?_set_self hlt, Option.some.injEq] at hs
      exact Or.inl ⟨rfl, hs.symm⟩
    · simp only [putShard, List.getElem?_set_ne (Ne.symm hi)] at hs
      exact Or.inr ⟨hi, hs⟩
  refine ⟨hr.answer, ⟨?_, ?_⟩, ?_, ?_, ?_⟩
  · intro s hs
    obtain ⟨i, hi⟩ := List.getElem?_of_mem hs
    rcases hget i s hi with ⟨-, rfl⟩ | ⟨-, hi⟩
    · exact hr.probed
    · exact h.probed s (List.mem_of_getElem? hi)
  · intro i s hs j e he
    change (t.putShard (t.shardFor a) r.2).shardFor e.address = i
    rw [shardFor_putShard]
    rcases hget i s hs with ⟨rfl, rfl⟩ | ⟨-, hs⟩
    · rcases hr.own j e he with ha | he
      · rw [ha]
      · exact h.homed _ _ (t.getElem?_shardFor a) j e he
    · exact h.homed i s hs j e he
  · funext b
    rw [Function.update_apply, slots, Cachelito.onShard, shard_putShard t hlt]
    by_cases hb : b = a
    · subst hb
      simp only [if_true, hr.entry]
    · rw [if_neg hb]
      split_ifs with hs
      · rw [hr.entry, if_neg hb, slots, shard_congr hs]
      · rfl
  · simp only [Cachelito.onShard, putShard, List.map_set]
    rw [hr.length, ← List.map_set]
    congr 1
    exact List.set_getElem_self hlt
  · intro b p hb
    simp only [Cachelito.locate, Option.map_eq_some_iff] at hb ⊢
    obtain ⟨idx, hidx, rfl⟩ := hb
    refine ⟨idx, ?_, by rw [Cachelito.onShard, shardFor_putShard]⟩
    rw [Cachelito.onShard, shard_putShard t hlt]
    split_ifs with hs
    · apply hr.cell
      rwa [shard_congr hs] at hidx
    · exact hidx

theorem WellFormed.withEntry (h : t.WellFormed) (a : KeyAddress) (missing : β)
    {f : ControlEntry → β × ControlEntry} (hf : ∀ e, (f e).2.address = e.address) :
    t.Refines a (t.withEntry a missing f) ((t.slots a).withEntry missing f) :=
  h.onShard ((h.shard a).withEntry a missing hf)

theorem WellFormed.withOrCreate (h : t.WellFormed) (a : KeyAddress) (full : β)
    {f : ControlEntry → β × ControlEntry} (hf : ∀ e, (f e).2.address = e.address) :
    t.Refines a (t.withOrCreate a full f)
      ((t.slots a).withOrCreate a (decide ¬t.Full a) full f) :=
  h.onShard ((h.shard a).withOrCreate a full hf)

end Cachelito

/-! ## The calls -/

/-- The effect of a call on the slot of its address; `room` is an empty cell in the shard. -/
def EntryOp.onSlot (now : ℕ) (room : Bool) : (op : EntryOp) → KeySlot → op.Answer × KeySlot
  | .acquire a tier, s => s.acquire a room tier now
  | .publish _ expected tier ttl, s => s.publish expected tier ttl now
  | .failWithError _ error, s => s.failWithError error
  | .release _, s => s.release
  | .invalidate _, s => s.invalidate
  | .setGeneration a generation, s => s.setGeneration a room generation
  | .setTier a tier, s => s.setTier a room tier
  | .setState a state, s => s.setState a room state
  | .peek _, s => (s.peek now, s)
  | .bumpGeneration a, s => s.bumpGeneration a room
  | .releasePopulationClaim _, s => s.releasePopulationClaim
  | .reserveEviction _, s => s.reserveEviction
  | .prepare a expected targetTier kind, s => s.prepare a room expected targetTier kind now
  | .commit token ttl, s => s.commit token ttl now
  | .abort _ error, s => s.abort error
  | .abortProvenClean _ error, s => s.abortProvenClean error
  | .abortIntentByAddress _ error, s => s.abortIntentByAddress error
  | .resolveIntent a intent direction, s =>
    match direction with
    | .abort => ((s.abort .uncommittedIntent).1.map fun _ => .aborted intent.kind,
        (s.abort .uncommittedIntent).2)
    | .completeForward => ((s.commit (intent.tokenFor a) none now).1.map fun _ =>
        .completed intent.kind, (s.commit (intent.tokenFor a) none now).2)
    | .externalReconciliation => (.error .configurationError, s)

namespace Cachelito

variable {t : Cachelito}

/-- A call that only reads refines itself. -/
theorem WellFormed.read (h : t.WellFormed) (a : KeyAddress) {β : Type} (x : β) :
    t.Refines a (x, t) (x, t.slots a) := by
  refine ⟨rfl, h, ?_, rfl, fun _ _ hb => hb⟩
  rw [Function.update_eq_self]

theorem Refines.map {a : KeyAddress} {β γ : Type} {r : β × Cachelito} {r' : β × KeySlot}
    (h : t.Refines a r r') (g : β → γ) : t.Refines a (g r.1, r.2) (g r'.1, r'.2) :=
  ⟨congrArg g h.answer, h.wellFormed, h.slots, h.shape, h.locate⟩

/-- **A call does to the table what it does to the slot of its address.** -/
theorem WellFormed.call (h : t.WellFormed) (now : ℕ) (op : EntryOp) :
    t.Refines op.address (t.call now op)
      (op.onSlot now (decide ¬t.Full op.address) (t.slots op.address)) := by
  cases op with
  | acquire a tier => exact h.withOrCreate a _ fun e => e.address_acquire tier now
  | publish a g tier ttl => exact h.withEntry a _ fun e => e.address_publish g tier ttl now
  | failWithError a error => exact h.withEntry a _ fun e => rfl
  | release a => exact h.withEntry a _ fun e => rfl
  | invalidate a => exact h.withEntry a _ fun e => rfl
  | setGeneration a g => exact h.withOrCreate a _ fun e => rfl
  | setTier a tier => exact h.withOrCreate a _ fun e => rfl
  | setState a state => exact h.withOrCreate a _ fun e => rfl
  | peek a =>
    have hpeek : t.peek a now = (t.slots a).peek now := by
      unfold Cachelito.peek KeySlot.peek
      rfl
    simp only [Cachelito.call, hpeek]
    exact h.read a _
  | bumpGeneration a => exact h.withOrCreate a _ fun e => rfl
  | releasePopulationClaim a => exact h.withEntry a _ fun e => e.address_releasePopulationClaim
  | reserveEviction a => exact h.withEntry a _ fun e => e.address_reserveEviction
  | prepare a g tier kind => exact h.withOrCreate a _ fun e => e.address_prepare g tier kind now
  | commit token ttl => exact h.withEntry _ _ fun e => e.address_commit token ttl now
  | abort token error => exact h.withEntry _ _ fun e => e.address_abortInner error false
  | abortProvenClean token error => exact h.withEntry _ _ fun e => e.address_abortInner error true
  | abortIntentByAddress a error =>
    exact h.withEntry a _ fun e => e.address_abortIntentByAddress error
  | resolveIntent a intent direction =>
    cases direction with
    | abort =>
      exact Refines.map (h.withEntry a _ fun e => e.address_abortInner .uncommittedIntent false) _
    | completeForward =>
      exact Refines.map (h.withEntry a _ fun e => e.address_commit (intent.tokenFor a) none now) _
    | externalReconciliation => exact h.read a _

/-- A sweep over one shard does the same to every entry of that shard. -/
theorem WellFormed.sweepExpiredIn (h : t.WellFormed) (i now : ℕ) :
    (t.sweepExpiredIn i now).2.WellFormed ∧
      ((t.sweepExpiredIn i now).2.slots = fun a =>
        if t.shardFor a = i then ((t.slots a).sweepExpired now).2 else t.slots a) ∧
      ∀ a p, t.locate a = some p → (t.sweepExpiredIn i now).2.locate a = some p := by
  unfold Cachelito.sweepExpiredIn
  cases hs : t.shards[i]? with
  | none =>
    refine ⟨h, funext fun a => ?_, fun a p hp => hp⟩
    rw [if_neg]
    rintro rfl
    rw [getElem?_shardFor] at hs
    cases hs
  | some s =>
    have hi : i < t.shards.length := (List.getElem?_eq_some_iff.1 hs).1
    obtain ⟨hprobed, hentry, hcell⟩ := (h.probed s (List.mem_of_getElem? hs)).sweepExpired now
    have hshard : ∀ {a}, t.shardFor a = i → t.shard a = s := by
      intro a ha
      have := t.getElem?_shardFor a
      rw [ha, hs, Option.some.injEq] at this
      exact this.symm
    have hget : ∀ j s', (t.putShard i (s.sweepExpired now).2).shards[j]? = some s' →
        (j = i ∧ s' = (s.sweepExpired now).2) ∨ t.shards[j]? = some s' := by
      intro j s' hs'
      by_cases hj : j = i
      · subst hj
        simp only [putShard, List.getElem?_set_self hi, Option.some.injEq] at hs'
        exact Or.inl ⟨rfl, hs'.symm⟩
      · simp only [putShard, List.getElem?_set_ne (Ne.symm hj)] at hs'
        exact Or.inr hs'
    refine ⟨⟨?_, ?_⟩, funext fun a => ?_, fun a p hp => ?_⟩
    · intro s' hs'
      obtain ⟨j, hj⟩ := List.getElem?_of_mem hs'
      rcases hget j s' hj with ⟨-, rfl⟩ | hj
      · exact hprobed
      · exact h.probed s' (List.mem_of_getElem? hj)
    · intro j s' hs' k e he
      change (t.putShard i (s.sweepExpired now).2).shardFor e.address = j
      rw [shardFor_putShard]
      rcases hget j s' hs' with ⟨rfl, rfl⟩ | hs'
      · have hat : (s.sweepExpired now).2.entryAt k =
            (s.entryAt k).map fun e => (e.sweepExpired now).2 := OpenTable.entryAt_map _ k
        rw [hat, Option.map_eq_some_iff] at he
        obtain ⟨e', he', rfl⟩ := he
        rw [ControlEntry.address_sweepExpired]
        exact h.homed _ s hs k e' he'
      · exact h.homed j s' hs' k e he
    · change ((t.putShard i _).shard a).findEntry a = _
      rw [shard_putShard t hi]
      split_ifs with ha
      · rw [hentry, Cachelito.slots, hshard ha]
      · rfl
    · simp only [Cachelito.locate, Option.map_eq_some_iff] at hp ⊢
      obtain ⟨idx, hidx, rfl⟩ := hp
      refine ⟨idx, ?_, by rw [shardFor_putShard]⟩
      rw [shard_putShard t hi]
      split_ifs with ha
      · rw [hshard ha] at hidx
        exact hcell a idx hidx
      · exact hidx

theorem WellFormed.step (h : t.WellFormed) (x : ℕ × TableOp) : (t.step x).WellFormed := by
  obtain ⟨now, op⟩ := x
  cases op with
  | entry op => exact (h.call now op).wellFormed
  | staleIntents i cutoff => exact h
  | sweepExpired i => exact (h.sweepExpiredIn i now).1

theorem wellFormed_sized (shardCount capacity : ℕ) (p : Placement) :
    ((sized shardCount capacity).withPlacement p).WellFormed := by
  have hnew : ∀ s ∈ ((sized shardCount capacity).withPlacement p).shards, s = .new capacity :=
    fun s hs => List.eq_of_mem_replicate hs
  refine ⟨fun s hs => ?_, fun i s hs j e he => ?_⟩
  · rw [hnew s hs]
    exact OpenTable.probed_replicate _ _ _
  · rw [hnew s (List.mem_of_getElem? hs)] at he
    have hmem := List.mem_of_getElem? (OpenTable.entryAt_eq_some.1 he)
    cases List.eq_of_mem_replicate hmem

/-- A new table stands for the empty map. -/
theorem slots_sized (shardCount capacity : ℕ) (p : Placement) :
    ((sized shardCount capacity).withPlacement p).slots = fun _ => none := by
  funext a
  have hmem := List.mem_of_getElem? (((sized shardCount capacity).withPlacement p).getElem?_shardFor a)
  refine (Shard.findEntry_eq_none_iff ((wellFormed_sized shardCount capacity p).shard a)).2 ?_
  refine (OpenTable.find_eq_none_iff ((wellFormed_sized shardCount capacity p).shard a)).2 ?_
  intro i e he
  rw [List.eq_of_mem_replicate hmem] at he
  simp [Shard.new] at he

end Cachelito

/-! ## Running out of cells -/

/-- A creating call fails exactly when there is no entry and no room for one. -/
theorem EntryOp.fails_onSlot_iff {op : EntryOp} (hc : op.Creates) (now : ℕ) (room : Bool)
    (s : KeySlot) : op.fails (op.onSlot now room s).1 = true ↔ s = none ∧ room = false := by
  have hprepare : ∀ (e : ControlEntry) a g tier kind, EntryOp.fails (.prepare a g tier kind)
      (e.prepare g tier kind now).1 = false := by
    intro e a g tier kind
    unfold ControlEntry.prepare
    split <;> rfl
  cases op with
  | acquire a tier =>
    cases s <;> cases room <;> simp [onSlot, KeySlot.acquire, KeySlot.withOrCreate, fails]
  | setGeneration a g =>
    cases s <;> cases room <;> simp [onSlot, KeySlot.setGeneration, KeySlot.withOrCreate, fails]
  | setTier a tier =>
    cases s <;> cases room <;> simp [onSlot, KeySlot.setTier, KeySlot.withOrCreate, fails]
  | setState a state =>
    cases s <;> cases room <;> simp [onSlot, KeySlot.setState, KeySlot.withOrCreate, fails]
  | bumpGeneration a =>
    cases s <;> cases room <;> simp [onSlot, KeySlot.bumpGeneration, KeySlot.withOrCreate, fails]
  | prepare a g tier kind =>
    cases s <;> cases room <;>
      simp only [onSlot, KeySlot.prepare, KeySlot.withOrCreate, hprepare, Bool.false_eq_true,
        if_true, if_false, reduceCtorEq, false_and, and_false, and_self]
    exact iff_of_true rfl trivial
  | _ => exact hc.elim

namespace Cachelito

variable {t : Cachelito}

theorem putShard_self (t : Cachelito) (a : KeyAddress) :
    t.putShard (t.shardFor a) (t.shard a) = t := by
  obtain ⟨shards, placement, hpos⟩ := t
  simp only [putShard, mk.injEq, and_true]
  exact List.set_getElem_self _

/-- A creating call that fails leaves the table as it was. -/
theorem WellFormed.withOrCreate_of_full (h : t.WellFormed) {a : KeyAddress}
    (hs : t.slots a = none) (hfull : t.Full a) {β : Type} (full : β)
    (f : ControlEntry → β × ControlEntry) : t.withOrCreate a full f = (full, t) := by
  have hslot : (t.shard a).findSlot a = none := (Shard.findEntry_eq_none_iff (h.shard a)).1 hs
  have hempty : (t.shard a).findEmpty a = none :=
    (OpenTable.findEmpty_eq_none_iff (h.shard a) hslot).2 hfull
  simp only [Cachelito.withOrCreate, Cachelito.onShard, Shard.withOrCreate,
    Shard.findOrCreateEntry, hslot, hempty, putShard_self]

theorem WellFormed.call_of_full (h : t.WellFormed) {op : EntryOp} (hc : op.Creates)
    (hs : t.slots op.address = none) (hfull : t.Full op.address) (now : ℕ) :
    (t.call now op).2 = t := by
  cases op with
  | acquire a tier => exact congrArg Prod.snd (h.withOrCreate_of_full hs hfull _ _)
  | setGeneration a g => exact congrArg Prod.snd (h.withOrCreate_of_full hs hfull _ _)
  | setTier a tier => exact congrArg Prod.snd (h.withOrCreate_of_full hs hfull _ _)
  | setState a state => exact congrArg Prod.snd (h.withOrCreate_of_full hs hfull _ _)
  | bumpGeneration a => exact congrArg Prod.snd (h.withOrCreate_of_full hs hfull _ _)
  | prepare a g tier kind => exact congrArg Prod.snd (h.withOrCreate_of_full hs hfull _ _)
  | _ => exact hc.elim

/-- A call does to the table what it does to a finite map. -/
structure CallsAsMap (t : Cachelito) (now : ℕ) (op : EntryOp) : Prop where
  /-- It answers from the entry of its own address. -/
  answer : (t.call now op).1 = (op.onSlot now (decide ¬t.Full op.address) (t.slots op.address)).1
  /-- It changes no other entry. -/
  slots : (t.call now op).2.slots = Function.update t.slots op.address
    (op.onSlot now (decide ¬t.Full op.address) (t.slots op.address)).2
  /-- Every entry stays in the cell its first creating call took. -/
  locate : ∀ a p, t.locate a = some p → (t.call now op).2.locate a = some p
  peek : ∀ a, op = .peek a → (t.call now op).2 = t
  fails : op.Creates →
    (op.fails (t.call now op).1 = true ↔ t.slots op.address = none ∧ t.Full op.address)
  failed : op.Creates → op.fails (t.call now op).1 = true → (t.call now op).2 = t

theorem WellFormed.callsAsMap (h : t.WellFormed) (now : ℕ) (op : EntryOp) : t.CallsAsMap now op := by
  have hr := h.call now op
  have hfails : op.Creates →
      (op.fails (t.call now op).1 = true ↔ t.slots op.address = none ∧ t.Full op.address) := by
    intro hc
    rw [hr.answer, EntryOp.fails_onSlot_iff hc, decide_eq_false_iff_not, not_not]
  refine ⟨hr.answer, hr.slots, hr.locate, ?_, hfails, fun hc hf => ?_⟩
  · rintro a rfl
    rfl
  · obtain ⟨hs, hfull⟩ := (hfails hc).1 hf
    exact h.call_of_full hc hs hfull now

/-- **The table refines a finite map from addresses to control entries.** For every number of
shards, every capacity, every placement and every history of calls and sweeps on any addresses, the
table has at most one cell for each address, and the next call does to it what it does to the map. -/
theorem refines_map (shardCount capacity : ℕ) (p : Placement) (history : List (ℕ × TableOp))
    (now : ℕ) (op : EntryOp) :
    (history.foldl step ((sized shardCount capacity).withPlacement p)).AtMostOne ∧
      (history.foldl step ((sized shardCount capacity).withPlacement p)).CallsAsMap now op := by
  have hstep : ∀ (t : Cachelito) x, t.WellFormed → (t.step x).WellFormed := fun _ x ht => ht.step x
  have h := Run.inv_run hstep (wellFormed_sized shardCount capacity p) history
  exact ⟨h.atMostOne, h.callsAsMap now op⟩

end Cachelito

end TheSix
