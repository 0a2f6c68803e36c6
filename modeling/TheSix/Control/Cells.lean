import TheSix.Control.Stats
import TheSix.Control.Steps

/-!
# The cells of the table

A call that needs an entry and finds none takes an empty cell of its shard, and no call gives a cell
back: a released or invalidated entry stays where it is. A key can be described as long as it has an
entry or its shard an empty cell (`Roomy`), and a call on its own key keeps it so.
-/

namespace TheSix

namespace Shard

variable {β : Type}

theorem full_iff {s : Shard} : s.Full ↔ ∀ b ∈ s.entries.map Option.isSome, b = true := by
  simp [Full]

theorem full_put {s : Shard} {i : ℕ} {e e' : ControlEntry} (h : s.entryAt i = some e) :
    (s.put i e').Full ↔ s.Full := by
  have hcell : s.entries[i]? = some (some e) := OpenTable.entryAt_eq_some.1 h
  have hsame : (s.put i e').entries.map Option.isSome = s.entries.map Option.isSome := by
    rw [put, List.map_set]
    ext j : 1
    rw [List.getElem?_set, List.length_map]
    split_ifs with hij hi
    · subst hij
      rw [List.getElem?_map, hcell]
      rfl
    · subst hij
      rw [List.getElem?_eq_none (by rw [List.length_map]; omega)]
    · rfl
  rw [full_iff, full_iff, hsame]

theorem full_withEntry (s : Shard) (a : KeyAddress) (missing : β)
    (f : ControlEntry → β × ControlEntry) : (s.withEntry a missing f).2.Full ↔ s.Full := by
  unfold withEntry
  cases s.findSlot a with
  | none => exact Iff.rfl
  | some i =>
    simp only [work]
    cases he : s.entryAt i with
    | none => exact Iff.rfl
    | some e => exact full_put he

end Shard

theorem EntryOp.isSome_onSlot {op : EntryOp} (hc : op.Creates) (now : ℕ) {s : KeySlot} :
    (op.onSlot now true s).2.isSome = true := by
  cases op with
  | acquire a tier => cases s <;> rfl
  | setGeneration a g => cases s <;> rfl
  | setTier a tier => cases s <;> rfl
  | setState a state => cases s <;> rfl
  | bumpGeneration a => cases s <;> rfl
  | prepare a g tier kind => cases s <;> rfl
  | _ => exact hc.elim

namespace Cachelito

variable {t : Cachelito} {β : Type}

theorem full_withEntry (t : Cachelito) (a b : KeyAddress) (missing : β)
    (f : ControlEntry → β × ControlEntry) : (t.withEntry b missing f).2.Full a ↔ t.Full a := by
  unfold Full Cachelito.withEntry onShard
  rw [shard_putShard t (t.shardFor_lt b)]
  split_ifs with h
  · rw [Shard.full_withEntry, shard_congr h]
  · exact Iff.rfl

/-- A method that finds its entry answers what the entry does, or that it is missing. -/
theorem withEntry_ne {missing x : β} {f : ControlEntry → β × ControlEntry} (hmissing : missing ≠ x)
    (hf : ∀ e, (f e).1 ≠ x) (b : KeyAddress) : (t.withEntry b missing f).1 ≠ x := by
  unfold Cachelito.withEntry onShard Shard.withEntry
  cases (t.shard b).findSlot b with
  | none => exact hmissing
  | some i =>
    simp only [Shard.work]
    cases (t.shard b).entryAt i with
    | none => exact hmissing
    | some e => exact hf e

/-- A call that creates nothing takes no cell. -/
theorem full_call {op : EntryOp} (h : ¬ op.Creates) (now : ℕ) (a : KeyAddress) :
    (t.call now op).2.Full a ↔ t.Full a := by
  cases op with
  | acquire | prepare | bumpGeneration | setState | setTier | setGeneration =>
    exact absurd trivial h
  | peek => exact Iff.rfl
  | resolveIntent b intent direction =>
    cases direction with
    | abort => exact full_withEntry ..
    | completeForward => exact full_withEntry ..
    | externalReconciliation => exact Iff.rfl
  | _ => exact full_withEntry ..

/-- No call gives a cell back. -/
theorem WellFormed.slots_kept (h : t.WellFormed) (now : ℕ) (op : EntryOp) {a : KeyAddress}
    (ha : t.slots a ≠ none) : (t.call now op).2.slots a ≠ none := by
  have hsets : (TableOp.entry op).Sets fun _ => True := by cases op <;> trivial
  have hstep : (t.slots a).Step _ ((t.call now op).2.slots a) := h.slots_step hsets now a
  generalize (t.call now op).2.slots a = s' at hstep ⊢
  generalize t.slots a = s at hstep ha
  cases hstep with
  | missing => exact absurd rfl ha
  | entry | create => nofun

/-- A key can be described: it has an entry, or there is a cell for one. -/
def Roomy (t : Cachelito) (a : KeyAddress) : Prop := t.slots a ≠ none ∨ ¬ t.Full a

theorem not_roomy {a : KeyAddress} : ¬ t.Roomy a ↔ t.slots a = none ∧ t.Full a := by
  simp [Roomy]

/-- A creating call with room leaves an entry. -/
theorem WellFormed.slots_created (h : t.WellFormed) {op : EntryOp} (hc : op.Creates)
    (ha : t.Roomy op.address) (now : ℕ) : (t.call now op).2.slots op.address ≠ none := by
  rcases ha with hs | hfull
  · exact h.slots_kept now op hs
  · rw [(h.call now op).slots, Function.update_self, decide_eq_true hfull]
    exact Option.isSome_iff_ne_none.1 (EntryOp.isSome_onSlot hc now)

theorem WellFormed.roomy_call (h : t.WellFormed) {a : KeyAddress} (ha : t.Roomy a) (now : ℕ)
    {op : EntryOp} (hop : op.Creates → op.address = a) : (t.call now op).2.Roomy a := by
  by_cases hc : op.Creates
  · have hop := hop hc
    subst hop
    exact .inl (h.slots_created hc ha now)
  · rcases ha with hs | hfull
    · exact .inl (h.slots_kept now op hs)
    · exact .inr fun hfull' => hfull ((full_call hc now a).1 hfull')

/-- A table of one shard that has an entry for as many addresses as it has cells is full, and has
none for another address. -/
theorem WellFormed.full_of_slots (h : t.WellFormed) (hone : t.shards.length = 1) {n : ℕ}
    (hsized : t.Sized n) {addresses : Fin n → KeyAddress} (hinj : Function.Injective addresses)
    (hslots : ∀ i, t.slots (addresses i) ≠ none) (a : KeyAddress) :
    t.Full a ∧ ((∀ i, addresses i ≠ a) → t.slots a = none) := by
  have hshard : ∀ b, t.shard b = t.shard a := fun b => shard_congr (by
    rw [shardFor, shardFor, hone, Nat.mod_one, Nat.mod_one])
  have hlength : (t.shard a).entries.length = n := hsized _ (List.get_mem _ _)
  have hcell : ∀ i, ∃ j : Fin n, ∃ e, (t.shard a).entryAt j = some e ∧
      e.address = addresses i := by
    intro i
    cases hs : t.slots (addresses i) with
    | none => exact absurd hs (hslots i)
    | some e =>
      obtain ⟨j, hj, he⟩ := (Shard.findEntry_eq_some_iff (h.shard (addresses i))).1 hs
      rw [hshard] at hj
      exact ⟨⟨j, hlength ▸ OpenTable.lt_of_entryAt hj⟩, e, hj, he⟩
  choose cell e hentry haddress using hcell
  have hcells : Function.Injective cell := by
    intro i i' hii'
    have he := hentry i
    rw [hii', hentry i', Option.some.injEq] at he
    exact hinj (by rw [← haddress i, ← haddress i', he])
  have hsurj := Finite.injective_iff_surjective.1 hcells
  constructor
  · intro c hc
    obtain ⟨j, hj, rfl⟩ := List.getElem_of_mem hc
    obtain ⟨i, hi⟩ := hsurj ⟨j, hlength ▸ hj⟩
    have he := hentry i
    rw [hi] at he
    have := OpenTable.entryAt_eq_some.1 he
    rw [List.getElem?_eq_getElem hj, Option.some.injEq] at this
    rw [this]
    rfl
  · intro hother
    by_contra hs
    obtain ⟨e', hs⟩ := Option.ne_none_iff_exists'.1 hs
    obtain ⟨j, hj, he'⟩ := (Shard.findEntry_eq_some_iff (h.shard a)).1 hs
    obtain ⟨i, hi⟩ := hsurj ⟨j, hlength ▸ OpenTable.lt_of_entryAt hj⟩
    have he := hentry i
    rw [hi, hj, Option.some.injEq] at he
    exact hother i (by rw [← haddress i, ← he, he'])

end Cachelito

end TheSix
