import TheSix.Manager.World

/-!
# What one request can do to the key

One lemma per request that touches the control-plane entry says everything the request can do:
which answers it gives, and what the world is afterwards. All other requests leave the entry alone
(`exec_slot`), and only the tier calls change what the rungs hold (`exec_rungs`). A key that has
no entry yet is read as one that was never written (`KeyWorld.entry`).
-/

namespace TheSix

/-- The requests that touch the entry. -/
def Req.touchesEntry {V : Type} : Req V → Bool
  | .acquire _ | .setState _ | .publish _ _ _ | .failWithError _ | .invalidate | .release
  | .prepare _ _ | .commit _ _ | .abort _ _ | .abortProvenClean _ _ | .reserveEviction _ => true
  | _ => false

/-- The requests that change what a rung holds. -/
def Req.touchesRungs {V : Type} : Req V → Bool
  | .removeIfAddress _ _ | .tierSet _ _ _ | .tierRemove _ => true
  | _ => false

/-- No tier call fails, and every one takes effect. -/
def Outcome.Exact {V : Type} (o : Outcome V) : Prop := o.error = none ∧ o.effect = true

instance {V : Type} : DecidablePred (Outcome.Exact (V := V)) := fun _ =>
  inferInstanceAs (Decidable (_ ∧ _))

namespace KeyWorld

variable {V : Type} {w w' : KeyWorld V} {o : Outcome V}

/-- The key's entry; of a key that has none, the entry that would be created. -/
def entry (w : KeyWorld V) : ControlEntry := w.slot.getD { address := w.address }

/-- The world with another entry. -/
def putEntry (w : KeyWorld V) (e : ControlEntry) : KeyWorld V := { w with slot := some e }

@[simp] theorem putEntry_entry (w : KeyWorld V) (e : ControlEntry) : (w.putEntry e).entry = e := rfl

@[simp] theorem putEntry_rungs (w : KeyWorld V) (e : ControlEntry) :
    (w.putEntry e).rungs = w.rungs := rfl

@[simp] theorem putEntry_now (w : KeyWorld V) (e : ControlEntry) : (w.putEntry e).now = w.now := rfl

@[simp] theorem putEntry_address (w : KeyWorld V) (e : ControlEntry) :
    (w.putEntry e).address = w.address := rfl

@[simp] theorem putEntry_slot (w : KeyWorld V) (e : ControlEntry) :
    (w.putEntry e).slot = some e := rfl

@[simp] theorem tick_entry (w : KeyWorld V) (d : ℕ) : (w.tick d).entry = w.entry := rfl

@[simp] theorem tick_rungs (w : KeyWorld V) (d : ℕ) : (w.tick d).rungs = w.rungs := rfl

@[simp] theorem tick_slot (w : KeyWorld V) (d : ℕ) : (w.tick d).slot = w.slot := rfl

@[simp] theorem tick_address (w : KeyWorld V) (d : ℕ) : (w.tick d).address = w.address := rfl

@[simp] theorem store_entry (w : KeyWorld V) (r : TierId) (v : Option V) :
    (w.store r v).entry = w.entry := rfl

@[simp] theorem store_slot (w : KeyWorld V) (r : TierId) (v : Option V) :
    (w.store r v).slot = w.slot := rfl

@[simp] theorem store_address (w : KeyWorld V) (r : TierId) (v : Option V) :
    (w.store r v).address = w.address := rfl

@[simp] theorem store_rungs (w : KeyWorld V) (r : TierId) (v : Option V) :
    (w.store r v).rungs = Function.update w.rungs r v := rfl

/-- An entry that is not absent was made. -/
theorem isSome_of_state (h : w.entry.state ≠ .absent) : w.slot.isSome = true := by
  cases hs : w.slot with
  | none => exact absurd (by simp [entry, hs]) h
  | some e => rfl

/-- Emptying a rung leaves nothing new. -/
theorem rungs_of_store_none {rung r : TierId} {x : V} (h : (w.store rung none).rungs r = some x) :
    w.rungs r = some x := by
  rw [store_rungs, Function.update_apply] at h
  split_ifs at h
  exact h

theorem entry_of_slot {e : ControlEntry} (h : w.slot = some e) : w.entry = e := by
  simp [entry, h]

@[simp] theorem entry_empty (a : KeyAddress) :
    (empty a : KeyWorld V).entry = { address := a } := rfl

/-- What `peek` reports is what the entry says. -/
theorem exec_peek {a : ControlSnapshot} (h : w.exec .peek o = some (a, w')) :
    a.state = w.entry.state ∧ a.generation = w.entry.generation ∧ a.tier = w.entry.tier ∧
      a.populationOwner = w.entry.populationOwner ∧ w' = w := by
  simp only [exec, Option.some.injEq, Prod.mk.injEq] at h
  obtain ⟨rfl, rfl⟩ := h
  cases hs : w.slot <;>
    simp [KeySlot.peek, ControlSnapshot.neverWritten, ControlEntry.peek, ControlEntry.snapshotOf,
      entry, hs]

/-! ## The requests that touch the entry -/

theorem eq_of_slot {x : KeySlot} (h : x = w.slot) : { w with slot := x } = w := by
  subst h
  rfl

theorem exec_acquire {tier : TierId} {a : Except CacheError ControlSnapshot}
    (h : w.exec (.acquire tier) o = some (a, w')) :
    (∃ e, a = .error e ∧ w' = w ∧ w.slot = none) ∨
      (a = .ok (w.entry.acquire tier w.now).1 ∧ w' = w.putEntry (w.entry.acquire tier w.now).2) := by
  simp only [exec, onSlot, KeySlot.acquire, Option.some.injEq, Prod.mk.injEq] at h
  obtain ⟨rfl, rfl⟩ := h
  cases hs : w.slot with
  | some e => exact Or.inr (by simp [putEntry, entry, hs])
  | none =>
    cases o.room
    · exact Or.inl ⟨_, rfl, eq_of_slot (by simp [KeySlot.withOrCreate, hs]), rfl⟩
    · exact Or.inr (by simp [KeySlot.withOrCreate, putEntry, entry, hs])

theorem exec_setState {state : EntryState} {a : Except CacheError Unit}
    (h : w.exec (.setState state) o = some (a, w')) :
    (w' = w ∧ w.slot = none) ∨ w' = w.putEntry (w.entry.setState state) := by
  simp only [exec, onSlot, KeySlot.setState, Option.some.injEq, Prod.mk.injEq] at h
  obtain ⟨-, rfl⟩ := h
  cases hs : w.slot with
  | some e => exact Or.inr (by simp [putEntry, entry, hs])
  | none =>
    cases o.room
    · exact Or.inl ⟨eq_of_slot (by simp [KeySlot.withOrCreate, hs]), rfl⟩
    · exact Or.inr (by simp [KeySlot.withOrCreate, putEntry, entry, hs])

theorem exec_prepare {tier : TierId} {kind : IntentKind} {a : Except CacheError CommitToken}
    (h : w.exec (.prepare tier kind) o = some (a, w')) :
    (∃ e, a = .error e ∧ w' = w ∧ w.slot = none) ∨
      (a = .ok (w.entry.tokenFor tier kind) ∧
        w' = w.putEntry (w.entry.preparedFor (w.entry.intentFor tier kind w.now))) := by
  simp only [exec, onSlot, KeySlot.prepare, Option.some.injEq, Prod.mk.injEq] at h
  obtain ⟨rfl, rfl⟩ := h
  cases hs : w.slot with
  | some e => exact Or.inr (by simp [putEntry, entry, hs, ControlEntry.prepare_none])
  | none =>
    cases o.room
    · exact Or.inl ⟨_, rfl, eq_of_slot (by simp [KeySlot.withOrCreate, hs]), rfl⟩
    · exact Or.inr (by simp [KeySlot.withOrCreate, putEntry, entry, hs, ControlEntry.prepare_none])

theorem exec_publish {g : Generation} {tier : TierId} {ttl : Option ℕ} {a : Except CacheError Unit}
    (h : w.exec (.publish g tier ttl) o = some (a, w')) :
    (∃ e, a = .error e ∧ w' = w ∧ (w.slot = none ∨ g ≠ w.entry.generation)) ∨
      (a = .ok () ∧ g = w.entry.generation ∧ w' = w.putEntry (w.entry.published tier ttl w.now)) := by
  simp only [exec, onSlot, KeySlot.publish, Option.some.injEq, Prod.mk.injEq] at h
  obtain ⟨rfl, rfl⟩ := h
  cases hs : w.slot with
  | none => exact Or.inl ⟨_, rfl, eq_of_slot (by simp [KeySlot.withEntry, hs]), Or.inl rfl⟩
  | some e =>
    by_cases hg : g = e.generation
    · subst hg
      exact Or.inr (by simp [putEntry, entry, hs, ControlEntry.publish_of_eq])
    · refine Or.inl ⟨.staleGeneration, ?_, ?_, Or.inr (by simpa [entry, hs] using hg)⟩
      · simp [ControlEntry.publish_of_ne hg]
      · exact eq_of_slot (by simp [hs, ControlEntry.publish_of_ne hg])

theorem exec_failWithError {error : CacheError} {a : Except CacheError Unit}
    (h : w.exec (.failWithError error) o = some (a, w')) :
    (w.slot = none ∧ w' = w) ∨
      (w.slot.isSome = true ∧ w' = w.putEntry (w.entry.failWithError error)) := by
  simp only [exec, onSlot, KeySlot.failWithError, Option.some.injEq, Prod.mk.injEq] at h
  obtain ⟨-, rfl⟩ := h
  cases hs : w.slot with
  | none => exact Or.inl ⟨rfl, eq_of_slot (by simp [KeySlot.withEntry, hs])⟩
  | some e => exact Or.inr ⟨rfl, by simp [putEntry, entry, hs]⟩

theorem exec_release {a : Except CacheError Unit} (h : w.exec .release o = some (a, w')) :
    a = .ok () ∧
      ((w.slot = none ∧ w' = w) ∨ (w.slot.isSome = true ∧ w' = w.putEntry w.entry.release)) := by
  simp only [exec, onSlot, KeySlot.release, Option.some.injEq, Prod.mk.injEq] at h
  obtain ⟨rfl, rfl⟩ := h
  cases hs : w.slot with
  | none => exact ⟨rfl, Or.inl ⟨rfl, eq_of_slot (by simp [KeySlot.withEntry, hs])⟩⟩
  | some e => exact ⟨rfl, Or.inr ⟨rfl, by simp [putEntry, entry, hs]⟩⟩

theorem exec_invalidate {a : Except CacheError Unit} (h : w.exec .invalidate o = some (a, w')) :
    a = .ok () ∧
      ((w.slot = none ∧ w' = w) ∨ (w.slot.isSome = true ∧ w' = w.putEntry w.entry.release)) := by
  simp only [exec, onSlot, KeySlot.invalidate, Option.some.injEq, Prod.mk.injEq] at h
  obtain ⟨rfl, rfl⟩ := h
  cases hs : w.slot with
  | none => exact ⟨rfl, Or.inl ⟨rfl, eq_of_slot (by simp [KeySlot.withEntry, hs])⟩⟩
  | some e => exact ⟨rfl, Or.inr ⟨rfl, by simp [putEntry, entry, hs, ControlEntry.invalidate]⟩⟩

theorem exec_commit {token : CommitToken} {ttl : Option ℕ} {a : Except CacheError Unit}
    (h : w.exec (.commit token ttl) o = some (a, w')) :
    (∃ e, a = .error e ∧ w' = w ∧
        ¬(w.entry.generation = token.generation ∧ w.entry.state = .prepared) ∧
        (w.slot.isSome = true → e = .staleGeneration)) ∨
      (a = .ok () ∧ w.entry.generation = token.generation ∧ w.entry.state = .prepared ∧
        w' = w.putEntry (w.entry.committed token ttl w.now)) := by
  simp only [exec, onSlot, KeySlot.commit, Option.some.injEq, Prod.mk.injEq] at h
  obtain ⟨rfl, rfl⟩ := h
  cases hs : w.slot with
  | none =>
    exact Or.inl ⟨_, rfl, eq_of_slot (by simp [KeySlot.withEntry, hs]), by simp [entry, hs], (by simp)⟩
  | some e =>
    by_cases hlive : e.generation = token.generation ∧ e.state = .prepared
    · obtain ⟨hg, hp⟩ := hlive
      exact Or.inr (by simp [putEntry, entry, hs, ControlEntry.commit_of_live hg hp, hg, hp])
    · refine Or.inl ⟨.staleGeneration, ?_, ?_, by simpa [entry, hs] using hlive, fun _ => rfl⟩
      · simp [ControlEntry.commit_of_dead hlive]
      · exact eq_of_slot (by simp [hs, ControlEntry.commit_of_dead hlive])

/-- The common part of the two aborts. -/
theorem abort_cases {error : CacheError} (clean : Bool) {f : KeySlot → KeySlot}
    (hf : ∀ e, f (some e) = some (e.abortInner error clean)) (hn : f none = none)
    (h : w' = { w with slot := f w.slot }) :
    (w.entry.state ≠ .prepared ∧ w' = w) ∨
      (w.entry.state = .prepared ∧ w' = w.putEntry (w.entry.aborted error clean)) := by
  subst h
  cases hs : w.slot with
  | none => exact Or.inl ⟨by simp [entry, hs], eq_of_slot (by simp [hs, hn])⟩
  | some e =>
    by_cases hp : e.state = .prepared
    · exact Or.inr ⟨by simp [entry, hs, hp],
        by simp [putEntry, entry, hs, hf, ControlEntry.abortInner_of_prepared hp]⟩
    · exact Or.inl ⟨by simp [entry, hs, hp],
        eq_of_slot (by simp [hs, hf, ControlEntry.abortInner_of_ne hp])⟩

theorem exec_abort {token : CommitToken} {error : CacheError} {a : Except CacheError Unit}
    (h : w.exec (.abort token error) o = some (a, w')) :
    (w.entry.state ≠ .prepared ∧ w' = w) ∨
      (w.entry.state = .prepared ∧ w' = w.putEntry (w.entry.aborted error false)) := by
  simp only [exec, onSlot, Option.some.injEq, Prod.mk.injEq] at h
  exact abort_cases (f := fun s => (s.abort error).2) false (fun _ => rfl) rfl h.2.symm

theorem exec_abortProvenClean {token : CommitToken} {error : CacheError}
    {a : Except CacheError Unit} (h : w.exec (.abortProvenClean token error) o = some (a, w')) :
    (w.entry.state ≠ .prepared ∧ w' = w) ∨
      (w.entry.state = .prepared ∧ w' = w.putEntry (w.entry.aborted error true)) := by
  simp only [exec, onSlot, Option.some.injEq, Prod.mk.injEq] at h
  exact abort_cases (f := fun s => (s.abortProvenClean error).2) true (fun _ => rfl) rfl h.2.symm

/-- What `reserve_eviction` asks of the key's entry. -/
def Evictable (w : KeyWorld V) : Prop :=
  w.entry.state = .ready ∧ w.entry.populationOwner = false ∧ w.entry.intent = none

instance (w : KeyWorld V) : Decidable w.Evictable := inferInstanceAs (Decidable (_ ∧ _))

theorem exec_reserveEviction {address : KeyAddress} {a : Bool}
    (h : w.exec (.reserveEviction address) o = some (a, w')) :
    (w' = w ∧ ¬(address = w.address ∧ w.Evictable)) ∨
      (address = w.address ∧ w.Evictable ∧ w' = w.putEntry w.entry.evicted) := by
  simp only [exec] at h
  split at h
  · rename_i haddr
    simp only [onSlot, KeySlot.reserveEviction, Option.some.injEq, Prod.mk.injEq] at h
    obtain ⟨-, rfl⟩ := h
    cases hs : w.slot with
    | none =>
      exact Or.inl ⟨eq_of_slot (by simp [KeySlot.withEntry, hs]), by simp [Evictable, entry, hs]⟩
    | some e =>
      simp only [KeySlot.withEntry_some, ControlEntry.reserveEviction, Evictable, entry, hs,
        Option.getD_some]
      split_ifs with h₁ h₂
      · refine Or.inl ⟨eq_of_slot hs.symm, ?_⟩
        rintro ⟨-, hr, ho, -⟩
        simp [hr, ho] at h₁
      · refine Or.inl ⟨eq_of_slot hs.symm, ?_⟩
        rintro ⟨-, -, -, hi⟩
        simp [hi] at h₂
      · simp only [not_or, not_not, Bool.not_eq_true] at h₁
        exact Or.inr ⟨haddr, ⟨h₁.1, h₁.2, by simpa using h₂⟩, rfl⟩
  · rename_i haddr
    simp only [Option.some.injEq, Prod.mk.injEq] at h
    exact Or.inl ⟨h.2.symm, fun hc => haddr hc.1⟩

/-! ## The requests that do not -/

@[simp] theorem storeIf_slot (w : KeyWorld V) (b : Bool) (r : TierId) (v : Option V) :
    (w.storeIf b r v).slot = w.slot := by
  cases b <;> rfl

@[simp] theorem storeIf_address (w : KeyWorld V) (b : Bool) (r : TierId) (v : Option V) :
    (w.storeIf b r v).address = w.address := by
  cases b <;> rfl

@[simp] theorem storeIf_now (w : KeyWorld V) (b : Bool) (r : TierId) (v : Option V) :
    (w.storeIf b r v).now = w.now := by
  cases b <;> rfl

@[simp] theorem recordOutcome_now (w : KeyWorld V) (r : TierId) (res : Except CacheError Unit) :
    (w.recordOutcome r res).now = w.now := by
  unfold recordOutcome
  split <;> rfl

@[simp] theorem recordOutcome_slot (w : KeyWorld V) (r : TierId) (res : Except CacheError Unit) :
    (w.recordOutcome r res).slot = w.slot := by
  unfold recordOutcome
  split <;> rfl

@[simp] theorem recordOutcome_address (w : KeyWorld V) (r : TierId)
    (res : Except CacheError Unit) : (w.recordOutcome r res).address = w.address := by
  unfold recordOutcome
  split <;> rfl

@[simp] theorem recordOutcome_rungs (w : KeyWorld V) (r : TierId) (res : Except CacheError Unit) :
    (w.recordOutcome r res).rungs = w.rungs := by
  unfold recordOutcome
  split <;> rfl

theorem exec_address {q : Req V} {a : q.Answer} (h : w.exec q o = some (a, w')) :
    w'.address = w.address := by
  cases q <;> simp only [exec] at h <;> (try split at h) <;> (try split at h) <;>
    first
    | (cases h; first | rfl | simp)
    | cases h

/-- Requests take no time. -/
theorem exec_now {q : Req V} {a : q.Answer} (h : w.exec q o = some (a, w')) : w'.now = w.now := by
  cases q <;> simp only [exec] at h <;> (try split at h) <;> (try split at h) <;>
    first
    | (cases h; first | rfl | simp)
    | cases h

/-- A request that does not touch the entry leaves it alone. -/
theorem exec_slot {q : Req V} (hq : q.touchesEntry = false) {a : q.Answer}
    (h : w.exec q o = some (a, w')) : w'.slot = w.slot := by
  cases q <;> simp only [Req.touchesEntry, reduceCtorEq] at hq <;> simp only [exec] at h <;>
    (try split at h) <;> (try split at h) <;>
    first
    | (cases h; first | rfl | simp)
    | cases h

theorem exec_entry {q : Req V} (hq : q.touchesEntry = false) {a : q.Answer}
    (h : w.exec q o = some (a, w')) : w'.entry = w.entry := by
  rw [entry, entry, exec_slot hq h, exec_address h]

/-- Only the tier calls that write change what the rungs hold. -/
theorem exec_rungs {q : Req V} (hq : q.touchesRungs = false) {a : q.Answer}
    (h : w.exec q o = some (a, w')) : w'.rungs = w.rungs := by
  cases q <;> simp only [Req.touchesRungs, reduceCtorEq] at hq <;> simp only [exec] at h <;>
    (try split at h) <;> (try split at h) <;>
    first
    | (cases h; first | rfl | simp)
    | cases h

/-- An entry, once made, stays. -/
theorem exec_isSome {q : Req V} {a : q.Answer} (h : w.exec q o = some (a, w'))
    (hw : w.slot.isSome = true) : w'.slot.isSome = true := by
  cases q with
  | acquire tier => rcases exec_acquire h with ⟨e, -, rfl, -⟩ | ⟨-, rfl⟩ <;> simp [hw]
  | setState state => rcases exec_setState h with ⟨rfl, -⟩ | rfl <;> simp [hw]
  | publish g tier ttl => rcases exec_publish h with ⟨e, -, rfl, -⟩ | ⟨-, -, rfl⟩ <;> simp [hw]
  | failWithError e => rcases exec_failWithError h with ⟨-, rfl⟩ | ⟨-, rfl⟩ <;> simp [hw]
  | invalidate => obtain ⟨-, ⟨-, rfl⟩ | ⟨-, rfl⟩⟩ := exec_invalidate h <;> simp [hw]
  | release => obtain ⟨-, ⟨-, rfl⟩ | ⟨-, rfl⟩⟩ := exec_release h <;> simp [hw]
  | prepare tier kind => rcases exec_prepare h with ⟨e, -, rfl, -⟩ | ⟨-, rfl⟩ <;> simp [hw]
  | commit token ttl => rcases exec_commit h with ⟨e, -, rfl, -, -⟩ | ⟨-, -, -, rfl⟩ <;> simp [hw]
  | abort token e => rcases exec_abort h with ⟨-, rfl⟩ | ⟨-, rfl⟩ <;> simp [hw]
  | abortProvenClean token e =>
    rcases exec_abortProvenClean h with ⟨-, rfl⟩ | ⟨-, rfl⟩ <;> simp [hw]
  | reserveEviction address =>
    rcases exec_reserveEviction h with ⟨rfl, -⟩ | ⟨-, -, rfl⟩ <;> simp [hw]
  | peek | evictionCandidate | removeIfAddress | tierGet | tierSet | tierRemove | tierContains
  | fetch | register | notified | sleep | yieldNow | tierHealth | record =>
    rw [exec_slot rfl h, hw]

/-! ## The tier calls -/

/-- A read fails, misses, or finds what is stored. -/
theorem exec_tierGet {rung : TierId} {a : Except CacheError (Option V)}
    (h : w.exec (.tierGet rung) o = some (a, w')) :
    w' = w ∧ ∀ v, a = .ok (some v) → w.rungs rung = some v := by
  simp only [exec] at h
  split at h <;> simp only [Option.some.injEq, Prod.mk.injEq] at h <;> obtain ⟨rfl, rfl⟩ := h
  · exact ⟨rfl, (by simp)⟩
  · refine ⟨rfl, fun v hv => ?_⟩
    split_ifs at hv
    · exact Except.ok.inj hv
    · cases hv

/-- A write stores the value when it answers `Ok`, and may store it when it fails. -/
theorem exec_tierSet {rung : TierId} {v : V} {ttl : Option ℕ} {a : Except CacheError Unit}
    (h : w.exec (.tierSet rung v ttl) o = some (a, w')) :
    (a = .ok () ∧ w' = w.store rung (some v)) ∨
      ∃ e, a = .error e ∧ (w' = w ∨ w' = w.store rung (some v)) := by
  simp only [exec, storeIf] at h
  split at h <;> simp only [Option.some.injEq, Prod.mk.injEq] at h <;> obtain ⟨rfl, rfl⟩ := h
  · refine Or.inr ⟨_, rfl, ?_⟩
    split_ifs
    · exact Or.inr rfl
    · exact Or.inl rfl
  · exact Or.inl ⟨rfl, rfl⟩

/-- A removal may take effect, whatever it answers. -/
theorem exec_tierRemove {rung : TierId} {a : Except CacheError Unit}
    (h : w.exec (.tierRemove rung) o = some (a, w')) : w' = w ∨ w' = w.store rung none := by
  simp only [exec, storeIf] at h
  split at h <;> simp only [Option.some.injEq, Prod.mk.injEq] at h <;> obtain ⟨-, rfl⟩ := h <;>
    split_ifs
  · exact Or.inr rfl
  · exact Or.inl rfl
  · exact Or.inr rfl
  · exact Or.inl rfl

/-! ## Tiers that are maps -/

theorem exec_tierGet_exact (ho : o.Exact) {rung : TierId} {a : Except CacheError (Option V)}
    (h : w.exec (.tierGet rung) o = some (a, w')) : a = .ok (w.rungs rung) ∧ w' = w := by
  simp only [exec, ho.1, ho.2, if_true, Option.some.injEq, Prod.mk.injEq] at h
  exact ⟨h.1.symm, h.2.symm⟩

theorem exec_tierSet_exact (ho : o.Exact) {rung : TierId} {v : V} {ttl : Option ℕ}
    {a : Except CacheError Unit} (h : w.exec (.tierSet rung v ttl) o = some (a, w')) :
    a = .ok () ∧ w' = w.store rung (some v) := by
  simp only [exec, ho.1, Option.some.injEq, Prod.mk.injEq] at h
  exact ⟨h.1.symm, h.2.symm⟩

theorem exec_tierRemove_exact (ho : o.Exact) {rung : TierId} {a : Except CacheError Unit}
    (h : w.exec (.tierRemove rung) o = some (a, w')) : a = .ok () ∧ w' = w.store rung none := by
  simp only [exec, ho.1, ho.2, storeIf, if_true, Option.some.injEq, Prod.mk.injEq] at h
  exact ⟨h.1.symm, h.2.symm⟩

/-- An eviction leaves nothing new. -/
theorem exec_removeIfAddress {rung : TierId} {address : KeyAddress} {a : Bool}
    (h : w.exec (.removeIfAddress rung address) o = some (a, w')) :
    w' = w ∨ (address = w.address ∧ w' = w.store rung none) := by
  simp only [exec, storeIf] at h
  split_ifs at h with haddr <;> simp only [Option.some.injEq, Prod.mk.injEq] at h
  · exact Or.inr ⟨haddr, h.2.symm⟩
  · exact Or.inl h.2.symm
  · exact Or.inl h.2.symm

end KeyWorld

end TheSix
