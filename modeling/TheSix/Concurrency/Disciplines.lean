import TheSix.Manager.Upkeep

/-!
# What an entry carries

Two disciplines are meant to hold of an entry at all times. An outstanding intent belongs to a
`Prepared` entry, or to one whose `Move` intent a recovery sweep has kept for reconciliation
(`IntentDiscipline`). And an entry has an owner exactly while it is `InFlight` or `Prepared`
(`OwnershipDiscipline`).

Neither holds of all runs. The methods that store a state do not all clear the intent, and not all
of them keep the owner in step. Which steps break a discipline that holds can be read off the world
before the step, so the runs that keep it are exactly the ones without such a step
(`intentDiscipline_iff_leavesNoIntent`, `ownershipDiscipline_iff_leavesNoOwner`).
-/

namespace TheSix

open Coroutine

variable {V : Type}

/-! ## The entry after maintenance -/

namespace Maintained

variable (w : Maintained V)

/-- A method that does nothing to a new entry, on the entry of the key. -/
theorem onSlot_entry {β : Type} {missing : β} {f : ControlEntry → β × ControlEntry}
    (hf : ∀ a, (f { address := a }).2 = { address := a }) :
    (w.onSlot (w.key.slot.withEntry missing f).2).key.entry = (f w.key.entry).2 := by
  cases hs : w.key.slot with
  | none => simp [onSlot, KeyWorld.entry, hs, hf]
  | some e => simp [onSlot, KeyWorld.entry, hs]

theorem upkeep_sweepExpired_entry :
    (w.upkeep .sweepExpired).key.entry = (w.key.entry.sweepExpired w.key.now).2 :=
  w.onSlot_entry (f := fun e => e.sweepExpired w.key.now) fun _ => by
    simp [ControlEntry.sweepExpired, TierId.isAuthorityRung]

theorem settled_write_entry :
    (w.settled .write).key.entry = (w.key.entry.abortIntentByAddress .uncommittedIntent).2 :=
  w.onSlot_entry (f := fun e => e.abortIntentByAddress .uncommittedIntent) fun _ => by
    simp [ControlEntry.abortIntentByAddress]

theorem settled_move_entry :
    (w.settled .move).key.entry = w.key.entry.releasePopulationClaim.2 :=
  w.onSlot_entry (f := fun e => e.releasePopulationClaim) fun _ => by
    simp [ControlEntry.releasePopulationClaim]

theorem settled_move_released :
    (w.settled .move).released = (w.released || w.key.entry.releasePopulationClaim.1) := by
  cases hs : w.key.slot with
  | none =>
    simp [settled, KeySlot.releasePopulationClaim, KeyWorld.entry, hs,
      ControlEntry.releasePopulationClaim]
  | some e => simp [settled, KeySlot.releasePopulationClaim, KeyWorld.entry, hs]

/-- Only the settling of an intent, and an expiry sweep, touch the entry. -/
theorem upkeep_of_ne {w : Maintained V} {e : Upkeep} (hsweep : e ≠ .sweepExpired)
    (hsettle : ∀ j age intent, e = .settle j → w.sweeps j ≠ .settling age intent) :
    (w.upkeep e).key.entry = w.key.entry ∧ (w.upkeep e).released = w.released := by
  cases e with
  | tick d => exact ⟨rfl, rfl⟩
  | sweepExpired => exact absurd rfl hsweep
  | recover j age =>
    simp only [upkeep]
    split <;> exact ⟨rfl, rfl⟩
  | scan j =>
    simp only [upkeep]
    split <;> exact ⟨rfl, rfl⟩
  | settle j =>
    simp only [upkeep]
    split
    · rename_i age intent hj
      exact absurd hj (hsettle j age intent rfl)
    · exact ⟨rfl, rfl⟩

theorem upkeep_settle {w : Maintained V} {j age : ℕ} {intent : CommitIntent}
    (h : w.sweeps j = .settling age intent) :
    (w.upkeep (.settle j)).key.entry = (w.settled intent.kind).key.entry ∧
      (w.upkeep (.settle j)).released = (w.settled intent.kind).released := by
  simp only [upkeep, h]
  exact ⟨rfl, rfl⟩

end Maintained

/-! ## Intents -/

/-- The entry is `Prepared` when it carries an intent, or it is `Failed` and the intent is one of a
move whose claim was released. -/
def Attributed (e : ControlEntry) (released : Bool) : Prop :=
  ∀ intent ∈ e.intent,
    e.state = .prepared ∨ (e.state = .failed ∧ released = true ∧ intent.kind = .move)

section

variable {e : ControlEntry} {released : Bool}

theorem attributed_of_none (h : e.intent = none) : Attributed e released := by
  simp [Attributed, h]

theorem attributed_of_prepared (h : e.state = .prepared) : Attributed e released :=
  fun _ _ => Or.inl h

theorem attributed_iff_none (hp : e.state ≠ .prepared) (hf : e.state ≠ .failed) :
    Attributed e released ↔ e.intent = none := by
  simp [Attributed, hp, hf, Option.eq_none_iff_forall_not_mem]

theorem attributed_iff_of_failed (h : e.state = .failed) :
    Attributed e released ↔ ∀ intent ∈ e.intent, released = true ∧ intent.kind = .move := by
  simp [Attributed, h]

end

/-- An intent is outstanding on a `Prepared` entry only, or on one that
`release_population_claim` has turned to `Failed`; so a `Ready` entry has none, and no eviction is
refused for one. -/
structure IntentDiscipline (w : Maintained V) : Prop where
  attributed : Attributed w.key.entry w.released
  ready : w.key.entry.state = .ready → w.key.entry.intent = none
  evictable : w.key.entry.state = .ready → w.key.entry.populationOwner = false →
    w.key.entry.reserveEviction.1 = true

theorem intentDiscipline_iff {w : Maintained V} :
    IntentDiscipline w ↔ Attributed w.key.entry w.released := by
  refine ⟨fun h => h.attributed, fun h => ?_⟩
  have hready : w.key.entry.state = .ready → w.key.entry.intent = none := by
    intro hs
    exact (attributed_iff_none (by simp [hs]) (by simp [hs])).1 h
  refine ⟨h, hready, ?_⟩
  intro hs ho
  simp [ControlEntry.reserveEviction, hs, ho, hready hs]

/-- No accepted `publish`, no granted `acquire`, no `set_state`, `release` or `invalidate` meets an
outstanding intent, and no `fail_with_error` one but that of a released move. -/
def LeavesNoIntent (w : Maintained V) : Req V → Prop
  | .publish g _ _ => w.key.entry.generation = g → w.key.entry.intent = none
  | .acquire _ => w.key.entry.state.isClaimable = true → w.key.entry.intent = none
  | .setState _ | .release | .invalidate => w.key.entry.intent = none
  | .failWithError _ => ∀ intent ∈ w.key.entry.intent, w.released = true ∧ intent.kind = .move
  | _ => True

/-- No `release_population_claim` that takes effect meets the intent of a write. -/
def ReleasesMove (w : Maintained V) : Upkeep → Prop
  | .settle j =>
    match w.sweeps j with
    | .settling _ intent =>
      intent.kind = .move → w.key.entry.state = .prepared → w.key.entry.populationOwner = true →
        ∀ outstanding ∈ w.key.entry.intent, outstanding.kind = .move
    | _ => True
  | _ => True

theorem KeyWorld.intent_of_none {w : KeyWorld V} (h : w.slot = none) : w.entry.intent = none := by
  simp [entry, h]

theorem attributed_exec_iff {w w' : Maintained V} {q : Req V} {o : Outcome V} {a : q.Answer}
    (h : w.exec q o = some (a, w')) (hq : q.MarksOnlyStale)
    (hw : Attributed w.key.entry w.released) :
    Attributed w'.key.entry w'.released ↔ LeavesNoIntent w q := by
  obtain ⟨hexec, hr⟩ := Maintained.exec_eq_some h
  have hkeep : q.prepares a = false → w'.key.entry = w.key.entry →
      Attributed w'.key.entry w'.released := by
    intro hp he
    rw [he, hr, hp]
    simpa using hw
  cases q with
  | prepare tier kind =>
    rcases KeyWorld.exec_prepare hexec with ⟨e, rfl, hk, -⟩ | ⟨-, hk⟩
    · exact iff_of_true (hkeep rfl (by rw [hk])) trivial
    · rw [hk]
      exact iff_of_true (attributed_of_prepared rfl) trivial
  | acquire tier =>
    rcases KeyWorld.exec_acquire hexec with ⟨e, -, hk, hn⟩ | ⟨-, hk⟩
    · exact iff_of_true (hkeep rfl (by rw [hk])) fun _ => KeyWorld.intent_of_none hn
    · rw [hk, KeyWorld.putEntry_entry]
      cases hc : w.key.entry.state.isClaimable with
      | false =>
        rw [ControlEntry.acquire_of_not_claimable hc]
        refine iff_of_true ?_ (by simp [LeavesNoIntent, hc])
        simpa [hr, Req.prepares] using hw
      | true =>
        rw [ControlEntry.acquire_of_claimable hc, attributed_iff_none (by simp) (by simp)]
        simp [LeavesNoIntent, hc]
  | setState state =>
    obtain rfl : state = .stale := hq
    rcases KeyWorld.exec_setState hexec with ⟨hk, hn⟩ | hk
    · exact iff_of_true (hkeep rfl (by rw [hk])) (KeyWorld.intent_of_none hn)
    · rw [hk, KeyWorld.putEntry_entry, attributed_iff_none (by simp) (by simp)]
      exact Iff.rfl
  | publish g tier ttl =>
    rcases KeyWorld.exec_publish hexec with ⟨e, -, hk, hn⟩ | ⟨-, hg, hk⟩
    · refine iff_of_true (hkeep rfl (by rw [hk])) fun hg => ?_
      rcases hn with hn | hne
      · exact KeyWorld.intent_of_none hn
      · exact absurd hg.symm hne
    · rw [hk, KeyWorld.putEntry_entry, attributed_iff_none (by simp) (by simp)]
      simp [LeavesNoIntent, hg]
  | failWithError e =>
    rcases KeyWorld.exec_failWithError hexec with ⟨hn, hk⟩ | ⟨-, hk⟩
    · refine iff_of_true (hkeep rfl (by rw [hk])) ?_
      simp [LeavesNoIntent, KeyWorld.intent_of_none hn]
    · rw [hk, KeyWorld.putEntry_entry, attributed_iff_of_failed (by simp), hr]
      simp [LeavesNoIntent, Req.prepares]
  | release =>
    obtain ⟨-, ⟨hn, hk⟩ | ⟨-, hk⟩⟩ := KeyWorld.exec_release hexec
    · exact iff_of_true (hkeep rfl (by rw [hk])) (KeyWorld.intent_of_none hn)
    · rw [hk, KeyWorld.putEntry_entry, attributed_iff_none (by simp) (by simp)]
      exact Iff.rfl
  | invalidate =>
    obtain ⟨-, ⟨hn, hk⟩ | ⟨-, hk⟩⟩ := KeyWorld.exec_invalidate hexec
    · exact iff_of_true (hkeep rfl (by rw [hk])) (KeyWorld.intent_of_none hn)
    · rw [hk, KeyWorld.putEntry_entry, attributed_iff_none (by simp) (by simp)]
      exact Iff.rfl
  | commit token ttl =>
    rcases KeyWorld.exec_commit hexec with ⟨e, -, hk, -⟩ | ⟨-, -, -, hk⟩
    · exact iff_of_true (hkeep rfl (by rw [hk])) trivial
    · rw [hk]
      exact iff_of_true (attributed_of_none rfl) trivial
  | abort token e =>
    rcases KeyWorld.exec_abort hexec with ⟨-, hk⟩ | ⟨-, hk⟩
    · exact iff_of_true (hkeep rfl (by rw [hk])) trivial
    · rw [hk]
      exact iff_of_true (attributed_of_none rfl) trivial
  | abortProvenClean token e =>
    rcases KeyWorld.exec_abortProvenClean hexec with ⟨-, hk⟩ | ⟨-, hk⟩
    · exact iff_of_true (hkeep rfl (by rw [hk])) trivial
    · rw [hk]
      exact iff_of_true (attributed_of_none rfl) trivial
  | reserveEviction address =>
    rcases KeyWorld.exec_reserveEviction hexec with ⟨hk, -⟩ | ⟨-, hev, hk⟩
    · exact iff_of_true (hkeep rfl (by rw [hk])) trivial
    · rw [hk]
      exact iff_of_true (attributed_of_none hev.2.2) trivial
  | peek | evictionCandidate | removeIfAddress | tierGet | tierSet | tierRemove | tierContains
  | fetch | register | notified | sleep | yieldNow | tierHealth | record =>
    exact iff_of_true (hkeep rfl (KeyWorld.exec_entry rfl hexec)) trivial

theorem attributed_upkeep_iff {w : Maintained V} (e : Upkeep)
    (hw : Attributed w.key.entry w.released) :
    Attributed (w.upkeep e).key.entry (w.upkeep e).released ↔ ReleasesMove w e := by
  by_cases hsettle : ∃ j age intent, e = .settle j ∧ w.sweeps j = .settling age intent
  · obtain ⟨j, age, intent, rfl, hj⟩ := hsettle
    obtain ⟨he, hr⟩ := Maintained.upkeep_settle hj
    rw [he, hr]
    simp only [ReleasesMove, hj]
    cases intent.kind with
    | write =>
      rw [Maintained.settled_write_entry]
      refine iff_of_true ?_ (by simp)
      unfold ControlEntry.abortIntentByAddress
      split_ifs
      · exact hw
      · exact hw
      · exact attributed_of_none rfl
    | move =>
      rw [Maintained.settled_move_entry, Maintained.settled_move_released]
      unfold ControlEntry.releasePopulationClaim
      split_ifs with hidle
      · refine iff_of_true (by simpa using hw) fun _ hp ho => ?_
        rcases hidle with hs | hs
        · exact absurd hp hs
        · simp [ho] at hs
      · simp only [not_or, not_not, Bool.not_eq_false] at hidle
        rw [attributed_iff_of_failed rfl]
        simp [hidle]
  · have hmeets : ReleasesMove w e := by
      cases e with
      | settle j =>
        simp only [ReleasesMove]
        split
        · rename_i age intent hj
          exact absurd ⟨j, age, intent, rfl, hj⟩ hsettle
        · trivial
      | _ => trivial
    refine iff_of_true ?_ hmeets
    by_cases hsweep : e = .sweepExpired
    · subst hsweep
      rw [Maintained.upkeep_sweepExpired_entry]
      unfold ControlEntry.sweepExpired
      split_ifs with _ hready
      · exact hw
      · have hnone : w.key.entry.intent = none :=
          (attributed_iff_none (by simp [hready.1]) (by simp [hready.1])).1 hw
        exact attributed_of_none hnone
      · exact hw
    · obtain ⟨he, hr⟩ := Maintained.upkeep_of_ne hsweep fun j age intent hj hs =>
        hsettle ⟨j, age, intent, hj, hs⟩
      rw [he, hr]
      exact hw

/-- **Intents are kept in order by exactly the runs whose steps leave none behind.** From a key that
nobody has written, under any calls, drops, expiry sweeps and recovery sweeps, every state keeps the
intent discipline if and only if no step meets an intent that it does not clear. -/
theorem intentDiscipline_iff_leavesNoIntent (tiers : ℕ) (address : KeyAddress)
    (schedule : List (Duty V)) :
    Run.Along (maintained V tiers).step
        (fun s duty => IntentDiscipline ((maintained V tiers).step s duty).world)
        (.initial { key := .empty address }) schedule ↔
      Run.Along (maintained V tiers).step (Meets tiers LeavesNoIntent ReleasesMove)
        (.initial { key := .empty address }) schedule := by
  simp only [intentDiscipline_iff]
  exact along_keeps_iff_meets (P := fun w => Attributed w.key.entry w.released)
    attributed_exec_iff attributed_upkeep_iff (attributed_of_none rfl) schedule

/-- A recovery sweep of age zero comes between the `prepare` and the commit of a `promote`, and a
`get_or_fetch` populates the key after it. -/
def populatedAfterRecovery : List (Duty ℕ) :=
  [.start 0 (.set (.pinned .L1 none) 1),
    .run 0 {}, .run 0 {}, .run 0 {}, .run 0 {}, .run 0 {}, .run 0 {},
    .start 1 (.promote (.pinned .L1 none)), .run 1 {}, .run 1 {},
    .env (.recover 0 0), .env (.scan 0), .env (.settle 0),
    .start 2 (.getOrFetch (.pinned .L0 none)),
    .run 2 {}, .run 2 { fetched := .ok 7 }, .run 2 {}, .run 2 {}, .run 2 {}]

/-- The `Ready` entry still carries the intent of the move, and cannot be evicted. -/
theorem populatedAfterRecovery_keeps_intent :
    ((maintained ℕ 2).run .unwritten populatedAfterRecovery).world.key.entry.state = .ready ∧
      ((maintained ℕ 2).run .unwritten
        populatedAfterRecovery).world.key.entry.populationOwner = false ∧
      ((maintained ℕ 2).run .unwritten populatedAfterRecovery).world.key.entry.intent ≠ none ∧
      ((maintained ℕ 2).run .unwritten
        populatedAfterRecovery).world.key.entry.reserveEviction.1 = false := by
  decide +kernel

/-! ## Owners -/

/-- The entry has an owner exactly while it is `InFlight` or `Prepared`. -/
def OwnershipDiscipline (e : ControlEntry) : Prop := e.populationOwner = true ↔ e.state.Busy

instance : DecidablePred OwnershipDiscipline := fun _ => inferInstanceAs (Decidable (_ ↔ _))

theorem ownershipDiscipline_of_owned {e : ControlEntry} (ho : e.populationOwner = true)
    (hs : e.state.Busy) : OwnershipDiscipline e := iff_of_true ho hs

theorem ownershipDiscipline_iff_of_unowned {e : ControlEntry} (ho : e.populationOwner = false) :
    OwnershipDiscipline e ↔ ¬e.state.Busy := by
  simp [OwnershipDiscipline, ho]

/-- No `set_state` meets an entry that is `InFlight` or `Prepared`, and no clean abort that takes
effect one that was `InFlight` or `Prepared` when it was prepared. -/
def LeavesNoOwner (w : Maintained V) : Req V → Prop
  | .setState _ => ¬w.key.entry.state.Busy
  | .abortProvenClean _ _ =>
    w.key.entry.state = .prepared → ¬w.key.entry.intentPrevState.Busy
  | _ => True

theorem ownershipDiscipline_exec_iff {w w' : Maintained V} {q : Req V} {o : Outcome V}
    {a : q.Answer} (h : w.exec q o = some (a, w')) (hq : q.MarksOnlyStale)
    (hw : OwnershipDiscipline w.key.entry) :
    OwnershipDiscipline w'.key.entry ↔ LeavesNoOwner w q := by
  obtain ⟨hexec, -⟩ := Maintained.exec_eq_some h
  have hkeep : w'.key.entry = w.key.entry → OwnershipDiscipline w'.key.entry := by
    intro he
    rw [he]
    exact hw
  -- the methods that release the entry leave it in a state nobody works on
  have hfree : ∀ {e}, w'.key = w.key.putEntry e → e.populationOwner = false → ¬e.state.Busy →
      OwnershipDiscipline w'.key.entry := by
    intro e he ho hs
    rw [he, KeyWorld.putEntry_entry]
    exact (ownershipDiscipline_iff_of_unowned ho).2 hs
  cases q with
  | setState state =>
    obtain rfl : state = .stale := hq
    rcases KeyWorld.exec_setState hexec with ⟨hk, hn⟩ | hk
    · refine iff_of_true (hkeep (by rw [hk])) ?_
      simp [LeavesNoOwner, KeyWorld.entry, hn, EntryState.Busy]
    · rw [hk, KeyWorld.putEntry_entry, LeavesNoOwner, ← not_congr hw]
      simp [OwnershipDiscipline, EntryState.Busy]
  | abortProvenClean token e =>
    rcases KeyWorld.exec_abortProvenClean hexec with ⟨hs, hk⟩ | ⟨hs, hk⟩
    · exact iff_of_true (hkeep (by rw [hk])) fun h => absurd h hs
    · rw [hk, KeyWorld.putEntry_entry, ownershipDiscipline_iff_of_unowned (by simp)]
      simp [LeavesNoOwner, hs]
  | acquire tier =>
    refine iff_of_true ?_ trivial
    rcases KeyWorld.exec_acquire hexec with ⟨e, -, hk, -⟩ | ⟨-, hk⟩
    · exact hkeep (by rw [hk])
    · rw [hk, KeyWorld.putEntry_entry]
      cases hc : w.key.entry.state.isClaimable with
      | false =>
        rw [ControlEntry.acquire_of_not_claimable hc]
        exact hw
      | true =>
        rw [ControlEntry.acquire_of_claimable hc]
        exact ownershipDiscipline_of_owned rfl (Or.inl rfl)
  | prepare tier kind =>
    refine iff_of_true ?_ trivial
    rcases KeyWorld.exec_prepare hexec with ⟨e, -, hk, -⟩ | ⟨-, hk⟩
    · exact hkeep (by rw [hk])
    · rw [hk]
      exact ownershipDiscipline_of_owned rfl (Or.inr rfl)
  | publish g tier ttl =>
    refine iff_of_true ?_ trivial
    rcases KeyWorld.exec_publish hexec with ⟨e, -, hk, -⟩ | ⟨-, -, hk⟩
    · exact hkeep (by rw [hk])
    · exact hfree hk rfl (by simp [EntryState.Busy])
  | failWithError e =>
    refine iff_of_true ?_ trivial
    rcases KeyWorld.exec_failWithError hexec with ⟨-, hk⟩ | ⟨-, hk⟩
    · exact hkeep (by rw [hk])
    · exact hfree hk rfl (by simp [EntryState.Busy])
  | release =>
    refine iff_of_true ?_ trivial
    obtain ⟨-, ⟨-, hk⟩ | ⟨-, hk⟩⟩ := KeyWorld.exec_release hexec
    · exact hkeep (by rw [hk])
    · exact hfree hk rfl (by simp [EntryState.Busy])
  | invalidate =>
    refine iff_of_true ?_ trivial
    obtain ⟨-, ⟨-, hk⟩ | ⟨-, hk⟩⟩ := KeyWorld.exec_invalidate hexec
    · exact hkeep (by rw [hk])
    · exact hfree hk rfl (by simp [EntryState.Busy])
  | commit token ttl =>
    refine iff_of_true ?_ trivial
    rcases KeyWorld.exec_commit hexec with ⟨e, -, hk, -⟩ | ⟨-, -, -, hk⟩
    · exact hkeep (by rw [hk])
    · exact hfree hk rfl (by simp [EntryState.Busy])
  | abort token e =>
    refine iff_of_true ?_ trivial
    rcases KeyWorld.exec_abort hexec with ⟨-, hk⟩ | ⟨-, hk⟩
    · exact hkeep (by rw [hk])
    · exact hfree hk rfl (by simp [EntryState.Busy])
  | reserveEviction address =>
    refine iff_of_true ?_ trivial
    rcases KeyWorld.exec_reserveEviction hexec with ⟨hk, -⟩ | ⟨-, hev, hk⟩
    · exact hkeep (by rw [hk])
    · exact hfree hk hev.2.1 (by simp [EntryState.Busy])
  | peek | evictionCandidate | removeIfAddress | tierGet | tierSet | tierRemove | tierContains
  | fetch | register | notified | sleep | yieldNow | tierHealth | record =>
    exact iff_of_true (hkeep (KeyWorld.exec_entry rfl hexec)) trivial

theorem ownershipDiscipline_upkeep {w : Maintained V} (e : Upkeep)
    (hw : OwnershipDiscipline w.key.entry) : OwnershipDiscipline (w.upkeep e).key.entry := by
  by_cases hsettle : ∃ j age intent, e = .settle j ∧ w.sweeps j = .settling age intent
  · obtain ⟨j, age, intent, rfl, hj⟩ := hsettle
    rw [(Maintained.upkeep_settle hj).1]
    cases intent.kind with
    | write =>
      rw [Maintained.settled_write_entry]
      unfold ControlEntry.abortIntentByAddress
      split_ifs
      · exact hw
      · exact hw
      · exact (ownershipDiscipline_iff_of_unowned rfl).2 (by simp [EntryState.Busy])
    | move =>
      rw [Maintained.settled_move_entry]
      unfold ControlEntry.releasePopulationClaim
      split_ifs
      · exact hw
      · exact (ownershipDiscipline_iff_of_unowned rfl).2 (by simp [EntryState.Busy])
  · by_cases hsweep : e = .sweepExpired
    · subst hsweep
      rw [Maintained.upkeep_sweepExpired_entry]
      unfold ControlEntry.sweepExpired
      split_ifs with _ hready
      · exact hw
      · have ho : w.key.entry.populationOwner = false := by
          simpa [OwnershipDiscipline, EntryState.Busy, hready.1] using hw
        exact (ownershipDiscipline_iff_of_unowned (e := w.key.entry.setState .stale) ho).2
          (by simp [EntryState.Busy])
      · exact hw
    · rw [(Maintained.upkeep_of_ne hsweep fun j age intent hj hs =>
        hsettle ⟨j, age, intent, hj, hs⟩).1]
      exact hw

/-- **Owner and state stay in step in exactly the runs whose steps leave no owner behind.** From a
key that nobody has written, under any calls, drops, expiry sweeps and recovery sweeps, every state
keeps the ownership discipline if and only if no `set_state` meets an entry somebody is at work on,
and no clean abort restores such a state. -/
theorem ownershipDiscipline_iff_leavesNoOwner (tiers : ℕ) (address : KeyAddress)
    (schedule : List (Duty V)) :
    Run.Along (maintained V tiers).step
        (fun s duty => OwnershipDiscipline ((maintained V tiers).step s duty).world.key.entry)
        (.initial { key := .empty address }) schedule ↔
      Run.Along (maintained V tiers).step (Meets tiers LeavesNoOwner fun _ _ => True)
        (.initial { key := .empty address }) schedule := by
  have hinitial : OwnershipDiscipline (KeyWorld.empty address : KeyWorld V).entry := by
    simp [OwnershipDiscipline, EntryState.Busy]
  exact along_keeps_iff_meets (P := fun w => OwnershipDiscipline w.key.entry)
    ownershipDiscipline_exec_iff
    (fun e hw => iff_of_true (ownershipDiscipline_upkeep e hw) trivial) hinitial schedule

/-- A reader finds a value expired, and before it marks it a `set` has prepared a new one. -/
def marksPrepared : List (Duty ℕ) :=
  [.start 0 (.set (.pinned .L0 (some 5)) 1),
    .run 0 {}, .run 0 {}, .run 0 {}, .run 0 {}, .run 0 {}, .run 0 {}, .env (.tick 10),
    .start 1 (.get (.pinned .L0 none)), .run 1 {},
    .start 0 (.set (.pinned .L0 none) 2), .run 0 {}, .run 0 {}, .run 0 {},
    .run 1 {}]

/-- The entry is `Stale`, and has an owner. -/
theorem marksPrepared_keeps_owner :
    ((maintained ℕ 1).run .unwritten marksPrepared).world.key.entry.state = .stale ∧
      ((maintained ℕ 1).run .unwritten marksPrepared).world.key.entry.populationOwner = true := by
  decide +kernel

end TheSix
