import TheSix.Control.Refinement

/-!
# What a call can do to an entry

`ControlEntry.Step` lists what the methods of the control plane can do to an entry, with the guards
under which they do it. Every call is such a step on the entry of its own address, and leaves the
other entries alone (`Cachelito.WellFormed.slots_step`), so an invariant of entries is proved by
going over the steps once. `sets` restricts the states that `set_state` is called with.
-/

namespace TheSix

/-- What a method can do to an entry. -/
inductive ControlEntry.Step (sets : EntryState → Prop) (e : ControlEntry) : ControlEntry → Prop
  | refl : Step sets e e
  | claim (h : e.state.isClaimable = true) (tier : TierId) (now : ℕ) : Step sets e (e.claimed tier now)
  | publish (tier : TierId) (ttl : Option ℕ) (now : ℕ) : Step sets e (e.published tier ttl now)
  | fail (error : CacheError) : Step sets e (e.failWithError error)
  | release : Step sets e e.release
  | setGeneration (generation : Generation) : Step sets e { e with generation := generation }
  | setTier (tier : TierId) : Step sets e { e with tier := tier }
  | setState {state : EntryState} (h : sets state) : Step sets e (e.setState state)
  | bumpGeneration : Step sets e e.bumpGeneration.2
  | releasePopulationClaim (hs : e.state = .prepared) (ho : e.populationOwner = true) :
      Step sets e e.releasePopulationClaim.2
  | evict (hs : e.state = .ready) (ho : e.populationOwner = false) (hi : e.intent = none) :
      Step sets e e.evicted
  | prepare (intent : CommitIntent) : Step sets e (e.preparedFor intent)
  | commit (hs : e.state = .prepared) (token : CommitToken) (ttl : Option ℕ) (now : ℕ) :
      Step sets e (e.committed token ttl now)
  | abort (hs : e.state = .prepared) (error : CacheError) (clean : Bool) :
      Step sets e (e.aborted error clean)
  | expire (hs : e.state = .ready) : Step sets e (e.setState .stale)

namespace ControlEntry

variable {sets : EntryState → Prop} (e : ControlEntry)

theorem step_acquire (tier : TierId) (now : ℕ) : e.Step sets (e.acquire tier now).2 := by
  cases hc : e.state.isClaimable with
  | false =>
    rw [acquire_of_not_claimable hc]
    exact .refl
  | true =>
    rw [acquire_of_claimable hc]
    exact .claim hc tier now

theorem step_publish (g : Generation) (tier : TierId) (ttl : Option ℕ) (now : ℕ) :
    e.Step sets (e.publish g tier ttl now).2 := by
  unfold publish
  split_ifs
  · exact .refl
  · exact .publish tier ttl now

theorem step_prepare (expected : Option Generation) (tier : TierId) (kind : IntentKind) (now : ℕ) :
    e.Step sets (e.prepare expected tier kind now).2 := by
  unfold prepare
  split_ifs
  · exact .refl
  · exact .prepare _

theorem step_commit (token : CommitToken) (ttl : Option ℕ) (now : ℕ) :
    e.Step sets (e.commit token ttl now).2 := by
  by_cases hlive : e.generation = token.generation ∧ e.state = .prepared
  · rw [commit_of_live hlive.1 hlive.2]
    exact .commit hlive.2 token ttl now
  · rw [commit_of_dead hlive]
    exact .refl

theorem step_abortInner (error : CacheError) (clean : Bool) :
    e.Step sets (e.abortInner error clean) := by
  by_cases hs : e.state = .prepared
  · rw [abortInner_of_prepared hs]
    exact .abort hs error clean
  · rw [abortInner_of_ne hs]
    exact .refl

theorem step_abortIntentByAddress (error : CacheError) :
    e.Step sets (e.abortIntentByAddress error).2 := by
  unfold abortIntentByAddress
  split_ifs with _ hs
  · exact .refl
  · exact .refl
  · exact .abort (not_not.1 hs) error false

theorem step_releasePopulationClaim : e.Step sets e.releasePopulationClaim.2 := by
  by_cases h : e.state = .prepared ∧ e.populationOwner = true
  · exact .releasePopulationClaim h.1 h.2
  · have hidle : e.state ≠ .prepared ∨ e.populationOwner = false := by
      simpa [imp_iff_not_or] using h
    rw [releasePopulationClaim, if_pos hidle]
    exact .refl

theorem step_reserveEviction : e.Step sets e.reserveEviction.2 := by
  unfold reserveEviction
  split_ifs with h₁ h₂
  · exact .refl
  · exact .refl
  · simp only [not_or, not_not, Bool.not_eq_true] at h₁
    exact .evict h₁.1 h₁.2 (by simpa using h₂)

theorem step_sweepExpired (now : ℕ) : e.Step sets (e.sweepExpired now).2 := by
  unfold sweepExpired
  split_ifs with _ hready
  · exact .refl
  · exact .expire hready.1
  · exact .refl

end ControlEntry

/-- What a method can do to the slot of a key. -/
inductive KeySlot.Step (sets : EntryState → Prop) : KeySlot → KeySlot → Prop
  | missing : Step sets none none
  | entry {e e' : ControlEntry} (h : e.Step sets e') : Step sets (some e) (some e')
  | create {a : KeyAddress} {e' : ControlEntry}
      (h : ControlEntry.Step sets { address := a } e') : Step sets none (some e')

namespace KeySlot

variable {sets : EntryState → Prop} {β : Type}

theorem step_refl (s : KeySlot) : s.Step sets s := by
  cases s with
  | none => exact .missing
  | some e => exact .entry .refl

theorem step_withEntry (s : KeySlot) (missing : β) {f : ControlEntry → β × ControlEntry}
    (hf : ∀ e : ControlEntry, e.Step sets (f e).2) : s.Step sets (s.withEntry missing f).2 := by
  cases s with
  | none => exact .missing
  | some e => exact .entry (hf e)

theorem step_withOrCreate (s : KeySlot) (a : KeyAddress) (room : Bool) (full : β)
    {f : ControlEntry → β × ControlEntry} (hf : ∀ e : ControlEntry, e.Step sets (f e).2) :
    s.Step sets (s.withOrCreate a room full f).2 := by
  cases s with
  | some e => exact .entry (hf e)
  | none =>
    cases room with
    | false => exact .missing
    | true => exact .create (hf { address := a })

end KeySlot

/-- The states that a call may store with `set_state`. -/
def EntryOp.Sets (sets : EntryState → Prop) : EntryOp → Prop
  | .setState _ state => sets state
  | _ => True

/-- The same for all calls of the control plane. -/
def TableOp.Sets (sets : EntryState → Prop) : TableOp → Prop
  | .entry op => op.Sets sets
  | _ => True

theorem EntryOp.step {sets : EntryState → Prop} {op : EntryOp} (h : op.Sets sets) (now : ℕ)
    (room : Bool) (s : KeySlot) : s.Step sets (op.onSlot now room s).2 := by
  cases op with
  | acquire a tier => exact s.step_withOrCreate a room _ fun e => e.step_acquire tier now
  | publish a g tier ttl => exact s.step_withEntry _ fun e => e.step_publish g tier ttl now
  | failWithError a error => exact s.step_withEntry _ fun e => .fail error
  | release a => exact s.step_withEntry _ fun e => .release
  | invalidate a => exact s.step_withEntry _ fun e => .release
  | setGeneration a g => exact s.step_withOrCreate a room _ fun e => .setGeneration g
  | setTier a tier => exact s.step_withOrCreate a room _ fun e => .setTier tier
  | setState a state => exact s.step_withOrCreate a room _ fun e => .setState h
  | peek a => exact s.step_refl
  | bumpGeneration a => exact s.step_withOrCreate a room _ fun e => .bumpGeneration
  | releasePopulationClaim a => exact s.step_withEntry _ fun e => e.step_releasePopulationClaim
  | reserveEviction a => exact s.step_withEntry _ fun e => e.step_reserveEviction
  | prepare a g tier kind =>
    exact s.step_withOrCreate a room _ fun e => e.step_prepare g tier kind now
  | commit token ttl => exact s.step_withEntry _ fun e => e.step_commit token ttl now
  | abort token error => exact s.step_withEntry _ fun e => e.step_abortInner error false
  | abortProvenClean token error => exact s.step_withEntry _ fun e => e.step_abortInner error true
  | abortIntentByAddress a error =>
    exact s.step_withEntry _ fun e => e.step_abortIntentByAddress error
  | resolveIntent a intent direction =>
    cases direction with
    | abort =>
      exact s.step_withEntry _ (f := fun e => (Except.ok (), e.abort .uncommittedIntent)) fun e =>
        e.step_abortInner .uncommittedIntent false
    | completeForward =>
      exact s.step_withEntry _ fun e => e.step_commit (intent.tokenFor a) none now
    | externalReconciliation => exact s.step_refl

/-- **A call takes one step on the slot of every key.** -/
theorem Cachelito.WellFormed.slots_step {t : Cachelito} (h : t.WellFormed)
    {sets : EntryState → Prop} {op : TableOp} (hop : op.Sets sets) (now : ℕ) (a : KeyAddress) :
    (t.slots a).Step sets ((t.step (now, op)).slots a) := by
  cases op with
  | entry op =>
    change (t.slots a).Step sets ((t.call now op).2.slots a)
    rw [(h.call now op).slots, Function.update_apply]
    split_ifs with ha
    · subst ha
      exact EntryOp.step hop now _ _
    · exact (t.slots a).step_refl
  | staleIntents i cutoff => exact (t.slots a).step_refl
  | sweepExpired i =>
    change (t.slots a).Step sets ((t.sweepExpiredIn i now).2.slots a)
    rw [(h.sweepExpiredIn i now).2.1]
    dsimp only
    split_ifs
    · exact (t.slots a).step_withEntry _ fun e => e.step_sweepExpired now
    · exact (t.slots a).step_refl

end TheSix
