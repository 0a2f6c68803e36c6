import TheSix.Control.KeySlot
import TheSix.Lib.Run

/-!
# The generation of a key

The generation is what a late writer is measured by: `commit` and `publish` refuse one that was
handed out, or read, under an older generation. Eight methods advance it, by three mechanisms (a
store of the successor, a fetch-and-add, a read plus one), and nothing but `set_generation` sets it
back.

`advances` lists the calls that advance the generation, `shows` the calls that report one. Along a
history without `set_generation` the generation is the number of advances, modulo its 64 bits
(`generation_run`), so a history that advances it less than `2 ^ 64` times never comes back to an
older one.
-/

namespace TheSix

/-- The generation of a key, as `peek` reports it. -/
def KeySlot.generation (s : KeySlot) : Generation := s.elim 0 (·.generation)

@[simp] theorem KeySlot.generation_none : KeySlot.generation none = 0 := rfl

@[simp] theorem KeySlot.generation_some (e : ControlEntry) :
    KeySlot.generation (some e) = e.generation := rfl

namespace PlaneState

/-- An entry with a prepared intent. -/
def isPrepared (s : PlaneState) : Bool := s.slot.any (·.state == .prepared)

/-- A call that advances the generation. -/
def advances (s : PlaneState) (c : PlaneCall) : Bool :=
  match c.op with
  | .acquire tier =>
    (s.slot.acquire s.address c.room tier c.now).1.toOption.any (·.populationOwner)
  | .release | .invalidate => s.slot.isSome
  | .bumpGeneration => (s.slot.bumpGeneration s.address c.room).1.isOk
  | .releasePopulationClaim => s.slot.releasePopulationClaim.1
  | .reserveEviction => s.slot.reserveEviction.1
  | .abort issued _ => s.tokens[issued]?.isSome && s.isPrepared
  | .abortIntentByAddress error => (s.slot.abortIntentByAddress error).1
  | .resolveIntent _ .abort => s.isPrepared
  | _ => false

/-- The generation a call reports. -/
def shows (s : PlaneState) (c : PlaneCall) : Option Generation :=
  match c.op with
  | .acquire tier =>
    (s.slot.acquire s.address c.room tier c.now).1.toOption.map (·.generation)
  | .peek => some (s.slot.peek c.now).generation
  | .bumpGeneration => (s.slot.bumpGeneration s.address c.room).1.toOption
  | .prepare expected tier kind =>
    (s.prepared c expected tier kind).toOption.map (·.generation)
  | _ => none

/-- The state at the end of a history. -/
def run (s : PlaneState) (calls : List PlaneCall) : PlaneState := calls.foldl step s

/-- How often a history advances the generation. -/
def countAdvances (s : PlaneState) : List PlaneCall → ℕ
  | [] => 0
  | c :: calls => (s.advances c).toNat + (s.step c).countAdvances calls

/-- Nothing was written yet. -/
def unwritten (a : KeyAddress) : PlaneState where
  address := a
  slot := none
  tokens := []

end PlaneState

/-! ## What one call does to the generation -/

namespace KeySlot

variable {β : Type} {s : KeySlot} {f : ControlEntry → β × ControlEntry}

/-- A method that moves the generation of the entry it finds by `n`. -/
theorem generation_withEntry {n : Generation} (m : β)
    (h : ∀ e, s = some e → (f e).2.generation = e.generation + n) (hnone : s = none → n = 0) :
    (s.withEntry m f).2.generation = s.generation + n := by
  cases s with
  | none => simp [hnone rfl]
  | some e => exact h e rfl

/-- A method that moves the generation of the entry it finds or makes by `n`. -/
theorem generation_withOrCreate {n : Generation} (a : KeyAddress) (room : Bool) (m : β)
    (h : ∀ e, s = some e ∨ (s = none ∧ room = true ∧ e = { address := a }) →
      (f e).2.generation = e.generation + n)
    (hfull : s = none → room = false → n = 0) :
    (s.withOrCreate a room m f).2.generation = s.generation + n := by
  cases s with
  | some e => exact h e (Or.inl rfl)
  | none =>
    cases room with
    | false => simp [withOrCreate, hfull rfl rfl]
    | true => simpa [withOrCreate] using h { address := a } (Or.inr ⟨rfl, rfl, rfl⟩)

end KeySlot

namespace PlaneState

open ControlEntry

variable {s : PlaneState} {c : PlaneCall}

theorem abort_generation (e : ControlEntry) (error : CacheError) :
    (e.abort error).generation =
      e.generation + (if (e.state == .prepared) = true then 1 else 0) := by
  by_cases hp : e.state = .prepared
  · simp [ControlEntry.abort, abortInner_of_prepared hp, hp]
  · simp [ControlEntry.abort, abortInner_of_ne hp, hp]

theorem abortProvenClean_generation (e : ControlEntry) (error : CacheError) :
    (e.abortProvenClean error).generation = e.generation := by
  unfold ControlEntry.abortProvenClean abortInner
  split <;> simp

theorem commit_generation (e : ControlEntry) (token : CommitToken) (ttl : Option ℕ) (now : ℕ) :
    (e.commit token ttl now).2.generation = e.generation := by
  unfold ControlEntry.commit
  split <;> simp

/-- **What a call does to the generation**: it advances it by one, or leaves it. -/
theorem generation_slotAfter (h : ∀ g, c.op ≠ .setGeneration g) :
    (s.slotAfter c).generation = s.slot.generation + (if s.advances c = true then 1 else 0) := by
  unfold slotAfter advances
  cases hop : c.op with
  | setGeneration g => exact absurd hop (h g)
  | acquire tier =>
    refine KeySlot.generation_withOrCreate _ _ _ (fun e hor => ?_) fun hs hr => ?_
    · have hans : (s.slot.acquire s.address c.room tier c.now).1 = .ok (e.acquire tier c.now).1 := by
        rcases hor with hs | ⟨hs, hr, rfl⟩
        · simp [KeySlot.acquire, hs]
        · simp [KeySlot.acquire, KeySlot.withOrCreate, hs, hr]
      cases hc : e.state.isClaimable with
      | true => simp [hans, acquire_of_claimable hc, snapshotOf, Except.toOption]
      | false => simp [hans, acquire_of_not_claimable hc, snapshotOf, Except.toOption]
    · simp [KeySlot.acquire, KeySlot.withOrCreate, hs, hr, Except.toOption]
  | publish g tier ttl =>
    refine KeySlot.generation_withEntry _ (fun e _ => ?_) fun _ => rfl
    unfold ControlEntry.publish
    split <;> simp
  | failWithError error => exact KeySlot.generation_withEntry _ (fun e _ => by simp) fun _ => rfl
  | release =>
    exact KeySlot.generation_withEntry _ (fun e hs => by simp [hs]) fun hs => by simp [hs]
  | invalidate =>
    exact KeySlot.generation_withEntry _ (fun e hs => by simp [hs, ControlEntry.invalidate])
      fun hs => by simp [hs]
  | setTier tier => exact KeySlot.generation_withOrCreate _ _ _ (fun e _ => by simp) fun _ _ => rfl
  | setState state => exact KeySlot.generation_withOrCreate _ _ _ (fun e _ => by simp) fun _ _ => rfl
  | peek => simp
  | bumpGeneration =>
    refine KeySlot.generation_withOrCreate _ _ _ (fun e hor => ?_) fun hs hr => ?_
    · have hans : (s.slot.bumpGeneration s.address c.room).1.isOk = true := by
        rcases hor with hs | ⟨hs, hr, rfl⟩
        · simp [KeySlot.bumpGeneration, hs, Except.isOk, Except.toBool]
        · simp [KeySlot.bumpGeneration, KeySlot.withOrCreate, hs, hr, Except.isOk, Except.toBool]
      simp [hans, ControlEntry.bumpGeneration]
    · simp [KeySlot.bumpGeneration, KeySlot.withOrCreate, hs, hr, Except.isOk, Except.toBool]
  | releasePopulationClaim =>
    refine KeySlot.generation_withEntry _ (fun e hs => ?_) fun hs => by
      simp [hs, KeySlot.releasePopulationClaim]
    simp only [hs, KeySlot.releasePopulationClaim, KeySlot.withEntry_some,
      ControlEntry.releasePopulationClaim]
    split <;> simp
  | reserveEviction =>
    refine KeySlot.generation_withEntry _ (fun e hs => ?_) fun hs => by
      simp [hs, KeySlot.reserveEviction]
    simp only [hs, KeySlot.reserveEviction, KeySlot.withEntry_some, ControlEntry.reserveEviction]
    by_cases h₁ : e.state ≠ .ready ∨ e.populationOwner = true
    · simp [h₁]
    · by_cases h₂ : e.intent.isSome = true <;> simp [h₁, h₂]
  | prepare expected tier kind =>
    refine KeySlot.generation_withOrCreate _ _ _ (fun e _ => ?_) fun _ _ => rfl
    unfold ControlEntry.prepare
    split <;> simp
  | commit issued ttl =>
    dsimp only
    cases s.tokens[issued]? with
    | none => simp
    | some token =>
      exact KeySlot.generation_withEntry _ (fun e _ => by simp [commit_generation]) fun _ => rfl
  | abort issued error =>
    rcases ht : s.tokens[issued]? with _ | token
    · simp only [ht, Option.isSome_none, Bool.false_and, Bool.false_eq_true, if_false, add_zero]
    · simp only [ht, Option.isSome_some, Bool.true_and]
      refine KeySlot.generation_withEntry _ (fun e hs => ?_) fun hs => by simp [isPrepared, hs]
      simp [abort_generation, isPrepared, hs]
  | abortProvenClean issued error =>
    dsimp only
    cases s.tokens[issued]? with
    | none => simp
    | some token =>
      exact KeySlot.generation_withEntry _ (fun e _ => by simp [abortProvenClean_generation])
        fun _ => rfl
  | sweepExpired =>
    refine KeySlot.generation_withEntry _ (fun e _ => ?_) fun _ => rfl
    unfold ControlEntry.sweepExpired
    by_cases h₁ : e.tier.isAuthorityRung = true
    · simp [h₁]
    · by_cases h₂ : e.state = .ready ∧ e.isExpired c.now = true <;> simp [h₁, h₂]
  | abortIntentByAddress error =>
    refine KeySlot.generation_withEntry _ (fun e hs => ?_) fun hs => by
      simp [hs, KeySlot.abortIntentByAddress]
    simp only [hs, KeySlot.abortIntentByAddress, KeySlot.withEntry_some,
      ControlEntry.abortIntentByAddress]
    by_cases h₁ : e.intent.isNone = true
    · simp [h₁]
    · by_cases h₂ : e.state = .prepared <;> simp [h₁, h₂]
  | resolveIntent intent direction =>
    cases direction with
    | abort =>
      refine KeySlot.generation_withEntry _ (fun e hs => ?_) fun hs => by simp [isPrepared, hs]
      simp [abort_generation, isPrepared, hs]
    | completeForward =>
      exact KeySlot.generation_withEntry _ (fun e _ => by simp [commit_generation]) fun _ => rfl
    | externalReconciliation => simp

/-! ## Histories -/

theorem run_append (s : PlaneState) (as bs : List PlaneCall) :
    s.run (as ++ bs) = (s.run as).run bs := List.foldl_append

theorem countAdvances_append (s : PlaneState) (as bs : List PlaneCall) :
    s.countAdvances (as ++ bs) = s.countAdvances as + (s.run as).countAdvances bs := by
  induction as generalizing s with
  | nil => simp [countAdvances, run]
  | cons c as ih =>
    simp only [List.cons_append, countAdvances, ih, run, List.foldl_cons]
    omega

/-- The generation is the number of advances, modulo its 64 bits. -/
theorem generation_run (s : PlaneState) {calls : List PlaneCall}
    (h : ∀ c ∈ calls, ∀ g, c.op ≠ .setGeneration g) :
    (s.run calls).slot.generation = s.slot.generation + .ofNat (s.countAdvances calls) := by
  induction calls generalizing s with
  | nil => simp [run, countAdvances]
  | cons c calls ih =>
    have hstep := generation_slotAfter (s := s) (h c List.mem_cons_self)
    have hrest := ih (s.step c) fun d hd => h d (List.mem_cons_of_mem c hd)
    have hrun : s.run (c :: calls) = (s.step c).run calls := rfl
    have hslot : (s.step c).slot = s.slotAfter c := rfl
    rw [hrun, hrest, hslot, hstep, countAdvances, UInt64.ofNat_add, add_assoc]
    congr 2
    cases s.advances c <;> rfl

variable {a : KeyAddress} {calls : List PlaneCall}

/-- While it is advanced less than `2 ^ 64` times, the generation is the number of advances. -/
theorem generation_run_unwritten (h : ∀ c ∈ calls, ∀ g, c.op ≠ .setGeneration g)
    (hcount : (unwritten a).countAdvances calls < 2 ^ 64) :
    ((unwritten a).run calls).slot.generation.toNat = (unwritten a).countAdvances calls := by
  have hnone : (unwritten a).slot.generation = 0 := rfl
  rw [generation_run _ h, hnone, zero_add, UInt64.toNat_ofNat']
  exact Nat.mod_eq_of_lt hcount

/-- What a call reports is the generation it leaves. -/
theorem eq_of_shows {g : Generation} (h : s.shows c = some g) :
    g = (s.step c).slot.generation := by
  have hslot : (s.step c).slot = s.slotAfter c := rfl
  rw [hslot]
  unfold shows at h
  unfold slotAfter
  cases hop : c.op <;> rw [hop] at h <;> try cases h
  case acquire tier =>
    rcases hs : s.slot with _ | e <;> simp only [hs, KeySlot.acquire, KeySlot.withOrCreate] at h ⊢
    · cases hr : c.room
      · simp [hr, Except.toOption] at h
      · simpa [hr, Except.toOption, ControlEntry.acquire, snapshotOf] using h.symm
    · simp only [Except.toOption, Option.map_some, Option.some.injEq] at h
      cases hc : e.state.isClaimable with
      | true => simpa [acquire_of_claimable hc, snapshotOf] using h.symm
      | false => simpa [acquire_of_not_claimable hc, snapshotOf] using h.symm
  case peek => cases s.slot <;> rfl
  case bumpGeneration =>
    rcases hs : s.slot with _ | e <;>
      simp only [hs, KeySlot.bumpGeneration, KeySlot.withOrCreate] at h ⊢
    · cases hr : c.room
      · simp [hr, Except.toOption] at h
      · simpa [hr, Except.toOption, ControlEntry.bumpGeneration] using h.symm
    · simpa [Except.toOption, ControlEntry.bumpGeneration] using h.symm
  case prepare expected tier kind =>
    simp only [prepared] at h
    rcases hs : s.slot with _ | e <;> simp only [hs, KeySlot.prepare, KeySlot.withOrCreate] at h ⊢
    · cases hr : c.room
      · simp [hr, Except.toOption] at h
      · simp only [hr, if_true, ControlEntry.prepare] at h ⊢
        split at h
        · cases h
        · rename_i hne
          simpa [hne, Except.toOption, ControlEntry.tokenFor] using h.symm
    · simp only [ControlEntry.prepare] at h ⊢
      split at h
      · cases h
      · rename_i hne
        simpa [hne, Except.toOption, ControlEntry.tokenFor] using h.symm

/-- A generation that a call of the history has reported. -/
def Observed (a : KeyAddress) (calls : List PlaneCall) (g : Generation) : Prop :=
  ∃ past c later, calls = past ++ c :: later ∧ ((unwritten a).run past).shows c = some g

/-- A `prepare` reports the generation of the token it issues. -/
theorem observed_of_mem_tokens {token : CommitToken} (h : token ∈ ((unwritten a).run calls).tokens) :
    Observed a calls token.generation := by
  induction calls using List.reverseRecOn with
  | nil => simp [run, unwritten] at h
  | append_singleton calls c ih =>
    rw [run_append] at h
    have hmem : token ∈ ((unwritten a).run calls).tokens ∨
        ((unwritten a).run calls).shows c = some token.generation := by
      simp only [run, List.foldl_cons, List.foldl_nil, step] at h
      split at h
      · rename_i expected tier kind hop
        split at h
        · rename_i issued hok
          rcases List.mem_append.1 h with h | h
          · exact Or.inl h
          · obtain rfl := List.mem_singleton.1 h
            refine Or.inr ?_
            simp only [run] at hok ⊢
            simp [shows, hop, hok, Except.toOption]
        · exact Or.inl h
      · exact Or.inl h
    rcases hmem with hmem | hshows
    · obtain ⟨past, d, later, rfl, hd⟩ := ih hmem
      exact ⟨past, d, later ++ [c], by simp, hd⟩
    · exact ⟨calls, c, [], rfl, hshows⟩

/-- An observed generation is no later than the one at the end of the history. -/
theorem Observed.le {g : Generation} (hg : Observed a calls g)
    (h : ∀ c ∈ calls, ∀ g, c.op ≠ .setGeneration g)
    (hcount : (unwritten a).countAdvances calls < 2 ^ 64) :
    g.toNat ≤ (unwritten a).countAdvances calls := by
  obtain ⟨past, c, later, rfl, hshows⟩ := hg
  have hsplit : past ++ c :: later = (past ++ [c]) ++ later := by simp
  rw [hsplit] at h hcount ⊢
  have happ := countAdvances_append (unwritten a) (past ++ [c]) later
  have hg : g = ((unwritten a).run (past ++ [c])).slot.generation := by
    rw [run_append]
    exact eq_of_shows hshows
  rw [hg, generation_run_unwritten (fun d hd => h d (List.mem_append_left later hd)) (by omega)]
  omega

/-- An entry at another generation refuses a `commit` and a `publish`, and is left as it was. -/
theorem refused_of_ne {s : KeySlot} (hs : s.isSome = true) :
    (∀ token : CommitToken, token.generation ≠ s.generation → ∀ ttl now,
      s.commit token ttl now = (.error .staleGeneration, s)) ∧
    (∀ g : Generation, g ≠ s.generation → ∀ tier ttl now,
      s.publish g tier ttl now = (.error .staleGeneration, s)) := by
  obtain ⟨e, rfl⟩ := Option.isSome_iff_exists.1 hs
  constructor
  · intro token hne ttl now
    rw [KeySlot.commit, KeySlot.withEntry_some, commit_of_dead fun hlive => hne hlive.1.symm]
  · intro g hne tier ttl now
    rw [KeySlot.publish, KeySlot.withEntry_some, publish_of_ne hne]

/-- **The generation is a fence.** Along every history without `set_generation` that advances it
less than `2 ^ 64` times, the generation of a key never decreases; and once a call has advanced it,
every token issued before that call and every generation reported before it are refused, at the
end of whatever follows, and change nothing. -/
theorem refused_of_advanced {calls : List PlaneCall} (h : ∀ c ∈ calls, ∀ g, c.op ≠ .setGeneration g)
    (hcount : (unwritten a).countAdvances calls < 2 ^ 64) :
    (∀ past mid later, calls = past ++ mid ++ later →
      ((unwritten a).run past).slot.generation ≤ ((unwritten a).run (past ++ mid)).slot.generation) ∧
    ∀ past c later, calls = past ++ c :: later → ((unwritten a).run past).advances c = true →
      (∀ token ∈ ((unwritten a).run past).tokens, ∀ ttl now,
        ((unwritten a).run calls).slot.commit token ttl now =
          (.error .staleGeneration, ((unwritten a).run calls).slot)) ∧
      (∀ g, Observed a past g → ∀ tier ttl now,
        ((unwritten a).run calls).slot.publish g tier ttl now =
          (.error .staleGeneration, ((unwritten a).run calls).slot)) := by
  constructor
  · rintro past mid later rfl
    have h₁ := countAdvances_append (unwritten a) (past ++ mid) later
    have h₂ := countAdvances_append (unwritten a) past mid
    have hmid : ∀ d ∈ past ++ mid, ∀ g, d.op ≠ .setGeneration g :=
      fun d hd => h d (List.mem_append_left later hd)
    rw [UInt64.le_iff_toNat_le, generation_run_unwritten hmid (by omega),
      generation_run_unwritten (fun d hd => hmid d (List.mem_append_left mid hd)) (by omega)]
    omega
  · rintro past c later rfl hadv
    have hpast : ∀ d ∈ past, ∀ g, d.op ≠ .setGeneration g :=
      fun d hd => h d (List.mem_append_left (c :: later) hd)
    -- the advance is counted behind everything that was reported before it
    have hadvanced : (unwritten a).countAdvances past <
        (unwritten a).countAdvances (past ++ c :: later) := by
      rw [countAdvances_append, countAdvances, hadv, Bool.toNat_true]
      omega
    have hgen := generation_run_unwritten h hcount
    have hold : ∀ g, Observed a past g →
        g ≠ ((unwritten a).run (past ++ c :: later)).slot.generation := by
      intro g hg heq
      have hle := hg.le hpast (by omega)
      rw [heq, hgen] at hle
      omega
    have hsome : ((unwritten a).run (past ++ c :: later)).slot.isSome = true := by
      cases hs : ((unwritten a).run (past ++ c :: later)).slot with
      | some e => rfl
      | none =>
        rw [hs, KeySlot.generation_none, UInt64.toNat_zero] at hgen
        omega
    obtain ⟨hcommit, hpublish⟩ := refused_of_ne hsome
    exact ⟨fun token ht => hcommit token (hold _ (observed_of_mem_tokens ht)),
      fun g hg => hpublish g (hold g hg)⟩

/-- A writer prepares, the key is invalidated, and another writer prepares. -/
def overtakenPrepare : List PlaneCall :=
  [⟨1, true, .prepare none .L1 .write⟩, ⟨2, true, .invalidate⟩,
    ⟨3, true, .prepare none .L1 .write⟩]

theorem refused_of_advanced_overtakenPrepare :
    ((unwritten (.of [107] .default)).run overtakenPrepare).slot.commit
        ⟨.of [107] .default, 0, .write, 1⟩ none 4 =
      (.error .staleGeneration, ((unwritten (.of [107] .default)).run overtakenPrepare).slot) := by
  have hset : ∀ c ∈ overtakenPrepare, ∀ g, c.op ≠ .setGeneration g := by simp [overtakenPrepare]
  have hcount : (unwritten (.of [107] .default)).countAdvances overtakenPrepare < 2 ^ 64 := by
    decide +kernel
  exact ((refused_of_advanced hset hcount).2 [⟨1, true, .prepare none .L1 .write⟩]
    ⟨2, true, .invalidate⟩ [⟨3, true, .prepare none .L1 .write⟩] rfl (by decide +kernel)).1 _
    (by decide +kernel) none 4

end PlaneState

end TheSix
