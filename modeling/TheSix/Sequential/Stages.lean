import TheSix.Manager.Runs

/-!
# One client, stage by stage

What the control-plane entry and the rungs of a key are like in each stage of the protocol when a
single client works on the key. `P` are the values that may be served and `Fd` the values the client
has fetched: the entry serves nothing but values of `P` (`Base`), a call that holds an intent knows
what an abort would restore, and a population that has not claimed the entry leaves it `Ready` over
a rung it may have overwritten, until it is published or fails the entry (`Fits`).

`Fits.answer` says that one answered request leads from stage to stage, when `P` and `Fd` change as
the request says (`Evolves`). Which values `P` has is left to the statement that uses it.
-/

namespace TheSix

open Coroutine

variable {V : Type}

/-- A write that fails with an error that says so has stored nothing. -/
def HonestTier : Served V → Prop
  | ⟨_, _, _, .tierSet rung _ _, .error e, pre, post⟩ =>
    Manager.writeProvablyStoredNothing e = true → post.rungs rung = pre.rungs rung
  | _ => True

instance [DecidableEq V] : DecidablePred (HonestTier (V := V)) := fun ⟨_, _, _, q, a, _, _⟩ => by
  induction q using Req.casesOn
  case tierSet => induction a using Except.casesOn <;> dsimp only [HonestTier] <;> infer_instance
  all_goals exact .isTrue trivial

/-- An entry nobody works on. -/
structure AtRest (e : ControlEntry) : Prop where
  notInFlight : e.state ≠ .inFlight
  notPrepared : e.state ≠ .prepared
  unowned : e.populationOwner = false
  noIntent : e.intent = none

instance (e : ControlEntry) : Decidable (AtRest e) :=
  decidable_of_iff (e.state ≠ .inFlight ∧ e.state ≠ .prepared ∧ e.populationOwner = false ∧
    e.intent = none) ⟨fun ⟨h₁, h₂, h₃, h₄⟩ => ⟨h₁, h₂, h₃, h₄⟩, fun h => ⟨h.1, h.2, h.3, h.4⟩⟩

namespace Sequential

/-- A rung holds a value of `P`, or nothing. -/
def Holds (rungs : TierId → Option V) (P : V → Prop) (rung : TierId) : Prop :=
  ∀ x, rungs rung = some x → P x

theorem holds_store_none {rungs : TierId → Option V} {P : V → Prop} {rung : TierId}
    (h : Holds rungs P rung) (r : TierId) : Holds (Function.update rungs r none) P rung := by
  intro x hx
  rw [Function.update_apply] at hx
  split_ifs at hx
  exact h x hx

/-- The entry is at rest, and what it lets read is of `P`. -/
structure Base (e : ControlEntry) (rungs : TierId → Option V) (P : V → Prop) : Prop where
  rest : AtRest e
  clean : e.state.isReadable = true → Holds rungs P e.tier

/-- The entry is prepared for the token, from a state of rest. -/
structure Holding (e : ControlEntry) (token : CommitToken) : Prop where
  prepared : e.state = .prepared
  generation : e.generation = token.generation
  fromRest : e.intentPrevState ≠ .inFlight ∧ e.intentPrevState ≠ .prepared

/-- A clean abort would restore an entry that lets nothing read but values of `P`. -/
def Restorable (e : ControlEntry) (rungs : TierId → Option V) (P : V → Prop) : Prop :=
  e.intentPrevState.isReadable = true → Holds rungs P e.tier

/-- The entry waits for a publication for generation `g`. -/
structure Awaiting (e : ControlEntry) (g : Generation) : Prop where
  state : e.state = .inFlight ∨ e.state = .ready
  generation : e.generation = g
  noIntent : e.intent = none

/-- What the entry and the rungs are like in each stage. -/
def Fits (e : ControlEntry) (rungs : TierId → Option V) (P Fd : V → Prop) (c : Call V) :
    Stage V → Prop
  | .idle | .marked | .failed | .committed => Base e rungs P
  | .seen s =>
    Base e rungs P ∧ s.state ≠ .inFlight ∧ s.state ≠ .prepared ∧
      (c.Moves → s.state = .ready → e.state = .ready) ∧
      (s.state.isReadable = true → e.state.isReadable = true) ∧ s.tier = e.tier
  | .got _ v => Base e rungs P ∧ (e.state = .ready → ∀ x, v = some x → P x)
  | .checked v => Base e rungs P ∧ ∀ x, v = some x → P x
  | .refused _ s =>
    Base e rungs P ∧ e.state = .ready ∧ s.state = .ready ∧ s.tier = e.tier ∧
      s.generation = e.generation
  | .missed s => Base e rungs P ∧ e.state = .ready ∧ s.generation = e.generation
  | .populating _ g value => Awaiting e g ∧ ∀ v, value = some v → Fd v
  | .filled _ g rung v => Awaiting e g ∧ Fd v ∧ rungs rung = some v
  | .served v => Base e rungs P ∧ P v
  | .writing token rung _ =>
    Holding e token ∧ token.targetTier = rung.asU8 ∧ Restorable e rungs P
  | .wrote token rung _ =>
    Holding e token ∧ token.targetTier = rung.asU8 ∧ ∃ a v, c = .set a v ∧ rungs rung = some v
  | .unwritten token _ error =>
    Holding e token ∧
      (Manager.writeProvablyStoredNothing error = true → Restorable e rungs P)
  | .moving token s dst =>
    Holding e token ∧ token.targetTier = dst.asU8 ∧ c.Moves ∧ Holds rungs P s.tier
  | .carrying token _ dst v =>
    Holding e token ∧ token.targetTier = dst.asU8 ∧ c.Moves ∧ P v
  | .copied token _ dst _ | .cleared token _ dst _ =>
    Holding e token ∧ token.targetTier = dst.asU8 ∧ c.Moves ∧ Holds rungs P dst
  | .undoing token => Holding e token
  | .waiting | .beaten _ _ _ | .retrying _ | .backing _ _ => False

variable {e : ControlEntry} {rungs : TierId → Option V} {P Fd P' Fd' : V → Prop} {c : Call V}
  {st : Stage V}

/-- A call that has nothing to release leaves the entry at rest. -/
theorem Fits.base (h : Fits e rungs P Fd c st) (hst : st.Settled) : Base e rungs P := by
  cases st
  case idle | marked | failed | committed => exact h
  case seen | got | checked | refused | missed | served => exact h.1
  case populating | filled => cases hst.2
  case waiting | beaten | retrying | backing => exact h.elim
  all_goals cases hst.1

/-- A dropped call still has its intent to give up. -/
theorem Fits.cancel (h : Fits e rungs P Fd c st) : Fits e rungs P Fd c st.cancel := by
  cases st
  case writing | wrote | unwritten | moving | carrying | copied | cleared => exact h.1
  case beaten | backing => exact h.elim
  all_goals exact h

theorem Holds.mono {rung : TierId} (h : Holds rungs P rung) (hP : ∀ x, P x → P' x) :
    Holds rungs P' rung := fun x hx => hP x (h x hx)

theorem Base.mono (h : Base e rungs P) (hP : ∀ x, P x → P' x) : Base e rungs P' :=
  ⟨h.rest, fun hr => (h.clean hr).mono hP⟩

theorem Fits.mono (h : Fits e rungs P Fd c st) (hP : ∀ x, P x → P' x) (hFd : ∀ x, Fd x → Fd' x) :
    Fits e rungs P' Fd' c st := by
  cases st
  case idle | marked | failed | committed => exact Base.mono h hP
  case seen | refused | missed => exact ⟨h.1.mono hP, h.2⟩
  case got => exact ⟨h.1.mono hP, fun hr x hx => hP x (h.2 hr x hx)⟩
  case checked => exact ⟨h.1.mono hP, fun x hx => hP x (h.2 x hx)⟩
  case served => exact ⟨h.1.mono hP, hP _ h.2⟩
  case populating => exact ⟨h.1, fun v hv => hFd v (h.2 v hv)⟩
  case filled => exact ⟨h.1, hFd _ h.2.1, h.2.2⟩
  case writing => exact ⟨h.1, h.2.1, fun hr => (h.2.2 hr).mono hP⟩
  case unwritten => exact ⟨h.1, fun he hr => (h.2 he hr).mono hP⟩
  case moving | copied | cleared => exact ⟨h.1, h.2.1, h.2.2.1, h.2.2.2.mono hP⟩
  case carrying => exact ⟨h.1, h.2.1, h.2.2.1, hP _ h.2.2.2⟩
  all_goals exact h

/-! ## The requests -/

section Requests

variable {φ : Phase V} {l : Fn} {o : Outcome V} {w w' : KeyWorld V}

theorem Fits.peek {a : ControlSnapshot} (h : Fits w.entry w.rungs P Fd φ.call φ.stage)
    (hok : φ.allows l .peek) (hexec : w.exec .peek o = some (a, w')) :
    Fits w'.entry w'.rungs P Fd φ.call (Phase.next φ.stage l .peek a) := by
  obtain ⟨hstate, -, htier, -, rfl⟩ := KeyWorld.exec_peek hexec
  rcases hok with hst | ⟨snapshot, v, hst⟩ | hst <;> rw [hst] at h ⊢
  · refine ⟨h, ?_, ?_, fun _ hr => hstate ▸ hr, fun hr => hstate ▸ hr, htier⟩
    · rw [hstate]
      exact h.rest.notInFlight
    · rw [hstate]
      exact h.rest.notPrepared
  · simp only [Phase.next]
    split
    · rename_i hr
      exact ⟨h.1, h.2 (hstate ▸ hr)⟩
    · exact h.1
  · exact h.elim

theorem Fits.acquire {tier : TierId} {a : Except CacheError ControlSnapshot}
    (h : Fits w.entry w.rungs P Fd φ.call φ.stage) (hok : φ.allows l (.acquire tier))
    (hexec : w.exec (.acquire tier) o = some (a, w')) :
    Fits w'.entry w'.rungs P Fd φ.call (Phase.next φ.stage l (.acquire tier) a) := by
  have hbase : Base w.entry w.rungs P := by
    refine h.base ?_
    rcases hok.2 with hst | ⟨s, hst⟩ | hst <;> simp [hst]
  rcases KeyWorld.exec_acquire hexec with ⟨e, rfl, rfl, -⟩ | ⟨rfl, rfl⟩
  · exact hbase
  cases hc : w.entry.state.isClaimable with
  | false =>
    -- at rest, only a `Ready` entry cannot be claimed
    have hready : w.entry.state = .ready := by
      have h₁ := hbase.rest.notInFlight
      have h₂ := hbase.rest.notPrepared
      cases hs : w.entry.state <;> simp_all [EntryState.isClaimable]
    rw [ControlEntry.acquire_of_not_claimable hc]
    simp only [Phase.next, ControlEntry.snapshotOf, Bool.false_eq_true, if_false]
    exact ⟨hbase, hready, hready, rfl, rfl⟩
  | true =>
    rw [ControlEntry.acquire_of_claimable hc]
    simp only [Phase.next, ControlEntry.snapshotOf, if_true]
    exact ⟨⟨Or.inl rfl, rfl, hbase.rest.noIntent⟩, (by simp)⟩

/-- Marking a readable entry stale lets the same be read. -/
theorem base_setState {a : Except CacheError Unit} (h : Base w.entry w.rungs P)
    (hr : w.entry.state.isReadable = true) (hexec : w.exec (.setState .stale) o = some (a, w')) :
    Base w'.entry w'.rungs P := by
  rcases KeyWorld.exec_setState hexec with ⟨rfl, -⟩ | rfl
  · exact h
  · exact ⟨⟨by simp, by simp, by simp [h.rest.unowned], by simp [h.rest.noIntent]⟩, fun _ => h.clean hr⟩

theorem Fits.setState {state : EntryState} {a : Except CacheError Unit}
    (h : Fits w.entry w.rungs P Fd φ.call φ.stage) (hok : φ.allows l (.setState state))
    (hexec : w.exec (.setState state) o = some (a, w')) :
    Fits w'.entry w'.rungs P Fd φ.call (Phase.next φ.stage l (.setState state) a) := by
  obtain ⟨rfl, hst⟩ := hok
  have hbase : Base w.entry w.rungs P := by
    refine h.base ?_
    rcases hst with ⟨s, hst, -⟩ | ⟨s, hst, -⟩ <;> simp [hst]
  rcases hst with ⟨s, hst, hready, hreads⟩ | ⟨s, hst, hready, -⟩
  · rw [hst] at h
    have hbase' : Base w'.entry w'.rungs P := base_setState hbase (h.2.2.2.2.1 (by rw [hready]; rfl)) hexec
    by_cases hl : l = .get
    · rw [hst, hl]
      exact hbase'
    · have hnext : Phase.next φ.stage l (.setState .stale) a = .seen s := by
        rw [hst]
        cases l <;> first | rfl | exact absurd rfl hl
      rw [hnext]
      refine ⟨hbase', h.2.1, h.2.2.1, fun hmoves => absurd hreads (Call.not_reads_of_moves hmoves), ?_⟩
      rcases KeyWorld.exec_setState hexec with ⟨rfl, -⟩ | rfl
      · exact h.2.2.2.2
      · exact ⟨fun _ => rfl, h.2.2.2.2.2⟩
  · rw [hst] at h ⊢
    exact base_setState hbase (by rw [h.2.1]; rfl) hexec

theorem Fits.publish {g : Generation} {tier : TierId} {ttl : Option ℕ} {a : Except CacheError Unit}
    (h : Fits w.entry w.rungs P Fd φ.call φ.stage) (hok : φ.allows l (.publish g tier ttl))
    (hexec : w.exec (.publish g tier ttl) o = some (a, w')) (hP : ∀ x, Fd x → P' x) :
    a = .ok () ∧
      Fits w'.entry w'.rungs P' Fd' φ.call (Phase.next φ.stage l (.publish g tier ttl) a) := by
  obtain ⟨claimed, v, hst⟩ := hok
  rw [hst] at h ⊢
  obtain ⟨hawaiting, hfetched, hv⟩ := h
  rcases KeyWorld.exec_publish hexec with ⟨e, -, -, hnone | hne⟩ | ⟨rfl, -, rfl⟩
  · have hs : w.slot.isSome = true := by
      refine KeyWorld.isSome_of_state ?_
      rcases hawaiting.state with hs | hs <;> simp [hs]
    simp [hnone] at hs
  · exact absurd hawaiting.generation.symm hne
  · refine ⟨rfl, ⟨⟨by simp, by simp, by simp, by simp [hawaiting.noIntent]⟩, ?_⟩, hP v hfetched⟩
    intro _ x hx
    simp only [KeyWorld.putEntry_rungs, KeyWorld.putEntry_entry, ControlEntry.published_tier, hv]
      at hx
    rw [← Option.some.inj hx]
    exact hP v hfetched

theorem Fits.failWithError {error : CacheError} {a : Except CacheError Unit}
    (h : Fits w.entry w.rungs P Fd φ.call φ.stage) (hok : φ.allows l (.failWithError error))
    (hexec : w.exec (.failWithError error) o = some (a, w')) :
    Fits w'.entry w'.rungs P Fd φ.call (Phase.next φ.stage l (.failWithError error) a) := by
  have hentry : w.slot.isSome = true ∧ w.entry.intent = none := by
    have hstate : w.entry.state ≠ .absent ∧ w.entry.intent = none := by
      rcases hok with hpop | ⟨s, hst, -⟩ | ⟨s, hst, -⟩
      · cases hst : φ.stage <;> rw [hst] at hpop h <;> try cases hpop
        · obtain ⟨⟨hs | hs, -, hi⟩, -⟩ := h <;> exact ⟨by simp [hs], hi⟩
        · obtain ⟨⟨hs | hs, -, hi⟩, -⟩ := h <;> exact ⟨by simp [hs], hi⟩
      · rw [hst] at h
        exact ⟨by simp [h.2.1], h.1.rest.noIntent⟩
      · rw [hst] at h
        exact ⟨by simp [h.2.1], h.1.rest.noIntent⟩
    exact ⟨KeyWorld.isSome_of_state hstate.1, hstate.2⟩
  rcases KeyWorld.exec_failWithError hexec with ⟨hnone, -⟩ | ⟨-, rfl⟩
  · simp [hnone] at hentry
  · exact ⟨⟨by simp, by simp, by simp, by simp [hentry.2]⟩, by rintro ⟨⟩⟩

/-- Of `invalidate` and `release`. -/
theorem base_release (h : Base w.entry w.rungs P)
    (hexec : (w.slot = none ∧ w' = w) ∨ (w.slot.isSome = true ∧ w' = w.putEntry w.entry.release)) :
    Base w'.entry w'.rungs P' := by
  rcases hexec with ⟨hnone, rfl⟩ | ⟨-, rfl⟩
  · refine ⟨h.rest, fun hr => ?_⟩
    simp [KeyWorld.entry, hnone, EntryState.isReadable] at hr
  · exact ⟨⟨by simp, by simp, by simp, by simp [h.rest.noIntent]⟩, by rintro ⟨⟩⟩

theorem Fits.prepare {rung : TierId} {kind : IntentKind} {a : Except CacheError CommitToken}
    (h : Fits w.entry w.rungs P Fd φ.call φ.stage) (hok : φ.allows l (.prepare rung kind))
    (hexec : w.exec (.prepare rung kind) o = some (a, w')) :
    Fits w'.entry w'.rungs P Fd φ.call (Phase.next φ.stage l (.prepare rung kind) a) := by
  have hbase : Base w.entry w.rungs P := by
    refine h.base ?_
    cases kind with
    | write => rcases hok.2 with hst | ⟨s, hst⟩ | ⟨n, hst⟩ <;> simp [hst]
    | move =>
      obtain ⟨-, s, hst, -⟩ := hok
      simp [hst]
  rcases KeyWorld.exec_prepare hexec with ⟨e, rfl, rfl, -⟩ | ⟨rfl, rfl⟩
  · exact hbase
  have hholding : Holding (w.entry.preparedFor (w.entry.intentFor rung kind w.now))
      (w.entry.tokenFor rung kind) := ⟨rfl, rfl, hbase.rest.notInFlight, hbase.rest.notPrepared⟩
  cases kind with
  | write =>
    rcases hok.2 with hst | ⟨s, hst⟩ | ⟨n, hst⟩
    · rw [hst]
      exact ⟨hholding, rfl, hbase.clean⟩
    · rw [hst]
      exact ⟨hholding, rfl, hbase.clean⟩
    · rw [hst] at h
      exact h.elim
  | move =>
    obtain ⟨hmoves, s, hst, hready, -⟩ := hok
    rw [hst] at h ⊢
    obtain ⟨-, -, -, hentry, -, htier⟩ := h
    have hr := hentry hmoves hready
    refine ⟨hholding, rfl, hmoves, ?_⟩
    rw [htier]
    exact hbase.clean (by rw [hr]; rfl)

/-- A commit is accepted, and makes the rung of the token the one that is served. -/
theorem base_commit {token : CommitToken} {ttl : Option ℕ} {a : Except CacheError Unit}
    {rung : TierId} (hholding : Holding w.entry token) (htarget : token.targetTier = rung.asU8)
    (hrung : Holds w.rungs P rung) (hexec : w.exec (.commit token ttl) o = some (a, w')) :
    a = .ok () ∧ Base w'.entry w'.rungs P := by
  rcases KeyWorld.exec_commit hexec with ⟨e, -, -, hdead, -⟩ | ⟨rfl, -, -, rfl⟩
  · exact absurd ⟨hholding.generation, hholding.prepared⟩ hdead
  · refine ⟨rfl, ⟨by simp, by simp, by simp, by simp⟩, fun _ => ?_⟩
    simpa only [KeyWorld.putEntry_rungs, KeyWorld.putEntry_entry, ControlEntry.committed_tier,
      htarget, TierId.fromIndex_asU8, Option.getD_some] using hrung

theorem Fits.abort {token : CommitToken} {error : CacheError} {a : Except CacheError Unit}
    (h : Fits w.entry w.rungs P Fd φ.call φ.stage) (hok : φ.allows l (.abort token error))
    (hexec : w.exec (.abort token error) o = some (a, w')) :
    Fits w'.entry w'.rungs P Fd φ.call (Phase.next φ.stage l (.abort token error) a) := by
  have hnext : Holding w.entry token ∧ Phase.next φ.stage l (.abort token error) a = .idle := by
    rcases hok with hst | ⟨r, n, hst⟩ | ⟨r, e, hst⟩ | ⟨s, dst, hst⟩ <;> rw [hst] at h ⊢
    · exact ⟨h, rfl⟩
    · exact h.elim
    · exact ⟨h.1, rfl⟩
    · exact ⟨h.1, rfl⟩
  rw [hnext.2]
  rcases KeyWorld.exec_abort hexec with ⟨hne, -⟩ | ⟨-, rfl⟩
  · exact absurd hnext.1.prepared hne
  · exact ⟨⟨by simp, by simp, by simp, by simp⟩, by rintro ⟨⟩⟩

theorem Fits.abortProvenClean {token : CommitToken} {error : CacheError}
    {a : Except CacheError Unit} (h : Fits w.entry w.rungs P Fd φ.call φ.stage)
    (hok : φ.allows l (.abortProvenClean token error))
    (hexec : w.exec (.abortProvenClean token error) o = some (a, w')) :
    Fits w'.entry w'.rungs P Fd φ.call
      (Phase.next φ.stage l (.abortProvenClean token error) a) := by
  obtain ⟨rung, hst, hclean⟩ := hok
  rw [hst] at h
  obtain ⟨hholding, hrestore⟩ := h
  rcases KeyWorld.exec_abortProvenClean hexec with ⟨hne, -⟩ | ⟨-, rfl⟩
  · exact absurd hholding.prepared hne
  · refine ⟨⟨?_, ?_, by simp, by simp⟩, fun hr => ?_⟩
    · simpa using hholding.fromRest.1
    · simpa using hholding.fromRest.2
    · exact hrestore hclean (by simpa using hr)

/-- A step of a thread at rest that empties a rung, or takes the entry to a state in which it serves
nothing. -/
theorem Fits.reserveEviction {address : KeyAddress} {a : Bool}
    (h : Fits w.entry w.rungs P Fd φ.call φ.stage)
    (hok : φ.allows l (.reserveEviction address))
    (hexec : w.exec (.reserveEviction address) o = some (a, w')) :
    Fits w'.entry w'.rungs P Fd φ.call φ.stage := by
  rcases KeyWorld.exec_reserveEviction hexec with ⟨rfl, -⟩ | ⟨-, he, rfl⟩
  · exact h
  have hbase : Base w.entry w.rungs P → Base w.entry.evicted w.rungs P := fun hb =>
    ⟨⟨by simp, by simp, by simp [he.2.1], by simp [he.2.2]⟩, fun _ => hb.clean (by rw [he.1]; rfl)⟩
  rcases hok.2 with hst | ⟨s, hst⟩ <;> rw [hst] at h ⊢
  · exact hbase h
  · refine ⟨hbase h.1, h.2.1, h.2.2.1, fun hmoves => ?_, fun _ => rfl, h.2.2.2.2.2⟩
    exact absurd hok.1 (Call.not_evicts_of_moves hmoves)

theorem Fits.removeIfAddress {rung : TierId} {address : KeyAddress} {a : Bool}
    (h : Fits w.entry w.rungs P Fd φ.call φ.stage)
    (hok : φ.allows l (.removeIfAddress rung address))
    (hexec : w.exec (.removeIfAddress rung address) o = some (a, w')) :
    Fits w'.entry w'.rungs P Fd φ.call φ.stage := by
  rcases KeyWorld.exec_removeIfAddress hexec with rfl | ⟨-, rfl⟩
  · exact h
  have hbase : Base w.entry w.rungs P → Base w.entry (Function.update w.rungs rung none) P :=
    fun hb => ⟨hb.rest, fun hr => holds_store_none (hb.clean hr) rung⟩
  rcases hok.2 with hst | ⟨s, hst⟩ <;> rw [hst] at h ⊢
  · exact hbase h
  · exact ⟨hbase h.1, h.2⟩

theorem Fits.tierGet {rung : TierId} {a : Except CacheError (Option V)} 
    (h : Fits w.entry w.rungs P Fd φ.call φ.stage) (hok : φ.allows l (.tierGet rung))
    (hexec : w.exec (.tierGet rung) o = some (a, w')) :
    Fits w'.entry w'.rungs P Fd φ.call (Phase.next φ.stage l (.tierGet rung) a) := by
  obtain ⟨rfl, hread⟩ := KeyWorld.exec_tierGet hexec
  rcases hok with ⟨s, hst, -, -, rfl, -⟩ | ⟨again, s, hst, -, -, rfl, -⟩ | hst | ⟨hst, -⟩ |
    ⟨token, s, dst, hst, rfl⟩
  · rw [hst] at h ⊢
    cases a with
    | error e =>
      simp only [Phase.next]
      split_ifs
      · exact h.1
      · exact h
    | ok v =>
      simp only [Phase.next]
      split_ifs
      · refine ⟨h.1, fun hr x hx => h.1.clean (by rw [hr]; rfl) x ?_⟩
        rw [← h.2.2.2.2.2]
        exact hread x (by rw [hx])
      · exact h
  · rw [hst] at h ⊢
    obtain ⟨hbase, hr, -, htier, hgen⟩ := h
    rcases a with e | _ | v
    · exact hbase
    · exact ⟨hbase, hr, hgen⟩
    · refine ⟨hbase, hbase.clean (by rw [hr]; rfl) v ?_⟩
      rw [← htier]
      exact hread v rfl
  · rw [hst] at h
    exact h.elim
  · rw [hst] at h ⊢
    exact h
  · rw [hst] at h ⊢
    obtain ⟨hholding, htarget, hmoves, hsource⟩ := h
    rcases a with e | _ | v
    · exact hholding
    · exact hholding
    · exact ⟨hholding, htarget, hmoves, hsource v (hread v rfl)⟩

/-- What is read is a value that may be served, except by the scan of a failed population. -/
theorem Fits.read {rung : TierId} {v : V} (h : Fits w.entry w.rungs P Fd φ.call φ.stage)
    (hok : φ.allows l (.tierGet rung)) (hv : w.rungs rung = some v) :
    P v ∨ l = .tryFallbackTier := by
  rcases hok with ⟨s, hst, hs, -, rfl, -⟩ | ⟨again, s, hst, -, -, rfl, -⟩ | hst | ⟨-, hl, -⟩ |
    ⟨token, s, dst, hst, rfl⟩
  · rw [hst] at h
    obtain ⟨hbase, -, -, -, hreadable, htier⟩ := h
    exact Or.inl (hbase.clean (hreadable hs) v (htier ▸ hv))
  · rw [hst] at h
    obtain ⟨hbase, hr, -, htier, -⟩ := h
    exact Or.inl (hbase.clean (by rw [hr]; rfl) v (htier ▸ hv))
  · rw [hst] at h
    exact h.elim
  · exact Or.inr hl
  · rw [hst] at h
    exact Or.inl (h.2.2.2 v hv)

theorem Fits.tierSet {rung : TierId} {v : V} {ttl : Option ℕ} {a : Except CacheError Unit}
    (h : Fits w.entry w.rungs P Fd φ.call φ.stage) (hok : φ.allows l (.tierSet rung v ttl))
    (hexec : w.exec (.tierSet rung v ttl) o = some (a, w'))
    (hhonest : φ.call.stores ≠ none → ∀ e, a = .error e →
      Manager.writeProvablyStoredNothing e = true → w'.rungs rung = w.rungs rung) :
    Fits w'.entry w'.rungs P Fd φ.call (Phase.next φ.stage l (.tierSet rung v ttl) a) := by
  have hentry : w'.entry = w.entry := KeyWorld.exec_entry rfl hexec
  rw [hentry]
  rcases KeyWorld.exec_tierSet hexec with ⟨rfl, rfl⟩ | ⟨e, rfl, hw⟩
  · rcases hok with ⟨claimed, g, hst⟩ | ⟨token, lost, a', hst, hcall⟩ | ⟨token, s, hst⟩ <;>
      rw [hst] at h ⊢
    · exact ⟨h.1, h.2 v rfl, by simp⟩
    · exact ⟨h.1, h.2.1, a', v, hcall, by simp⟩
    · obtain ⟨hholding, htarget, hmoves, hcur⟩ := h
      refine ⟨hholding, htarget, hmoves, fun x hx => ?_⟩
      rw [KeyWorld.store_rungs, Function.update_self] at hx
      rwa [← Option.some.inj hx]
  · rcases hok with ⟨claimed, g, hst⟩ | ⟨token, lost, a', hst, hcall⟩ | ⟨token, s, hst⟩ <;>
      rw [hst] at h ⊢
    · exact h
    · refine ⟨h.1, fun hclean => ?_⟩
      -- nothing was stored, so the rungs are as they were
      have hrungs : w'.rungs = w.rungs := by
        have hsame := hhonest (by simp [hcall, Call.stores]) e rfl hclean
        rcases hw with rfl | rfl
        · rfl
        · rw [KeyWorld.store_rungs, Function.update_self] at hsame
          rw [KeyWorld.store_rungs, hsame, Function.update_eq_self]
      rw [hrungs]
      exact h.2.2
    · exact h.1

theorem Fits.tierRemove {rung : TierId} {a : Except CacheError Unit}
    (h : Fits w.entry w.rungs P Fd φ.call φ.stage) (hok : φ.allows l (.tierRemove rung))
    (hexec : w.exec (.tierRemove rung) o = some (a, w')) :
    Fits w'.entry w'.rungs P Fd φ.call (Phase.next φ.stage l (.tierRemove rung) a) := by
  have hentry : w'.entry = w.entry := KeyWorld.exec_entry rfl hexec
  have hholds : ∀ {r}, Holds w.rungs P r → Holds w'.rungs P r := by
    intro r hr
    rcases KeyWorld.exec_tierRemove hexec with rfl | rfl
    · exact hr
    · exact holds_store_none hr rung
  rw [hentry]
  rcases hok with ⟨hst, -⟩ | ⟨token, hst⟩ | ⟨token, s, dst, v, hst, -⟩ | ⟨token, hst⟩ <;>
    rw [hst] at h ⊢
  · exact ⟨h.rest, fun hr => hholds (h.clean hr)⟩
  · exact ⟨h.1, by rintro ⟨⟩⟩
  · exact ⟨h.1, h.2.1, h.2.2.1, hholds h.2.2.2⟩
  · exact h.elim

theorem Fits.fetch {a : Except CacheError V} (h : Fits w.entry w.rungs P Fd φ.call φ.stage)
    (hok : φ.allows l .fetch) (hFd : ∀ v, a = .ok v → Fd' v) :
    Fits w.entry w.rungs P Fd' φ.call (Phase.next φ.stage l .fetch a) := by
  have hvalue : ∀ v, a.toOption = some v → Fd' v := by
    intro v hv
    cases a with
    | error e => cases hv
    | ok v' => exact hFd v (congrArg Except.ok (Option.some.inj hv))
  rcases hok.2 with ⟨claimed, g, v, hst⟩ | ⟨s, hst, -⟩ | ⟨s, hst, -⟩ <;> rw [hst] at h ⊢
  · exact ⟨h.1, hvalue⟩
  · exact ⟨⟨Or.inr h.2.1, h.2.2.symm, h.1.rest.noIntent⟩, hvalue⟩
  · exact ⟨⟨Or.inr h.2.1, h.2.2.2.2.symm, h.1.rest.noIntent⟩, hvalue⟩

/-- A commit makes the value of a `set` one that may be served, and a move's stays one. -/
theorem Fits.commit {token : CommitToken} {ttl : Option ℕ} {a : Except CacheError Unit}
    (h : Fits w.entry w.rungs P Fd φ.call φ.stage) (hok : φ.allows l (.commit token ttl))
    (hexec : w.exec (.commit token ttl) o = some (a, w'))
    (hset : ∀ a v, φ.call = .set a v → P' v) (hmove : φ.call.stores = none → ∀ x, P x → P' x) :
    a = .ok () ∧ Base w'.entry w'.rungs P' := by
  rcases hok with ⟨rung, lost, hst⟩ | ⟨s, dst, v, hst⟩ <;> rw [hst] at h
  · obtain ⟨hholding, htarget, a', v, hcall, hv⟩ := h
    refine base_commit hholding htarget ?_ hexec
    intro x hx
    rw [hv] at hx
    exact hset a' x (by rw [hcall, Option.some.inj hx])
  · obtain ⟨hholding, htarget, hmoves, hdst⟩ := h
    have hnone : φ.call.stores = none := by
      cases hc : φ.call <;> rw [hc] at hmoves <;> first | rfl | exact hmoves.elim
    exact base_commit hholding htarget (hdst.mono (hmove hnone)) hexec

/-- How the values that may be served, and the fetched ones, change with an answered request. -/
def Evolves (c : Call V) (P Fd P' Fd' : V → Prop) : (q : Req V) → q.Answer → Prop
  | .commit _ _, .ok _ =>
    (∀ a v, c = .set a v → P' v) ∧ (c.stores = none → ∀ x, P x → P' x)
  | .publish _ _ _, .ok _ => ∀ x, Fd x → P' x
  | .invalidate, .ok _ | .release, .ok _ => True
  | .fetch, .ok v => (∀ x, P x → P' x) ∧ Fd' v
  | _, _ => (∀ x, P x → P' x) ∧ ∀ x, Fd x → Fd' x

/-- **One answered request leads from stage to stage.** -/
theorem Fits.answer {i : ℕ} {c : Call V} {q : Req V} {a : q.Answer} (h : Fits w.entry w.rungs P Fd φ.call φ.stage)
    (hok : φ.allows l q) (hexec : w.exec q o = some (a, w'))
    (hhonest : φ.call.stores ≠ none → HonestTier ⟨i, c, l, q, a, w, w'⟩) (hev : Evolves φ.call P Fd P' Fd' q a) :
    Fits w'.entry w'.rungs P' Fd' φ.call (Phase.next φ.stage l q a) := by
  have hsame : q.touchesEntry = false → q.touchesRungs = false →
      Fits w'.entry w'.rungs P Fd φ.call φ.stage := by
    intro he hr
    rw [KeyWorld.exec_entry he hexec, KeyWorld.exec_rungs hr hexec]
    exact h
  cases q with
  | peek => exact (h.peek hok hexec).mono hev.1 hev.2
  | acquire tier => exact (h.acquire hok hexec).mono hev.1 hev.2
  | setState state => exact (h.setState hok hexec).mono hev.1 hev.2
  | publish g tier ttl =>
    cases a with
    | error e =>
      have hpublish := @Fits.publish V P Fd Fd Fd φ l o w w' g tier ttl _ h hok hexec fun _ hx => hx
      cases hpublish.1
    | ok u => exact (h.publish hok hexec hev).2
  | failWithError error => exact (h.failWithError hok hexec).mono hev.1 hev.2
  | invalidate =>
    obtain ⟨rfl, hrel⟩ := KeyWorld.exec_invalidate hexec
    rw [hok.1] at h ⊢
    exact base_release h hrel
  | release =>
    obtain ⟨rfl, hrel⟩ := KeyWorld.exec_release hexec
    rw [hok.1] at h ⊢
    exact base_release h hrel
  | prepare rung kind => exact (h.prepare hok hexec).mono hev.1 hev.2
  | commit token ttl =>
    cases a with
    | error e => cases (h.commit hok hexec (fun _ _ _ => trivial) fun _ _ _ => trivial).1
    | ok u => exact (h.commit hok hexec hev.1 hev.2).2
  | abort token error => exact (h.abort hok hexec).mono hev.1 hev.2
  | abortProvenClean token error => exact (h.abortProvenClean hok hexec).mono hev.1 hev.2
  | reserveEviction address => exact (h.reserveEviction hok hexec).mono hev.1 hev.2
  | removeIfAddress rung address => exact (h.removeIfAddress hok hexec).mono hev.1 hev.2
  | tierGet rung => exact (h.tierGet hok hexec).mono hev.1 hev.2
  | tierSet rung v ttl =>
    refine (h.tierSet hok hexec ?_).mono hev.1 hev.2
    rintro hset e rfl
    exact hhonest hset
  | tierRemove rung => exact (h.tierRemove hok hexec).mono hev.1 hev.2
  | fetch =>
    rw [KeyWorld.exec_entry rfl hexec, KeyWorld.exec_rungs rfl hexec]
    cases a with
    | error e => exact (h.fetch hok (by rintro _ ⟨⟩)).mono hev.1 fun _ hx => hx
    | ok v =>
      refine (h.mono hev.1 fun _ hx => hx).fetch hok ?_
      rintro _ ⟨⟩
      exact hev.2
  | register notify =>
    rcases hok with ⟨snapshot, hst, hs, -⟩ | ⟨again, snapshot, hst, hs⟩ <;> rw [hst] at h
    · rcases hs with hs | hs
      · exact absurd hs h.2.1
      · exact absurd hs h.2.2.1
    · rcases hs with hs | hs
      · exact absurd (hs.symm.trans h.2.2.1) (by simp)
      · exact absurd (hs.symm.trans h.2.2.1) (by simp)
  | notified epoch =>
    rw [show φ.stage = .waiting from hok] at h
    exact h.elim
  | yieldNow =>
    obtain ⟨token, rung, lost, hst⟩ := hok
    rw [hst] at h
    exact h.elim
  | evictionCandidate | tierContains | sleep | tierHealth | record =>
    exact (hsame rfl rfl).mono hev.1 hev.2

end Requests

/-! ## Runs of one client -/

/-- The client is alone and makes calls of `K`, and its call finds the key as its stage says. -/
structure Alone (K : Call V → Prop) (P Fd : List (Served V) → V → Prop) (s : System V)
    (φ : ℕ → Phase V) : Prop where
  client : ∀ i t, s.tasks i = some t → i = 0 ∧ K t.call
  fits : Fits s.world.entry s.world.rungs (P s.trace) (Fd s.trace) (φ 0).call (φ 0).stage

section Runs

variable {T : Terms V} {K : Call V → Prop} {P Fd : List (Served V) → V → Prop}

theorem client_update {s : System V} (h : ∀ i t, s.tasks i = some t → i = 0 ∧ K t.call) {c : Call V}
    (hc : K c) (rest : Prog Fn (Req V) Req.Answer (Option (Reply V))) :
    ∀ i t, Function.update s.tasks 0 (some ⟨c, rest⟩) i = some t → i = 0 ∧ K t.call := by
  refine (Function.forall_update_iff s.tasks fun j x => ∀ t, x = some t → j = 0 ∧ K t.call).2
    ⟨?_, fun j _ => h j⟩
  intro t ht
  obtain rfl := Option.some.inj ht
  exact ⟨rfl, hc⟩

/-- **The rule for one client**: what may be served changes with every answered request as the
request says. -/
theorem Alone.upholds (hstarts : ∀ s i c, T.starts s i c → i = 0 ∧ K c)
    (hhonest : ∀ s it o, K it.call → T.outcome o → T.good s it →
      it.pre.exec it.req o = some (it.ans, it.post) → it.call.stores ≠ none → HonestTier it)
    (hev : ∀ trace it, K it.call →
      Evolves it.call (P trace) (Fd trace) (P (it :: trace)) (Fd (it :: trace)) it.req it.ans) :
    Upholds T (Alone K P Fd) where
  start {s φ i c rest} h _ hc hst := by
    obtain ⟨rfl, hK⟩ := hstarts _ _ _ hc
    refine ⟨client_update h.client hK rest, ?_⟩
    rw [Function.update_self]
    exact h.fits.base hst
  answer {s φ i c l q o a w} rest h _ _ hserves := by
    obtain ⟨cancel, k, hpend⟩ := hserves.pending
    obtain ⟨rfl, hK⟩ := h.client i _ hpend
    have hgood := hhonest s _ o hK hserves.outcome hserves.good hserves.exec
    obtain rfl := hserves.call
    refine ⟨client_update h.client hK rest, ?_⟩
    rw [Function.update_self, Sys.answer_world, Sys.answer_trace]
    have hevolves := hev s.trace ⟨0, (φ 0).call, l, q, a, s.world, w⟩ hK
    exact h.fits.answer hserves.allows hserves.exec hgood hevolves
  drop {s φ i c l q cancel k} rest h _ hpend hcall := by
    obtain ⟨rfl, hK⟩ := h.client i _ hpend
    refine ⟨client_update h.client hK rest, ?_⟩
    rw [Function.update_self, ← hcall]
    exact h.fits.cancel
  env h := ⟨h.client, h.fits⟩

theorem Alone.initial {w : KeyWorld V} (h : Base w.entry w.rungs (P [])) :
    Alone K P Fd (.initial w) fun _ => ⟨.evict, .idle⟩ where
  client _ _ := by rintro ⟨⟩
  fits := h

theorem base_empty (address : KeyAddress) (Q : V → Prop) :
    Base (KeyWorld.empty address : KeyWorld V).entry (KeyWorld.empty address : KeyWorld V).rungs Q :=
  ⟨⟨by rintro ⟨⟩, by rintro ⟨⟩, rfl, rfl⟩, by rintro ⟨⟩⟩

end Runs

end Sequential

end TheSix
