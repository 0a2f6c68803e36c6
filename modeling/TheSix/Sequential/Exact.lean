import TheSix.Sequential.Calls
import TheSix.Sequential.Stages

/-!
# Calls over exact rungs

When the rungs never fail and nothing expires, what a call does to a key is a function of the key's
value (`Call.onValue`): the value the entry names when it is `Ready`, and none otherwise, whatever
copies the other rungs hold (`KeyWorld.Stores`). The environment is `calm`: rungs are exact, shards have
room, and nothing is evicted or waited for.
-/

namespace TheSix

open Coroutine

variable {V : Type}

/-- The requests that are neither part of an eviction, nor a wait, nor a write with a TTL. -/
def Req.calm : Req V → Bool
  | .evictionCandidate _ | .reserveEviction _ | .removeIfAddress _ _ | .notified _ => false
  | .tierSet _ _ ttl => ttl.isNone
  | _ => true

namespace KeyWorld

/-- Answer a request with exact rungs and the fetches as `f` says. -/
def calm (f : ℕ → Except CacheError V) (q : Req V) (s : KeyWorld V × ℕ) :
    Option (q.Answer × KeyWorld V × ℕ) :=
  if q.calm then serve (fun _ => { fetched := f s.2 }) q s else none

/-- The key has the value `x`: its entry is `Ready` and names a cache rung that holds it, or there is
none. -/
structure Stores (w : KeyWorld V) (x : Option V) : Prop where
  rest : AtRest w.entry
  unexpiring : w.entry.expirationNanos = 0
  value : (if w.entry.state = .ready then w.rungs w.entry.tier else none) = x
  ready : w.entry.state = .ready → w.entry.tier.isCacheRung = true ∧ x.isSome = true

variable {f : ℕ → Except CacheError V} {w : KeyWorld V} {n : ℕ} {x : Option V}

theorem calm_peek : calm f .peek (w, n) = some (w.slot.peek w.now, w, n) := rfl

theorem calm_tierGet (rung : TierId) :
    calm f (.tierGet rung) (w, n) = some (.ok (w.rungs rung), w, n) := rfl

theorem calm_tierSet {ttl : Option ℕ} (h : ttl = none) (rung : TierId) (v : V) :
    calm f (.tierSet rung v ttl) (w, n) = some (.ok (), w.store rung (some v), n) := by
  subst h
  rfl

theorem calm_tierRemove (rung : TierId) :
    calm f (.tierRemove rung) (w, n) = some (.ok (), w.store rung none, n) := rfl

theorem calm_tierContains (rung : TierId) :
    calm f (.tierContains rung) (w, n) = some (.ok (w.rungs rung).isSome, w, n) := by
  simp [calm, Req.calm, serve, exec, Req.isFetch]

theorem calm_record (rung : TierId) (r : Except CacheError Unit) :
    calm f (.record rung r) (w, n) = some ((), w.recordOutcome rung r, n) := rfl

theorem calm_fetch : calm f .fetch (w, n) = some (f n, w, n + 1) := rfl

theorem calm_setState {state : EntryState} :
    calm f (.setState state) (w, n) = some (.ok (), w.putEntry (w.entry.setState state), n) := by
  cases hs : w.slot <;>
    simp [calm, Req.calm, serve, exec, onSlot, KeySlot.setState, KeySlot.withOrCreate, hs, putEntry,
      entry, Req.isFetch]

theorem calm_acquire (tier : TierId) :
    calm f (.acquire tier) (w, n) = some (.ok (w.entry.acquire tier w.now).1,
      w.putEntry (w.entry.acquire tier w.now).2, n) := by
  cases hs : w.slot <;>
    simp [calm, Req.calm, serve, exec, onSlot, KeySlot.acquire, KeySlot.withOrCreate, hs, putEntry,
      entry, Req.isFetch]

theorem calm_prepare (rung : TierId) (kind : IntentKind) :
    calm f (.prepare rung kind) (w, n) = some (.ok (w.entry.tokenFor rung kind),
      w.putEntry (w.entry.preparedFor (w.entry.intentFor rung kind w.now)), n) :=
  serve_prepare (o := fun _ => { fetched := f n }) (Or.inl rfl)

theorem calm_commit {token : CommitToken} {ttl : Option ℕ} {e : ControlEntry}
    (hs : w.slot = some e) (hg : e.generation = token.generation) (hp : e.state = .prepared) :
    calm f (.commit token ttl) (w, n) =
      some (.ok (), { w with slot := some (e.committed token ttl w.now) }, n) :=
  serve_commit (o := fun _ => { fetched := f n }) hs hg hp

theorem calm_publish {tier : TierId} {ttl : Option ℕ} {e : ControlEntry} (hs : w.slot = some e) :
    calm f (.publish e.generation tier ttl) (w, n) =
      some (.ok (), { w with slot := some (e.published tier ttl w.now) }, n) := by
  simp [calm, Req.calm, serve, exec, onSlot, KeySlot.publish, hs, ControlEntry.publish_of_eq,
    Req.isFetch]

theorem calm_release :
    calm f .release (w, n) = some (.ok (), { w with slot := w.slot.map ControlEntry.release }, n) := by
  cases hs : w.slot <;> simp [calm, Req.calm, serve, exec, onSlot, KeySlot.release, hs, Req.isFetch]

theorem calm_invalidate :
    calm f .invalidate (w, n) = some (.ok (), { w with slot := w.slot.map ControlEntry.release }, n) := by
  cases hs : w.slot <;>
    simp [calm, Req.calm, serve, exec, onSlot, KeySlot.invalidate, ControlEntry.invalidate, hs,
      Req.isFetch]

/-! ## What a key stores -/

theorem Stores.not_expired (h : w.Stores x) : w.entry.isExpired w.now = false := by
  simp [ControlEntry.isExpired, ControlEntry.ttl, h.unexpiring]

theorem Stores.read (h : w.Stores x) (hs : w.entry.state = .ready) : w.rungs w.entry.tier = x := by
  have hvalue := h.value
  rwa [if_pos hs] at hvalue

theorem Stores.eq_none (h : w.Stores x) (hs : w.entry.state ≠ .ready) : x = none := by
  have hvalue := h.value
  rw [if_neg hs] at hvalue
  exact hvalue.symm

theorem Stores.eq_some (h : w.Stores x) (hs : w.entry.state = .ready) :
    ∃ v, x = some v ∧ w.rungs w.entry.tier = some v := by
  obtain ⟨v, hv⟩ := Option.isSome_iff_exists.1 (h.ready hs).2
  exact ⟨v, hv, (h.read hs).trans hv⟩

/-- A key whose entry is not `Ready` has no value. -/
theorem stores_none (hrest : AtRest w.entry) (httl : w.entry.expirationNanos = 0)
    (hs : w.entry.state ≠ .ready) : w.Stores none :=
  ⟨hrest, httl, if_neg hs, fun h => absurd h hs⟩

/-- A key whose entry is `Ready` has the value that its rung holds. -/
theorem stores_some {v : V} (hrest : AtRest w.entry) (httl : w.entry.expirationNanos = 0)
    (hs : w.entry.state = .ready) (hrung : w.entry.tier.isCacheRung = true)
    (hv : w.rungs w.entry.tier = some v) : w.Stores (some v) :=
  ⟨hrest, httl, by rw [if_pos hs, hv], fun _ => ⟨hrung, rfl⟩⟩

/-- The health of the rungs and the clock do not matter. -/
theorem Stores.congr {w' : KeyWorld V} (h : w.Stores x) (hentry : w'.entry = w.entry)
    (hrungs : w'.rungs = w.rungs) : w'.Stores x :=
  ⟨hentry ▸ h.rest, hentry ▸ h.unexpiring, by rw [hentry, hrungs]; exact h.value, hentry ▸ h.ready⟩

/-- A release leaves no value. -/
theorem stores_released (hrest : AtRest w.entry) :
    { w with slot := w.slot.map ControlEntry.release }.Stores none := by
  cases hs : w.slot with
  | none => refine stores_none ⟨?_, ?_, ?_, ?_⟩ ?_ ?_ <;> simp [entry]
  | some e =>
    have he : w.entry = e := entry_of_slot hs
    have hintent : e.intent = none := he ▸ hrest.noIntent
    have httl : e.release.expirationNanos = 0 := rfl
    refine stores_none ⟨?_, ?_, ?_, ?_⟩ ?_ ?_ <;> simp [entry, hintent, httl]

/-- A commit stores the value that its rung holds. -/
theorem stores_committed {v : V} {rung : TierId} (hrung : rung.isCacheRung = true)
    (hv : w.rungs rung = some v) (e : ControlEntry) (token : CommitToken)
    (htoken : token.targetTier = rung.asU8) : (w.putEntry (e.committed token none w.now)).Stores (some v) := by
  have httl : (e.committed token none w.now).expirationNanos = 0 := rfl
  have htier : (e.committed token none w.now).tier = rung := by simp [htoken]
  refine stores_some ⟨by simp, by simp, by simp, by simp⟩ httl (by simp) ?_ ?_
  · rw [putEntry_entry, htier]
    exact hrung
  · rw [putEntry_entry, putEntry_rungs, htier, hv]

/-- The world after a population of `v` has claimed the entry and published on `rung`. -/
def afterPopulation (w : KeyWorld V) (e : ControlEntry) (rung : TierId) (v : V) : KeyWorld V :=
  ((w.store rung (some v)).recordOutcome rung (.ok ())).putEntry (e.published rung none w.now)

end KeyWorld

/-! ## The calls -/

/-- A known caller of a key without a TTL, whose policy lets it in and names cache rungs. -/
structure Args.Plain (a : Args) (key : KeyRef) : Prop where
  authenticated : a.authenticated = true
  keyRef : a.keyRef = .ok key
  ttl : a.ttl = none
  authorized : ∀ s, (a.select s).authorized = true
  cacheRung : ∀ s, (a.select s).tier.isCacheRung = true

namespace Args.Plain

variable {a : Args} {key : KeyRef}

theorem resolve (h : a.Plain key) : a.resolve = .ok (a.select .new) := by
  simp [Args.resolve, Args.authorize, h.authorized, bind, Except.bind, pure, Except.pure]

theorem admitEncoded (h : a.Plain key) : a.admitEncoded = .ok (a.select .new) := by
  simp [Args.admitEncoded, Args.checkAuth, h.authenticated, h.keyRef, h.resolve, bind, Except.bind]

theorem admitPopulation (h : a.Plain key) : a.admitPopulation = .ok (a.select .new) := by
  simp [Args.admitPopulation, Args.checkAuth, h.authenticated, h.keyRef, h.resolve, bind, Except.bind]

theorem admitKey (h : a.Plain key) : a.admitKey = .ok (a.select .new) := by
  simp [Args.admitKey, Args.checkAuth, h.authenticated, h.keyRef, h.resolve, bind, Except.bind, pure,
    Except.pure]

theorem admitWrite (h : a.Plain key) : a.admitWrite = .ok () := by
  simp [Args.admitWrite, Args.checkAuth, h.authenticated, h.keyRef, bind, Except.bind, pure, Except.pure]

end Args.Plain

namespace Manager

open KeyWorld

variable {f : ℕ → Except CacheError V} {w : KeyWorld V} {n : ℕ} {x : Option V} {a : Args}
  {key : KeyRef} {v : V}

theorem hasTier_six {rung : TierId} (h : rung.isCacheRung = true) : hasTier 6 rung = true := by
  revert h
  cases rung <;> decide

theorem nearestBoundRung_six {rung : TierId} (h : rung.isCacheRung = true) :
    nearestBoundRung 6 rung = some rung := by
  revert h
  cases rung <;> decide

theorem populateOnce_calm (httl : a.ttl = none) {d : PolicyDecision} {e : ControlEntry} (hs : w.slot = some e)
    (hd : d.tier.isCacheRung = true) (hf : f n = .ok v) :
    (populateOnce 6 a d e.generation).eval (calm f) (w, n) =
      some (.ok v, w.afterPopulation e d.tier v, n + 1) := by
  have hslot : ((w.store d.tier (some v)).recordOutcome d.tier (.ok ())).slot = some e := hs
  simp only [populateOnce, call, noTelemetry_eq, await, Prog.req_bind, Prog.ret_bind]
  rw [Prog.eval_req calm_fetch, hf]
  simp only [nearestBoundRung_six hd]
  rw [Prog.eval_req (calm_tierSet httl _ _), Prog.eval_req (calm_record _ _)]
  simp only
  rw [Prog.eval_req (calm_publish hslot), httl]
  rfl

/-- A population whose fetch succeeds publishes what it has fetched. -/
theorem becomePopulationOwner_calm (httl : a.ttl = none) {d : PolicyDecision} {e : ControlEntry} (hs : w.slot = some e)
    (hd : d.tier.isCacheRung = true) (hf : f n = .ok v) :
    (becomePopulationOwner 6 a d e.generation).eval (calm f) (w, n) =
      some (.ok v, w.afterPopulation e d.tier v, n + 1) := by
  rw [becomePopulationOwner, Prog.eval_bind, armed_eq, Prog.eval_guarded, populateAttempts,
    Prog.eval_bind,
    populateOnce_calm httl hs hd hf]
  rfl

/-- `get` answers the value. -/
theorem get_calm (hplain : a.Plain key) (h : w.Stores x) :
    ∃ w', (Manager.get 6 a).eval (calm f) (w, n) =
        some (x.elim (.error .miss) fun v => .ok (some v), w', n) ∧ w'.Stores x := by
  simp only [Manager.get, hplain.admitEncoded, call, noTelemetry_eq, await, Prog.req_bind,
    Prog.ret_bind]
  rw [Prog.eval_req calm_peek]
  simp only [peek_state, peek_expired, peek_tier, h.not_expired, and_true]
  by_cases hs : w.entry.state = .ready
  · obtain ⟨v, rfl, hv⟩ := h.eq_some hs
    simp only [hs, if_true, hasTier_six (h.ready hs).1, Bool.true_eq_false, if_false]
    rw [Prog.eval_req (calm_tierGet _), Prog.eval_req (calm_record _ _)]
    simp only [peek_tier, hv]
    rw [Prog.eval_req calm_peek, peek_state]
    refine ⟨w.recordOutcome w.entry.tier (.ok ()), ?_, h.congr rfl rfl⟩
    have hentry : (w.recordOutcome w.entry.tier (.ok ())).entry = w.entry := rfl
    simp only [Except.map, hentry, hs, if_true]
    rfl
  · obtain rfl := h.eq_none hs
    refine ⟨w, ?_, h⟩
    simp [hs, h.rest.notInFlight, h.rest.notPrepared]

/-- `exists` says whether there is a value. -/
theorem exists_calm (hplain : a.Plain key) (h : w.Stores x) :
    (Manager.exists 6 a).eval (calm f) (w, n) = some (.ok x.isSome, w, n) := by
  simp only [Manager.exists, hplain.admitKey, call, await, Prog.req_bind, Prog.ret_bind]
  rw [Prog.eval_req calm_peek]
  simp only [peek_state, peek_tier]
  by_cases hs : w.entry.state = .ready
  · simp only [hs, ne_eq, not_true_eq_false, if_false, hasTier_six (h.ready hs).1, Bool.true_eq_false]
    rw [Prog.eval_req (calm_tierContains _), peek_tier, h.read hs]
    rfl
  · obtain rfl := h.eq_none hs
    simp [hs]

/-- `invalidate` leaves no value. -/
theorem invalidate_calm (hplain : a.Plain key) (h : w.Stores x) :
    ∃ w', (Manager.invalidate a).eval (calm f) (w, n) = some (.ok (), w', n) ∧ w'.Stores none := by
  simp only [Manager.invalidate, hplain.admitKey, call]
  rw [Prog.eval_req calm_invalidate]
  exact ⟨_, rfl, stores_released h.rest⟩

theorem removeFrom_calm (rungs : List TierId) :
    ∃ w', (removeFrom 6 rungs).eval (calm f) (w, n) = some ((), w', n) ∧ w'.slot = w.slot ∧
      w'.address = w.address := by
  induction rungs generalizing w with
  | nil => exact ⟨w, rfl, rfl, rfl⟩
  | cons rung rungs ih =>
    rw [removeFrom]
    split_ifs
    · exact ih
    · simp only [await, Prog.req_bind, Prog.ret_bind]
      rw [Prog.eval_req (calm_tierRemove _)]
      exact ih (w := w.store rung none)

/-- `remove` leaves no value. -/
theorem remove_calm (hplain : a.Plain key) (h : w.Stores x) :
    ∃ w', (Manager.remove 6 a).eval (calm f) (w, n) = some (.ok (), w', n) ∧ w'.Stores none := by
  obtain ⟨w₁, heval, hslot, haddress⟩ := removeFrom_calm (f := f) (w := w) (n := n) cacheLadder
  have hentry : w₁.entry = w.entry := by rw [entry, entry, hslot, haddress]
  simp only [Manager.remove, hplain.admitKey, Prog.eval_bind, heval, Option.bind_some, call]
  rw [Prog.eval_req calm_release]
  exact ⟨_, rfl, stores_released (hentry ▸ h.rest)⟩

/-- An entry at rest that is not `Ready` is claimed by whoever asks. -/
theorem isClaimable_of_atRest {e : ControlEntry} (h : AtRest e) (hs : e.state ≠ .ready) :
    e.state.isClaimable = true := by
  cases hstate : e.state with
  | ready => exact absurd hstate hs
  | inFlight => exact absurd hstate h.notInFlight
  | prepared => exact absurd hstate h.notPrepared
  | _ => rfl

/-- A population stores what it has fetched. -/
theorem stores_afterPopulation {e : ControlEntry} {rung : TierId} (hintent : e.intent = none)
    (hrung : rung.isCacheRung = true) : (w.afterPopulation e rung v).Stores (some v) := by
  have httl : (e.published rung none w.now).expirationNanos = 0 := rfl
  refine stores_some ⟨?_, ?_, ?_, ?_⟩ httl rfl hrung ?_
  · simp [afterPopulation]
  · simp [afterPopulation]
  · simp [afterPopulation]
  · simpa [afterPopulation] using hintent
  · simp [afterPopulation, recordOutcome, store]

/-- A claim and the population behind it. -/
theorem populate_calm (hplain : a.Plain key) {d : PolicyDecision} (hd : d.tier.isCacheRung = true)
    (hf : f n = .ok v) (hintent : w.entry.intent = none) {g : Generation}
    (hg : g = (w.entry.claimed d.tier w.now).generation) :
    ∃ w', (becomePopulationOwner 6 a d g).eval (calm f)
        (w.putEntry (w.entry.claimed d.tier w.now), n) = some (.ok v, w', n + 1) ∧
      w'.Stores (some v) := by
  subst hg
  rw [becomePopulationOwner_calm hplain.ttl rfl hd hf]
  exact ⟨_, rfl, stores_afterPopulation hintent hd⟩

/-- `get_or_fetch` answers the value, and fetches one when there is none. -/
theorem getOrFetch_calm (hplain : a.Plain key) (h : w.Stores x) (hf : f n = .ok v) :
    ∃ w', (Manager.getOrFetch 6 a).eval (calm f) (w, n) =
        some (.ok (x.getD v), w', if x.isSome then n else n + 1) ∧ w'.Stores (some (x.getD v)) := by
  have hd := hplain.cacheRung .new
  simp only [Manager.getOrFetch, hplain.admitPopulation]
  rw [fetchAttempts]
  generalize fetchAttempts 6 a (a.select .new) 7 = again
  simp only [call, noTelemetry_eq, Prog.req_bind, Prog.ret_bind]
  rw [Prog.eval_req (calm_acquire _)]
  by_cases hs : w.entry.state = .ready
  · obtain ⟨v', rfl, hv⟩ := h.eq_some hs
    rw [ControlEntry.acquire_of_not_claimable (by simp [hs, EntryState.isClaimable])]
    have hexpired : w.entry.isExpired w.now = false := h.not_expired
    simp only [ControlEntry.snapshotOf, hs, hexpired, Bool.false_eq_true, and_false, if_false,
      fetchFrom, and_self, if_true, hasTier_six (h.ready hs).1, Bool.true_eq_false, await,
      noTelemetry_eq, Prog.req_bind, Prog.ret_bind]
    rw [Prog.eval_req (calm_tierGet _), putEntry_rungs, hv]
    exact ⟨_, rfl, h.congr rfl rfl⟩
  · obtain rfl := h.eq_none hs
    rw [ControlEntry.acquire_of_claimable (isClaimable_of_atRest h.rest hs)]
    obtain ⟨w', heval, hw'⟩ := populate_calm (w := w) hplain hd hf h.rest.noIntent rfl
    refine ⟨w', ?_, hw'⟩
    simp only [ControlEntry.snapshotOf, reduceCtorEq, false_and, if_false, fetchFrom, joinOrPopulate,
      Bool.true_eq_false, and_false]
    exact heval

theorem readCurrent_calm (before : ControlSnapshot) :
    ∃ current, (readCurrent 6 before).eval (calm f) (w, n) = some (current, w, n) := by
  rw [readCurrent]
  split_ifs
  · exact ⟨none, rfl⟩
  · simp only [await, Prog.req_bind, Prog.ret_bind]
    rw [Prog.eval_req (calm_tierGet _)]
    exact ⟨_, rfl⟩

theorem revalidate_calm (hplain : a.Plain key) {d : PolicyDecision} (hd : d.tier.isCacheRung = true)
    (hf : f n = .ok v) (hrest : AtRest w.entry) (hs : w.entry.state ≠ .ready) (current : Option V) :
    ∃ w', (revalidate 6 a d current).eval (calm f) (w, n) = some (.ok ⟨some v, true⟩, w', n + 1) ∧
      w'.Stores (some v) := by
  simp only [revalidate, call, noTelemetry_eq, Prog.req_bind, Prog.ret_bind]
  rw [Prog.eval_req (calm_acquire _),
    ControlEntry.acquire_of_claimable (isClaimable_of_atRest hrest hs)]
  have hd' : ({ d with failMode := .closed } : PolicyDecision).tier.isCacheRung = true := hd
  obtain ⟨w', heval, hw'⟩ := populate_calm (w := w) hplain hd' hf hrest.noIntent rfl
  refine ⟨w', ?_, hw'⟩
  simp only [ControlEntry.snapshotOf, Bool.true_eq_false, if_false]
  rw [Prog.eval_bind]
  simp only [ControlEntry.claimed_generation] at heval
  rw [heval]
  rfl

/-- `refresh` replaces the value by one it has fetched. -/
theorem refreshDetailed_calm (hplain : a.Plain key) (h : w.Stores x) (hf : f n = .ok v) :
    ∃ w', (Manager.refreshDetailed 6 a).eval (calm f) (w, n) =
        some (.ok ⟨some v, true⟩, w', n + 1) ∧ w'.Stores (some v) := by
  have hd := hplain.cacheRung .new
  simp only [Manager.refreshDetailed, hplain.admitPopulation, call, noTelemetry_eq, Prog.req_bind,
    Prog.ret_bind]
  rw [Prog.eval_req calm_peek]
  simp only [peek_state, peek_expired, h.not_expired, and_true]
  obtain ⟨current, hread⟩ := readCurrent_calm (f := f) (w := w) (n := n) (w.slot.peek w.now)
  rw [Prog.eval_bind, hread, Option.bind_some]
  simp only
  split_ifs with hs
  · rw [Prog.eval_req calm_setState]
    refine revalidate_calm hplain hd hf ⟨?_, ?_, ?_, ?_⟩ ?_ current
    · simp
    · simp
    · simpa using h.rest.unowned
    · simpa using h.rest.noIntent
    · simp
  · exact revalidate_calm hplain hd hf h.rest hs current

/-- A move between two rungs takes the value along. -/
theorem moveEntry_calm (hplain : a.Plain key) {source destination : TierId}
    (hsource : source.isCacheRung = true) (hdestination : destination.isCacheRung = true)
    (hne : destination ≠ source) (hv : w.rungs source = some v) :
    ∃ w', (moveEntry 6 a source destination).eval (calm f) (w, n) = some (.ok (), w', n) ∧
      w'.Stores (some v) := by
  simp only [moveEntry, moveUnder, call, noTelemetry_eq, await, Prog.req_bind, Prog.ret_bind]
  rw [Prog.eval_req (calm_prepare _ _)]
  simp only [hasTier_six hsource, hasTier_six hdestination, Bool.true_eq_false, or_self, if_false,
    Prog.eval_bind, Prog.eval_guarded]
  rw [Prog.eval_req (calm_tierGet _), putEntry_rungs, hv]
  simp only
  rw [Prog.eval_req (calm_tierSet hplain.ttl _ _), Prog.eval_req (calm_record _ _)]
  simp only
  rw [Prog.eval_req (calm_tierRemove _), Prog.eval_req (calm_record _ _),
    Prog.eval_req (calm_commit (e := w.entry.preparedFor _) rfl rfl rfl), hplain.ttl]
  have hv' : ((w.store destination (some v)).store source none).rungs destination = some v := by
    simp [store, hne]
  have hend := stores_committed hdestination hv'
    (w.entry.preparedFor (w.entry.intentFor destination .move w.now))
    (w.entry.tokenFor destination .move) rfl
  exact ⟨_, rfl, hend.congr rfl rfl⟩

/-- A move along the ladder changes no value. -/
theorem moveAlong_calm {g : Fn} {stays : TierId → Bool} {shift : ℕ → ℕ}
    (hsteps : Manager.Steps stays shift) (hplain : a.Plain key) (h : w.Stores x) :
    ∃ w', (Manager.moveAlong 6 a g stays shift).eval (calm f) (w, n) =
      some (if x.isSome then .ok () else .error .miss, w', n) ∧ w'.Stores x := by
  simp only [Manager.moveAlong, call, noTelemetry_eq, Prog.req_bind, Prog.ret_bind]
  rw [Prog.eval_req calm_peek]
  simp only [peek_state, peek_tier]
  by_cases hs : w.entry.state = .ready
  · obtain ⟨v, rfl, hv⟩ := h.eq_some hs
    simp only [hs, ne_eq, not_true_eq_false, if_false, Option.isSome_some, if_true]
    split_ifs with hstays
    · exact ⟨w, rfl, h⟩
    · obtain ⟨hrung, d, hd, hcache, hne⟩ := hsteps _ (by simpa using hstays)
      rw [hd]
      exact moveEntry_calm hplain hrung hcache hne hv
  · obtain rfl := h.eq_none hs
    exact ⟨w, by simp [hs], h⟩

theorem promote_calm (hplain : a.Plain key) (h : w.Stores x) :
    ∃ w', (Manager.promote 6 a).eval (calm f) (w, n) =
      some (if x.isSome then .ok () else .error .miss, w', n) ∧ w'.Stores x := by
  rw [Manager.promote_eq hplain.admitKey]
  exact moveAlong_calm Manager.promote_steps hplain h

theorem demote_calm (hplain : a.Plain key) (h : w.Stores x) :
    ∃ w', (Manager.demote 6 a).eval (calm f) (w, n) =
      some (if x.isSome then .ok () else .error .miss, w', n) ∧ w'.Stores x := by
  rw [Manager.demote_eq hplain.admitKey]
  exact moveAlong_calm Manager.demote_steps hplain h

theorem writeAt_calm (httl : a.ttl = none) {rung : TierId} (hrung : rung.isCacheRung = true) (v : V)
    (races : ℕ) :
    ∃ w', (writeAt a v rung (races + 1)).eval (calm f) (w, n) = some (.finished (.ok ()), w', n) ∧
      w'.Stores (some v) := by
  rw [writeAt]
  simp only [writeUnder, call, noTelemetry_eq, await, Prog.req_bind, Prog.ret_bind]
  rw [Prog.eval_req (calm_prepare _ _)]
  simp only [Prog.eval_bind, Prog.eval_guarded]
  rw [Prog.eval_req (calm_tierSet httl _ _), Prog.eval_req (calm_record _ _)]
  simp only
  rw [Prog.eval_req (calm_commit (e := w.entry.preparedFor _) rfl rfl rfl), httl]
  have hv : (w.store rung (some v)).rungs rung = some v := by simp [store]
  have hend := stores_committed hrung hv
    (w.entry.preparedFor (w.entry.intentFor rung .write w.now)) (w.entry.tokenFor rung .write) rfl
  exact ⟨_, rfl, hend.congr rfl rfl⟩

/-- `set` stores its value. -/
theorem set_calm (hplain : a.Plain key) (v : V) :
    ∃ w', (Manager.set 6 a v).eval (calm f) (w, n) = some (.ok (), w', n) ∧ w'.Stores (some v) := by
  have hhealth : ∀ rung, calm f (.tierHealth rung) (w, n) = some (w.failures rung, w, n) :=
    fun _ => rfl
  simp only [Manager.set, hplain.admitWrite, call, noTelemetry_eq, Prog.req_bind, Prog.ret_bind]
  rw [Prog.eval_req calm_peek, Prog.eval_req (hhealth _)]
  generalize CacheState.fromSnapshot _ _ = shown
  have hrung := hplain.cacheRung shown
  have htier : (a.select shown).tier ≠ authorityTier := by
    intro h
    rw [h] at hrung
    cases hrung
  simp only [Args.authorize, hplain.authorized, if_true, if_neg htier]
  obtain ⟨w', heval, hw'⟩ := writeAt_calm (f := f) (w := w) (n := n) hplain.ttl hrung v 63
  rw [setPasses, descent_eq, if_pos hrung, walk, if_neg (by simp [hasTier_six hrung]), Prog.eval_bind,
    Prog.eval_bind, maxCommitAttempts, heval]
  exact ⟨w', rfl, hw'⟩

end Manager

/-! ## A plain value -/

/-- What a call does on a plain value: its answer, the value after it, and how often it fetches. -/
def Call.onValue (fetched : Except CacheError V) (x : Option V) : Call V → Reply V × Option V × ℕ
  | .get _ => (.read (x.elim (.error .miss) fun v => .ok (some v)), x, 0)
  | .getOrFetch _ =>
    match x with
    | some v => (.fetched (.ok v), some v, 0)
    | none => (.fetched fetched, fetched.toOption, 1)
  | .exists _ => (.found (.ok x.isSome), x, 0)
  | .set _ v => (.done (.ok ()), some v, 0)
  | .invalidate _ | .remove _ => (.done (.ok ()), none, 0)
  | .refresh _ => (.refreshed (fetched.map fun v => ⟨some v, true⟩), fetched.toOption, 1)
  | .promote _ | .demote _ => (.done (if x.isSome then .ok () else .error .miss), x, 0)
  | .evict => (.freed false, x, 0)

/-- A call of a known caller on a key, without a TTL and under a policy that names cache rungs. -/
def Call.Unlimited (key : KeyRef) : Call V → Prop
  | .get a | .getOrFetch a | .exists a | .set a _ | .invalidate a | .remove a | .refresh a
  | .promote a | .demote a => a.Plain key
  | .evict => False

/-- **A call over exact rungs does what it does on the plain value.** -/
theorem KeyWorld.Stores.call {w : KeyWorld V} {x : Option V} {f : ℕ → Except CacheError V} {v : V}
    {key : KeyRef} {c : Call V} (h : w.Stores x) (hc : c.Unlimited key) (hf : f 0 = .ok v) :
    ∃ w', (c.prog 6).eval (KeyWorld.calm f) (w, 0) =
        some ((c.onValue (f 0) x).1, w', (c.onValue (f 0) x).2.2) ∧
      w'.Stores (c.onValue (f 0) x).2.1 := by
  rw [hf]
  cases c with
  | get a =>
    obtain ⟨w', heval, hw'⟩ := Manager.get_calm (f := f) (n := 0) hc h
    exact ⟨w', by rw [Call.prog, Prog.eval_map, heval]; rfl, hw'⟩
  | getOrFetch a =>
    obtain ⟨w', heval, hw'⟩ := Manager.getOrFetch_calm (n := 0) hc h hf
    cases x with
    | none => exact ⟨w', by rw [Call.prog, Prog.eval_map, heval]; rfl, hw'⟩
    | some v' => exact ⟨w', by rw [Call.prog, Prog.eval_map, heval]; rfl, hw'⟩
  | «exists» a =>
    exact ⟨w, by rw [Call.prog, Prog.eval_map, Manager.silent_eq, Manager.exists_calm hc h]; rfl, h⟩
  | set a value =>
    obtain ⟨w', heval, hw'⟩ := Manager.set_calm (f := f) (w := w) (n := 0) hc value
    exact ⟨w', by rw [Call.prog, Prog.eval_map, heval]; rfl, hw'⟩
  | invalidate a =>
    obtain ⟨w', heval, hw'⟩ := Manager.invalidate_calm (f := f) (n := 0) hc h
    exact ⟨w', by rw [Call.prog, Prog.eval_map, Manager.silent_eq, heval]; rfl, hw'⟩
  | remove a =>
    obtain ⟨w', heval, hw'⟩ := Manager.remove_calm (f := f) (n := 0) hc h
    exact ⟨w', by rw [Call.prog, Prog.eval_map, Manager.silent_eq, heval]; rfl, hw'⟩
  | refresh a =>
    obtain ⟨w', heval, hw'⟩ := Manager.refreshDetailed_calm (n := 0) hc h hf
    exact ⟨w', by rw [Call.prog, Prog.eval_map, heval]; rfl, hw'⟩
  | promote a =>
    obtain ⟨w', heval, hw'⟩ := Manager.promote_calm (f := f) (n := 0) hc h
    exact ⟨w', by rw [Call.prog, Prog.eval_map, heval]; rfl, hw'⟩
  | demote a =>
    obtain ⟨w', heval, hw'⟩ := Manager.demote_calm (f := f) (n := 0) hc h
    exact ⟨w', by rw [Call.prog, Prog.eval_map, heval]; rfl, hw'⟩
  | evict => exact hc.elim

end TheSix
