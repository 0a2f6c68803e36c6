import TheSix.Manager.System
import TheSix.Lib.Renaming

/-!
# Payload stays payload

The manager is generic in its values: it takes them from callers, fetches and rungs, and hands them
to rungs and callers. Here that is made a statement about runs. A map of values renames the requests
of the manager (`Req.map`), its calls, its replies and the key's share of the two planes
(`KeyWorld.map`), and every program of the manager is mirrored by itself on the renamed values.

So a run on renamed values is the renamed run (`run_map`). In particular nothing that the control
plane records, no breaker, no site and no order of requests depends on what the values are: two
worlds and two schedules that differ in their values only give states that differ in their values only
(`run_shadow`).
-/

namespace TheSix

open Coroutine

variable {V W : Type}

/-! ## Renaming the values -/

/-- A request on renamed values. -/
def Req.map (f : V → W) : Req V → Req W
  | .peek => .peek
  | .acquire tier => .acquire tier
  | .setState state => .setState state
  | .publish expected tier ttl => .publish expected tier ttl
  | .failWithError error => .failWithError error
  | .invalidate => .invalidate
  | .release => .release
  | .prepare targetTier kind => .prepare targetTier kind
  | .commit token ttl => .commit token ttl
  | .abort token error => .abort token error
  | .abortProvenClean token error => .abortProvenClean token error
  | .evictionCandidate rung => .evictionCandidate rung
  | .reserveEviction address => .reserveEviction address
  | .removeIfAddress rung address => .removeIfAddress rung address
  | .tierGet rung => .tierGet rung
  | .tierSet rung value ttl => .tierSet rung (f value) ttl
  | .tierRemove rung => .tierRemove rung
  | .tierContains rung => .tierContains rung
  | .fetch => .fetch
  | .register notify => .register notify
  | .notified epoch => .notified epoch
  | .sleep => .sleep
  | .yieldNow => .yieldNow
  | .tierHealth rung => .tierHealth rung
  | .record rung result => .record rung result

/-- The answer on renamed values. Only a read and a fetch answer with a value. -/
def Req.mapAnswer (f : V → W) : (q : Req V) → q.Answer → (q.map f).Answer
  | .tierGet _, a => a.map (Option.map f)
  | .fetch, a => a.map f
  | .peek, a | .acquire _, a | .prepare _ _, a | .evictionCandidate _, a | .reserveEviction _, a
  | .removeIfAddress _ _, a | .tierContains _, a | .register _, a | .tierHealth _, a | .sleep, a
  | .yieldNow, a | .record _ _, a | .setState _, a | .publish _ _ _, a | .failWithError _, a
  | .invalidate, a | .release, a | .commit _ _, a | .abort _ _, a | .abortProvenClean _ _, a
  | .tierSet _ _ _, a | .tierRemove _, a | .notified _, a => a

/-- The renaming of the manager's requests by a map of values. -/
def payloads (f : V → W) : Renaming (Req V) (Req W) Req.Answer Req.Answer :=
  ⟨Req.map f, Req.mapAnswer f⟩

/-- A call on renamed values. -/
def Call.map (f : V → W) : Call V → Call W
  | .get a => .get a
  | .getOrFetch a => .getOrFetch a
  | .exists a => .exists a
  | .set a value => .set a (f value)
  | .invalidate a => .invalidate a
  | .remove a => .remove a
  | .refresh a => .refresh a
  | .promote a => .promote a
  | .demote a => .demote a
  | .evict => .evict

/-- A lookup of a renamed value. -/
def Manager.Lookup.map (f : V → W) (r : Lookup V) : Lookup W := ⟨r.value.map f, r.fresh⟩

/-- A reply with renamed values. -/
def Reply.map (f : V → W) : Reply V → Reply W
  | .read r => .read (r.map (Option.map f))
  | .fetched r => .fetched (r.map f)
  | .found r => .found r
  | .done r => .done r
  | .refreshed r => .refreshed (r.map (Manager.Lookup.map f))
  | .freed r => .freed r

/-- An outcome with renamed values. -/
def Outcome.map (f : V → W) (o : Outcome V) : Outcome W where
  error := o.error
  effect := o.effect
  room := o.room
  fetched := o.fetched.map f
  timeout := o.timeout
  candidate := o.candidate

/-- The state of a key whose rungs hold renamed values. -/
def KeyWorld.map (f : V → W) (w : KeyWorld V) : KeyWorld W where
  now := w.now
  address := w.address
  slot := w.slot
  rungs := fun r => (w.rungs r).map f
  failures := w.failures

namespace KeyWorld

variable {f : V → W} {w : KeyWorld V}

@[simp] theorem map_notifications : (w.map f).notifications = w.notifications := rfl

theorem map_store (rung : TierId) (v : Option V) :
    (w.map f).store rung (v.map f) = (w.store rung v).map f := by
  simp only [store, map, mk.injEq, true_and, and_true]
  funext r
  simp only [Function.update_apply, apply_ite (Option.map f)]

theorem map_storeIf (b : Bool) (rung : TierId) (v : Option V) :
    (w.map f).storeIf b rung (v.map f) = (w.storeIf b rung v).map f := by
  cases b with
  | false => rfl
  | true => exact map_store rung v

theorem map_recordOutcome (rung : TierId) (r : Except CacheError Unit) :
    (w.map f).recordOutcome rung r = (w.recordOutcome rung r).map f := by
  unfold recordOutcome
  split <;> rfl

/-- The world answers a renamed request with the renamed answer. -/
theorem exec_map (q : Req V) (o : Outcome V) :
    exec (q.map f) (o.map f) (w.map f) =
      (exec q o w).map fun aw => (q.mapAnswer f aw.1, aw.2.map f) := by
  cases q with
  | reserveEviction address =>
    show ite (address = w.address) _ _ = Option.map _ (ite (address = w.address) _ _)
    split_ifs <;> rfl
  | removeIfAddress rung address =>
    show ite (address = w.address) _ _ = Option.map _ (ite (address = w.address) _ _)
    split_ifs
    · exact congrArg (fun w' => some (o.effect, w')) (map_storeIf o.effect rung none)
    · rfl
  | tierGet rung =>
    cases he : o.error with
    | none => cases ho : o.effect <;> simp [exec, Req.map, Outcome.map, he, ho, Req.mapAnswer, Except.map, map]
    | some e => simp [exec, Req.map, Outcome.map, he, Req.mapAnswer, Except.map]
  | tierSet rung value ttl =>
    cases he : o.error with
    | none =>
      simp only [exec, Req.map, Outcome.map, he, Option.map_some]
      exact congrArg (fun w' => some (Except.ok (), w')) (map_store rung (some value))
    | some e =>
      simp only [exec, Req.map, Outcome.map, he, Option.map_some]
      exact congrArg (fun w' => some (Except.error e, w')) (map_storeIf o.effect rung (some value))
  | tierRemove rung =>
    cases he : o.error with
    | none =>
      simp only [exec, Req.map, Outcome.map, he, Option.map_some]
      exact congrArg (fun w' => some (Except.ok (), w')) (map_storeIf o.effect rung none)
    | some e =>
      simp only [exec, Req.map, Outcome.map, he, Option.map_some]
      exact congrArg (fun w' => some (Except.error e, w')) (map_storeIf o.effect rung none)
  | tierContains rung =>
    cases he : o.error with
    | none => simp [exec, Req.map, Outcome.map, he, Req.mapAnswer, KeyWorld.map]
    | some e => simp [exec, Req.map, Outcome.map, he, Req.mapAnswer]
  | register notify => cases notify <;> rfl
  | notified epoch =>
    cases ht : o.timeout with
    | true => simp [exec, Req.map, Outcome.map, ht, Req.mapAnswer]
    | false =>
      cases hn : epoch.elim false (· != w.notifications) with
      | true => simp [exec, Req.map, Outcome.map, ht, hn, Req.mapAnswer]
      | false => simp [exec, Req.map, Outcome.map, ht, hn]
  | record rung result =>
    exact congrArg (fun w' => some ((), w')) (map_recordOutcome rung result)
  | _ => rfl

end KeyWorld

/-! ## Every program is mirrored by itself -/

namespace Manager

variable (f : V → W) {tiers : ℕ} {a : Args}

theorem mirrors_call {q : Req V} (l : Fn) :
    (call l q).Mirrors (payloads f) (q.mapAnswer f) (call l (q.map f)) :=
  Prog.mirrors_req fun _ => rfl

theorem mirrors_await {q : Req V} (l : Fn) :
    (await l q).Mirrors (payloads f) (q.mapAnswer f) (await l (q.map f)) :=
  Prog.mirrors_req fun _ => rfl

theorem waitForPopulation_mirrors (s : ControlSnapshot) :
    (waitForPopulation s : Step V _).Mirrors (payloads f) id (waitForPopulation s) := by
  unfold waitForPopulation
  apply (mirrors_call f (q := .register s.notify) .waitForPopulation).bind
  intro epoch
  apply (mirrors_call f (q := .peek) .waitForPopulation).bind
  intro now
  exact Prog.mirrors_ite (fun _ => rfl)
    fun _ => mirrors_await f (q := .notified epoch) .waitForPopulation

theorem waitAndGet_mirrors (s : ControlSnapshot) :
    (waitAndGet tiers s : Step V _).Mirrors (payloads f) (Except.map f) (waitAndGet tiers s) := by
  unfold waitAndGet
  apply (waitForPopulation_mirrors f s).bind
  intro r
  cases r with
  | error e => rfl
  | ok u =>
    apply (mirrors_call f (q := .peek) .waitAndGet).bind
    intro after
    simp only [Req.mapAnswer]
    cases after.lastError with
    | some e => rfl
    | none =>
      refine Prog.mirrors_ite (fun _ => rfl) fun _ => Prog.mirrors_ite (fun _ => rfl) fun _ => ?_
      apply (mirrors_await f (q := .tierGet after.tier) .waitAndGet).bind
      rintro (e | _ | v) <;> rfl

theorem populateOnce_mirrors (decision : PolicyDecision) (expected : Generation) :
    (populateOnce tiers a decision expected : Step V _).Mirrors (payloads f) (Except.map f)
      (populateOnce tiers a decision expected) := by
  unfold populateOnce
  apply (mirrors_await f (q := .fetch) .populateOnce).bind
  intro fetched
  cases fetched with
  | error e => rfl
  | ok value =>
    simp only [Req.mapAnswer, Except.map]
    cases nearestBoundRung tiers decision.tier with
    | none => rfl
    | some rung =>
      apply (mirrors_await f (q := .tierSet rung value a.ttl) .populateOnce).bind
      intro result
      apply (mirrors_call f (q := .record rung result) .populateOnce).bind
      intro _
      cases result with
      | error e => rfl
      | ok u =>
        apply (mirrors_call f (q := .publish expected rung a.ttl) .populateOnce).bind
        rintro (e | u) <;> rfl

theorem populateAttempts_mirrors (decision : PolicyDecision) (expected : Generation) (retries : ℕ) :
    (populateAttempts tiers a decision expected retries : Step V _).Mirrors (payloads f) (Except.map f)
      (populateAttempts tiers a decision expected retries) := by
  induction retries with
  | zero => exact populateOnce_mirrors f decision expected
  | succ retries ih =>
    apply (populateOnce_mirrors f decision expected).bind
    intro r
    cases r with
    | ok value => rfl
    | error e =>
      refine Prog.mirrors_ite (fun _ => ?_) fun _ => rfl
      apply (mirrors_await f (q := .sleep) .becomePopulationOwner).bind
      intro _
      exact ih

theorem scanRungs_mirrors (cause : CacheError) (rungs : List TierId) :
    (scanRungs tiers cause rungs : Step V _).Mirrors (payloads f) (Except.map f)
      (scanRungs tiers cause rungs) := by
  induction rungs with
  | nil => rfl
  | cons rung rungs ih =>
    refine Prog.mirrors_ite (fun _ => ih) fun _ => ?_
    apply (mirrors_call f (q := .tierHealth rung) .tryFallbackTier).bind
    intro failures
    refine Prog.mirrors_ite (fun _ => ih) fun _ => ?_
    apply (mirrors_await f (q := .tierGet rung) .tryFallbackTier).bind
    rintro (e | _ | v)
    · exact ih
    · exact ih
    · rfl

theorem becomePopulationOwner_mirrors (decision : PolicyDecision) (expected : Generation) :
    (becomePopulationOwner tiers a decision expected : Step V _).Mirrors (payloads f) (Except.map f)
      (becomePopulationOwner tiers a decision expected) := by
  unfold becomePopulationOwner
  apply (populateAttempts_mirrors f decision expected 2).guarded.bind
  intro r
  cases r with
  | ok value => rfl
  | error e =>
    apply (mirrors_call f (q := .failWithError e) .becomePopulationOwner).bind
    intro _
    refine Prog.mirrors_ite (fun _ => rfl) fun _ => ?_
    exact Prog.mirrors_ite (fun _ => scanRungs_mirrors f e cacheLadder) fun _ => rfl

theorem get_mirrors :
    (Manager.get tiers a : Step V _).Mirrors (payloads f) (Except.map (Option.map f))
      (Manager.get tiers a) := by
  unfold Manager.get
  cases a.admitEncoded with
  | error e => rfl
  | ok d =>
    apply (mirrors_call f (q := .peek) .get).bind
    intro s
    refine Prog.mirrors_ite (fun _ => ?_) fun _ => ?_
    · refine Prog.mirrors_ite (fun _ => rfl) fun _ => ?_
      apply (mirrors_await f (q := .tierGet s.tier) .get).bind
      rintro (e | v)
      · apply (mirrors_call f (q := .record s.tier (.error e)) .get).bind
        intro _
        rfl
      · apply (mirrors_call f (q := .record s.tier (.ok ())) .get).bind
        intro _
        apply (mirrors_call f (q := .peek) .get).bind
        intro after
        exact Prog.mirrors_ite (fun _ => rfl) fun _ => rfl
    · refine Prog.mirrors_ite (fun _ => ?_) fun _ => Prog.mirrors_ite (fun _ => ?_) fun _ => rfl
      · apply (mirrors_call f (q := .setState .stale) .get).bind
        intro _
        rfl
      · apply (waitForPopulation_mirrors f s).bind
        intro r
        cases r with
        | error e => rfl
        | ok u =>
          apply (mirrors_call f (q := .peek) .get).bind
          intro after
          simp only [Req.mapAnswer]
          cases after.lastError with
          | some e => rfl
          | none =>
            refine Prog.mirrors_ite (fun _ => rfl) fun _ => Prog.mirrors_ite (fun _ => rfl) fun _ => ?_
            apply (mirrors_await f (q := .tierGet after.tier) .get).bind
            rintro (e | v)
            · apply (mirrors_call f (q := .record after.tier (.error e)) .get).bind
              intro _
              rfl
            · apply (mirrors_call f (q := .record after.tier (.ok ())) .get).bind
              intro _
              rfl

theorem joinOrPopulate_mirrors {decision : PolicyDecision} {s : ControlSnapshot}
    {again : Step V (Except CacheError V)} {again' : Step W (Except CacheError W)}
    (hagain : again.Mirrors (payloads f) (Except.map f) again') :
    (joinOrPopulate tiers a decision s again).Mirrors (payloads f) (Except.map f)
      (joinOrPopulate tiers a decision s again') := by
  unfold joinOrPopulate
  refine Prog.mirrors_ite (fun _ => waitAndGet_mirrors f s) fun _ =>
    Prog.mirrors_ite (fun _ => ?_) fun _ =>
      Prog.mirrors_ite (fun _ => waitAndGet_mirrors f s) fun _ =>
        becomePopulationOwner_mirrors f decision s.generation
  apply (waitForPopulation_mirrors f s).bind
  intro r
  cases r with
  | error e => rfl
  | ok u => exact hagain

theorem fetchFrom_mirrors {decision : PolicyDecision} {s : ControlSnapshot}
    {again : Step V (Except CacheError V)} {again' : Step W (Except CacheError W)}
    (hagain : again.Mirrors (payloads f) (Except.map f) again') :
    (fetchFrom tiers a decision s again).Mirrors (payloads f) (Except.map f)
      (fetchFrom tiers a decision s again') := by
  unfold fetchFrom
  refine Prog.mirrors_ite (fun _ => Prog.mirrors_ite (fun _ => rfl) fun _ => ?_)
    fun _ => joinOrPopulate_mirrors f hagain
  apply (mirrors_await f (q := .tierGet s.tier) .getOrFetch).bind
  rintro (e | _ | v)
  · rfl
  · exact joinOrPopulate_mirrors f hagain
  · rfl

theorem fetchAttempts_mirrors (decision : PolicyDecision) (attempts : ℕ) :
    (fetchAttempts tiers a decision attempts : Step V _).Mirrors (payloads f) (Except.map f)
      (fetchAttempts tiers a decision attempts) := by
  induction attempts with
  | zero => rfl
  | succ attempts ih =>
    apply (mirrors_call f (q := .acquire decision.tier) .getOrFetch).bind
    rintro (e | first)
    · rfl
    · refine Prog.mirrors_ite (fun _ => ?_) fun _ => fetchFrom_mirrors f ih
      apply (mirrors_call f (q := .setState .stale) .getOrFetch).bind
      intro _
      apply (mirrors_call f (q := .acquire decision.tier) .getOrFetch).bind
      rintro (e | s)
      · rfl
      · exact fetchFrom_mirrors f ih

theorem getOrFetch_mirrors :
    (getOrFetch tiers a : Step V _).Mirrors (payloads f) (Except.map f) (getOrFetch tiers a) := by
  unfold getOrFetch
  cases a.admitPopulation with
  | error e => rfl
  | ok decision => exact fetchAttempts_mirrors f decision 8

theorem exists_mirrors :
    (Manager.exists tiers a : Step V _).Mirrors (payloads f) id (Manager.exists tiers a) := by
  unfold Manager.exists
  cases a.admitKey with
  | error e => rfl
  | ok d =>
    apply (mirrors_call f (q := .peek) .exists).bind
    intro s
    exact Prog.mirrors_ite (fun _ => rfl) fun _ => Prog.mirrors_ite (fun _ => rfl)
      fun _ => mirrors_await f (q := .tierContains s.tier) .exists

theorem writeUnder_mirrors (value : V) (rung : TierId) (token : CommitToken) :
    (writeUnder a value rung token).Mirrors (payloads f) id (writeUnder a (f value) rung token) := by
  unfold writeUnder
  apply (mirrors_await f (q := .tierSet rung value a.ttl) .set).bind
  intro result
  apply (mirrors_call f (q := .record rung result) .set).bind
  intro _
  cases result with
  | ok u =>
    apply (mirrors_call f (q := .commit token a.ttl) .set).bind
    rintro (e | u)
    · refine Prog.mirrors_ite (fun _ => rfl) fun _ => ?_
      apply (mirrors_await f (q := .tierRemove rung) .set).bind
      intro _
      rfl
    · rfl
  | error e =>
    refine Prog.mirrors_ite (fun _ => ?_) fun _ => rfl
    apply (mirrors_await f (q := .tierRemove rung) .set).bind
    intro _
    rfl

theorem abortRefused_mirrors (token : CommitToken) (e : CacheError) :
    (abortRefused token e : Step V _).Mirrors (payloads f) id (abortRefused token e) :=
  Prog.mirrors_ite (fun _ => mirrors_call f (q := .abortProvenClean token e) .set)
    fun _ => mirrors_call f (q := .abort token e) .set

theorem writeAt_mirrors (value : V) (rung : TierId) (races : ℕ) :
    (writeAt a value rung races).Mirrors (payloads f) id (writeAt a (f value) rung races) := by
  induction races with
  | zero => rfl
  | succ races ih =>
    unfold writeAt
    apply (mirrors_call f (q := .prepare rung .write) .set).bind
    rintro (e | token)
    · rfl
    · apply (writeUnder_mirrors f value rung token).guarded.bind
      intro r
      cases r with
      | committed => rfl
      | lostRace =>
        cases races with
        | zero =>
          apply (mirrors_call f (q := .abort token .cancelled) .set).bind
          intro _
          rfl
        | succ races =>
          apply (mirrors_await f (q := .yieldNow) .set).guarded.bind
          intro _
          apply (mirrors_call f (q := .abort token .cancelled) .set).bind
          intro _
          exact ih
      | uncommitted e =>
        apply (mirrors_call f (q := .abort token e) .set).bind
        intro _
        rfl
      | refused e =>
        apply (abortRefused_mirrors f token e).bind
        intro _
        exact Prog.mirrors_ite (fun _ => rfl) fun _ => rfl

theorem walk_mirrors (value : V) (rungs : List TierId) (lastError : CacheError) :
    (walk tiers a value rungs lastError).Mirrors (payloads f) id
      (walk tiers a (f value) rungs lastError) := by
  induction rungs generalizing lastError with
  | nil => rfl
  | cons rung rungs ih =>
    refine Prog.mirrors_ite (fun _ => ih lastError) fun _ => ?_
    apply (writeAt_mirrors f value rung maxCommitAttempts).bind
    intro r
    cases r with
    | finished r => rfl
    | nextRung e => exact ih e

theorem tryEvictAtRung_mirrors (rung : TierId) (attempts : ℕ) :
    (tryEvictAtRung rung attempts : Step V _).Mirrors (payloads f) id
      (tryEvictAtRung rung attempts) := by
  induction attempts with
  | zero => rfl
  | succ attempts ih =>
    apply (mirrors_call f (q := .evictionCandidate rung) .tryEvictAtRung).bind
    rintro (_ | address)
    · rfl
    · apply (mirrors_call f (q := .reserveEviction address) .tryEvictAtRung).bind
      rintro (_ | _)
      · exact ih
      · apply (mirrors_call f (q := .removeIfAddress rung address) .tryEvictAtRung).bind
        intro _
        rfl

theorem tryFreeSomewhere_mirrors (rungs : List TierId) (attempts : ℕ) :
    (tryFreeSomewhere tiers rungs attempts : Step V _).Mirrors (payloads f) id
      (tryFreeSomewhere tiers rungs attempts) := by
  induction rungs generalizing attempts with
  | nil => rfl
  | cons rung rungs ih =>
    refine Prog.mirrors_ite (fun _ => ih attempts) fun _ => ?_
    apply (tryEvictAtRung_mirrors f rung attempts).bind
    rintro ⟨_ | _, left⟩
    · exact ih left
    · rfl

theorem setPasses_mirrors (value : V) (tier : TierId) (passes : ℕ) (lastError : CacheError) :
    (setPasses tiers a value tier passes lastError).Mirrors (payloads f) id
      (setPasses tiers a (f value) tier passes lastError) := by
  induction passes generalizing lastError with
  | zero => rfl
  | succ passes ih =>
    apply (walk_mirrors f value (descent tier) lastError).bind
    intro r
    cases r with
    | finished r => rfl
    | nextRung e =>
      refine Prog.mirrors_ite (fun _ => ?_) fun _ => rfl
      apply (tryFreeSomewhere_mirrors f cacheLadder maxEvictionAttempts).bind
      rintro (_ | _)
      · rfl
      · exact ih e

theorem set_mirrors (value : V) :
    (set tiers a value).Mirrors (payloads f) id (set tiers a (f value)) := by
  unfold set
  cases a.admitWrite with
  | error e => rfl
  | ok u =>
    apply (mirrors_call f (q := .peek) .set).bind
    intro s
    apply (mirrors_call f (q := .tierHealth s.tier) .set).bind
    intro failures
    simp only [Req.mapAnswer]
    cases Args.authorize (a.select (.fromSnapshot s failures)) with
    | error e => rfl
    | ok u =>
      exact Prog.mirrors_ite (fun _ => rfl) fun _ => setPasses_mirrors f value _ 17 .tierUnavailable

theorem invalidate_mirrors :
    (invalidate a : Step V _).Mirrors (payloads f) id (invalidate a) := by
  unfold invalidate
  cases a.admitKey with
  | error e => rfl
  | ok d => exact mirrors_call f (q := .invalidate) .invalidate

theorem removeFrom_mirrors (rungs : List TierId) :
    (removeFrom tiers rungs : Step V _).Mirrors (payloads f) id (removeFrom tiers rungs) := by
  induction rungs with
  | nil => rfl
  | cons rung rungs ih =>
    refine Prog.mirrors_ite (fun _ => ih) fun _ => ?_
    apply (mirrors_await f (q := .tierRemove rung) .remove).bind
    intro _
    exact ih

theorem remove_mirrors :
    (remove tiers a : Step V _).Mirrors (payloads f) id (remove tiers a) := by
  unfold remove
  cases a.admitKey with
  | error e => rfl
  | ok d =>
    apply (removeFrom_mirrors f cacheLadder).bind
    intro _
    exact mirrors_call f (q := .release) .remove

theorem moveUnder_mirrors (source destination : TierId) (token : CommitToken) :
    (moveUnder a source destination token : Step V _).Mirrors (payloads f) id
      (moveUnder a source destination token) := by
  unfold moveUnder
  apply (mirrors_await f (q := .tierGet source) .moveEntry).bind
  rintro (e | _ | value)
  · rfl
  · rfl
  · apply (mirrors_await f (q := .tierSet destination value a.ttl) .moveEntry).bind
    intro result
    apply (mirrors_call f (q := .record destination result) .moveEntry).bind
    intro _
    cases result with
    | error e => rfl
    | ok u =>
      apply (mirrors_await f (q := .tierRemove source) .moveEntry).bind
      intro removed
      apply (mirrors_call f (q := .record source removed) .moveEntry).bind
      intro _
      apply (mirrors_call f (q := .commit token a.ttl) .moveEntry).bind
      rintro (e | u)
      · apply (mirrors_await f (q := .tierRemove destination) .moveEntry).bind
        intro _
        rfl
      · rfl

theorem moveEntry_mirrors (source destination : TierId) :
    (moveEntry tiers a source destination : Step V _).Mirrors (payloads f) id
      (moveEntry tiers a source destination) := by
  unfold moveEntry
  apply (mirrors_call f (q := .prepare destination .move) .moveEntry).bind
  rintro (e | token)
  · rfl
  · refine Prog.mirrors_ite (fun _ => ?_) fun _ => ?_
    · apply (mirrors_call f (q := .abort token .cancelled) .moveEntry).bind
      intro _
      rfl
    · apply (moveUnder_mirrors f source destination token).guarded.bind
      rintro (_ | e)
      · rfl
      · apply (mirrors_call f (q := .abort token e) .moveEntry).bind
        intro _
        rfl

theorem moveAlong_mirrors (l : Fn) (stays : TierId → Bool) (shift : ℕ → ℕ) :
    (moveAlong tiers a l stays shift : Step V _).Mirrors (payloads f) id
      (moveAlong tiers a l stays shift) := by
  unfold moveAlong
  apply (mirrors_call f (q := .peek) l).bind
  intro s
  refine Prog.mirrors_ite (fun _ => rfl) fun _ => Prog.mirrors_ite (fun _ => rfl) fun _ => ?_
  simp only [Req.mapAnswer]
  cases TierId.fromUsize (shift s.tier.asUsize) with
  | none => rfl
  | some destination => exact moveEntry_mirrors f s.tier destination

theorem promote_mirrors :
    (promote tiers a : Step V _).Mirrors (payloads f) id (promote tiers a) := by
  cases ha : a.admitKey with
  | error e =>
    simp only [promote, ha]
    rfl
  | ok d =>
    rw [promote_eq ha, promote_eq ha]
    exact moveAlong_mirrors f _ _ _

theorem demote_mirrors :
    (demote tiers a : Step V _).Mirrors (payloads f) id (demote tiers a) := by
  cases ha : a.admitKey with
  | error e =>
    simp only [demote, ha]
    rfl
  | ok d =>
    rw [demote_eq ha, demote_eq ha]
    exact moveAlong_mirrors f _ _ _

theorem readCurrent_mirrors (before : ControlSnapshot) :
    (readCurrent tiers before : Step V _).Mirrors (payloads f) (Option.map f)
      (readCurrent tiers before) := by
  refine Prog.mirrors_ite (fun _ => rfl) fun _ => ?_
  apply (mirrors_await f (q := .tierGet before.tier) .refreshDetailed).bind
  rintro (e | v) <;> rfl

theorem revalidate_mirrors (decision : PolicyDecision) (current : Option V) :
    (revalidate tiers a decision current).Mirrors (payloads f) (Except.map (Lookup.map f))
      (revalidate tiers a decision (current.map f)) := by
  unfold revalidate
  apply (mirrors_call f (q := .acquire decision.tier) .refreshDetailed).bind
  rintro (e | s)
  · rfl
  · refine Prog.mirrors_ite (fun _ => rfl) fun _ => ?_
    apply (becomePopulationOwner_mirrors f { decision with failMode := .closed } s.generation).bind
    rintro (e | value)
    · simp only [Except.map, Option.isSome_map]
      exact Prog.mirrors_ite (fun _ => rfl) fun _ => rfl
    · rfl

theorem refreshDetailed_mirrors :
    (refreshDetailed tiers a : Step V _).Mirrors (payloads f) (Except.map (Lookup.map f))
      (refreshDetailed tiers a) := by
  unfold refreshDetailed
  cases a.admitPopulation with
  | error e => rfl
  | ok decision =>
    apply (mirrors_call f (q := .peek) .refreshDetailed).bind
    intro before
    apply (readCurrent_mirrors f before).bind
    intro current
    refine Prog.mirrors_ite (fun _ => ?_) fun _ => revalidate_mirrors f decision current
    apply (mirrors_call f (q := .setState .stale) .refreshDetailed).bind
    intro _
    exact revalidate_mirrors f decision current

end Manager

/-- Every call is mirrored by the call on renamed values. -/
theorem Call.prog_mirrors (f : V → W) (tiers : ℕ) (c : Call V) :
    (c.prog tiers).Mirrors (payloads f) (Reply.map f) ((c.map f).prog tiers) := by
  cases c with
  | get a => exact (Manager.get_mirrors f).map fun _ => rfl
  | getOrFetch a => exact (Manager.getOrFetch_mirrors f).map fun _ => rfl
  | «exists» a => exact (Manager.exists_mirrors f).map fun _ => rfl
  | set a value => exact (Manager.set_mirrors f value).map fun _ => rfl
  | invalidate a => exact (Manager.invalidate_mirrors f).map fun _ => rfl
  | remove a => exact (Manager.remove_mirrors f).map fun _ => rfl
  | refresh a => exact (Manager.refreshDetailed_mirrors f).map fun _ => rfl
  | promote a => exact (Manager.promote_mirrors f).map fun _ => rfl
  | demote a => exact (Manager.demote_mirrors f).map fun _ => rfl
  | evict =>
    exact (Manager.tryFreeSomewhere_mirrors f cacheLadder Manager.maxEvictionAttempts).map fun _ => rfl

/-! ## Runs on renamed values -/

/-- The manager on renamed values is the manager, renamed. -/
def managerRenames (f : V → W) (tiers : ℕ) : Renames (manager V tiers) (manager W tiers) where
  ρ := payloads f
  call := Call.map f
  reply := Reply.map f
  world := KeyWorld.map f
  outcome := Outcome.map f
  prog := Call.prog_mirrors f tiers
  exec q o _ := KeyWorld.exec_map q o
  env _ _ := rfl

/-- A turn on renamed values. -/
abbrev Turn.map (f : V → W) (tiers : ℕ) : Turn V → Turn W := (managerRenames f tiers).event

/-- An item on renamed values. -/
abbrev Served.map (f : V → W) (tiers : ℕ) : Served V → Served W := (managerRenames f tiers).item

/-- **The run on renamed values is the renamed run**: from any world, under any schedule and any
interleaving, with drops. -/
theorem run_map (f : V → W) (tiers : ℕ) (w : KeyWorld V) (schedule : List (Turn V)) :
    let s := (manager V tiers).run w schedule
    let s' := (manager W tiers).run (w.map f) (schedule.map (Turn.map f tiers))
    s'.world = s.world.map f ∧ s'.trace = s.trace.map (Served.map f tiers) ∧
      (∀ i, s'.isIdle i = s.isIdle i) ∧ ∀ i, s'.result i = (s.result i).map (Reply.map f) := by
  have h := (managerRenames f tiers).run w schedule
  exact ⟨h.world, h.trace, h.isIdle, h.result⟩

/-- What is left when every value is forgotten. -/
abbrev shadow : V → Unit := fun _ => ()

/-- **What the values are never shows**: two worlds and two schedules that differ only in the values
they carry, and lead the two keys through the same requests at the same sites, with answers, entries,
breakers and replies that differ only in the values they carry. -/
theorem run_shadow {tiers : ℕ} {w w' : KeyWorld V} {schedule schedule' : List (Turn V)}
    (hw : w.map shadow = w'.map shadow)
    (hschedule : schedule.map (Turn.map shadow tiers) = schedule'.map (Turn.map shadow tiers)) :
    let s := (manager V tiers).run w schedule
    let s' := (manager V tiers).run w' schedule'
    s.world.slot = s'.world.slot ∧ s.world.failures = s'.world.failures ∧
      (∀ r, (s.world.rungs r).isSome = (s'.world.rungs r).isSome) ∧
      s.trace.map (Served.map shadow tiers) = s'.trace.map (Served.map shadow tiers) ∧
      ∀ i, (s.result i).map (Reply.map shadow) = (s'.result i).map (Reply.map shadow) := by
  obtain ⟨hworld, htrace, -, hresult⟩ := run_map shadow tiers w schedule
  obtain ⟨hworld', htrace', -, hresult'⟩ := run_map shadow tiers w' schedule'
  rw [hw, hschedule] at hworld htrace hresult
  have hworlds := hworld.symm.trans hworld'
  have hslot := congrArg KeyWorld.slot hworlds
  have hfailures := congrArg KeyWorld.failures hworlds
  refine ⟨hslot, hfailures, ?_, htrace.symm.trans htrace', fun i => (hresult i).symm.trans (hresult' i)⟩
  intro r
  have hrung := congrArg (fun u => (KeyWorld.rungs u r).isSome) hworlds
  simpa only [KeyWorld.map, Option.isSome_map] using hrung

/-- A write and a read of it. -/
def writeAndRead (v : ℕ) : List (Turn ℕ) :=
  [.start 0 (.set (.pinned .L0 none) v),
    .run 0 {}, .run 0 {}, .run 0 {}, .run 0 {}, .run 0 {}, .run 0 {},
    .start 1 (.get (.pinned .L0 none)), .run 1 {}, .run 1 {}, .run 1 {}, .run 1 {}]

theorem run_shadow_writeAndRead :
    ((manager ℕ 1).run .unwritten (writeAndRead 1)).world.slot =
        ((manager ℕ 1).run .unwritten (writeAndRead 2)).world.slot ∧
      ((manager ℕ 1).run .unwritten (writeAndRead 1)).result 1 = some (.read (.ok (some 1))) ∧
      ((manager ℕ 1).run .unwritten (writeAndRead 2)).result 1 = some (.read (.ok (some 2))) :=
  ⟨(@run_shadow ℕ 1 .unwritten .unwritten (writeAndRead 1) (writeAndRead 2) rfl rfl).1,
    by decide +kernel, by decide +kernel⟩

end TheSix
