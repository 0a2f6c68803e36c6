import TheSix.Manager.Observed
import TheSix.Lib.Ledger

/-!
# What the records say

Every tier read of `get` and `get_or_fetch` and every tier write is due a record (`recordDue`); a
refusal, a failed population, a fallback and a failed refresh leave one of their own (`FreeRecord`).
Every program of the observed manager keeps to that (`Call.observed_paid`), which gives the two facts
a reader of the records relies on: what each record may say (`records_wellFormed`), and that the
records of success are those of the tier calls that succeeded, one each (`records_exact`).

The governor's heat is read off the records. It is the number of reads that were answered with a value
(`heat_le_reads`, `heat_eq_reads`); a refresh never adds to it.
-/

namespace TheSix

open Coroutine

variable {V : Type}

/-- The functions that leave the records of a call. Only a policy that fails open lets a population
fall back. -/
def Call.recorders : Call V → Fn → Bool
  | .get _, f => f = .get
  | .getOrFetch a, f =>
    f = .getOrFetch || f = .waitAndGet || f = .populateOnce || f = .becomePopulationOwner ||
      f = .tryFallbackTier && (a.select .new).failMode = .open
  | .set _ _, f => f = .set
  | .refresh _, f => f = .populateOnce || f = .becomePopulationOwner || f = .refreshDetailed
  | .promote _, f | .demote _, f => f = .moveEntry
  | .exists _, _ | .invalidate _, _ | .remove _, _ | .evict, _ => false

namespace Observed

open Telemetry Manager

/-- A record of success. -/
def succeeded (r : Telemetry.OperationRecord) : Bool := r.outcome = .served || r.outcome = .populated

/-- The record that the answer of a tier is due, on a key. -/
def tierRecord (tiers : ℕ) (kinds : TierId → BackendKind) (key : KeyRef) :
    Fn → (q : Req V) → q.Answer → Option Telemetry.OperationRecord
  | .get, .tierGet rung, r => some (readRecord .get key rung (backendOf tiers kinds rung) r)
  | .getOrFetch, .tierGet rung, r =>
    some (readRecord .getOrFetch key rung (backendOf tiers kinds rung) r)
  | .waitAndGet, .tierGet rung, r =>
    some (readRecord .getOrFetch key rung (backendOf tiers kinds rung) r)
  | .set, .tierSet rung _ _, r => some (writeRecord .set key rung (backendOf tiers kinds rung) r)
  | .populateOnce, .tierSet rung _ _, r =>
    some (writeRecord .getOrFetch key rung (backendOf tiers kinds rung) r)
  | .moveEntry, .tierSet rung _ _, r =>
    some (writeRecord .promote key rung (backendOf tiers kinds rung) r)
  | _, _, _ => none

/-- The record an answer is due, when only the functions of `recorders` leave any. -/
def recordDue (tiers : ℕ) (kinds : TierId → BackendKind) (recorders : Fn → Bool) (key : KeyRef)
    (f : Fn) (q : Req V) (a : q.Answer) : Option Telemetry.OperationRecord :=
  (tierRecord tiers kinds key f q a).filter fun _ => recorders f

/-- A record that no answer of a tier is due. -/
inductive FreeRecord (tiers : ℕ) (kinds : TierId → BackendKind) (recorders : Fn → Bool)
    (key : KeyRef) : Fn → Telemetry.OperationRecord → Prop
  | control (rung : TierId) (outcome : RecordedOutcome)
      (houtcome : outcome = .miss ∨ outcome = .denied ∨ outcome = .failed) (h : recorders .get) :
      FreeRecord tiers kinds recorders key .get (controlRecord .get key rung outcome)
  | fallback (rung : TierId) (cause : CacheError) (h : recorders .tryFallbackTier) :
      FreeRecord tiers kinds recorders key .tryFallbackTier
        (fallbackRecord key rung (backendOf tiers kinds rung) cause)
  | population (rung : TierId) (e : CacheError) (h : recorders .becomePopulationOwner) :
      FreeRecord tiers kinds recorders key .becomePopulationOwner
        (populationFailureRecord key rung (backendOf tiers kinds rung) e)
  | refresh (rung : TierId) (generation : Generation) (e : CacheError)
      (h : recorders .refreshDetailed) :
      FreeRecord tiers kinds recorders key .refreshDetailed
        (refreshFailureRecord key rung generation e)

theorem fromError_not_succeeded (e : CacheError) :
    RecordedOutcome.fromError e ≠ .served ∧ RecordedOutcome.fromError e ≠ .populated := by
  cases e <;> decide

theorem FreeRecord.not_succeeded {tiers : ℕ} {kinds : TierId → BackendKind}
    {recorders : Fn → Bool} {key : KeyRef} {f : Fn} {r : Telemetry.OperationRecord}
    (h : FreeRecord tiers kinds recorders key f r) : succeeded r = false := by
  cases h with
  | control rung outcome houtcome h =>
    rcases houtcome with rfl | rfl | rfl <;> rfl
  | fallback rung cause h => rfl
  | refresh rung generation e h => rfl
  | population rung e h =>
    obtain ⟨hserved, hpopulated⟩ := fromError_not_succeeded e
    simp [succeeded, populationFailureRecord, OperationRecord.finish, hserved, hpopulated]

/-! ## The programs keep their books -/

section Paid

variable {tiers : ℕ} {kinds : TierId → BackendKind} {recorders : Fn → Bool} {key : KeyRef} {a : Args}
  {R : Type}

/-- The program keeps its books. -/
abbrev Kept (tiers : ℕ) (kinds : TierId → BackendKind) (recorders : Fn → Bool) (key : KeyRef)
    (p : Logged V R) : Prop :=
  p.Paid (recordDue tiers kinds recorders key) (FreeRecord tiers kinds recorders key) none

theorem kept_ret (r : R) : Kept tiers kinds recorders key (.ret r : Logged V R) := Prog.paid_ret r

/-- A request that is due no record. -/
theorem kept_call {f : Fn} {q : Req V} (h : ∀ r, tierRecord tiers kinds key f q r = none) :
    Kept tiers kinds recorders key ((observing tiers kinds (some key)).silent (call f q)) := by
  refine Prog.Unbilled.aside ⟨fun r => ?_, fun _ => trivial, by simp⟩
  rw [recordDue, h r]
  rfl

theorem kept_await {f : Fn} {q : Req V} (h : ∀ r, tierRecord tiers kinds key f q r = none) :
    Kept tiers kinds recorders key ((observing tiers kinds (some key)).silent (await f q)) := by
  refine Prog.Unbilled.aside ⟨fun r => ?_, fun _ => trivial, by simp⟩
  rw [recordDue, h r]
  rfl

theorem kept_emit_bind {f : Fn} {r : Telemetry.OperationRecord} {rest : Unit → Logged V R}
    (hr : FreeRecord tiers kinds recorders key f r)
    (h : Kept tiers kinds recorders key (rest ())) :
    Kept tiers kinds recorders key (emit f r >>= rest) :=
  Prog.paid_note_bind hr h

theorem kept_armed {p : Logged V R} {c : Req V} (hp : Kept tiers kinds recorders key p)
    (hc : ∀ f r, tierRecord tiers kinds key f c r = none) :
    Kept tiers kinds recorders key ((observing tiers kinds (some key)).armed [c] p) := by
  refine Prog.Paid.guarded hp [c] ?_
  intro c' hmem l r
  obtain rfl := List.mem_singleton.1 hmem
  rw [recordDue, hc l r]
  rfl

theorem kept_ite {b : Prop} [Decidable b] {p p' : Logged V R}
    (hp : b → Kept tiers kinds recorders key p) (hp' : ¬b → Kept tiers kinds recorders key p') :
    Kept tiers kinds recorders key (if b then p else p') :=
  Prog.paid_ite hp hp'

/-- A due record is one that its function leaves. -/
theorem recordDue_eq {f : Fn} {q : Req V} {r : q.Answer} {record : Telemetry.OperationRecord}
    (hf : recorders f = true) (h : tierRecord tiers kinds key f q r = some record) :
    recordDue tiers kinds recorders key f q r = some record := by
  simp [recordDue, h, hf]

/-- An observed read at a function that records reads under the name `op`. -/
theorem kept_observedRead {f : Fn} {op : Operation} {rung : TierId} (hf : recorders f = true)
    (h : ∀ r : Except CacheError (Option V), tierRecord tiers kinds key f (.tierGet rung) r =
      some (readRecord op key rung (backendOf tiers kinds rung) r)) :
    Kept tiers kinds recorders key
      ((observing tiers kinds (some key)).observedRead f op rung :
        Logged V (Except CacheError (Option V))) :=
  ⟨rfl, fun r => ⟨.inl (recordDue_eq hf (h r)), rfl, kept_ret r⟩, by simp⟩

/-- An observed write at a function that records writes under the name `op`. -/
theorem kept_observedWrite {f : Fn} {op : Operation} {rung : TierId} {value : V} {ttl : Option ℕ}
    (hf : recorders f = true)
    (h : ∀ r : Except CacheError Unit, tierRecord tiers kinds key f (.tierSet rung value ttl) r =
      some (writeRecord op key rung (backendOf tiers kinds rung) r)) :
    Kept tiers kinds recorders key
      ((observing tiers kinds (some key)).observedWrite f op rung value ttl) :=
  ⟨rfl, fun r => ⟨.inl (recordDue_eq hf (h r)), rfl, kept_ret r⟩, by simp⟩

theorem kept_waitForPopulation (snapshot : ControlSnapshot) :
    Kept tiers kinds recorders key
      ((observing tiers kinds (some key)).silent (waitForPopulation snapshot) :
        Logged V (Except CacheError Unit)) := by
  refine Prog.Unbilled.aside ?_
  refine ⟨fun _ => rfl, fun epoch => ⟨fun _ => rfl, fun now => ?_, by simp⟩, by simp⟩
  change Prog.Unbilled _ (if _ then Prog.ret _ else _)
  split
  · trivial
  · exact ⟨fun _ => rfl, fun _ => trivial, by simp⟩

theorem waitAndGet_kept (hf : recorders .waitAndGet = true) (snapshot : ControlSnapshot) :
    Kept tiers kinds recorders key
      (waitAndGet (S := observing tiers kinds (some key)) tiers snapshot : Logged V _) := by
  apply (kept_waitForPopulation snapshot).bind
  rintro (e | u)
  · exact kept_ret _
  · apply (kept_call fun _ => rfl).bind
    intro after
    cases after.lastError with
    | some e => exact kept_ret _
    | none =>
      refine kept_ite (fun _ => kept_ret _) fun _ => kept_ite (fun _ => kept_ret _) fun _ => ?_
      apply (kept_observedRead hf fun _ => rfl).bind
      rintro (e | _ | v) <;> exact kept_ret _

theorem populateOnce_kept (hf : recorders .populateOnce = true) (decision : PolicyDecision)
    (expected : Generation) :
    Kept tiers kinds recorders key
      (populateOnce (S := observing tiers kinds (some key)) tiers a decision expected :
        Logged V _) := by
  apply (kept_await fun _ => rfl).bind
  rintro (e | value)
  · exact kept_ret _
  · dsimp only
    cases nearestBoundRung tiers decision.tier with
    | none => exact kept_ret _
    | some rung =>
      apply (kept_observedWrite hf fun _ => rfl).bind
      intro result
      apply (kept_call fun _ => rfl).bind
      intro _
      cases result with
      | error e => exact kept_ret _
      | ok u =>
        apply (kept_call fun _ => rfl).bind
        rintro (e | u) <;> exact kept_ret _

theorem populateAttempts_kept (hf : recorders .populateOnce = true) (decision : PolicyDecision)
    (expected : Generation) (retries : ℕ) :
    Kept tiers kinds recorders key
      (populateAttempts (S := observing tiers kinds (some key)) tiers a decision expected retries :
        Logged V _) := by
  induction retries with
  | zero => exact populateOnce_kept hf decision expected
  | succ retries ih =>
    apply (populateOnce_kept hf decision expected).bind
    rintro (e | value)
    · refine kept_ite (fun _ => ?_) fun _ => kept_ret _
      apply (kept_await fun _ => rfl).bind
      intro _
      exact ih
    · exact kept_ret _

theorem scanRungs_kept (hf : recorders .tryFallbackTier = true) (cause : CacheError)
    (rungs : List TierId) :
    Kept tiers kinds recorders key
      (scanRungs (S := observing tiers kinds (some key)) tiers cause rungs : Logged V _) := by
  induction rungs with
  | nil => exact kept_ret _
  | cons rung rungs ih =>
    refine kept_ite (fun _ => ih) fun _ => ?_
    apply (kept_call fun _ => rfl).bind
    intro failures
    refine kept_ite (fun _ => ih) fun _ => ?_
    apply (kept_await fun _ => rfl).bind
    rintro (e | _ | v)
    · exact ih
    · exact ih
    · exact kept_emit_bind (.fallback rung cause hf) (kept_ret _)

theorem becomePopulationOwner_kept (hf : recorders .populateOnce = true)
    (hf' : recorders .becomePopulationOwner = true) {decision : PolicyDecision}
    (hopen : decision.failMode = .open → recorders .tryFallbackTier = true)
    (expected : Generation) :
    Kept tiers kinds recorders key
      (becomePopulationOwner (S := observing tiers kinds (some key)) tiers a decision expected :
        Logged V _) := by
  apply (kept_armed (populateAttempts_kept hf decision expected 2)
    fun f _ => by cases f <;> rfl).bind
  rintro (e | value)
  · refine kept_emit_bind (.population decision.tier e hf') ?_
    apply (kept_call fun _ => rfl).bind
    intro _
    refine kept_ite (fun _ => kept_ret _) fun _ => kept_ite (fun h => ?_) fun _ => kept_ret _
    exact scanRungs_kept (hopen h) e cacheLadder
  · exact kept_ret _

theorem fetchFrom_kept (hf : recorders .getOrFetch = true) (hwait : recorders .waitAndGet = true)
    {decision : PolicyDecision} {snapshot : ControlSnapshot}
    {again : Logged V (Except CacheError V)} (h : Kept tiers kinds recorders key again)
    (howner : ∀ g, Kept tiers kinds recorders key
      (becomePopulationOwner (S := observing tiers kinds (some key)) tiers a decision g :
        Logged V _)) :
    Kept tiers kinds recorders key
      (fetchFrom (S := observing tiers kinds (some key)) tiers a decision snapshot again) := by
  have hjoin : Kept tiers kinds recorders key
      (joinOrPopulate (S := observing tiers kinds (some key)) tiers a decision snapshot again) := by
    refine kept_ite (fun _ => waitAndGet_kept hwait snapshot) fun _ => kept_ite (fun _ => ?_) fun _ =>
      kept_ite (fun _ => waitAndGet_kept hwait snapshot) fun _ => howner _
    apply (kept_waitForPopulation snapshot).bind
    rintro (e | u)
    · exact kept_ret _
    · exact h
  refine kept_ite (fun _ => kept_ite (fun _ => kept_ret _) fun _ => ?_) fun _ => hjoin
  apply (kept_observedRead hf fun _ => rfl).bind
  rintro (e | _ | v)
  · exact kept_ret _
  · exact hjoin
  · exact kept_ret _

theorem fetchAttempts_kept (hf : recorders .getOrFetch = true) (hwait : recorders .waitAndGet = true)
    {decision : PolicyDecision} (howner : ∀ g, Kept tiers kinds recorders key
      (becomePopulationOwner (S := observing tiers kinds (some key)) tiers a decision g :
        Logged V _)) (attempts : ℕ) :
    Kept tiers kinds recorders key
      (fetchAttempts (S := observing tiers kinds (some key)) tiers a decision attempts :
        Logged V _) := by
  induction attempts with
  | zero => exact kept_ret _
  | succ attempts ih =>
    apply (kept_call fun _ => rfl).bind
    rintro (e | first)
    · exact kept_ret _
    · refine kept_ite (fun _ => ?_) fun _ => fetchFrom_kept hf hwait ih howner
      apply (kept_call fun _ => rfl).bind
      intro _
      apply (kept_call fun _ => rfl).bind
      rintro (e | snapshot)
      · exact kept_ret _
      · exact fetchFrom_kept hf hwait ih howner

theorem writeUnder_kept (hf : recorders .set = true) (value : V) (rung : TierId)
    (token : CommitToken) :
    Kept tiers kinds recorders key
      (writeUnder (S := observing tiers kinds (some key)) a value rung token) := by
  apply (kept_observedWrite hf fun _ => rfl).bind
  intro result
  apply (kept_call fun _ => rfl).bind
  intro _
  cases result with
  | error e =>
    refine kept_ite (fun _ => ?_) fun _ => kept_ret _
    apply (kept_await fun _ => rfl).bind
    intro _
    exact kept_ret _
  | ok u =>
    apply (kept_call fun _ => rfl).bind
    rintro (e | u)
    · refine kept_ite (fun _ => kept_ret _) fun _ => ?_
      apply (kept_await fun _ => rfl).bind
      intro _
      exact kept_ret _
    · exact kept_ret _

theorem abortRefused_kept (token : CommitToken) (e : CacheError) :
    Kept tiers kinds recorders key
      ((observing tiers kinds (some key)).silent (abortRefused token e) :
        Logged V (Except CacheError Unit)) := by
  unfold abortRefused
  split <;> exact kept_call fun _ => rfl

theorem writeAt_kept (hf : recorders .set = true) (value : V) (rung : TierId) (races : ℕ) :
    Kept tiers kinds recorders key
      (writeAt (S := observing tiers kinds (some key)) a value rung races) := by
  induction races with
  | zero => exact kept_ret _
  | succ races ih =>
    unfold writeAt
    apply (kept_call fun _ => rfl).bind
    rintro (e | token)
    · exact kept_ret _
    · apply (kept_armed (writeUnder_kept hf value rung token) fun f _ => by cases f <;> rfl).bind
      rintro (_ | _ | e | e)
      · exact kept_ret _
      · cases races with
        | zero =>
          apply (kept_call fun _ => rfl).bind
          intro _
          exact kept_ret _
        | succ races =>
          apply (kept_armed (kept_await fun _ => rfl) fun f _ => by cases f <;> rfl).bind
          intro _
          apply (kept_call fun _ => rfl).bind
          intro _
          exact ih
      · apply (kept_call fun _ => rfl).bind
        intro _
        exact kept_ret _
      · apply (abortRefused_kept token e).bind
        intro _
        exact kept_ite (fun _ => kept_ret _) fun _ => kept_ret _

theorem walk_kept (hf : recorders .set = true) (value : V) (rungs : List TierId)
    (lastError : CacheError) :
    Kept tiers kinds recorders key
      (walk (S := observing tiers kinds (some key)) tiers a value rungs lastError) := by
  induction rungs generalizing lastError with
  | nil => exact kept_ret _
  | cons rung rungs ih =>
    refine kept_ite (fun _ => ih lastError) fun _ => ?_
    apply (writeAt_kept hf value rung maxCommitAttempts).bind
    rintro (r | e)
    · exact kept_ret _
    · exact ih e

theorem tryEvictAtRung_unbilled (rung : TierId) (attempts : ℕ) :
    (tryEvictAtRung rung attempts : Step V _).Unbilled (recordDue tiers kinds recorders key) := by
  induction attempts with
  | zero => trivial
  | succ attempts ih =>
    refine ⟨fun _ => rfl, ?_, by simp⟩
    rintro (_ | address)
    · trivial
    · refine ⟨fun _ => rfl, ?_, by simp⟩
      rintro (_ | _)
      · exact ih
      · exact ⟨fun _ => rfl, fun _ => trivial, by simp⟩

theorem tryFreeSomewhere_unbilled (rungs : List TierId) (attempts : ℕ) :
    (tryFreeSomewhere tiers rungs attempts : Step V _).Unbilled
      (recordDue tiers kinds recorders key) := by
  induction rungs generalizing attempts with
  | nil => trivial
  | cons rung rungs ih =>
    unfold tryFreeSomewhere
    split
    · exact ih attempts
    · apply (tryEvictAtRung_unbilled rung attempts).bind
      rintro ⟨_ | _, attempts⟩
      · exact ih attempts
      · trivial

theorem setPasses_kept (hf : recorders .set = true) (value : V) (tier : TierId) (passes : ℕ)
    (lastError : CacheError) :
    Kept tiers kinds recorders key
      (setPasses (S := observing tiers kinds (some key)) tiers a value tier passes lastError) := by
  induction passes generalizing lastError with
  | zero => exact kept_ret _
  | succ passes ih =>
    apply (walk_kept hf value (descent tier) lastError).bind
    rintro (r | e)
    · exact kept_ret _
    · refine kept_ite (fun _ => ?_) fun _ => kept_ret _
      apply (tryFreeSomewhere_unbilled cacheLadder maxEvictionAttempts).aside.bind
      rintro (_ | _)
      · exact kept_ret _
      · exact ih e

theorem moveUnder_kept (hf : recorders .moveEntry = true) (source destination : TierId)
    (token : CommitToken) :
    Kept tiers kinds recorders key
      (moveUnder (S := observing tiers kinds (some key)) a source destination token :
        Logged V _) := by
  apply (kept_await fun _ => rfl).bind
  rintro (e | _ | value)
  · exact kept_ret _
  · exact kept_ret _
  · apply (kept_observedWrite hf fun _ => rfl).bind
    intro result
    apply (kept_call fun _ => rfl).bind
    intro _
    cases result with
    | error e => exact kept_ret _
    | ok u =>
      apply (kept_await fun _ => rfl).bind
      intro removed
      apply (kept_call fun _ => rfl).bind
      intro _
      apply (kept_call fun _ => rfl).bind
      rintro (e | u)
      · apply (kept_await fun _ => rfl).bind
        intro _
        exact kept_ret _
      · exact kept_ret _

theorem moveAlong_kept (hf : recorders .moveEntry = true) {f : Fn} (stays : TierId → Bool)
    (shift : ℕ → ℕ) (hpeek : ∀ r, tierRecord tiers kinds key f (.peek : Req V) r = none) :
    Kept tiers kinds recorders key
      (moveAlong (S := observing tiers kinds (some key)) tiers a f stays shift : Logged V _) := by
  apply (kept_call hpeek).bind
  intro s
  refine kept_ite (fun _ => kept_ret _) fun _ => kept_ite (fun _ => kept_ret _) fun _ => ?_
  cases TierId.fromUsize (shift s.tier.asUsize) with
  | none => exact kept_ret _
  | some destination =>
    apply (kept_call fun _ => rfl).bind
    rintro (e | token)
    · exact kept_ret _
    · refine kept_ite (fun _ => ?_) fun _ => ?_
      · apply (kept_call fun _ => rfl).bind
        intro _
        exact kept_ret _
      · apply (kept_armed (moveUnder_kept hf s.tier destination token)
          fun f _ => by cases f <;> rfl).bind
        rintro (_ | e)
        · exact kept_ret _
        · apply (kept_call fun _ => rfl).bind
          intro _
          exact kept_ret _

theorem revalidate_kept (hf : recorders .populateOnce = true)
    (hf' : recorders .becomePopulationOwner = true) (hfail : recorders .refreshDetailed = true)
    (decision : PolicyDecision) (current : Option V) :
    Kept tiers kinds recorders key
      (revalidate (S := observing tiers kinds (some key)) tiers a decision current) := by
  apply (kept_call fun _ => rfl).bind
  rintro (e | s)
  · exact kept_ret _
  · refine kept_ite (fun _ => kept_ret _) fun _ => ?_
    have howner : Kept tiers kinds recorders key
        (becomePopulationOwner (S := observing tiers kinds (some key)) tiers a
          { decision with failMode := .closed } s.generation : Logged V _) :=
      becomePopulationOwner_kept hf hf' (by simp) s.generation
    apply howner.bind
    rintro (e | value)
    · exact kept_ite (fun _ => kept_emit_bind (.refresh _ _ e hfail) (kept_ret _)) fun _ => kept_ret _
    · exact kept_ret _

theorem readCurrent_unbilled (before : ControlSnapshot) :
    (readCurrent tiers before : Step V _).Unbilled (recordDue tiers kinds recorders key) := by
  unfold readCurrent
  split
  · trivial
  · refine ⟨fun _ => rfl, ?_, by simp⟩
    rintro (e | v) <;> trivial

end Paid

end Observed

/-! ## The calls keep their books -/

section Calls

open Observed

variable {tiers : ℕ} {kinds : TierId → BackendKind} {a : Args} {c : Call V} {R : Type}

/-- The record an answer is due in a call. -/
def Call.due (tiers : ℕ) (kinds : TierId → BackendKind) (c : Call V) (f : Fn) (q : Req V)
    (r : q.Answer) : Option Telemetry.OperationRecord :=
  c.keyRef.bind fun key => recordDue tiers kinds c.recorders key f q r

/-- A record of a call that no answer of a tier is due. -/
def Call.free (tiers : ℕ) (kinds : TierId → BackendKind) (c : Call V) (f : Fn)
    (r : Telemetry.OperationRecord) : Prop :=
  ∃ key, c.keyRef = some key ∧ FreeRecord tiers kinds c.recorders key f r

/-- The call keeps its books. -/
abbrev Call.Kept (tiers : ℕ) (kinds : TierId → BackendKind) (c : Call V) (p : Logged V R) : Prop :=
  p.Paid (c.due tiers kinds) (c.free tiers kinds) none

theorem Call.kept_of_keyRef (key : KeyRef) (hkey : c.keyRef = some key) {p : Logged V R}
    (h : Observed.Kept tiers kinds c.recorders key p) : c.Kept tiers kinds p := by
  have hdue : c.due tiers kinds = recordDue tiers kinds c.recorders key := by
    funext f q r
    simp only [Call.due, hkey, Option.bind_some]
  have hfree : c.free tiers kinds = FreeRecord tiers kinds c.recorders key := by
    funext f r
    simp only [Call.free, hkey, Option.some.injEq, exists_eq_left']
  rw [Call.Kept, hdue, hfree]
  exact h

/-- What refuses a framed key is a denial. -/
theorem fromError_of_refused {key : KeyRef} {e : CacheError} (hkey : a.keyRef = .ok key)
    (h : a.admitEncoded = .error e) : RecordedOutcome.fromError e = .denied := by
  simp only [Args.admitEncoded, Args.checkAuth, Args.resolve, Args.authorize, hkey, bind,
    Except.bind] at h
  split_ifs at h
  · cases h
  · obtain rfl := Except.error.inj h
    rfl
  all_goals
    obtain rfl := Except.error.inj h
    rfl

theorem get_kept : (Call.get a : Call V).Kept tiers kinds
    (Manager.get (S := observing tiers kinds a.keyRef.toOption) tiers a) := by
  unfold Manager.get
  cases hkey : a.keyRef with
  | error e =>
    obtain ⟨e', he⟩ := (Args.refused hkey).1
    rw [he]
    exact Prog.paid_ret _
  | ok key =>
    apply Call.kept_of_keyRef key (by simp [Call.keyRef, hkey, Except.toOption])
    cases hadmit : a.admitEncoded with
    | error e =>
      have houtcome := fromError_of_refused hkey hadmit
      exact kept_emit_bind (.control _ _ (.inr (.inl houtcome)) rfl) (kept_ret _)
    | ok d =>
      apply (kept_call fun _ => rfl).bind
      intro snapshot
      refine kept_ite (fun _ => kept_ite (fun _ => ?_) fun _ => ?_) fun _ =>
        kept_ite (fun _ => ?_) fun _ => kept_ite (fun _ => ?_) fun _ => ?_
      · exact kept_emit_bind (.control _ _ (.inr (.inr rfl)) rfl) (kept_ret _)
      · apply (kept_observedRead rfl fun _ => rfl).bind
        intro result
        apply (kept_call fun _ => rfl).bind
        intro _
        cases result with
        | error e => exact kept_ret _
        | ok v =>
          apply (kept_call fun _ => rfl).bind
          intro after
          exact kept_ite (fun _ => kept_ret _) fun _ => kept_ret _
      · apply (kept_call fun _ => rfl).bind
        intro _
        exact kept_emit_bind (.control _ _ (.inl rfl) rfl) (kept_ret _)
      · apply (kept_waitForPopulation snapshot).bind
        rintro (e | u)
        · exact kept_ret _
        · apply (kept_call fun _ => rfl).bind
          intro after
          cases after.lastError with
          | some e => exact kept_ret _
          | none =>
            refine kept_ite (fun _ => kept_ret _) fun _ =>
              kept_ite (fun _ => kept_ret _) fun _ => ?_
            apply (kept_observedRead rfl fun _ => rfl).bind
            intro result
            apply (kept_call fun _ => rfl).bind
            intro _
            exact kept_ret _
      · exact kept_emit_bind (.control _ _ (.inl rfl) rfl) (kept_ret _)

theorem getOrFetch_kept : (Call.getOrFetch a : Call V).Kept tiers kinds
    (Manager.getOrFetch (S := observing tiers kinds a.keyRef.toOption) tiers a) := by
  unfold Manager.getOrFetch
  cases hkey : a.keyRef with
  | error e =>
    obtain ⟨e', he⟩ := (Args.refused hkey).2.1
    rw [he]
    exact Prog.paid_ret _
  | ok key =>
    apply Call.kept_of_keyRef key (by simp [Call.keyRef, hkey, Except.toOption])
    cases hadmit : a.admitPopulation with
    | error e => exact kept_ret _
    | ok decision =>
      obtain rfl := Args.eq_of_admitPopulation hadmit
      refine fetchAttempts_kept rfl rfl (fun g => ?_) 8
      refine becomePopulationOwner_kept rfl rfl (fun hopen => ?_) g
      simp [Call.recorders, hopen]

theorem set_kept (value : V) : (Call.set a value).Kept tiers kinds
    (Manager.set (S := observing tiers kinds a.keyRef.toOption) tiers a value) := by
  unfold Manager.set
  cases hkey : a.keyRef with
  | error e =>
    obtain ⟨e', he⟩ := (Args.refused hkey).2.2.1
    rw [he]
    exact Prog.paid_ret _
  | ok key =>
    apply Call.kept_of_keyRef key (by simp [Call.keyRef, hkey, Except.toOption])
    cases a.admitWrite with
    | error e => exact kept_ret _
    | ok u =>
      apply (kept_call fun _ => rfl).bind
      intro snapshot
      apply (kept_call fun _ => rfl).bind
      intro failures
      dsimp only
      cases Args.authorize (a.select (.fromSnapshot snapshot failures)) with
      | error e => exact kept_ret _
      | ok u => exact kept_ite (fun _ => kept_ret _) fun _ => setPasses_kept rfl value _ 17 .tierUnavailable

/-- A move, under either of its names. -/
theorem move_kept {f : Fn} {stays : TierId → Bool} {shift : ℕ → ℕ}
    {p : Logged V (Except CacheError Unit)} (hkeyRef : c.keyRef = a.keyRef.toOption)
    (hrecorders : c.recorders .moveEntry = true) (hf : f = .promote ∨ f = .demote)
    (hrefused : ∀ e, a.admitKey = .error e → p = .ret (.error e))
    (hadmitted : ∀ d, a.admitKey = .ok d →
      p = Manager.moveAlong (S := observing tiers kinds c.keyRef) tiers a f stays shift) :
    c.Kept tiers kinds p := by
  cases hadmit : a.admitKey with
  | error e =>
    rw [hrefused e hadmit]
    exact Prog.paid_ret _
  | ok d =>
    rw [hadmitted d hadmit]
    cases hkey : a.keyRef with
    | error e =>
      obtain ⟨e', he⟩ := (Args.refused hkey).2.2.2
      rw [he] at hadmit
      cases hadmit
    | ok key =>
      have hframed : c.keyRef = some key := by
        rw [hkeyRef, hkey]
        rfl
      rw [hframed]
      apply Call.kept_of_keyRef key hframed
      refine moveAlong_kept hrecorders stays shift fun _ => ?_
      rcases hf with rfl | rfl <;> rfl

theorem promote_kept : (Call.promote a : Call V).Kept tiers kinds
    (Manager.promote (S := observing tiers kinds a.keyRef.toOption) tiers a) := by
  refine move_kept rfl rfl (.inl rfl) (fun e h => ?_)
    fun d h => Manager.promote_eq (S := observing tiers kinds a.keyRef.toOption) h
  simp only [Manager.promote, h]
  rfl

theorem demote_kept : (Call.demote a : Call V).Kept tiers kinds
    (Manager.demote (S := observing tiers kinds a.keyRef.toOption) tiers a) := by
  refine move_kept rfl rfl (.inr rfl) (fun e h => ?_)
    fun d h => Manager.demote_eq (S := observing tiers kinds a.keyRef.toOption) h
  simp only [Manager.demote, h]
  rfl

theorem refreshDetailed_kept : (Call.refresh a : Call V).Kept tiers kinds
    (Manager.refreshDetailed (S := observing tiers kinds a.keyRef.toOption) tiers a) := by
  unfold Manager.refreshDetailed
  cases hkey : a.keyRef with
  | error e =>
    obtain ⟨e', he⟩ := (Args.refused hkey).2.1
    rw [he]
    exact Prog.paid_ret _
  | ok key =>
    apply Call.kept_of_keyRef key (by simp [Call.keyRef, hkey, Except.toOption])
    cases a.admitPopulation with
    | error e => exact kept_ret _
    | ok decision =>
      apply (kept_call fun _ => rfl).bind
      intro before
      apply (readCurrent_unbilled before).aside.bind
      intro current
      have hrevalidate : Observed.Kept tiers kinds (Call.refresh a : Call V).recorders key
          (Manager.revalidate (S := observing tiers kinds (some key)) tiers a decision current) :=
        revalidate_kept rfl rfl rfl decision current
      refine kept_ite (fun _ => ?_) fun _ => hrevalidate
      apply (kept_call fun _ => rfl).bind
      intro _
      exact hrevalidate

/-- A call that leaves no records. -/
theorem Call.kept_silent (h : ∀ f, c.keyRef = none ∨ c.recorders f = false) (p : Step V R) :
    c.Kept tiers kinds ((observing tiers kinds c.keyRef).silent p) := by
  refine (Prog.unbilled_of_forall (fun f q r => ?_) p).aside
  unfold Call.due recordDue
  rcases h f with h | h
  · rw [h]
    rfl
  · cases c.keyRef with
    | none => rfl
    | some key => simp [h]

/-- **Every call keeps its books.** -/
theorem Call.observed_paid (tiers : ℕ) (kinds : TierId → BackendKind) (c : Call V) :
    (c.observed tiers kinds).Paid (c.due tiers kinds) (c.free tiers kinds) none := by
  cases c with
  | get a => exact get_kept.map _
  | getOrFetch a => exact getOrFetch_kept.map _
  | «exists» a => exact (Call.kept_silent (fun _ => .inr rfl) _).map _
  | set a value => exact (set_kept value).map _
  | invalidate a => exact (Call.kept_silent (fun _ => .inr rfl) _).map _
  | remove a => exact (Call.kept_silent (fun _ => .inr rfl) _).map _
  | refresh a => exact refreshDetailed_kept.map _
  | promote a => exact promote_kept.map _
  | demote a => exact demote_kept.map _
  | evict => exact (Call.kept_silent (fun _ => .inl rfl) _).map _

end Calls

/-! ## What a record may say -/

section Results

open Observed Telemetry

/-- The names under which a call is recorded: the write of a move is a promotion, a demotion's as
well, and populations are fetches, also those of a refresh. -/
def Call.Names : Call V → Operation → Prop
  | .get _, op => op = .get
  | .getOrFetch _, op => op = .getOrFetch
  | .set _ _, op => op = .set
  | .refresh _, op => op = .getOrFetch ∨ op = .refresh
  | .promote _, op | .demote _, op => op = .promote
  | .exists _, _ | .invalidate _, _ | .remove _, _ | .evict, _ => False

/-- Whether a record names its rung as the source. `get` and a failed refresh do; `set` and a move
name the destination. What `get_or_fetch` did is told by its outcome: a served read and a fallback
came from a rung, a population went to one, and of its misses and failures those of a read are
stamped with a generation. -/
def atSource (r : Telemetry.OperationRecord) : Bool :=
  match r.operation, r.outcome with
  | .get, _ | .refresh, _ | .getOrFetch, .served | .getOrFetch, .fellBack => true
  | .getOrFetch, .populated => false
  | .getOrFetch, _ => r.generation.isSome
  | _, _ => false

/-- Whether a record is one of the control plane alone: of a refresh that failed, or of a `get` that
read nothing. -/
def ofControl (r : Telemetry.OperationRecord) : Bool :=
  r.operation = .refresh || (r.operation = .get && r.generation.isNone)

/-- A record names one rung, on the side its operation and its outcome require and on no other, and
the backend bound there unless it is one of the control plane. -/
def NamesRung (tiers : ℕ) (kinds : TierId → BackendKind) (r : Telemetry.OperationRecord) : Prop :=
  ∃ rung, r.sourceTier = (if atSource r then some rung else none) ∧
    r.destinationTier = (if atSource r then none else some rung) ∧
    r.backend = if ofControl r then none else some (backendOf tiers kinds rung)

/-- What every record says, whatever the call. -/
structure Consistent (tiers : ℕ) (kinds : TierId → BackendKind) (r : Telemetry.OperationRecord) :
    Prop where
  rung : NamesRung tiers kinds r
  /-- A read is stamped with generation zero, and a write with none. -/
  generation : ∀ g, r.generation = some g → r.operation = .refresh ∨ atSource r = true ∧ g = 0
  served : r.outcome = .served → r.generation = some 0
  populated : r.outcome = .populated → atSource r = false
  /-- A write populated its destination, or says why not. -/
  written : atSource r = false → r.outcome = .populated ∨ r.failureClass.isSome = true
  /-- A failed refresh ends as a fallback does, and no other record that is none. -/
  fellBack : r.outcome = .fellBack ↔ r.fallback = true ∨ r.operation = .refresh
  /-- A failure is told by the outcome, and a success has none. -/
  failure : ∀ e, r.failureClass = some e → r.outcome = .fellBack ∨ r.outcome = .fromError e
  success : succeeded r = true → r.failureClass = none
  recovery : r.recoveryState = none

/-- What every record of a call says. -/
structure Call.WellFormed (tiers : ℕ) (kinds : TierId → BackendKind) (c : Call V)
    (r : Telemetry.OperationRecord) : Prop extends Consistent tiers kinds r where
  /-- It names the framed key of its call, by its digest. -/
  key : ∃ key, c.keyRef = some key ∧ r.key = .of key
  operation : c.Names r.operation
  /-- A read is one of `get` or `get_or_fetch`, so a refresh leaves none. -/
  reads : r.generation.isSome = true → r.operation = .refresh ∨
    c.recorders .get = true ∨ c.recorders .getOrFetch = true
  /-- A fallback is one of a call that fails open. -/
  fallback : r.fallback = true → c.FailsOpen ∧ r.operation = .getOrFetch

variable {tiers : ℕ} {kinds : TierId → BackendKind} {c : Call V} {f : Fn} {op : Operation}
  {key : KeyRef} {r : Telemetry.OperationRecord}

theorem fromError_ne_fellBack (e : CacheError) : RecordedOutcome.fromError e ≠ .fellBack := by
  cases e <;> decide

/-- A miss or a failure of `get_or_fetch` is one of a read exactly when it is stamped. -/
theorem atSource_of_failed {e : CacheError} (hop : r.operation = .getOrFetch)
    (houtcome : r.outcome = .fromError e) : atSource r = r.generation.isSome := by
  unfold atSource
  rw [hop, houtcome]
  cases e <;> rfl

/-- A record without a failure. -/
theorem Consistent.of_plain (hrung : NamesRung tiers kinds r)
    (hgeneration : ∀ g, r.generation = some g → atSource r = true ∧ g = 0)
    (hserved : r.outcome = .served → r.generation = some 0)
    (hwritten : r.outcome = .populated ↔ atSource r = false) (hfell : r.outcome ≠ .fellBack)
    (hrefresh : r.operation ≠ .refresh) (hfallback : r.fallback = false)
    (hfailure : r.failureClass = none) (hrecovery : r.recoveryState = none) :
    Consistent tiers kinds r where
  rung := hrung
  generation g hg := .inr (hgeneration g hg)
  served := hserved
  populated := hwritten.1
  written h := .inl (hwritten.2 h)
  fellBack := by simp [hfell, hrefresh, hfallback]
  failure e he := by simp [hfailure] at he
  success _ := hfailure
  recovery := hrecovery

/-- A record of a failure that was not served over. -/
theorem Consistent.of_failed {e : CacheError} (hrung : NamesRung tiers kinds r)
    (hgeneration : ∀ g, r.generation = some g → atSource r = true ∧ g = 0)
    (houtcome : r.outcome = .fromError e) (hfailure : r.failureClass = some e)
    (hrefresh : r.operation ≠ .refresh) (hfallback : r.fallback = false)
    (hrecovery : r.recoveryState = none) : Consistent tiers kinds r := by
  obtain ⟨hserved, hpopulated⟩ := fromError_not_succeeded e
  have hfell := fromError_ne_fellBack e
  rw [← houtcome] at hserved hpopulated hfell
  exact
    { rung := hrung
      generation := fun g hg => .inr (hgeneration g hg)
      served := fun h => absurd h hserved
      populated := fun h => absurd h hpopulated
      written := fun _ => .inr (by rw [hfailure]; rfl)
      fellBack := by simp [hfell, hrefresh, hfallback]
      failure := fun e' he => .inr (by rw [houtcome, Option.some.inj (hfailure.symm.trans he)])
      success := fun h => by simp [succeeded, hserved, hpopulated] at h
      recovery := hrecovery }

theorem consistent_read (hop : op = .get ∨ op = .getOrFetch) (rung : TierId)
    (result : Except CacheError (Option V)) :
    Consistent tiers kinds (readRecord op key rung (backendOf tiers kinds rung) result) := by
  have hrefresh : op ≠ .refresh := by
    rcases hop with rfl | rfl <;> decide
  have hsource : atSource (readRecord op key rung (backendOf tiers kinds rung) result) = true := by
    rcases result with e | _ | v <;> rcases hop with rfl | rfl
    case error.inr => exact atSource_of_failed (e := e) rfl rfl
    all_goals rfl
  have hcontrol : ofControl (readRecord op key rung (backendOf tiers kinds rung) result) = false := by
    rcases result with e | _ | v <;> rcases hop with rfl | rfl <;> rfl
  have hrung : NamesRung tiers kinds (readRecord op key rung (backendOf tiers kinds rung) result) := by
    refine ⟨rung, ?_⟩
    rw [hsource, hcontrol]
    rcases result with e | _ | v <;> exact ⟨rfl, rfl, rfl⟩
  have hgeneration : ∀ g, (readRecord op key rung (backendOf tiers kinds rung) result).generation =
      some g → g = 0 := by
    rcases result with e | _ | v <;> exact fun g hg => (Option.some.inj hg).symm
  have hstamped := fun g hg => And.intro hsource (hgeneration g hg)
  rcases result with e | _ | v
  · exact .of_failed (e := e) hrung hstamped rfl rfl hrefresh rfl rfl
  · exact .of_plain hrung hstamped (fun h => by cases h)
      (iff_of_false (fun h => by cases h) (ne_false_of_eq_true hsource)) (fun h => by cases h)
      hrefresh rfl rfl rfl
  · exact .of_plain hrung hstamped (fun _ => rfl)
      (iff_of_false (fun h => by cases h) (ne_false_of_eq_true hsource)) (fun h => by cases h)
      hrefresh rfl rfl rfl

theorem consistent_write (hop : op = .set ∨ op = .getOrFetch ∨ op = .promote) (rung : TierId)
    (result : Except CacheError Unit) :
    Consistent tiers kinds (writeRecord op key rung (backendOf tiers kinds rung) result) := by
  have hrefresh : op ≠ .refresh := by
    rcases hop with rfl | rfl | rfl <;> decide
  have hsource : atSource (writeRecord op key rung (backendOf tiers kinds rung) result) = false := by
    rcases result with e | u <;> rcases hop with rfl | rfl | rfl
    case error.inr.inl => exact atSource_of_failed (e := e) rfl rfl
    all_goals rfl
  have hcontrol : ofControl (writeRecord op key rung (backendOf tiers kinds rung) result) = false := by
    rcases result with e | u <;> rcases hop with rfl | rfl | rfl <;> rfl
  have hrung : NamesRung tiers kinds (writeRecord op key rung (backendOf tiers kinds rung) result) := by
    refine ⟨rung, ?_⟩
    rw [hsource, hcontrol]
    rcases result with e | u <;> exact ⟨rfl, rfl, rfl⟩
  rcases result with e | u
  · exact .of_failed (e := e) hrung (fun g hg => by cases hg) rfl rfl hrefresh rfl rfl
  · exact .of_plain hrung (fun g hg => by cases hg) (fun h => by cases h)
      (iff_of_true rfl hsource) (fun h => by cases h) hrefresh rfl rfl rfl

theorem consistent_control {outcome : RecordedOutcome}
    (houtcome : outcome = .miss ∨ outcome = .denied ∨ outcome = .failed) (rung : TierId) :
    Consistent tiers kinds (controlRecord .get key rung outcome) := by
  have hended : outcome ≠ .served ∧ outcome ≠ .populated ∧ outcome ≠ .fellBack := by
    rcases houtcome with rfl | rfl | rfl <;> decide
  exact .of_plain ⟨rung, rfl, rfl, rfl⟩ (fun g hg => by cases hg) (fun h => absurd h hended.1)
    (iff_of_false hended.2.1 (fun h => by cases h)) hended.2.2 (fun h => by cases h) rfl rfl rfl

theorem consistent_population (rung : TierId) (e : CacheError) :
    Consistent tiers kinds (populationFailureRecord key rung (backendOf tiers kinds rung) e) := by
  refine .of_failed (e := e) ⟨rung, ?_⟩ (fun g hg => by cases hg) rfl rfl (fun h => by cases h) rfl rfl
  rw [atSource_of_failed (e := e) rfl rfl]
  exact ⟨rfl, rfl, rfl⟩

/-- A fallback and a failed refresh end alike, and both came from a rung. -/
theorem Consistent.of_fellBack (hrung : NamesRung tiers kinds r)
    (hsource : atSource r = true)
    (hgeneration : ∀ g, r.generation = some g → r.operation = .refresh)
    (houtcome : r.outcome = .fellBack) (hfell : r.fallback = true ∨ r.operation = .refresh)
    (hrecovery : r.recoveryState = none) : Consistent tiers kinds r where
  rung := hrung
  generation g hg := .inl (hgeneration g hg)
  served h := by simp [houtcome] at h
  populated h := by simp [houtcome] at h
  written h := by simp [hsource] at h
  fellBack := ⟨fun _ => hfell, fun _ => houtcome⟩
  failure _ _ := .inl houtcome
  success h := by simp [succeeded, houtcome] at h
  recovery := hrecovery

/-! A record is one of its call when its function is. -/

theorem Call.reads_of_read (hf : c.recorders f = true)
    (hop : f = .get ∧ op = .get ∨ (f = .getOrFetch ∨ f = .waitAndGet) ∧ op = .getOrFetch) :
    c.Names op ∧ (c.recorders .get = true ∨ c.recorders .getOrFetch = true) := by
  rcases hop with ⟨rfl, rfl⟩ | ⟨rfl | rfl, rfl⟩ <;> cases c <;>
    simp_all [Call.recorders, Call.Names]

theorem Call.names_of_write (hf : c.recorders f = true)
    (hop : f = .set ∧ op = .set ∨ f = .populateOnce ∧ op = .getOrFetch ∨
      f = .moveEntry ∧ op = .promote) : c.Names op := by
  rcases hop with ⟨rfl, rfl⟩ | ⟨rfl, rfl⟩ | ⟨rfl, rfl⟩ <;> cases c <;>
    simp_all [Call.recorders, Call.Names]

theorem Call.wellFormed_read (hkey : c.keyRef = some key) (hf : c.recorders f = true)
    (hop : f = .get ∧ op = .get ∨ (f = .getOrFetch ∨ f = .waitAndGet) ∧ op = .getOrFetch)
    (rung : TierId) (result : Except CacheError (Option V)) :
    c.WellFormed tiers kinds (readRecord op key rung (backendOf tiers kinds rung) result) := by
  obtain ⟨hnames, hreads⟩ := Call.reads_of_read hf hop
  have hconsistent : Consistent tiers kinds
      (readRecord op key rung (backendOf tiers kinds rung) result) :=
    consistent_read (hop.imp And.right And.right) rung result
  rcases result with e | _ | v <;>
    exact ⟨hconsistent, ⟨key, hkey, rfl⟩, hnames, fun _ => .inr hreads, (fun h => by cases h)⟩

theorem Call.wellFormed_write (hkey : c.keyRef = some key) (hf : c.recorders f = true)
    (hop : f = .set ∧ op = .set ∨ f = .populateOnce ∧ op = .getOrFetch ∨
      f = .moveEntry ∧ op = .promote) (rung : TierId) (result : Except CacheError Unit) :
    c.WellFormed tiers kinds (writeRecord op key rung (backendOf tiers kinds rung) result) := by
  have hconsistent : Consistent tiers kinds
      (writeRecord op key rung (backendOf tiers kinds rung) result) :=
    consistent_write (hop.imp And.right (Or.imp And.right And.right)) rung result
  rcases result with e | u <;>
    exact ⟨hconsistent, ⟨key, hkey, rfl⟩, Call.names_of_write hf hop, (fun h => by cases h),
      (fun h => by cases h)⟩

theorem Call.wellFormed_free (hkey : c.keyRef = some key)
    (h : FreeRecord tiers kinds c.recorders key f r) : c.WellFormed tiers kinds r := by
  cases h with
  | control rung outcome houtcome h =>
    have hnames := (Call.reads_of_read h (.inl ⟨rfl, rfl⟩)).1
    exact ⟨consistent_control houtcome rung, ⟨key, hkey, rfl⟩, hnames, (fun h => by cases h),
      (fun h => by cases h)⟩
  | population rung e h =>
    have hnames : c.Names .getOrFetch := by
      cases c <;> simp_all [Call.recorders, Call.Names]
    exact ⟨consistent_population rung e, ⟨key, hkey, rfl⟩, hnames, (fun h => by cases h),
      (fun h => by cases h)⟩
  | fallback rung cause h =>
    have hcall : c.FailsOpen ∧ c.Names .getOrFetch := by
      cases c <;> simp_all [Call.recorders, Call.Names, Call.FailsOpen]
    exact ⟨.of_fellBack ⟨rung, rfl, rfl, rfl⟩ rfl (fun g hg => by cases hg) rfl
      (.inl rfl) rfl, ⟨key, hkey, rfl⟩, hcall.2, (fun h => by cases h),
      fun _ => ⟨hcall.1, rfl⟩⟩
  | refresh rung generation e h =>
    have hnames : c.Names .refresh := by
      cases c <;> simp_all [Call.recorders, Call.Names]
    exact ⟨.of_fellBack ⟨rung, rfl, rfl, rfl⟩ rfl (fun _ _ => rfl) rfl (.inr rfl) rfl,
      ⟨key, hkey, rfl⟩, hnames, fun _ => .inl rfl, (fun h => by cases h)⟩

/-- A record due from a tier is one of an observed read or of an observed write. -/
theorem tierRecord_eq_some {q : Req V} {a : q.Answer} {r : Telemetry.OperationRecord}
    (h : tierRecord tiers kinds key f q a = some r) :
    (∃ op rung result, q = .tierGet rung ∧
      r = readRecord op key rung (backendOf tiers kinds rung)
        (result : Except CacheError (Option V)) ∧
      (f = .get ∧ op = .get ∨ (f = .getOrFetch ∨ f = .waitAndGet) ∧ op = .getOrFetch)) ∨
    ∃ op rung result, r = writeRecord op key rung (backendOf tiers kinds rung) result ∧
      (f = .set ∧ op = .set ∨ f = .populateOnce ∧ op = .getOrFetch ∨
        f = .moveEntry ∧ op = .promote) := by
  unfold tierRecord at h
  split at h
  · exact .inl ⟨_, _, _, rfl, (Option.some.inj h).symm, .inl ⟨rfl, rfl⟩⟩
  · exact .inl ⟨_, _, _, rfl, (Option.some.inj h).symm, .inr ⟨.inl rfl, rfl⟩⟩
  · exact .inl ⟨_, _, _, rfl, (Option.some.inj h).symm, .inr ⟨.inr rfl, rfl⟩⟩
  · exact .inr ⟨_, _, _, (Option.some.inj h).symm, .inl ⟨rfl, rfl⟩⟩
  · exact .inr ⟨_, _, _, (Option.some.inj h).symm, .inr (.inl ⟨rfl, rfl⟩)⟩
  · exact .inr ⟨_, _, _, (Option.some.inj h).symm, .inr (.inr ⟨rfl, rfl⟩)⟩
  · cases h

theorem Call.due_eq_some {q : Req V} {a : q.Answer} {r : Telemetry.OperationRecord}
    (h : c.due tiers kinds f q a = some r) : ∃ key, c.keyRef = some key ∧ c.recorders f = true ∧
      tierRecord tiers kinds key f q a = some r := by
  obtain ⟨key, hkey, h⟩ := Option.bind_eq_some_iff.1 h
  obtain ⟨htier, hf⟩ := Option.filter_eq_some_iff.1 h
  exact ⟨key, hkey, hf, htier⟩

theorem Call.wellFormed_of_known {r : Telemetry.OperationRecord}
    (h : Machine.Known (Call.due tiers kinds) (Call.free tiers kinds) c r) :
    c.WellFormed tiers kinds r := by
  rcases h with ⟨f, q, a, hdue⟩ | ⟨f, key, hkey, hfree⟩
  · obtain ⟨key, hkey, hf, htier⟩ := Call.due_eq_some hdue
    rcases tierRecord_eq_some htier with
      ⟨op, rung, result, -, rfl, hop⟩ | ⟨op, rung, result, rfl, hop⟩
    · exact Call.wellFormed_read hkey hf hop rung result
    · exact Call.wellFormed_write hkey hf hop rung result
  · exact Call.wellFormed_free hkey hfree

/-- A read by nobody in particular. -/
def anonymousRead : Call ℕ := .get { Args.pinned .L0 none with authenticated := false }

theorem Call.free_not_succeeded (c : Call V) (f : Fn) (r : Telemetry.OperationRecord)
    (h : c.free tiers kinds f r) : succeeded r = false := by
  obtain ⟨key, -, h⟩ := h
  exact h.not_succeeded

/-- **The records of success are exact**: in every run, under any interleaving with drops, every record
of a served read or of a populated rung is that of a tier call that answered so, one record for each.
Once the run is at rest and no answer was dropped unseen, every such tier call has its record, and no
other tier call that was due one, a failed one say, goes without. -/
theorem records_exact (tiers : ℕ) (kinds : TierId → BackendKind) (w : KeyWorld V)
    (schedule : List (Turn V)) :
    let s := (observedManager V tiers kinds).run (w, []) schedule
    let made := ledger s.trace
    let due := dues (Call.due tiers kinds) s.trace
    (made.filter (succeeded ·.2)).Subperm (due.filter (succeeded ·.2)) ∧
      ((∀ ev ∈ schedule, ev.unseen = false) → s.Quiescent →
        (made.filter (succeeded ·.2)).Perm (due.filter (succeeded ·.2)) ∧ due.Subperm made) := by
  have hpaid := Call.observed_paid (V := V) tiers kinds
  have hfree : ∀ (c : Call V) f r, c.free tiers kinds f r → succeeded r = false :=
    Call.free_not_succeeded
  refine ⟨Machine.ledger_subperm (M := manager V tiers) hpaid hfree w schedule, ?_⟩
  intro hseen hrest
  exact Machine.ledger_perm (M := manager V tiers) hpaid hfree hseen hrest

/-! ## Heat -/

/-- Whether an item is a read of `get` or `get_or_fetch`, on a key of the given identity, that was
answered with a value. -/
def servedRead (identity : KeyIdentity) :
    Item (Call V) Fn (Noting Telemetry.OperationRecord (Req V)) (Noting.Answer Req.Answer)
      (KeyWorld V × List Telemetry.OperationRecord) → Bool
  | ⟨_, c, f, .ask (.tierGet _), .ok (some _), _, _⟩ =>
    (f = .get || f = .getOrFetch || f = .waitAndGet) && c.recorders f &&
      c.keyRef.map .of = some identity
  | _ => false

/-- Whether a record adds to the heat of an identity. -/
def heats (identity : KeyIdentity) (r : OperationRecord) : Bool := r.isServedRead && r.key = identity

theorem heats_succeeded {identity : KeyIdentity} {r : Telemetry.OperationRecord}
    (h : heats identity r.toOperationRecord = true) : succeeded r = true := by
  simp only [heats, OperationRecord.isServedRead, Bool.and_eq_true, decide_eq_true_eq] at h
  simp [succeeded, h.1.1]

theorem writeRecord_not_heats (identity : KeyIdentity) (rung : TierId) (b : BackendKind)
    (result : Except CacheError Unit) :
    heats identity (writeRecord op key rung b result).toOperationRecord = false := by
  have houtcome : (writeRecord op key rung b result).outcome ≠ .served := by
    rcases result with e | u
    · exact (fromError_not_succeeded e).1
    · exact fun h => by cases h
  simp [heats, OperationRecord.isServedRead, houtcome]

/-- Only the record of a read that was answered with a value adds to the heat. -/
theorem readRecord_heats (identity : KeyIdentity) (rung : TierId) (b : BackendKind)
    (hop : op = .get ∨ op = .getOrFetch) (result : Except CacheError (Option V)) :
    heats identity (readRecord op key rung b result).toOperationRecord =
      (result.toOption.join.isSome && KeyIdentity.of key = identity) := by
  rcases result with e | _ | v
  · have hserved : (readRecord op key rung b (.error e : Except CacheError (Option V))).outcome ≠
        .served := (fromError_not_succeeded e).1
    simp [heats, OperationRecord.isServedRead, hserved, Except.toOption]
  · simp [heats, OperationRecord.isServedRead, readRecord, OperationRecord.finish, Except.toOption]
  · have hserved : (readRecord op key rung b (.ok (some v) : Except CacheError (Option V))).isServedRead =
        true := by
      rcases hop with rfl | rfl <;> rfl
    rw [heats, hserved]
    rfl

/-- A served read is due a record that adds to the heat, and nothing else is. -/
theorem due_heats (identity : KeyIdentity)
    (it : Item (Call V) Fn (Noting Telemetry.OperationRecord (Req V)) (Noting.Answer Req.Answer)
      (KeyWorld V × List Telemetry.OperationRecord)) :
    ((it.due (Call.due tiers kinds)).any fun r => heats identity r.toOperationRecord) =
      servedRead identity it := by
  obtain ⟨i, c, f, q, a, pre, post⟩ := it
  cases q with
  | note n => rfl
  | ask q =>
    by_cases hq : ∃ rung, q = .tierGet rung
    · obtain ⟨rung, rfl⟩ := hq
      cases hkey : c.keyRef with
      | none =>
        rcases a with e | _ | v <;> simp [Item.due, Call.due, servedRead, hkey]
      | some key =>
        rcases a with e | _ | v <;> cases f <;>
          simp [Item.due, Call.due, servedRead, hkey, recordDue, tierRecord, Option.any_filter,
            readRecord_heats, Except.toOption]
    · have hserved : servedRead identity
          (⟨i, c, f, .ask q, a, pre, post⟩ : Item (Call V) Fn _ _ _) = false := by
        cases q with
        | tierGet rung => exact absurd ⟨rung, rfl⟩ hq
        | _ => rfl
      rw [hserved, Option.any_eq_false]
      intro r hr
      obtain ⟨key, -, -, htier⟩ := Call.due_eq_some hr
      rcases tierRecord_eq_some htier with
        ⟨op, rung, result, rfl, -, -⟩ | ⟨op, rung, result, rfl, -⟩
      · exact absurd ⟨rung, rfl⟩ hq
      · simp [writeRecord_not_heats]

theorem map_snd_ledger (trace : List (Item (Call V) Fn (Noting Telemetry.OperationRecord (Req V))
      (Noting.Answer Req.Answer) (KeyWorld V × List Telemetry.OperationRecord))) :
    (ledger trace).map Prod.snd = trace.filterMap Item.noted := by
  rw [ledger, List.map_filterMap]
  congr 1
  funext it
  cases it.noted <;> rfl

/-- The records that add to the heat are those of the ledger that do. -/
theorem countP_notes (identity : KeyIdentity) (w : KeyWorld V) (schedule : List (Turn V)) :
    let s := (observedManager V tiers kinds).run (w, []) schedule
    s.world.2.countP (fun r => heats identity r.toOperationRecord) =
      ((ledger s.trace).filter (succeeded ·.2)).countP (heats identity ·.2.toOperationRecord) := by
  intro s
  have hnotes : s.world.2 = (ledger s.trace).map Prod.snd :=
    (Machine.notes_eq (M := manager V tiers) w schedule).trans (map_snd_ledger s.trace).symm
  rw [hnotes, List.countP_map, List.countP_filter]
  apply List.countP_congr
  intro x _
  simp only [Function.comp_apply, Bool.and_eq_true]
  exact ⟨fun h => ⟨h, heats_succeeded h⟩, And.left⟩

/-- The dues that add to the heat are those of served reads. -/
theorem countP_dues (identity : KeyIdentity)
    (trace : List (Item (Call V) Fn (Noting Telemetry.OperationRecord (Req V))
      (Noting.Answer Req.Answer) (KeyWorld V × List Telemetry.OperationRecord))) :
    ((dues (Call.due tiers kinds) trace).filter (succeeded ·.2)).countP
        (heats identity ·.2.toOperationRecord) = trace.countP (servedRead identity) := by
  have hfilter : ((dues (Call.due tiers kinds) trace).filter (succeeded ·.2)).countP
        (heats identity ·.2.toOperationRecord) =
      (dues (Call.due tiers kinds) trace).countP (heats identity ·.2.toOperationRecord) := by
    rw [List.countP_filter]
    apply List.countP_congr
    intro x _
    simp only [Bool.and_eq_true]
    exact ⟨And.left, fun h => ⟨h, heats_succeeded h⟩⟩
  rw [hfilter, dues, List.countP_filterMap]
  apply List.countP_congr
  intro it _
  have hit : _ = servedRead identity it := @due_heats V tiers kinds identity it
  rw [← hit]
  cases it.due (Call.due tiers kinds) <;> rfl

/-- **Heat is counted in reads**: what a governor measures on a ring of any capacity, after any run, is
never more than the reads of `get` and `get_or_fetch` that were answered with a value. It is exactly
their number when the ring has kept every record, the run is at rest and no answer was dropped unseen.
A refresh never adds to it. -/
theorem heat_counts_reads {K : Type} (tiers : ℕ) (kinds : TierId → BackendKind) (w : KeyWorld V)
    (schedule : List (Turn V)) (cap : ℕ) (g : Governor K) (identity : KeyIdentity) :
    let s := (observedManager V tiers kinds).run (w, []) schedule
    let ring := (RingTelemetry.new cap).recordAll s.world.2.reverse
    let heat := { g with heat := some (ring.records.map Telemetry.OperationRecord.toOperationRecord) }.measureHeat
    heat.of identity ≤ s.trace.countP (servedRead identity) ∧
      ((∀ ev ∈ schedule, ev.unseen = false) → s.Quiescent → s.world.2.length ≤ cap →
        heat.of identity = s.trace.countP (servedRead identity)) := by
  intro s ring heat
  have hheat : heat.of identity =
      ring.records.countP fun r => heats identity r.toOperationRecord := by
    rw [Governor.heat_measureHeat, Option.getD_some, List.countP_map]
    rfl
  have hring := RingTelemetry.records_recordAll cap s.world.2.reverse
  have hpaid := Call.observed_paid (V := V) tiers kinds
  have hfree : ∀ (c : Call V) f r, c.free tiers kinds f r → succeeded r = false :=
    Call.free_not_succeeded
  have hsub : ((ledger s.trace).filter (succeeded ·.2)).Subperm _ :=
    Machine.ledger_subperm (M := manager V tiers) hpaid hfree w schedule
  have hnotes := @countP_notes V tiers kinds identity w schedule
  have hdues := @countP_dues V tiers kinds identity s.trace
  refine ⟨?_, ?_⟩
  · calc heat.of identity
      _ ≤ s.world.2.reverse.countP fun r => heats identity r.toOperationRecord := by
        rw [hheat, hring]
        exact (List.drop_sublist _ _).countP_le
      _ = s.world.2.countP fun r => heats identity r.toOperationRecord :=
        (List.reverse_perm _).countP_eq _
      _ ≤ s.trace.countP (servedRead identity) := by
        rw [hnotes, ← hdues]
        exact hsub.countP_le _
  · intro hseen hrest hcap
    have hwhole : ring.records = s.world.2.reverse := by
      rw [hring, List.length_reverse, Nat.sub_eq_zero_of_le (hcap.trans (le_max_left _ _)),
        List.drop_zero]
    rw [hheat, hwhole, (List.reverse_perm _).countP_eq, hnotes, ← hdues]
    exact (Machine.ledger_perm (M := manager V tiers) hpaid hfree hseen hrest).1.countP_eq _

end Results

end TheSix
