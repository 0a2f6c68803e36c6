import TheSix.Planes.Tenants
import TheSix.Lib.Echo
import TheSix.Lib.Trace

/-!
# The circuit breakers

`TierRegistry` counts the failures of each rung that came one after another; five open its circuit. The
calls of all tenants feed the counters through `record_outcome` and `record_read`, each some time after
the tier call it reports.

`Call.reports` says that every report repeats what the call was answered just before. So the counters are
backed, under any interleaving: a rung's counter is the number of `TierUnavailable` reports since the
last success that was reported, every report is an answer of the rung's tier to the thread that makes
it, and no answer is reported twice (`failures_backed`). Nothing but `TierUnavailable` opens a circuit,
and not before the tier has answered so five times.
-/

namespace TheSix

open Coroutine

variable {V R S : Type}

/-! ## Reports -/

/-- What a request reports of a rung. -/
def Req.reported : Req V → Option (TierId × Except CacheError Unit)
  | .record rung result => some (rung, result)
  | _ => none

/-- What a tier call was answered, without the value. -/
def Req.heard : (q : Req V) → q.Answer → Option (TierId × Except CacheError Unit)
  | .tierGet rung, a => some (rung, a.map fun _ => ())
  | .tierSet rung _ _, a => some (rung, a)
  | .tierRemove rung, a => some (rung, a)
  | _, _ => none

/-- A program that reports only what it has just heard. -/
abbrev Reports (prog : Step V R) : Prop := prog.Echoes Req.reported Req.heard none

namespace Manager

variable {tiers : ℕ} {a : Args}

theorem reports_pure {r : R} : Reports (pure r : Step V R) := Prog.echoes_ret r

theorem reports_call (f : Fn) {q : Req V} (hq : q.reported = none) : Reports (call f q) :=
  Prog.echoes_req hq (by simp) fun _ => trivial

theorem reports_await (f : Fn) {q : Req V} (hq : q.reported = none) : Reports (await f q) :=
  Prog.echoes_req hq (by simp) fun _ => trivial

/-- A tier call, and the report of its answer. -/
theorem reports_heard {f g : Fn} {q : Req V} (hq : q.reported = none) {rung : TierId}
    {report : q.Answer → Except CacheError Unit} (hheard : ∀ x, q.heard x = some (rung, report x))
    {rest : q.Answer → Step V R} (hrest : ∀ x, Reports (rest x)) :
    Reports (await f q >>= fun x => call g (.record rung (report x)) >>= fun _ => rest x) := by
  refine Prog.echoes_req hq (by simp) fun x => ?_
  refine ⟨?_, fun _ => hrest x, by simp⟩
  rintro n (hn : some _ = some n)
  rw [hheard x, hn]

theorem waitForPopulation_reports (snapshot : ControlSnapshot) :
    Reports (waitForPopulation snapshot : Step V _) := by
  refine (reports_call _ rfl).bind fun epoch => (reports_call _ rfl).bind fun now => ?_
  exact Prog.echoes_ite (fun _ => reports_pure) fun _ => reports_await _ rfl

theorem waitAndGet_reports (snapshot : ControlSnapshot) :
    Reports (waitAndGet tiers snapshot : Step V _) := by
  refine (waitForPopulation_reports snapshot).bind ?_
  rintro (e | u)
  · exact reports_pure
  · refine (reports_call _ rfl).bind fun after => ?_
    cases after.lastError with
    | some e => exact reports_pure
    | none =>
      refine Prog.echoes_ite (fun _ => reports_pure) fun _ => Prog.echoes_ite (fun _ => reports_pure)
        fun _ => (reports_await _ rfl).bind ?_
      rintro (e | _ | v) <;> exact reports_pure

theorem populateOnce_reports (decision : PolicyDecision) (g : Generation) :
    Reports (populateOnce tiers a decision g : Step V _) := by
  refine (reports_await _ rfl).bind ?_
  rintro (e | value)
  · exact reports_pure
  · dsimp only
    cases nearestBoundRung tiers decision.tier with
    | none => exact reports_pure
    | some rung =>
      refine reports_heard rfl (fun _ => rfl) ?_
      rintro (e | u)
      · exact reports_pure
      · refine (reports_call _ rfl).bind ?_
        rintro (e | u) <;> exact reports_pure

theorem populateAttempts_reports (decision : PolicyDecision) (g : Generation) (retries : ℕ) :
    Reports (populateAttempts tiers a decision g retries : Step V _) := by
  induction retries with
  | zero => exact populateOnce_reports decision g
  | succ retries ih =>
    refine (populateOnce_reports decision g).bind ?_
    rintro (e | v)
    · exact Prog.echoes_ite (fun _ => (reports_await _ rfl).bind fun _ => ih) fun _ => reports_pure
    · exact reports_pure

theorem scanRungs_reports (cause : CacheError) (rungs : List TierId) :
    Reports (scanRungs tiers cause rungs : Step V _) := by
  induction rungs with
  | nil => exact reports_pure
  | cons rung rungs ih =>
    refine Prog.echoes_ite (fun _ => ih) fun _ => (reports_call _ rfl).bind fun failures => ?_
    refine Prog.echoes_ite (fun _ => ih) fun _ => (reports_await _ rfl).bind ?_
    rintro (e | _ | v)
    · exact ih
    · exact ih
    · exact reports_pure

theorem becomePopulationOwner_reports (decision : PolicyDecision) (g : Generation) :
    Reports (becomePopulationOwner tiers a decision g : Step V _) := by
  refine ((populateAttempts_reports decision g 2).guarded (by simp [Req.reported])).bind ?_
  rintro (e | v)
  · refine (reports_call _ rfl).bind fun _ => Prog.echoes_ite (fun _ => reports_pure) fun _ => ?_
    exact Prog.echoes_ite (fun _ => scanRungs_reports e cacheLadder) fun _ => reports_pure
  · exact reports_pure

/-! ## Reads -/

theorem get_reports : Reports (get tiers a : Step V _) := by
  unfold get
  cases a.admitEncoded with
  | error e => exact reports_pure
  | ok d =>
    refine (reports_call _ rfl).bind fun s => Prog.echoes_ite (fun _ => ?_) fun _ =>
      Prog.echoes_ite (fun _ => ?_) fun _ => Prog.echoes_ite (fun _ => ?_) fun _ => reports_pure
    · refine Prog.echoes_ite (fun _ => reports_pure) fun _ => reports_heard rfl (fun _ => rfl) ?_
      rintro (e | v)
      · exact reports_pure
      · refine (reports_call _ rfl).bind fun after => ?_
        exact Prog.echoes_ite (fun _ => reports_pure) fun _ => reports_pure
    · exact (reports_call _ rfl).bind fun _ => reports_pure
    · refine (waitForPopulation_reports s).bind ?_
      rintro (e | u)
      · exact reports_pure
      · refine (reports_call _ rfl).bind fun after => ?_
        cases after.lastError with
        | some e => exact reports_pure
        | none =>
          exact Prog.echoes_ite (fun _ => reports_pure) fun _ => Prog.echoes_ite
            (fun _ => reports_pure) fun _ => reports_heard rfl (fun _ => rfl) fun _ => reports_pure

theorem joinOrPopulate_reports {decision : PolicyDecision} {s : ControlSnapshot}
    {again : Step V (Except CacheError V)} (h : Reports again) :
    Reports (joinOrPopulate tiers a decision s again) := by
  refine Prog.echoes_ite (fun _ => waitAndGet_reports s) fun _ => Prog.echoes_ite (fun _ => ?_) fun _ =>
    Prog.echoes_ite (fun _ => waitAndGet_reports s) fun _ => becomePopulationOwner_reports decision _
  refine (waitForPopulation_reports s).bind ?_
  rintro (e | u)
  · exact reports_pure
  · exact h

theorem fetchFrom_reports {decision : PolicyDecision} {s : ControlSnapshot}
    {again : Step V (Except CacheError V)} (h : Reports again) :
    Reports (fetchFrom tiers a decision s again) := by
  refine Prog.echoes_ite (fun _ => Prog.echoes_ite (fun _ => reports_pure) fun _ => ?_) fun _ =>
    joinOrPopulate_reports h
  refine (reports_await _ rfl).bind ?_
  rintro (e | _ | v)
  · exact reports_pure
  · exact joinOrPopulate_reports h
  · exact reports_pure

theorem fetchAttempts_reports (decision : PolicyDecision) (attempts : ℕ) :
    Reports (fetchAttempts tiers a decision attempts : Step V _) := by
  induction attempts with
  | zero => exact reports_pure
  | succ attempts ih =>
    refine (reports_call _ rfl).bind ?_
    rintro (e | first)
    · exact reports_pure
    · refine Prog.echoes_ite (fun _ => ?_) fun _ => fetchFrom_reports ih
      refine (reports_call _ rfl).bind fun _ => (reports_call _ rfl).bind ?_
      rintro (e | s)
      · exact reports_pure
      · exact fetchFrom_reports ih

theorem getOrFetch_reports : Reports (getOrFetch tiers a : Step V _) := by
  unfold getOrFetch
  cases a.admitPopulation with
  | error e => exact reports_pure
  | ok d => exact fetchAttempts_reports d 8

theorem exists_reports : Reports («exists» tiers a : Step V _) := by
  unfold «exists»
  cases a.admitKey with
  | error e => exact reports_pure
  | ok d =>
    refine (reports_call _ rfl).bind fun s => Prog.echoes_ite (fun _ => reports_pure) fun _ => ?_
    exact Prog.echoes_ite (fun _ => reports_pure) fun _ => reports_await _ rfl

/-! ## Writes -/

theorem writeUnder_reports (v : V) (rung : TierId) (token : CommitToken) :
    Reports (writeUnder a v rung token) := by
  refine reports_heard rfl (fun _ => rfl) ?_
  rintro (e | u)
  · exact Prog.echoes_ite (fun _ => (reports_await _ rfl).bind fun _ => reports_pure) fun _ =>
      reports_pure
  · refine (reports_call _ rfl).bind ?_
    rintro (e | u)
    · exact Prog.echoes_ite (fun _ => reports_pure) fun _ =>
        (reports_await _ rfl).bind fun _ => reports_pure
    · exact reports_pure

theorem writeAt_reports (v : V) (rung : TierId) (races : ℕ) : Reports (writeAt a v rung races) := by
  induction races with
  | zero => exact reports_pure
  | succ races ih =>
    unfold writeAt
    refine (reports_call _ rfl).bind ?_
    rintro (e | token)
    · exact reports_pure
    · refine ((writeUnder_reports v rung token).guarded (by simp [Req.reported])).bind ?_
      rintro (_ | _ | e | e)
      · exact reports_pure
      · cases races with
        | zero => exact (reports_call _ rfl).bind fun _ => reports_pure
        | succ races =>
          refine ((reports_await _ rfl).guarded (by simp [Req.reported])).bind fun _ => ?_
          exact (reports_call _ rfl).bind fun _ => ih
      · exact (reports_call _ rfl).bind fun _ => reports_pure
      · have habort : Reports (abortRefused token e : Step V _) :=
          Prog.echoes_ite (fun _ => reports_call _ rfl) fun _ => reports_call _ rfl
        exact habort.bind fun _ => Prog.echoes_ite (fun _ => reports_pure) fun _ => reports_pure

theorem walk_reports (v : V) (rungs : List TierId) (e : CacheError) :
    Reports (walk tiers a v rungs e) := by
  induction rungs generalizing e with
  | nil => exact reports_pure
  | cons rung rungs ih =>
    refine Prog.echoes_ite (fun _ => ih e) fun _ => (writeAt_reports v rung maxCommitAttempts).bind ?_
    rintro (r | e)
    · exact reports_pure
    · exact ih e

theorem tryEvictAtRung_reports (rung : TierId) (attempts : ℕ) :
    Reports (tryEvictAtRung rung attempts : Step V _) := by
  induction attempts with
  | zero => exact reports_pure
  | succ attempts ih =>
    refine (reports_call _ rfl).bind ?_
    rintro (_ | address)
    · exact reports_pure
    · refine (reports_call _ rfl).bind ?_
      rintro (_ | _)
      · exact ih
      · exact (reports_call _ rfl).bind fun _ => reports_pure

theorem tryFreeSomewhere_reports (rungs : List TierId) (attempts : ℕ) :
    Reports (tryFreeSomewhere tiers rungs attempts : Step V _) := by
  induction rungs generalizing attempts with
  | nil => exact reports_pure
  | cons rung rungs ih =>
    refine Prog.echoes_ite (fun _ => ih attempts) fun _ => (tryEvictAtRung_reports rung attempts).bind ?_
    rintro ⟨_ | _, attempts⟩
    · exact ih attempts
    · exact reports_pure

theorem setPasses_reports (v : V) (tier : TierId) (passes : ℕ) (e : CacheError) :
    Reports (setPasses tiers a v tier passes e) := by
  induction passes generalizing e with
  | zero => exact reports_pure
  | succ passes ih =>
    refine (walk_reports v (descent tier) e).bind ?_
    rintro (r | e)
    · exact reports_pure
    · refine Prog.echoes_ite (fun _ => ?_) fun _ => reports_pure
      refine (tryFreeSomewhere_reports cacheLadder maxEvictionAttempts).bind ?_
      rintro (_ | _)
      · exact reports_pure
      · exact ih e

theorem set_reports (v : V) : Reports (set tiers a v) := by
  unfold set
  cases a.admitWrite with
  | error e => exact reports_pure
  | ok u =>
    refine (reports_call _ rfl).bind fun s => (reports_call _ rfl).bind fun n => ?_
    dsimp only
    cases Args.authorize (a.select (.fromSnapshot s n)) with
    | error e => exact reports_pure
    | ok u => exact Prog.echoes_ite (fun _ => reports_pure) fun _ => setPasses_reports v _ 17 _

/-! ## The other calls -/

theorem invalidate_reports : Reports (invalidate a : Step V _) := by
  unfold invalidate
  cases a.admitKey with
  | error e => exact reports_pure
  | ok d => exact reports_call _ rfl

theorem removeFrom_reports (rungs : List TierId) : Reports (removeFrom tiers rungs : Step V _) := by
  induction rungs with
  | nil => exact reports_pure
  | cons rung rungs ih =>
    exact Prog.echoes_ite (fun _ => ih) fun _ => (reports_await _ rfl).bind fun _ => ih

theorem remove_reports : Reports (remove tiers a : Step V _) := by
  unfold remove
  cases a.admitKey with
  | error e => exact reports_pure
  | ok d => exact (removeFrom_reports cacheLadder).bind fun _ => reports_call _ rfl

theorem moveUnder_reports (source destination : TierId) (token : CommitToken) :
    Reports (moveUnder a source destination token : Step V _) := by
  refine (reports_await _ rfl).bind ?_
  rintro (e | _ | v)
  · exact reports_pure
  · exact reports_pure
  · refine reports_heard rfl (fun _ => rfl) ?_
    rintro (e | u)
    · exact reports_pure
    · refine reports_heard rfl (fun _ => rfl) fun removed => (reports_call _ rfl).bind ?_
      rintro (e | u)
      · exact (reports_await _ rfl).bind fun _ => reports_pure
      · exact reports_pure

theorem moveEntry_reports (source destination : TierId) :
    Reports (moveEntry tiers a source destination : Step V _) := by
  refine (reports_call _ rfl).bind ?_
  rintro (e | token)
  · exact reports_pure
  · refine Prog.echoes_ite (fun _ => (reports_call _ rfl).bind fun _ => reports_pure) fun _ => ?_
    refine ((moveUnder_reports source destination token).guarded (by simp [Req.reported])).bind ?_
    rintro (_ | e)
    · exact reports_pure
    · exact (reports_call _ rfl).bind fun _ => reports_pure

theorem moveAlong_reports (f : Fn) (stays : TierId → Bool) (shift : ℕ → ℕ) :
    Reports (moveAlong tiers a f stays shift : Step V _) := by
  refine (reports_call _ rfl).bind fun s => Prog.echoes_ite (fun _ => reports_pure) fun _ =>
    Prog.echoes_ite (fun _ => reports_pure) fun _ => ?_
  cases TierId.fromUsize (shift s.tier.asUsize) with
  | none => exact reports_pure
  | some destination => exact moveEntry_reports s.tier destination

theorem promote_reports : Reports (promote tiers a : Step V _) := by
  cases hd : a.admitKey with
  | error e => simpa only [promote, hd] using reports_pure
  | ok d =>
    rw [promote_eq hd]
    exact moveAlong_reports _ _ _

theorem demote_reports : Reports (demote tiers a : Step V _) := by
  cases hd : a.admitKey with
  | error e => simpa only [demote, hd] using reports_pure
  | ok d =>
    rw [demote_eq hd]
    exact moveAlong_reports _ _ _

theorem revalidate_reports (decision : PolicyDecision) (current : Option V) :
    Reports (revalidate tiers a decision current) := by
  refine (reports_call _ rfl).bind ?_
  rintro (e | s)
  · exact reports_pure
  · refine Prog.echoes_ite (fun _ => reports_pure) fun _ => ?_
    refine (becomePopulationOwner_reports { decision with failMode := .closed } s.generation).bind ?_
    rintro (e | v)
    · exact Prog.echoes_ite (fun _ => reports_pure) fun _ => reports_pure
    · exact reports_pure

theorem refreshDetailed_reports : Reports (refreshDetailed tiers a : Step V _) := by
  unfold refreshDetailed
  cases a.admitPopulation with
  | error e => exact reports_pure
  | ok decision =>
    refine (reports_call _ rfl).bind fun before => ?_
    have hread : Reports (readCurrent tiers before : Step V _) := by
      refine Prog.echoes_ite (fun _ => reports_pure) fun _ => (reports_await _ rfl).bind ?_
      rintro (e | v) <;> exact reports_pure
    refine hread.bind fun current => ?_
    exact Prog.echoes_ite (fun _ => (reports_call _ rfl).bind fun _ =>
      revalidate_reports decision current) fun _ => revalidate_reports decision current

end Manager

open Manager in
/-- **A call reports only what it has just heard.** -/
theorem Call.reports (c : Call V) (tiers : ℕ) : Reports (c.prog tiers) := by
  cases c with
  | get a => exact get_reports.map _
  | getOrFetch a => exact getOrFetch_reports.map _
  | «exists» a => exact exists_reports.map _
  | set a v => exact (set_reports v).map _
  | invalidate a => exact invalidate_reports.map _
  | remove a => exact remove_reports.map _
  | refresh a => exact refreshDetailed_reports.map _
  | promote a => exact promote_reports.map _
  | demote a => exact demote_reports.map _
  | evict => exact (tryFreeSomewhere_reports _ _).map _

/-! ## The counters -/

/-- Whether a report counts against its rung. -/
def isUnavailable (result : Except CacheError Unit) : Bool :=
  match result with
  | .error .tierUnavailable => true
  | _ => false

/-- Whether a report is of a failure of any kind. -/
def isFailure (result : Except CacheError Unit) : Bool :=
  match result with
  | .error _ => true
  | .ok _ => false

/-- The counter of a rung that started at `n`, after some reports, newest first. -/
def consecutive (n : ℕ) (reports : List (Except CacheError Unit)) : ℕ :=
  (reports.takeWhile isFailure).countP isUnavailable + if reports.all isFailure then n else 0

/-- The reports on a rung, newest first. -/
def reportsOn (rung : TierId) (reports : List (ℕ × TierId × Except CacheError Unit)) :
    List (Except CacheError Unit) :=
  reports.filterMap fun x => if x.2.1 = rung then some x.2.2 else none

theorem consecutive_le (n : ℕ) (reports : List (Except CacheError Unit)) :
    consecutive n reports ≤ n + reports.countP isUnavailable := by
  have hcount : (reports.takeWhile isFailure).countP isUnavailable ≤ reports.countP isUnavailable :=
    (List.takeWhile_sublist isFailure).countP_le
  unfold consecutive
  split_ifs <;> omega

theorem reportsOn_cons (rung : TierId) (x : ℕ × TierId × Except CacheError Unit)
    (reports : List (ℕ × TierId × Except CacheError Unit)) :
    reportsOn rung (x :: reports) =
      if x.2.1 = rung then x.2.2 :: reportsOn rung reports else reportsOn rung reports := by
  unfold reportsOn
  by_cases h : x.2.1 = rung <;> simp [h]

theorem countP_reportsOn (rung : TierId) (reports : List (ℕ × TierId × Except CacheError Unit)) :
    (reportsOn rung reports).countP isUnavailable =
      reports.countP fun x => x.2.1 = rung && isUnavailable x.2.2 := by
  induction reports with
  | nil => rfl
  | cons x reports ih =>
    rw [reportsOn_cons, List.countP_cons, ← ih]
    by_cases h : x.2.1 = rung
    · simp [h, List.countP_cons]
    · simp [h]

section Counters

variable {T : Type} [CacheTier T V] {P P' : Planes T} {key : KeyRef} {q : Req V} {o : Outcome V}
  {x : q.Answer}

theorem failures_recordOutcome (P : Planes T) (rung r : TierId) (result : Except CacheError Unit)
    {n : ℕ} {reports : List (Except CacheError Unit)} (h : P.failures r = consecutive n reports) :
    (P.recordOutcome rung result).failures r =
      consecutive n (if rung = r then result :: reports else reports) := by
  by_cases hr : rung = r
  · subst hr
    rw [if_pos rfl]
    obtain e | u := result
    · have hcons : consecutive n (.error e :: reports) =
          consecutive n reports + if isUnavailable (.error e) then 1 else 0 := by
        simp only [consecutive, List.takeWhile_cons, List.all_cons, isFailure, if_true, Bool.true_and,
          List.countP_cons]
        omega
      rw [hcons, ← h]
      cases e <;> simp [Planes.recordOutcome, isUnavailable]
    · simp [Planes.recordOutcome, consecutive, isFailure]
  · rw [if_neg hr, ← h]
    unfold Planes.recordOutcome
    split <;> simp [Function.update_of_ne (Ne.symm hr)]

/-- A request that reports nothing moves no counter. -/
theorem failures_exec (hq : q.reported = none) (he : P.exec key q o = some (x, P')) :
    P'.failures = P.failures := by
  cases q with
  | record rung result => cases hq
  | register notify => cases notify <;> (obtain ⟨-, rfl⟩ := Prod.mk.inj (Option.some.inj he); rfl)
  | notified epoch =>
    simp only [Planes.exec] at he
    split_ifs at he <;> (obtain ⟨-, rfl⟩ := Prod.mk.inj (Option.some.inj he); rfl)
  | _ =>
    obtain ⟨-, rfl⟩ := Prod.mk.inj (Option.some.inj he)
    rfl

theorem failures_attempt (hq : q.reported = none) (he : P.attempt key q o = some (x, P')) :
    P'.failures = P.failures := by
  unfold Planes.attempt at he
  split at he
  · obtain ⟨-, rfl⟩ := Prod.mk.inj (Option.some.inj he)
    split_ifs
    · cases hexec : P.exec key q o with
      | none => rfl
      | some y => exact failures_exec hq hexec
    · rfl
  · exact failures_exec hq he

/-- A request moves the counters by what it reports. -/
theorem failures_request {n : ℕ} {r : TierId} {reports : List (ℕ × TierId × Except CacheError Unit)}
    (h : P.failures r = consecutive n (reportsOn r reports)) (i : ℕ)
    (he : P.attempt key q o = some (x, P')) :
    P'.failures r = consecutive n (reportsOn r ((q.reported.map (i, ·)).toList ++ reports)) := by
  cases hq : q.reported with
  | none =>
    rw [failures_attempt hq he, h]
    rfl
  | some report =>
    obtain ⟨rung, result, rfl⟩ : ∃ rung result, q = .record rung result := by
      cases q <;> first | exact ⟨_, _, rfl⟩ | cases hq
    obtain rfl : (rung, result) = report := Option.some.inj hq
    have hattempt : P' = P.recordOutcome rung result := by
      have hnone : (o.error.bind (Req.failed (V := V) (.record rung result))) = none := by
        cases o.error <;> rfl
      simp only [Planes.attempt, hnone, Planes.exec, Option.some.injEq, Prod.mk.injEq] at he
      exact he.2.symm
    rw [hattempt, failures_recordOutcome P rung r result h]
    exact congrArg (consecutive n) (reportsOn_cons r (i, rung, result) reports).symm

end Counters

/-- **The circuit breakers are backed.** Whatever the clients of all tenants do, under any interleaving,
with any drops and any tier failures: a rung's counter is the number of `TierUnavailable` reports since
the last success that was reported, and every report is what its thread was answered by that rung's
tier, no answer being reported twice. So a rung's counter never exceeds the number of
`TierUnavailable` answers of its tier. -/
theorem failures_backed {K T : Type} [Key K] [CacheTier T V] (tiers : ℕ) (P : Planes T)
    (schedule : List (Event (Asked K V) (Outcome V) Chore)) :
    let s := (tenants K V T tiers).run P schedule
    let reports := echoed (fun q : KeyRef × Req V => q.2.reported) s.trace
    let answers := told (fun q : KeyRef × Req V => q.2.heard) s.trace
    (∀ rung, s.world.failures rung = consecutive (P.failures rung) (reportsOn rung reports)) ∧
      reports.Subperm answers ∧
      ∀ rung, s.world.failures rung ≤
        P.failures rung + (reportsOn rung answers).countP isUnavailable := by
  intro s reports answers
  have hcounters : ∀ rung,
      s.world.failures rung = consecutive (P.failures rung) (reportsOn rung reports) := by
    intro rung
    refine List.foldlRecOn (motive := fun s : Shared K V T => s.world.failures rung =
      consecutive (P.failures rung) (reportsOn rung (echoed (fun q : KeyRef × Req V => q.2.reported)
        s.trace))) schedule (tenants K V T tiers).step (b := .initial P) ?_ ?_
    · simp [echoed, reportsOn, consecutive, Sys.initial]
    · intro s hs ev _
      rcases Machine.step_cases (M := tenants K V T tiers) s ev with
        ⟨hw, ht⟩ | ⟨e, he⟩ | ⟨i, c, l, q, o, a, w, rest, hexec, he⟩
      · rw [hw, ht]
        exact hs
      · rw [he]
        cases e <;> exact hs
      · rw [he, Sys.answer_trace, echoed_cons]
        exact failures_request hs i hexec
  have hbacked : reports.Subperm answers :=
    Machine.echoed_subperm (fun c => (c.call.reports tiers).tagged c.call.key) P schedule
  refine ⟨hcounters, hbacked, ?_⟩
  intro rung
  rw [hcounters rung]
  refine (consecutive_le _ _).trans ?_
  rw [countP_reportsOn, countP_reportsOn]
  exact Nat.add_le_add_left (hbacked.countP_le _) _

end TheSix
