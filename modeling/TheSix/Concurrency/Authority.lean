import TheSix.Concurrency.Disciplines
import TheSix.Lib.Requests

/-!
# The authority is never written

`L6` is the record of truth and no rung of the cache. A policy may name it, and a population then
claims its entry under that name; but every request that changes a rung, records or commits an intent,
or publishes, names a cache rung, and so does every request of the fail-open scan and of the eviction
scan (`SparesAuthority`). Of the entries this leaves the `Ready` ones and the ones that an abort would
make `Ready` again, whose tier is a cache rung (`NamesCacheRung`).
-/

namespace TheSix

open Coroutine

variable {V : Type}

/-- A request that leaves the authority alone, by the function that makes it. -/
def SparesAuthority (f : Fn) : Req V → Prop
  | .tierSet rung _ _ | .tierRemove rung | .removeIfAddress rung _ | .evictionCandidate rung
  | .prepare rung _ | .publish _ rung _ => rung.isCacheRung = true
  | .tierGet rung | .tierHealth rung => f = .tryFallbackTier → rung.isCacheRung = true
  | .commit token _ => ∃ rung, token.targetTier = TierId.asU8 rung ∧ rung.isCacheRung = true
  | .setState state => state = .stale
  | _ => True

/-- The token of an intent names the rung it was asked for. -/
def TokenNames : (q : Req V) → q.Answer → Prop
  | .prepare rung _, .ok token => token.targetTier = rung.asU8
  | _, _ => True

/-- The entry names a cache rung when it is `Ready`, or was when its intent was recorded. -/
def NamesCacheRung (e : ControlEntry) : Prop :=
  e.state = .ready ∨ (e.state = .prepared ∧ e.intentPrevState = .ready) → e.tier.isCacheRung = true

/-! ## The programs -/

/-- A program whose requests leave the authority alone. -/
abbrev OffAuthority {R : Type} (p : Step V R) : Prop := p.Asks SparesAuthority TokenNames

namespace Manager

variable {tiers : ℕ} {a : Args} {d : PolicyDecision} {g : Generation}

theorem isCacheRung_of_nearestBoundRung {wanted rung : TierId}
    (h : nearestBoundRung tiers wanted = some rung) : rung.isCacheRung = true := by
  have hfrom : ∀ n ≤ lastCacheTier.asUsize, nearestFrom tiers n = some rung →
      rung.isCacheRung = true := by
    intro n hn
    induction n with
    | zero =>
      intro h
      simp only [nearestFrom, Option.ite_none_right_eq_some, Option.some.injEq] at h
      rw [← h.2]
      rfl
    | succ n ih =>
      intro h
      simp only [nearestFrom] at h
      split at h
      · cases h
      · rename_i candidate hc
        split_ifs at h
        · rw [← Option.some.inj h, TierId.isCacheRung, TierId.asUsize_of_fromUsize hc]
          exact decide_eq_true hn
        · exact ih (by omega) h
  unfold nearestBoundRung at h
  split_ifs at h with hw
  exact hfrom _ (of_decide_eq_true hw) h

theorem isCacheRung_of_mem_cacheLadder {rung : TierId} (h : rung ∈ cacheLadder) :
    rung.isCacheRung = true := by
  revert h
  cases rung <;> decide

theorem isCacheRung_of_mem_descent {tier rung : TierId} (h : rung ∈ descent tier) :
    rung.isCacheRung = true := by
  revert h
  cases tier <;> cases rung <;> decide

theorem waitForPopulation_off (s : ControlSnapshot) :
    OffAuthority (waitForPopulation s : Step V _) := by
  simp [waitForPopulation, call, await, Prog.asks_req, Prog.asks_ite, SparesAuthority]

theorem waitAndGet_off (s : ControlSnapshot) : OffAuthority (waitAndGet tiers s : Step V _) := by
  refine (waitForPopulation_off s).bind ?_
  rintro (e | u)
  · simp
  · simp only [call, noTelemetry_eq, await, Prog.req_bind, Prog.ret_bind, Prog.asks_req]
    refine ⟨trivial, fun after _ => ?_, by simp⟩
    cases after.lastError with
    | some e => simp
    | none =>
      simp only [Prog.asks_ite, Prog.asks_req]
      refine ⟨by simp, fun _ => ⟨by simp, fun _ => ⟨by simp [SparesAuthority], ?_, by simp⟩⟩⟩
      rintro (e | _ | v) - <;> simp

theorem populateOnce_off : OffAuthority (populateOnce tiers a d g : Step V _) := by
  simp only [populateOnce, call, noTelemetry_eq, await, Prog.req_bind, Prog.ret_bind, Prog.asks_req]
  refine ⟨trivial, ?_, by simp⟩
  rintro (e | value) -
  · simp
  · cases hrung : nearestBoundRung tiers d.tier with
    | none => simp
    | some rung =>
      have hcache := isCacheRung_of_nearestBoundRung hrung
      simp only [Prog.asks_req]
      refine ⟨hcache, ?_, by simp⟩
      rintro (e | u) -
      · exact ⟨trivial, by simp, by simp⟩
      · simp only [Prog.asks_req]
        refine ⟨trivial, fun _ _ => ⟨hcache, ?_, by simp⟩, by simp⟩
        rintro (e | u) - <;> simp

theorem populateAttempts_off (retries : ℕ) :
    OffAuthority (populateAttempts tiers a d g retries : Step V _) := by
  induction retries with
  | zero => exact populateOnce_off
  | succ retries ih =>
    refine populateOnce_off.bind ?_
    rintro (e | value)
    · simp only [await, noTelemetry_eq, Prog.req_bind, Prog.ret_bind, Prog.asks_ite, Prog.asks_req]
      exact ⟨fun _ => ⟨trivial, fun _ _ => ih, by simp⟩, by simp⟩
    · simp

theorem scanRungs_off {cause : CacheError} {rungs : List TierId}
    (h : ∀ rung ∈ rungs, rung.isCacheRung = true) :
    OffAuthority (scanRungs tiers cause rungs : Step V _) := by
  induction rungs with
  | nil => simp [scanRungs]
  | cons rung rungs ih =>
    rw [List.forall_mem_cons] at h
    simp only [scanRungs, call, noTelemetry_eq, await, Prog.req_bind, Prog.ret_bind, Prog.asks_ite,
      Prog.asks_req]
    refine ⟨fun _ => ih h.2, fun _ => ⟨fun _ => h.1, fun _ _ => ⟨fun _ => ih h.2, fun _ =>
      ⟨fun _ => h.1, ?_, by simp⟩⟩, by simp⟩⟩
    rintro (e | _ | v) -
    · exact ih h.2
    · exact ih h.2
    · simp

theorem becomePopulationOwner_off :
    OffAuthority (becomePopulationOwner tiers a d g : Step V _) := by
  refine ((populateAttempts_off 2).guarded (by simp [SparesAuthority])).bind ?_
  rintro (e | value)
  · simp only [call, noTelemetry_eq, Prog.req_bind, Prog.ret_bind, Prog.asks_req, Prog.asks_ite,
      tryFallbackTier]
    refine ⟨trivial, fun _ _ => ⟨by simp, fun _ => ⟨fun _ => ?_, by simp⟩⟩, by simp⟩
    exact scanRungs_off fun rung => isCacheRung_of_mem_cacheLadder
  · simp

theorem get_off : OffAuthority (Manager.get tiers a : Step V _) := by
  unfold Manager.get
  cases a.admitEncoded with
  | error e => simp
  | ok decision =>
    simp only [call, noTelemetry_eq, await, Prog.req_bind, Prog.ret_bind, Prog.asks_req,
      Prog.asks_ite]
    refine ⟨trivial, fun s _ => ⟨fun _ => ⟨by simp, fun _ => ⟨by simp [SparesAuthority], ?_, by simp⟩⟩,
      fun _ => ⟨fun _ => ⟨rfl, by simp, by simp⟩, fun _ => ⟨fun _ => ?_, by simp⟩⟩⟩, by simp⟩
    · rintro (e | v) - <;> simp [Prog.asks_req, Prog.asks_ite, SparesAuthority]
    · refine (waitForPopulation_off s).bind ?_
      rintro (e | u)
      · simp
      · simp only [Prog.asks_req]
        refine ⟨trivial, fun after _ => ?_, by simp⟩
        cases after.lastError with
        | some e => simp
        | none => simp [Prog.asks_req, Prog.asks_ite, SparesAuthority]

theorem joinOrPopulate_off {s : ControlSnapshot} {again : Step V (Except CacheError V)}
    (hagain : OffAuthority again) : OffAuthority (joinOrPopulate tiers a d s again) := by
  simp only [joinOrPopulate, Prog.asks_ite]
  refine ⟨fun _ => waitAndGet_off s, fun _ => ⟨fun _ => ?_, fun _ => ⟨fun _ => waitAndGet_off s,
    fun _ => becomePopulationOwner_off⟩⟩⟩
  refine (waitForPopulation_off s).bind ?_
  rintro (e | u)
  · simp
  · exact hagain

theorem fetchFrom_off {s : ControlSnapshot} {again : Step V (Except CacheError V)}
    (hagain : OffAuthority again) : OffAuthority (fetchFrom tiers a d s again) := by
  simp only [fetchFrom, await, noTelemetry_eq, Prog.req_bind, Prog.ret_bind, Prog.asks_ite,
    Prog.asks_req]
  refine ⟨fun _ => ⟨by simp, fun _ => ⟨by simp [SparesAuthority], ?_, by simp⟩⟩,
    fun _ => joinOrPopulate_off hagain⟩
  rintro (e | _ | v) -
  · simp
  · exact joinOrPopulate_off hagain
  · simp

theorem fetchAttempts_off (attempts : ℕ) :
    OffAuthority (fetchAttempts tiers a d attempts : Step V _) := by
  induction attempts with
  | zero => simp [fetchAttempts]
  | succ attempts ih =>
    simp only [fetchAttempts, call, noTelemetry_eq, Prog.req_bind, Prog.ret_bind, Prog.asks_req]
    refine ⟨trivial, ?_, by simp⟩
    rintro (e | first) -
    · simp
    · simp only [Prog.asks_ite, Prog.asks_req]
      refine ⟨fun _ => ⟨rfl, fun _ _ => ⟨trivial, ?_, by simp⟩, by simp⟩, fun _ => fetchFrom_off ih⟩
      rintro (e | s) -
      · simp
      · exact fetchFrom_off ih

theorem getOrFetch_off : OffAuthority (getOrFetch tiers a : Step V _) := by
  unfold getOrFetch
  cases a.admitPopulation with
  | error e => simp
  | ok decision => exact fetchAttempts_off 8

theorem exists_off : OffAuthority (Manager.exists tiers a : Step V _) := by
  unfold Manager.exists
  cases a.admitKey with
  | error e => simp
  | ok decision => simp [call, await, Prog.asks_req, Prog.asks_ite, SparesAuthority]

section Writing

variable {v : V} {rung : TierId} {token : CommitToken}

theorem writeUnder_off (hcache : rung.isCacheRung = true) (htoken : token.targetTier = rung.asU8) :
    OffAuthority (writeUnder a v rung token) := by
  simp only [writeUnder, call, noTelemetry_eq, await, Prog.req_bind, Prog.ret_bind, Prog.asks_req]
  refine ⟨hcache, ?_, by simp⟩
  rintro (e | u) -
  · simp only [Prog.asks_req, Prog.asks_ite]
    exact ⟨trivial, fun _ _ => ⟨fun _ => ⟨hcache, by simp, by simp⟩, by simp⟩, by simp⟩
  · simp only [Prog.asks_req]
    refine ⟨trivial, fun _ _ => ⟨⟨rung, htoken, hcache⟩, ?_, by simp⟩, by simp⟩
    rintro (e | u) -
    · simp only [Prog.asks_ite, Prog.asks_req]
      exact ⟨by simp, fun _ => ⟨hcache, by simp, by simp⟩⟩
    · simp

theorem abortRefused_off (token : CommitToken) (e : CacheError) :
    OffAuthority (abortRefused token e : Step V _) := by
  simp [abortRefused, call, Prog.asks_ite, Prog.asks_req, SparesAuthority]

theorem writeAt_off (hcache : rung.isCacheRung = true) (races : ℕ) :
    OffAuthority (writeAt a v rung races) := by
  induction races with
  | zero => simp [writeAt]
  | succ races ih =>
    rw [writeAt]
    simp only [call, noTelemetry_eq, Prog.req_bind, Prog.ret_bind, Prog.asks_req]
    refine ⟨hcache, ?_, by simp⟩
    rintro (e | token) htoken
    · simp
    · refine ((writeUnder_off hcache htoken).guarded (by simp [SparesAuthority])).bind ?_
      rintro (_ | _ | e | e)
      · simp
      · cases races with
        | zero => simp [Prog.asks_req, SparesAuthority]
        | succ races =>
          have hyield : OffAuthority (await .set .yieldNow : Step V Unit) := ⟨trivial, by simp, by simp⟩
          refine (hyield.guarded (by simp [SparesAuthority])).bind fun _ => ?_
          exact ⟨trivial, fun _ _ => ih, by simp⟩
      · simp [Prog.asks_req, SparesAuthority]
      · refine (abortRefused_off token e).bind fun _ => ?_
        simp [Prog.asks_ite]

theorem walk_off {rungs : List TierId} (h : ∀ rung ∈ rungs, rung.isCacheRung = true)
    (e : CacheError) : OffAuthority (walk tiers a v rungs e) := by
  induction rungs generalizing e with
  | nil => simp [walk]
  | cons rung rungs ih =>
    rw [List.forall_mem_cons] at h
    simp only [walk, Prog.asks_ite]
    refine ⟨fun _ => ih h.2 e, fun _ => (writeAt_off h.1 _).bind ?_⟩
    rintro (r | e)
    · simp
    · exact ih h.2 e

theorem tryEvictAtRung_off (hcache : rung.isCacheRung = true) (attempts : ℕ) :
    OffAuthority (tryEvictAtRung rung attempts : Step V _) := by
  induction attempts with
  | zero => simp [tryEvictAtRung]
  | succ attempts ih =>
    simp only [tryEvictAtRung, call, Prog.req_bind, Prog.ret_bind, Prog.asks_req]
    refine ⟨hcache, ?_, by simp⟩
    rintro (_ | address) -
    · simp
    · simp only [Prog.asks_req]
      refine ⟨trivial, ?_, by simp⟩
      rintro (_ | _) -
      · exact ih
      · exact ⟨hcache, by simp, by simp⟩

theorem tryFreeSomewhere_off {rungs : List TierId} (h : ∀ rung ∈ rungs, rung.isCacheRung = true)
    (attempts : ℕ) : OffAuthority (tryFreeSomewhere tiers rungs attempts : Step V _) := by
  induction rungs generalizing attempts with
  | nil => simp [tryFreeSomewhere]
  | cons rung rungs ih =>
    rw [List.forall_mem_cons] at h
    simp only [tryFreeSomewhere, Prog.asks_ite]
    refine ⟨fun _ => ih h.2 attempts, fun _ => (tryEvictAtRung_off h.1 attempts).bind ?_⟩
    rintro ⟨_ | _, attempts⟩
    · exact ih h.2 attempts
    · simp

theorem setPasses_off {tier : TierId} (passes : ℕ) (e : CacheError) :
    OffAuthority (setPasses tiers a v tier passes e) := by
  induction passes generalizing e with
  | zero => simp [setPasses]
  | succ passes ih =>
    refine (walk_off (fun rung => isCacheRung_of_mem_descent) e).bind ?_
    rintro (r | e)
    · simp
    · simp only [Prog.asks_ite]
      refine ⟨fun _ => ?_, by simp⟩
      refine (tryFreeSomewhere_off (fun rung => isCacheRung_of_mem_cacheLadder) _).bind ?_
      rintro (_ | _)
      · simp
      · exact ih e

theorem set_off : OffAuthority (Manager.set tiers a v) := by
  unfold Manager.set
  cases a.admitWrite with
  | error e => simp
  | ok u =>
    simp only [call, noTelemetry_eq, Prog.req_bind, Prog.ret_bind, Prog.asks_req]
    refine ⟨trivial, fun s _ => ⟨by simp [SparesAuthority], fun failures _ => ?_, by simp⟩, by simp⟩
    cases Args.authorize (a.select (.fromSnapshot s failures)) with
    | error e => simp
    | ok u =>
      simp only [Prog.asks_ite]
      exact ⟨by simp, fun _ => setPasses_off 17 _⟩

end Writing

theorem invalidate_off : OffAuthority (Manager.invalidate a : Step V _) := by
  unfold Manager.invalidate
  cases a.admitKey with
  | error e => simp
  | ok decision => simp [call, Prog.asks_req, SparesAuthority]

theorem removeFrom_off {rungs : List TierId} (h : ∀ rung ∈ rungs, rung.isCacheRung = true) :
    OffAuthority (removeFrom tiers rungs : Step V _) := by
  induction rungs with
  | nil => simp [removeFrom]
  | cons rung rungs ih =>
    rw [List.forall_mem_cons] at h
    simp only [removeFrom, await, Prog.req_bind, Prog.ret_bind, Prog.asks_ite, Prog.asks_req]
    exact ⟨fun _ => ih h.2, fun _ => ⟨h.1, fun _ _ => ih h.2, by simp⟩⟩

theorem remove_off : OffAuthority (Manager.remove tiers a : Step V _) := by
  unfold Manager.remove
  cases a.admitKey with
  | error e => simp
  | ok decision =>
    refine (removeFrom_off fun rung => isCacheRung_of_mem_cacheLadder).bind fun _ => ?_
    simp [call, Prog.asks_req, SparesAuthority]

section Moving

variable {source destination : TierId}

theorem moveUnder_off {token : CommitToken} (hs : source.isCacheRung = true)
    (hd : destination.isCacheRung = true) (htoken : token.targetTier = destination.asU8) :
    OffAuthority (moveUnder a source destination token : Step V _) := by
  simp only [moveUnder, call, noTelemetry_eq, await, Prog.req_bind, Prog.ret_bind, Prog.asks_req]
  refine ⟨by simp [SparesAuthority], ?_, by simp⟩
  rintro (e | _ | v) -
  · simp
  · simp
  · simp only [Prog.asks_req]
    refine ⟨hd, ?_, by simp⟩
    rintro (e | u) -
    · exact ⟨trivial, by simp, by simp⟩
    · simp only [Prog.asks_req]
      refine ⟨trivial, fun _ _ => ⟨hs, fun _ _ => ⟨trivial, fun _ _ =>
        ⟨⟨destination, htoken, hd⟩, ?_, by simp⟩, by simp⟩, by simp⟩, by simp⟩
      rintro (e | u) -
      · exact ⟨hd, by simp, by simp⟩
      · simp

theorem moveEntry_off (hs : source.isCacheRung = true) (hd : destination.isCacheRung = true) :
    OffAuthority (moveEntry tiers a source destination : Step V _) := by
  simp only [moveEntry, call, noTelemetry_eq, Prog.req_bind, Prog.ret_bind, Prog.asks_req]
  refine ⟨hd, ?_, by simp⟩
  rintro (e | token) htoken
  · simp
  · simp only [Prog.asks_ite, Prog.asks_req]
    refine ⟨fun _ => ⟨trivial, by simp, by simp⟩, fun _ => ?_⟩
    refine ((moveUnder_off hs hd htoken).guarded (by simp [SparesAuthority])).bind ?_
    rintro (_ | e)
    · simp
    · simp [Prog.asks_req, SparesAuthority]

/-- A move along the ladder stays on the cache rungs. -/
theorem moveAlong_off {f : Fn} {stays : TierId → Bool} {shift : ℕ → ℕ}
    (hsteps : Steps stays shift) : OffAuthority (moveAlong tiers a f stays shift : Step V _) := by
  simp only [moveAlong, call, noTelemetry_eq, Prog.req_bind, Prog.ret_bind, Prog.asks_req,
    Prog.asks_ite]
  refine ⟨trivial, fun s _ => ⟨by simp, fun _ => ⟨by simp, fun hstay => ?_⟩⟩, by simp⟩
  obtain ⟨hs, destination, hto, hd, -⟩ := hsteps s.tier (by simpa using hstay)
  rw [hto]
  exact moveEntry_off hs hd

theorem promote_off : OffAuthority (promote tiers a : Step V _) := by
  cases h : a.admitKey with
  | error e => simp [promote, h]
  | ok decision =>
    rw [promote_eq h]
    exact moveAlong_off promote_steps

theorem demote_off : OffAuthority (demote tiers a : Step V _) := by
  cases h : a.admitKey with
  | error e => simp [demote, h]
  | ok decision =>
    rw [demote_eq h]
    exact moveAlong_off demote_steps

end Moving

theorem revalidate_off {current : Option V} : OffAuthority (revalidate tiers a d current) := by
  simp only [revalidate, call, noTelemetry_eq, Prog.req_bind, Prog.ret_bind, Prog.asks_req]
  refine ⟨trivial, ?_, by simp⟩
  rintro (e | s) -
  · simp
  · simp only [Prog.asks_ite]
    refine ⟨by simp, fun _ => becomePopulationOwner_off.bind ?_⟩
    rintro (e | v)
    · simp [Prog.asks_ite]
    · simp

theorem refreshDetailed_off : OffAuthority (refreshDetailed tiers a : Step V _) := by
  unfold refreshDetailed
  cases a.admitPopulation with
  | error e => simp
  | ok decision =>
    simp only [call, noTelemetry_eq, Prog.req_bind, Prog.ret_bind, Prog.asks_req]
    refine ⟨trivial, fun before _ => ?_, by simp⟩
    have hread : OffAuthority (readCurrent tiers before : Step V _) := by
      simp only [readCurrent, await, Prog.req_bind, Prog.ret_bind, Prog.asks_ite, Prog.asks_req]
      refine ⟨by simp, fun _ => ⟨by simp [SparesAuthority], ?_, by simp⟩⟩
      rintro (e | v) - <;> simp
    refine hread.bind fun current => ?_
    simp only [Prog.asks_ite, Prog.asks_req]
    exact ⟨fun _ => ⟨rfl, fun _ _ => revalidate_off, by simp⟩, fun _ => revalidate_off⟩

end Manager

/-- **No call of the manager asks for the authority to be written.** -/
theorem Call.off (tiers : ℕ) (c : Call V) : OffAuthority (c.prog tiers) := by
  cases c with
  | get a => exact Manager.get_off.map
  | getOrFetch a => exact Manager.getOrFetch_off.map
  | «exists» a => exact Manager.exists_off.map
  | set a v => exact Manager.set_off.map
  | invalidate a => exact Manager.invalidate_off.map
  | remove a => exact Manager.remove_off.map
  | refresh a => exact Manager.refreshDetailed_off.map
  | promote a => exact Manager.promote_off.map
  | demote a => exact Manager.demote_off.map
  | evict =>
    exact (Manager.tryFreeSomewhere_off (fun rung => Manager.isCacheRung_of_mem_cacheLadder) _).map

/-! ## The entries -/

namespace NamesCacheRung

variable {e : ControlEntry}

/-- An entry that is neither `Ready` nor `Prepared` may name what it likes. -/
theorem of_state (hr : e.state ≠ .ready) (hp : e.state ≠ .prepared) : NamesCacheRung e := by
  rintro (h | ⟨h, -⟩)
  · exact absurd h hr
  · exact absurd h hp

theorem acquire (h : NamesCacheRung e) (tier : TierId) (now : ℕ) :
    NamesCacheRung (e.acquire tier now).2 := by
  cases hc : e.state.isClaimable with
  | false => rwa [ControlEntry.acquire_of_not_claimable hc]
  | true =>
    rw [ControlEntry.acquire_of_claimable hc]
    exact of_state (by simp) (by simp)

theorem prepared (h : NamesCacheRung e) (intent : CommitIntent) :
    NamesCacheRung (e.preparedFor intent) := by
  rintro (hr | ⟨-, hr⟩)
  · cases hr
  · exact h (Or.inl hr)

/-- A clean abort makes the entry `Ready` only if it was. -/
theorem aborted (h : NamesCacheRung e) (hs : e.state = .prepared) (error : CacheError) (clean : Bool) :
    NamesCacheRung (e.aborted error clean) := by
  cases clean with
  | false => exact of_state (by simp) (by simp)
  | true =>
    rintro (hr | ⟨-, hr⟩)
    · exact h (Or.inr ⟨hs, hr⟩)
    · exact h (Or.inr ⟨hs, hr⟩)

theorem exec {w w' : KeyWorld V} {f : Fn} {q : Req V} {o : Outcome V} {a : q.Answer}
    (hq : SparesAuthority f q) (he : w.exec q o = some (a, w')) (h : NamesCacheRung w.entry) :
    NamesCacheRung w'.entry := by
  cases q with
  | acquire tier =>
    rcases KeyWorld.exec_acquire he with ⟨e, -, rfl, -⟩ | ⟨-, rfl⟩
    · exact h
    · exact h.acquire tier w.now
  | setState state =>
    obtain rfl : state = .stale := hq
    rcases KeyWorld.exec_setState he with ⟨rfl, -⟩ | rfl
    · exact h
    · exact of_state (by simp) (by simp)
  | publish g tier ttl =>
    rcases KeyWorld.exec_publish he with ⟨e, -, rfl, -⟩ | ⟨-, -, rfl⟩
    · exact h
    · exact fun _ => hq
  | failWithError error =>
    rcases KeyWorld.exec_failWithError he with ⟨-, rfl⟩ | ⟨-, rfl⟩
    · exact h
    · exact of_state (by simp) (by simp)
  | invalidate =>
    obtain ⟨-, ⟨-, rfl⟩ | ⟨-, rfl⟩⟩ := KeyWorld.exec_invalidate he
    · exact h
    · exact of_state (by simp) (by simp)
  | release =>
    obtain ⟨-, ⟨-, rfl⟩ | ⟨-, rfl⟩⟩ := KeyWorld.exec_release he
    · exact h
    · exact of_state (by simp) (by simp)
  | prepare tier kind =>
    rcases KeyWorld.exec_prepare he with ⟨e, -, rfl, -⟩ | ⟨-, rfl⟩
    · exact h
    · exact h.prepared _
  | commit token ttl =>
    rcases KeyWorld.exec_commit he with ⟨e, -, rfl, -, -⟩ | ⟨-, -, -, rfl⟩
    · exact h
    · obtain ⟨rung, htoken, hcache⟩ := hq
      intro _
      simp [htoken, hcache]
  | abort token error =>
    rcases KeyWorld.exec_abort he with ⟨-, rfl⟩ | ⟨hs, rfl⟩
    · exact h
    · exact h.aborted hs error false
  | abortProvenClean token error =>
    rcases KeyWorld.exec_abortProvenClean he with ⟨-, rfl⟩ | ⟨hs, rfl⟩
    · exact h
    · exact h.aborted hs error true
  | reserveEviction address =>
    rcases KeyWorld.exec_reserveEviction he with ⟨rfl, -⟩ | ⟨-, -, rfl⟩
    · exact h
    · exact of_state (by simp) (by simp)
  | peek | evictionCandidate | removeIfAddress | tierGet | tierSet | tierRemove | tierContains
  | fetch | register | notified | sleep | yieldNow | tierHealth | record =>
    rwa [KeyWorld.exec_entry rfl he]

/-- What every world guarantees about the tokens. -/
theorem tokenNames_of_exec {q : Req V} {o : Outcome V} {w w' : KeyWorld V} {a : q.Answer}
    (h : w.exec q o = some (a, w')) : TokenNames q a := by
  cases q with
  | prepare tier kind =>
    rcases KeyWorld.exec_prepare h with ⟨e, rfl, -, -⟩ | ⟨rfl, -⟩
    · trivial
    · rfl
  | _ => trivial

theorem upkeep {w : Maintained V} (h : NamesCacheRung w.key.entry) (e : Upkeep) :
    NamesCacheRung (w.upkeep e).key.entry := by
  by_cases hsweep : e = .sweepExpired
  · subst hsweep
    rw [w.upkeep_sweepExpired_entry, ControlEntry.sweepExpired]
    split_ifs
    · exact h
    · exact of_state (by simp) (by simp)
    · exact h
  · by_cases hsettle : ∃ j age intent, e = .settle j ∧ w.sweeps j = .settling age intent
    · obtain ⟨j, age, intent, rfl, hj⟩ := hsettle
      rw [(Maintained.upkeep_settle hj).1]
      cases intent.kind with
      | write =>
        rw [w.settled_write_entry, ControlEntry.abortIntentByAddress]
        split_ifs with _ hs
        · exact h
        · exact h
        · exact h.aborted (not_not.1 hs) _ false
      | move =>
        rw [w.settled_move_entry, ControlEntry.releasePopulationClaim]
        split_ifs
        · exact h
        · exact of_state (by simp) (by simp)
    · push Not at hsettle
      rwa [(Maintained.upkeep_of_ne hsweep hsettle).1]

end NamesCacheRung

/-- **The authority is never written.** Whatever the policies name, however many rungs are bound,
whatever the tiers answer, and however calls, evictions, drops, expiry sweeps and recovery sweeps
interleave: no request of the run writes, removes from or evicts from `L6`, neither the fail-open
scan nor the eviction scan asks it, and the entry does not name it while it is `Ready`. -/
theorem authority_never_written (tiers : ℕ) (address : KeyAddress) (schedule : List (Duty V)) :
    (∀ it ∈ ((maintained V tiers).run { key := .empty address } schedule).trace,
      (∀ v ttl, it.req ≠ .tierSet .L6 v ttl) ∧ it.req ≠ .tierRemove .L6 ∧
      (∀ victim, it.req ≠ .removeIfAddress .L6 victim) ∧ it.req ≠ .evictionCandidate .L6 ∧
      (it.site = .tryFallbackTier → it.req ≠ .tierGet .L6 ∧ it.req ≠ .tierHealth .L6)) ∧
    (((maintained V tiers).run { key := .empty address } schedule).world.key.entry.state = .ready →
      ((maintained V tiers).run { key := .empty address } schedule).world.key.entry.tier ≠ .L6) := by
  have hempty : NamesCacheRung ({ key := .empty address } : Maintained V).key.entry :=
    .of_state (by simp) (by simp)
  have htoken : ∀ (q : Req V) o a w w', (maintained V tiers).exec q o w = some (a, w') →
      TokenNames q a := fun q o a w w' he => NamesCacheRung.tokenNames_of_exec (Maintained.exec_eq_some he).1
  obtain ⟨htrace, hentry⟩ := Machine.keeps_run (M := maintained V tiers)
    (J := fun w => NamesCacheRung w.key.entry) (Call.off tiers) htoken (fun e w h => h.upkeep e)
    (fun l q o a w w' hq he h => h.exec hq (Maintained.exec_eq_some he).1) hempty schedule
  have hno : ¬ TierId.L6.isCacheRung = true := by decide
  refine ⟨fun it hit => ?_, fun hready hL6 => hno ?_⟩
  · have hspares := htrace it hit
    refine ⟨fun v ttl hreq => ?_, fun hreq => ?_, fun victim hreq => ?_, fun hreq => ?_,
      fun hsite => ⟨fun hreq => ?_, fun hreq => ?_⟩⟩
    · rw [hreq] at hspares
      exact hno hspares
    · rw [hreq] at hspares
      exact hno hspares
    · rw [hreq] at hspares
      exact hno hspares
    · rw [hreq] at hspares
      exact hno hspares
    · rw [hreq] at hspares
      exact hno (hspares hsite)
    · rw [hreq] at hspares
      exact hno (hspares hsite)
  · rw [← hL6]
    exact hentry (Or.inl hready)

end TheSix
