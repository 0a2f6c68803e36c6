import TheSix.Manager.System
import TheSix.Lib.Budget

/-!
# What a call may cost

Every loop of the manager is bounded, so every call is: `Call.grant` says how many fetches, tier reads,
tier writes and eviction reservations a call gets by on, whatever it is answered and wherever it is
dropped, at any price for each (`Call.spends`). With that, the calls of a thread never cost more than
they were granted, under any interleaving (`requests_within_grant`).
-/

namespace TheSix

open Coroutine

variable {V R S : Type}

/-- The price of a fetch, of a read and of a write of a tier, and of the reservation of an eviction
victim. -/
structure Prices where
  fetch : ℕ
  read : ℕ
  write : ℕ
  evict : ℕ

/-- The price of a request. -/
def Req.price (p : Prices) : Req V → ℕ
  | .fetch => p.fetch
  | .tierGet _ => p.read
  | .tierSet _ _ _ => p.write
  | .reserveEviction _ => p.evict
  | _ => 0

/-- A program that gets by on `n`. -/
abbrev Costs (p : Prices) (prog : Step V R) (n : ℕ) : Prop :=
  prog.Spends (Req.price p) (fun _ => 0) n

namespace Manager

variable {p : Prices} {tiers : ℕ} {a : Args} {n : ℕ}

theorem costs_pure {r : R} : Costs p (pure r : Step V R) n := Nat.zero_le n

theorem costs_call (f : Fn) {q : Req V} (hq : q.price p = n) : Costs p (call f q) n :=
  Prog.spends_call (n := 0) (fun _ => Nat.zero_le 0) hq

theorem costs_await (f : Fn) {q : Req V} (hq : q.price p = n) : Costs p (await f q) n :=
  Prog.spends_await (n := 0) (fun _ => Nat.zero_le 0) hq

/-- A request that costs nothing, before the rest. -/
theorem costs_free_bind {prog : Step V R} {f : R → Step V S} (hprog : Costs p prog 0)
    (hf : ∀ r, Costs p (f r) n) : Costs p (prog >>= f) n :=
  (hprog.seq hf).mono (by omega)

theorem waitForPopulation_costs (snapshot : ControlSnapshot) :
    Costs p (waitForPopulation snapshot : Step V _) 0 := by
  refine costs_free_bind (costs_call _ rfl) fun epoch => costs_free_bind (costs_call _ rfl) fun now => ?_
  exact Prog.spends_ite (fun _ => costs_pure) fun _ => costs_await _ rfl

theorem waitAndGet_costs (snapshot : ControlSnapshot) :
    Costs p (waitAndGet tiers snapshot : Step V _) p.read := by
  refine costs_free_bind (waitForPopulation_costs snapshot) ?_
  rintro (e | u)
  · exact costs_pure
  · refine costs_free_bind (costs_call _ rfl) fun after => ?_
    cases after.lastError with
    | some e => exact costs_pure
    | none =>
      refine Prog.spends_ite (fun _ => costs_pure) fun _ => Prog.spends_ite (fun _ => costs_pure)
        fun _ => (costs_await _ rfl).seq (m := 0) ?_
      rintro (e | _ | v) <;> exact costs_pure

theorem populateOnce_costs (decision : PolicyDecision) (g : Generation) :
    Costs p (populateOnce tiers a decision g : Step V _) (p.fetch + p.write) := by
  refine (costs_await _ rfl).seq ?_
  rintro (e | value)
  · exact costs_pure
  · dsimp only
    cases nearestBoundRung tiers decision.tier with
    | none => exact costs_pure
    | some rung =>
      refine (costs_await _ rfl).seq (m := 0) fun result => costs_free_bind (costs_call _ rfl) fun _ => ?_
      cases result with
      | error e => exact costs_pure
      | ok u =>
        refine costs_free_bind (costs_call _ rfl) ?_
        rintro (e | u) <;> exact costs_pure

theorem populateAttempts_costs (decision : PolicyDecision) (g : Generation) (retries : ℕ) :
    Costs p (populateAttempts tiers a decision g retries : Step V _)
      ((retries + 1) * (p.fetch + p.write)) := by
  induction retries with
  | zero => exact (populateOnce_costs decision g).mono (by omega)
  | succ retries ih =>
    have hsplit : (retries + 1 + 1) * (p.fetch + p.write) =
        p.fetch + p.write + (retries + 1) * (p.fetch + p.write) := by
      rw [Nat.succ_mul, Nat.add_comm]
    rw [hsplit]
    refine (populateOnce_costs decision g).seq ?_
    rintro (e | v)
    · exact Prog.spends_ite (fun _ => costs_free_bind (costs_await _ rfl) fun _ => ih) fun _ => costs_pure
    · exact costs_pure

theorem scanRungs_costs (cause : CacheError) (rungs : List TierId) :
    Costs p (scanRungs tiers cause rungs : Step V _) (rungs.length * p.read) := by
  induction rungs with
  | nil => exact costs_pure
  | cons rung rungs ih =>
    have hskip := ih.mono (Nat.mul_le_mul_right p.read (Nat.le_succ rungs.length))
    refine Prog.spends_ite (fun _ => hskip) fun _ => ?_
    refine costs_free_bind (costs_call _ rfl) fun failures => ?_
    refine Prog.spends_ite (fun _ => hskip) fun _ => ?_
    rw [List.length_cons, Nat.succ_mul, Nat.add_comm]
    refine (costs_await _ rfl).seq ?_
    rintro (e | _ | v)
    · exact ih
    · exact ih
    · exact costs_pure

/-- Three attempts, and a scan of the ladder if the policy fails open. -/
theorem becomePopulationOwner_costs (decision : PolicyDecision) (g : Generation) :
    Costs p (becomePopulationOwner tiers a decision g : Step V _)
      (3 * (p.fetch + p.write) + if decision.failMode = .open then 6 * p.read else 0) := by
  refine ((populateAttempts_costs decision g 2).guarded rfl).seq ?_
  rintro (e | v)
  · refine costs_free_bind costs_pure fun _ => costs_free_bind (costs_call _ rfl) fun _ => ?_
    refine Prog.spends_ite (fun _ => costs_pure) fun _ => Prog.spends_ite (fun hopen => ?_) fun _ =>
      costs_pure
    rw [if_pos hopen]
    exact scanRungs_costs e cacheLadder
  · exact costs_pure

theorem get_costs : Costs p (get tiers a : Step V _) p.read := by
  unfold get
  cases a.admitEncoded with
  | error e => exact costs_pure
  | ok d =>
    refine costs_free_bind (costs_call _ rfl) fun s => ?_
    refine Prog.spends_ite (fun _ => ?_) fun _ => Prog.spends_ite (fun _ => ?_) fun _ =>
      Prog.spends_ite (fun _ => ?_) fun _ => costs_pure
    · refine Prog.spends_ite (fun _ => costs_pure) fun _ => (costs_await _ rfl).seq (m := 0) fun r => ?_
      refine costs_free_bind (costs_call _ rfl) fun _ => ?_
      cases r with
      | error e => exact costs_pure
      | ok v =>
        refine costs_free_bind (costs_call _ rfl) fun after => ?_
        exact Prog.spends_ite (fun _ => costs_pure) fun _ => costs_pure
    · exact costs_free_bind (costs_call _ rfl) fun _ => costs_pure
    · refine costs_free_bind (waitForPopulation_costs s) ?_
      rintro (e | u)
      · exact costs_pure
      · refine costs_free_bind (costs_call _ rfl) fun after => ?_
        cases after.lastError with
        | some e => exact costs_pure
        | none =>
          refine Prog.spends_ite (fun _ => costs_pure) fun _ => Prog.spends_ite (fun _ => costs_pure)
            fun _ => (costs_await _ rfl).seq (m := 0) fun r => ?_
          exact costs_free_bind (costs_call _ rfl) fun _ => costs_pure

/-- Behind a fast path that missed, the snapshot is `Ready`, and nobody is waited for. -/
theorem joinOrPopulate_of_ready {decision : PolicyDecision} {s : ControlSnapshot}
    (hs : s.state = .ready) (again : Step V (Except CacheError V)) :
    joinOrPopulate tiers a decision s again = becomePopulationOwner tiers a decision s.generation := by
  simp [joinOrPopulate, hs]

/-- What `get_or_fetch` gets by on: three fetches and writes, and a read before each rung of a scan. -/
abbrev fetchGrant (p : Prices) : ℕ := 3 * (p.fetch + p.write) + 7 * p.read

theorem owner_costs (decision : PolicyDecision) (g : Generation) :
    Costs p (becomePopulationOwner tiers a decision g : Step V _)
      (3 * (p.fetch + p.write) + 6 * p.read) := by
  refine (becomePopulationOwner_costs decision g).mono ?_
  split <;> omega

theorem fetchFrom_costs {decision : PolicyDecision} {s : ControlSnapshot}
    {again : Step V (Except CacheError V)} (h : Costs p again (fetchGrant p)) :
    Costs p (fetchFrom tiers a decision s again) (fetchGrant p) := by
  refine Prog.spends_ite (fun hready => Prog.spends_ite (fun _ => costs_pure) fun _ => ?_) fun _ => ?_
  · have hread : Costs p (await .getOrFetch (.tierGet s.tier) : Step V _) p.read := costs_await _ rfl
    have hgrant : p.read + (3 * (p.fetch + p.write) + 6 * p.read) = fetchGrant p := by
      unfold fetchGrant
      omega
    rw [← hgrant]
    refine hread.seq ?_
    rintro (e | _ | v)
    · exact costs_pure
    · dsimp only
      rw [joinOrPopulate_of_ready hready.1]
      exact owner_costs decision s.generation
    · exact costs_pure
  · have hwait : Costs p (waitAndGet tiers s : Step V _) (fetchGrant p) := by
      refine (waitAndGet_costs s).mono ?_
      unfold fetchGrant
      omega
    have howner : Costs p (becomePopulationOwner tiers a decision s.generation : Step V _)
        (fetchGrant p) := by
      refine (owner_costs decision s.generation).mono ?_
      unfold fetchGrant
      omega
    refine Prog.spends_ite (fun _ => hwait) fun _ => Prog.spends_ite (fun _ => ?_) fun _ =>
      Prog.spends_ite (fun _ => hwait) fun _ => howner
    refine costs_free_bind (waitForPopulation_costs s) ?_
    rintro (e | u)
    · exact costs_pure
    · exact h

theorem fetchAttempts_costs (decision : PolicyDecision) (attempts : ℕ) :
    Costs p (fetchAttempts tiers a decision attempts : Step V _) (fetchGrant p) := by
  induction attempts with
  | zero => exact costs_pure
  | succ attempts ih =>
    refine costs_free_bind (costs_call _ rfl) ?_
    rintro (e | first)
    · exact costs_pure
    · refine Prog.spends_ite (fun _ => ?_) fun _ => fetchFrom_costs ih
      refine costs_free_bind (costs_call _ rfl) fun _ => costs_free_bind (costs_call _ rfl) ?_
      rintro (e | s)
      · exact costs_pure
      · exact fetchFrom_costs ih

theorem getOrFetch_costs : Costs p (getOrFetch tiers a : Step V _) (fetchGrant p) := by
  unfold getOrFetch
  cases a.admitPopulation with
  | error e => exact costs_pure
  | ok d => exact fetchAttempts_costs d 8

/-! ## Writes -/

theorem writeUnder_costs (v : V) (rung : TierId) (token : CommitToken) :
    Costs p (writeUnder a v rung token) p.write := by
  refine (costs_await _ rfl).seq (m := 0) fun r => costs_free_bind (costs_call _ rfl) fun _ => ?_
  cases r with
  | error e =>
    exact Prog.spends_ite (fun _ => costs_free_bind (costs_await _ rfl) fun _ => costs_pure) fun _ =>
      costs_pure
  | ok u =>
    refine costs_free_bind (costs_call _ rfl) ?_
    rintro (e | u)
    · exact Prog.spends_ite (fun _ => costs_pure) fun _ =>
        costs_free_bind (costs_await _ rfl) fun _ => costs_pure
    · exact costs_pure

/-- One write for every commit race. -/
theorem writeAt_costs (v : V) (rung : TierId) (races : ℕ) :
    Costs p (writeAt a v rung races) (races * p.write) := by
  induction races with
  | zero => exact costs_pure
  | succ races ih =>
    unfold writeAt
    rw [Nat.succ_mul, Nat.add_comm]
    refine costs_free_bind (costs_call _ rfl) ?_
    rintro (e | token)
    · exact costs_pure
    · refine ((writeUnder_costs v rung token).guarded rfl).seq ?_
      rintro (_ | _ | e | e)
      · exact costs_pure
      · cases races with
        | zero => exact costs_free_bind (costs_call _ rfl) fun _ => costs_pure
        | succ races =>
          refine costs_free_bind ((costs_await _ rfl).guarded rfl) fun _ => ?_
          exact costs_free_bind (costs_call _ rfl) fun _ => ih
      · exact costs_free_bind (costs_call _ rfl) fun _ => costs_pure
      · have habort : Costs p (abortRefused token e : Step V _) 0 :=
          Prog.spends_ite (fun _ => costs_call _ rfl) fun _ => costs_call _ rfl
        exact costs_free_bind habort fun _ =>
          Prog.spends_ite (fun _ => costs_pure) fun _ => costs_pure

theorem walk_costs (v : V) (rungs : List TierId) (e : CacheError) :
    Costs p (walk tiers a v rungs e) (rungs.length * (64 * p.write)) := by
  induction rungs generalizing e with
  | nil => exact costs_pure
  | cons rung rungs ih =>
    refine Prog.spends_ite (fun _ => (ih e).mono (Nat.mul_le_mul_right _ (Nat.le_succ _))) fun _ => ?_
    rw [List.length_cons, Nat.succ_mul, Nat.add_comm]
    refine (writeAt_costs v rung maxCommitAttempts).seq ?_
    rintro (r | e)
    · exact costs_pure
    · exact ih e

/-- A rung leaves the attempts it does not use to the next one. -/
theorem tryEvictAtRung_spends (rung : TierId) (attempts : ℕ) :
    (tryEvictAtRung rung attempts : Step V _).Spends (Req.price p) (fun r => r.2 * p.evict)
      (attempts * p.evict) := by
  induction attempts with
  | zero => exact Nat.le_refl _
  | succ attempts ih =>
    have hless : attempts * p.evict ≤ (attempts + 1) * p.evict :=
      Nat.mul_le_mul_right _ (Nat.le_succ _)
    refine (Prog.spends_call (n := (attempts + 1) * p.evict) ?_ rfl).mono (Nat.zero_add _).le
    rintro (_ | address)
    · exact hless
    · rw [Nat.succ_mul, Nat.add_comm]
      refine Prog.spends_call (n := attempts * p.evict) ?_ rfl
      rintro (_ | _)
      · exact ih
      · refine (Prog.spends_call (n := attempts * p.evict) (fun freed => ?_) rfl).mono
          (Nat.zero_add _).le
        exact Nat.le_refl _

theorem tryFreeSomewhere_costs (rungs : List TierId) (attempts : ℕ) :
    Costs p (tryFreeSomewhere tiers rungs attempts : Step V _) (attempts * p.evict) := by
  induction rungs generalizing attempts with
  | nil => exact costs_pure
  | cons rung rungs ih =>
    refine Prog.spends_ite (fun _ => ih attempts) fun _ => ?_
    refine (tryEvictAtRung_spends rung attempts).bind ?_
    rintro ⟨_ | _, attempts⟩
    · exact ih attempts
    · exact costs_pure

theorem length_descent (tier : TierId) : (descent tier).length ≤ 6 := by
  cases tier <;> decide

theorem setPasses_costs (v : V) (tier : TierId) (passes : ℕ) (e : CacheError) :
    Costs p (setPasses tiers a v tier passes e) (passes * (384 * p.write + 8 * p.evict)) := by
  induction passes generalizing e with
  | zero => exact costs_pure
  | succ passes ih =>
    have hwalk : Costs p (walk tiers a v (descent tier) e) (384 * p.write) := by
      refine (walk_costs v (descent tier) e).mono ?_
      have hlength := Nat.mul_le_mul_right (64 * p.write) (length_descent tier)
      omega
    have hsplit : (passes + 1) * (384 * p.write + 8 * p.evict) =
        384 * p.write + (8 * p.evict + passes * (384 * p.write + 8 * p.evict)) := by
      rw [Nat.succ_mul]
      omega
    rw [hsplit]
    refine hwalk.seq ?_
    rintro (r | e)
    · exact costs_pure
    · refine Prog.spends_ite (fun _ => ?_) fun _ => costs_pure
      refine (tryFreeSomewhere_costs cacheLadder maxEvictionAttempts).seq ?_
      rintro (_ | _)
      · exact costs_pure
      · exact ih e

theorem set_costs (v : V) : Costs p (set tiers a v) (17 * (384 * p.write + 8 * p.evict)) := by
  unfold set
  cases a.admitWrite with
  | error e => exact costs_pure
  | ok u =>
    refine costs_free_bind (costs_call _ rfl) fun s => costs_free_bind (costs_call _ rfl) fun n => ?_
    dsimp only
    cases Args.authorize (a.select (.fromSnapshot s n)) with
    | error e => exact costs_pure
    | ok u => exact Prog.spends_ite (fun _ => costs_pure) fun _ => setPasses_costs v _ 17 _

/-! ## The other calls -/

theorem removeFrom_costs (rungs : List TierId) : Costs p (removeFrom tiers rungs : Step V _) 0 := by
  induction rungs with
  | nil => exact costs_pure
  | cons rung rungs ih =>
    exact Prog.spends_ite (fun _ => ih) fun _ => costs_free_bind (costs_await _ rfl) fun _ => ih

theorem moveEntry_costs (source destination : TierId) :
    Costs p (moveEntry tiers a source destination : Step V _) (p.read + p.write) := by
  have hunder : ∀ token, Costs p (moveUnder a source destination token : Step V _)
      (p.read + p.write) := by
    intro token
    refine (costs_await _ rfl).seq ?_
    rintro (e | _ | v)
    · exact costs_pure
    · exact costs_pure
    · refine (costs_await _ rfl).seq (m := 0) fun r => costs_free_bind (costs_call _ rfl) fun _ => ?_
      cases r with
      | error e => exact costs_pure
      | ok u =>
        refine costs_free_bind (costs_await _ rfl) fun removed => costs_free_bind (costs_call _ rfl)
          fun _ => costs_free_bind (costs_call _ rfl) ?_
        rintro (e | u)
        · exact costs_free_bind (costs_await _ rfl) fun _ => costs_pure
        · exact costs_pure
  refine costs_free_bind (costs_call _ rfl) ?_
  rintro (e | token)
  · exact costs_pure
  · refine Prog.spends_ite (fun _ => costs_free_bind (costs_call _ rfl) fun _ => costs_pure) fun _ => ?_
    refine ((hunder token).guarded rfl).seq (m := 0) ?_
    rintro (_ | e)
    · exact costs_pure
    · exact costs_free_bind (costs_call _ rfl) fun _ => costs_pure

theorem moveAlong_costs (f : Fn) (stays : TierId → Bool) (shift : ℕ → ℕ) :
    Costs p (moveAlong tiers a f stays shift : Step V _) (p.read + p.write) := by
  refine costs_free_bind (costs_call _ rfl) fun s => ?_
  refine Prog.spends_ite (fun _ => costs_pure) fun _ => Prog.spends_ite (fun _ => costs_pure) fun _ => ?_
  cases TierId.fromUsize (shift s.tier.asUsize) with
  | none => exact costs_pure
  | some destination => exact moveEntry_costs s.tier destination

/-- A refresh fails closed, and so never scans. -/
theorem revalidate_costs (decision : PolicyDecision) (current : Option V) :
    Costs p (revalidate tiers a decision current) (3 * (p.fetch + p.write)) := by
  refine costs_free_bind (costs_call _ rfl) ?_
  rintro (e | s)
  · exact costs_pure
  · refine Prog.spends_ite (fun _ => costs_pure) fun _ => ?_
    refine (becomePopulationOwner_costs { decision with failMode := .closed } s.generation).seq (m := 0) ?_
    rintro (e | v)
    · exact Prog.spends_ite (fun _ => costs_pure) fun _ => costs_pure
    · exact costs_pure

theorem refreshDetailed_costs :
    Costs p (refreshDetailed tiers a : Step V _) (3 * (p.fetch + p.write) + p.read) := by
  rw [Nat.add_comm]
  unfold refreshDetailed
  cases a.admitPopulation with
  | error e => exact costs_pure
  | ok decision =>
    refine costs_free_bind (costs_call _ rfl) fun before => ?_
    have hread : Costs p (readCurrent tiers before : Step V _) p.read := by
      refine Prog.spends_ite (fun _ => costs_pure) fun _ => (costs_await _ rfl).seq (m := 0) ?_
      rintro (e | v) <;> exact costs_pure
    refine hread.seq fun current => ?_
    exact Prog.spends_ite (fun _ => costs_free_bind (costs_call _ rfl) fun _ =>
      revalidate_costs decision current) fun _ => revalidate_costs decision current

end Manager

/-! ## Calls and runs -/

/-- What a call gets by on. -/
def Call.grant (p : Prices) : Call V → ℕ
  | .get _ => p.read
  | .getOrFetch _ => 3 * (p.fetch + p.write) + 7 * p.read
  | .refresh _ => 3 * (p.fetch + p.write) + p.read
  -- seventeen walks of at most six rungs with 64 commit races each, and an eviction after each walk
  | .set _ _ => 17 * (6 * 64 * p.write + 8 * p.evict)
  | .promote _ | .demote _ => p.read + p.write
  | .evict => 8 * p.evict
  | .exists _ | .invalidate _ | .remove _ => 0

/-- Every call gets by on its grant, whatever it is answered and wherever it is dropped. -/
theorem Call.spends (p : Prices) (tiers : ℕ) (c : Call V) :
    Costs p (c.prog tiers) (c.grant p) := by
  cases c with
  | get a => exact Prog.Spends.map Manager.get_costs
  | getOrFetch a => exact Prog.Spends.map Manager.getOrFetch_costs
  | refresh a => exact Prog.Spends.map Manager.refreshDetailed_costs
  | set a v => exact Prog.Spends.map (Manager.set_costs v)
  | «exists» a =>
    refine Prog.Spends.map ?_
    unfold Manager.exists
    cases a.admitKey with
    | error e => exact Manager.costs_pure
    | ok d =>
      refine Manager.costs_free_bind (Manager.costs_call _ rfl) fun s => ?_
      exact Prog.spends_ite (fun _ => Manager.costs_pure) fun _ =>
        Prog.spends_ite (fun _ => Manager.costs_pure) fun _ => Manager.costs_await _ rfl
  | invalidate a =>
    refine Prog.Spends.map ?_
    unfold Manager.invalidate
    cases a.admitKey with
    | error e => exact Manager.costs_pure
    | ok d => exact Manager.costs_call _ rfl
  | remove a =>
    refine Prog.Spends.map ?_
    unfold Manager.remove
    cases a.admitKey with
    | error e => exact Manager.costs_pure
    | ok d =>
      exact Manager.costs_free_bind (Manager.removeFrom_costs cacheLadder) fun _ =>
        Manager.costs_call _ rfl
  | promote a =>
    refine Prog.Spends.map ?_
    cases ha : a.admitKey with
    | error e =>
      simp only [Manager.promote, ha]
      exact Manager.costs_pure
    | ok d =>
      rw [Manager.promote_eq ha]
      exact Manager.moveAlong_costs _ _ _
  | demote a =>
    refine Prog.Spends.map ?_
    cases ha : a.admitKey with
    | error e =>
      simp only [Manager.demote, ha]
      exact Manager.costs_pure
    | ok d =>
      rw [Manager.demote_eq ha]
      exact Manager.moveAlong_costs _ _ _
  | evict =>
    exact Prog.Spends.map (Manager.tryFreeSomewhere_costs cacheLadder Manager.maxEvictionAttempts)

/-- **Every call is bounded**: in every run, under any interleaving with drops and whatever the tiers,
the fetch and the control plane answer, the fetches, tier reads, tier writes and eviction reservations
of a thread cost no more, at any prices, than the calls it has started are granted. -/
theorem requests_within_grant (p : Prices) (tiers : ℕ) (w : KeyWorld V) (schedule : List (Turn V))
    (i : ℕ) :
    spent (Req.price p) i ((manager V tiers).run w schedule).trace ≤
      granted (Call.grant p) i schedule :=
  Machine.spent_le_granted (M := manager V tiers) (Call.spends p tiers) w schedule i

end TheSix
