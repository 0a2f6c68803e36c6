import TheSix.Planes.Tenants
import TheSix.Lib.Renaming

/-!
# The policies that are shipped

`DefaultPolicy` routes: it authorizes everything, starts a write at `L1` and everything else at the rung
it is shown, and steers away from a rung whose circuit is open. `StrictPolicy` denies what mutates when
the caller is anonymous, and is `DefaultPolicy` otherwise.

Every call of the manager asks who is calling before it asks the policy (`check_auth`), so no policy
ever decides about an anonymous caller: policies that agree about authenticated ones make the same
manager (`run_under`). So `StrictPolicy` never denies anything that `DefaultPolicy`
would have let pass (`run_strict`).
-/

namespace TheSix

open Coroutine

/-! ## Deciding -/

namespace DefaultPolicy

/-- `DefaultPolicy::base_tier`. -/
def baseTier (op : CacheOperation) (current : TierId) : TierId :=
  match op with
  | .get => current
  | .set => .L1
  | .remove | .invalidate | .refresh | .exists | .promote | .demote => .L0

/-- The loop of `DefaultPolicy::healthy_fallback`, with the turns that are left. -/
def towardOrigin : ℕ → ℕ → ℕ
  | 0, idx => idx
  | turns + 1, idx => if lastCacheTier.asUsize ≤ idx then idx else towardOrigin turns (idx + 1)

/-- `DefaultPolicy::healthy_fallback`. -/
def healthyFallback (start : TierId) (state : CacheState) : TierId :=
  if isCircuitOpen state.consecutiveFailures = false ∨ state.tier ≠ start then start
  else (TierId.fromUsize (towardOrigin lastCacheTier.asUsize start.asUsize)).getD lastCacheTier

/-- `DefaultPolicy::capacity_fallback`; `available` says that the availability shown is not zero. -/
def capacityFallback (available : Bool) (start : TierId) (state : CacheState) : TierId :=
  if state.tier ≠ start ∨ available = true then start
  else (TierId.fromUsize (min (start.asUsize + 1) lastCacheTier.asUsize)).getD lastCacheTier

/-- `DefaultPolicy::select`. -/
def select (available : Bool) (op : CacheOperation) (state : CacheState) : PolicyDecision :=
  let tier := healthyFallback (baseTier op state.tier) state
  ⟨true, if op = .set ∨ op = .refresh then capacityFallback available tier state else tier, .open⟩

/-- The loop does not step: it goes all the way to the last cache rung. -/
theorem healthyFallback_eq (start : TierId) (state : CacheState) :
    healthyFallback start state =
      if isCircuitOpen state.consecutiveFailures = true ∧ state.tier = start ∧ start ≠ .L6 then .L5
      else start := by
  unfold healthyFallback
  by_cases hopen : isCircuitOpen state.consecutiveFailures = true
  · by_cases htier : state.tier = start
    · cases start <;> simp [hopen, htier, towardOrigin, lastCacheTier, TierId.asUsize, TierId.fromUsize]
    · simp [htier]
  · simp [hopen]

/-- Nothing that is decided for a write, or about a cache rung, is the authority. -/
theorem isCacheRung_select {available : Bool} {op : CacheOperation} {state : CacheState}
    (h : op ≠ .get ∨ state.tier.isCacheRung = true) :
    (select available op state).tier.isCacheRung = true := by
  have hbase : (baseTier op state.tier).isCacheRung = true := by
    cases op <;> first | rfl | simpa [baseTier] using h
  have hcapacity : ∀ tier, tier.isCacheRung = true →
      (capacityFallback available tier state).isCacheRung = true := by
    intro tier ht
    unfold capacityFallback
    split_ifs
    · exact ht
    · cases tier <;> rfl
  have hhealthy : (healthyFallback (baseTier op state.tier) state).isCacheRung = true := by
    rw [healthyFallback_eq]
    split_ifs
    · rfl
    · exact hbase
  unfold select
  dsimp only
  split_ifs
  · exact hcapacity _ hhealthy
  · exact hhealthy

end DefaultPolicy

namespace StrictPolicy

/-- The operations `StrictPolicy::select` takes for mutating. -/
def mutating : CacheOperation → Bool
  | .set | .remove | .invalidate | .refresh | .promote | .demote => true
  | .get | .exists => false

/-- `PolicyDecision::deny`. -/
def deny : PolicyDecision := ⟨false, .L0, .closed⟩

/-- `StrictPolicy::select`. -/
def select (available : Bool) (op : CacheOperation) (state : CacheState) (ctx : CacheContext) :
    PolicyDecision :=
  if mutating op = true ∧ ctx.isAuthenticated = false then deny
  else DefaultPolicy.select available op state

end StrictPolicy

/-! ## Clients under a policy -/

/-- What decides about the calls of a manager: the operation, what it is shown, and who is calling. -/
abbrev Policy := CacheOperation → CacheState → CacheContext → PolicyDecision

variable {K V T : Type} [Key K]

/-- A client of a manager with a policy. -/
def Asked.under (policy : Policy) (c : Asked K V) : Asked K V :=
  { c with select := fun op _ state => policy op state c.ctx }

section Agreeing

variable {policy policy' : Policy}

/-- A policy is not asked about anonymous callers. -/
theorem Asked.prog_of_anonymous {c : Asked K V} (h : c.ctx.isAuthenticated = false) (tiers : ℕ) :
    (c.under policy).call.prog tiers = (c.under policy').call.prog tiers := by
  obtain ⟨ctx, key, op, select⟩ := c
  have hauth : ctx.isAuthenticated = false := h
  cases hkey : encodeKey key ctx <;> cases op <;>
    simp [Asked.under, Asked.call, Call.prog, Manager.get, Manager.getOrFetch, Manager.exists,
      Manager.set, Manager.invalidate, Manager.remove, Manager.refreshDetailed, Manager.promote,
      Manager.demote, Args.admitEncoded, Args.admitPopulation, Args.admitWrite, Args.admitKey,
      Args.checkAuth, Args.of, hauth, hkey, bind, Except.bind]

/-- Policies that agree about authenticated callers make the same calls. -/
theorem Asked.prog_under
    (h : ∀ op state ctx, ctx.isAuthenticated = true → policy op state ctx = policy' op state ctx)
    (c : Asked K V) (tiers : ℕ) :
    (c.under policy).call.prog tiers = (c.under policy').call.prog tiers := by
  cases hauth : c.ctx.isAuthenticated with
  | false => exact Asked.prog_of_anonymous hauth tiers
  | true =>
    have hselect : c.under policy = c.under policy' := by
      unfold Asked.under
      congr 1
      funext op _ state
      exact h op state c.ctx hauth
    rw [hselect]

end Agreeing

/-! ## Runs under a policy -/

/-- Policies that agree about authenticated callers make the same runs. -/
theorem run_under [CacheTier T V] {policy policy' : Policy}
    (h : ∀ op state ctx, ctx.isAuthenticated = true → policy op state ctx = policy' op state ctx)
    (tiers : ℕ) (P : Planes T) (schedule : List (Event (Asked K V) (Outcome V) Chore)) :
    let s := (tenants K V T tiers).run P (schedule.map (.onCall (.under policy)))
    let s' := (tenants K V T tiers).run P (schedule.map (.onCall (.under policy')))
    s.world = s'.world ∧ s.trace.map Item.exchanged = s'.trace.map Item.exchanged ∧
      ∀ i, s.result i = s'.result i := by
  apply Machine.run_relabel
  intro c
  have hkey : (c.under policy).call.key = (c.under policy').call.key := by
    obtain ⟨ctx, key, op, select⟩ := c
    cases op <;> rfl
  show Prog.tagged _ _ = Prog.tagged _ _
  rw [Asked.prog_under h, hkey]

/-- **`StrictPolicy` is `DefaultPolicy`**: whatever the clients of all tenants do, authenticated or not,
under any interleaving, a manager with one policy goes through the same worlds, is asked the same and
answers the same as a manager with the other. -/
theorem run_strict [CacheTier T V] (available : Bool) (tiers : ℕ) (P : Planes T)
    (schedule : List (Event (Asked K V) (Outcome V) Chore)) :
    let s := (tenants K V T tiers).run P (schedule.map (.onCall (.under (StrictPolicy.select available))))
    let s' := (tenants K V T tiers).run P
      (schedule.map (.onCall (.under fun op state _ => DefaultPolicy.select available op state)))
    s.world = s'.world ∧ s.trace.map Item.exchanged = s'.trace.map Item.exchanged ∧
      ∀ i, s.result i = s'.result i := by
  apply run_under
  intro op state ctx hauth
  simp [StrictPolicy.select, hauth]

end TheSix
