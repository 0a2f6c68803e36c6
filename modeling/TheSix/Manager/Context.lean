import TheSix.Control.Entry

/-!
# What a call brings along

Every public call of `CacheManager` takes an application key and a `CacheContext`, encodes the key
under the caller's tenant, and asks the policy for a decision. This module has those parts of
`key.rs`, `identity.rs` and `policy.rs`, and the gates each call passes before it touches any
state, in the order the source passes them.
-/

namespace TheSix

/-! ## Keys -/

/-- `MAX_KEY_SIZE` of the manager, in bytes. -/
def maxKeySize : ℕ := 256

/-- `TENANT_SEPARATOR`. -/
def tenantSeparator : UInt8 := 0

/-- `frame_tenant_key`: tenant, separator, key; refused when it does not fit the buffer. -/
def frameTenantKey (tenant key : List UInt8) (room : ℕ) : Except CacheError KeyRef :=
  if tenant.contains tenantSeparator then .error .configurationError
  else if room < tenant.length + 1 + key.length then .error .configurationError
  else .ok (tenant ++ tenantSeparator :: key)

theorem frameTenantKey_eq_ok {tenant key : List UInt8} {room : ℕ} {k : KeyRef}
    (h : frameTenantKey tenant key room = .ok k) :
    tenantSeparator ∉ tenant ∧ k = tenant ++ tenantSeparator :: key := by
  unfold frameTenantKey at h
  split_ifs at h with hsep hroom
  refine ⟨by simpa using hsep, ?_⟩
  rw [← Except.ok.inj h]

/-- **The frame keeps tenants apart.** Only the same tenant and the same key give the same frame. -/
theorem frameTenantKey_inj {tenant tenant' key key' : List UInt8} {room room' : ℕ} {k : KeyRef}
    (h : frameTenantKey tenant key room = .ok k) (h' : frameTenantKey tenant' key' room' = .ok k) :
    tenant = tenant' ∧ key = key' := by
  obtain ⟨hsep, rfl⟩ := frameTenantKey_eq_ok h
  obtain ⟨hsep', heq⟩ := frameTenantKey_eq_ok h'
  -- both frames are cut at their first separator
  have hcut : ∀ {t : List UInt8} (rest : List UInt8), tenantSeparator ∉ t →
      (t ++ tenantSeparator :: rest).takeWhile (· != tenantSeparator) = t ∧
        (t ++ tenantSeparator :: rest).dropWhile (· != tenantSeparator) = tenantSeparator :: rest := by
    intro t rest ht
    have hall : ∀ b ∈ t, (b != tenantSeparator) = true := by
      intro b hb
      rw [bne_iff_ne]
      rintro rfl
      exact ht hb
    rw [List.takeWhile_append_of_pos hall, List.dropWhile_append_of_pos hall]
    simp
  have htenant : tenant = tenant' := by
    rw [← (hcut key hsep).1, heq, (hcut _ hsep').1]
  subst htenant
  exact ⟨rfl, by simpa using heq⟩

/-- `Key`: an application key writes its bytes into a buffer of the given size. -/
class Key (K : Type) where
  encode : K → ℕ → Except CacheError (List UInt8)

instance : Key (List UInt8) where
  encode key room := if room < key.length then .error .configurationError else .ok key

/-- `CacheContext`: who is asking, and the TTL the call asks for. -/
structure CacheContext where
  principal : String
  tenant : List UInt8
  ttl : Option ℕ
  deriving DecidableEq

def CacheContext.isAuthenticated (ctx : CacheContext) : Bool := !ctx.principal.isEmpty

/-- `CacheManager::encode_key`. -/
def encodeKey {K : Type} [Key K] (key : K) (ctx : CacheContext) : Except CacheError KeyRef := do
  frameTenantKey ctx.tenant (← Key.encode key maxKeySize) maxKeySize

theorem encodeKey_inj {K : Type} [Key K] {key key' : K} {ctx ctx' : CacheContext} {k : KeyRef}
    (h : encodeKey key ctx = .ok k) (h' : encodeKey key' ctx' = .ok k) :
    ctx.tenant = ctx'.tenant ∧
      ∃ bytes, Key.encode key maxKeySize = .ok bytes ∧ Key.encode key' maxKeySize = .ok bytes := by
  unfold encodeKey at h h'
  cases hb : Key.encode key maxKeySize with
  | error e => simp [hb, bind, Except.bind] at h
  | ok bytes =>
    cases hb' : Key.encode key' maxKeySize with
    | error e => simp [hb', bind, Except.bind] at h'
    | ok bytes' =>
      rw [hb] at h
      rw [hb'] at h'
      obtain ⟨htenant, rfl⟩ := frameTenantKey_inj h h'
      exact ⟨htenant, bytes, rfl, rfl⟩

/-! ## The policy -/

/-- `CacheOperation`. -/
inductive CacheOperation
  | get
  | set
  | remove
  | invalidate
  | refresh
  | exists
  | promote
  | demote
  deriving DecidableEq, Repr

/-- `FailMode`. -/
inductive FailMode
  | open
  | closed
  deriving DecidableEq, Repr

/-- `PolicyDecision`, as far as the manager reads it. -/
structure PolicyDecision where
  authorized : Bool
  tier : TierId
  failMode : FailMode
  deriving DecidableEq, Repr

/-- `CacheState`: what a policy is shown of an entry and of the health of its rung. -/
structure CacheState where
  entryState : EntryState
  generation : Generation
  tier : TierId
  consecutiveFailures : ℕ
  deriving DecidableEq, Repr

/-- `CacheState::new`. -/
def CacheState.new : CacheState := ⟨.absent, 0, .L0, 0⟩

/-- `CacheState::from_snapshot`. -/
def CacheState.fromSnapshot (s : ControlSnapshot) (consecutiveFailures : ℕ) : CacheState :=
  ⟨s.state, s.generation, s.tier, consecutiveFailures⟩

/-- `TierHealth::is_circuit_open`. -/
def isCircuitOpen (consecutiveFailures : ℕ) : Bool := 5 ≤ consecutiveFailures

/-- The inputs of one call: the encoded key, whether the caller is known, its TTL, and what the
policy selects for the call when it is shown a cache state. -/
structure Args where
  authenticated : Bool
  keyRef : Except CacheError KeyRef
  ttl : Option ℕ
  select : CacheState → PolicyDecision

/-- The inputs of a call on a key, under a policy. -/
def Args.of {K : Type} [Key K] (select : CacheOperation → K → CacheState → PolicyDecision)
    (op : CacheOperation) (key : K) (ctx : CacheContext) : Args where
  authenticated := ctx.isAuthenticated
  keyRef := encodeKey key ctx
  ttl := ctx.ttl
  select := select op key

/-- A known caller of the key `k` whose policy names one rung, whatever it is shown. -/
def Args.pinned (rung : TierId) (ttl : Option ℕ) : Args where
  authenticated := true
  keyRef := .ok [0, 107]
  ttl := ttl
  select _ := ⟨true, rung, .closed⟩

/-! ## The gates -/

namespace Args

/-- `CacheManager::check_auth`. -/
def checkAuth (a : Args) : Except CacheError Unit :=
  if a.authenticated then .ok () else .error .unauthenticated

/-- `CacheManager::authorize`. -/
def authorize (d : PolicyDecision) : Except CacheError Unit :=
  if d.authorized then .ok () else .error .unauthorized

/-- `CacheManager::resolve`, with its authorization. -/
def resolve (a : Args) : Except CacheError PolicyDecision := do
  authorize (a.select .new)
  return a.select .new

/-- The gates of `get`, which encodes the key first. -/
def admitEncoded (a : Args) : Except CacheError PolicyDecision := do
  let _ ← a.keyRef
  a.checkAuth
  a.resolve

/-- The rung that `get` records a refusal with: `decision_tier_placeholder` for a caller that is not
authenticated, else the one that the policy has chosen. -/
def refusedTier (a : Args) : TierId :=
  match a.checkAuth with
  | .error _ => .L0
  | .ok _ => (a.select .new).tier

/-- The gates of `get_or_fetch` and `refresh_detailed`. -/
def admitPopulation (a : Args) : Except CacheError PolicyDecision := do
  a.checkAuth
  let _ ← a.keyRef
  a.resolve

/-- The gates of `set`, whose decision waits for a snapshot. -/
def admitWrite (a : Args) : Except CacheError Unit := do
  a.checkAuth
  let _ ← a.keyRef
  return ()

/-- The gates of the other calls. -/
def admitKey (a : Args) : Except CacheError PolicyDecision := do
  a.checkAuth
  let d ← a.resolve
  let _ ← a.keyRef
  return d

/-- No gate lets a call pass whose key is refused. -/
theorem refused {a : Args} {e : CacheError} (h : a.keyRef = .error e) :
    (∃ e', a.admitEncoded = .error e') ∧ (∃ e', a.admitPopulation = .error e') ∧
      (∃ e', a.admitWrite = .error e') ∧ ∃ e', a.admitKey = .error e' := by
  refine ⟨⟨e, by simp [admitEncoded, h, bind, Except.bind]⟩, ?_, ?_, ?_⟩
  · cases hauth : a.checkAuth <;> simp [admitPopulation, hauth, h, bind, Except.bind]
  · cases hauth : a.checkAuth <;> simp [admitWrite, hauth, h, bind, Except.bind]
  · cases hauth : a.checkAuth <;> cases hres : a.resolve <;>
      simp [admitKey, hauth, hres, h, bind, Except.bind]

theorem eq_of_admitPopulation {a : Args} {d : PolicyDecision} (h : a.admitPopulation = .ok d) :
    d = a.select .new := by
  unfold admitPopulation resolve checkAuth authorize at h
  cases hk : a.keyRef <;> split_ifs at h <;> simp_all [bind, Except.bind, pure, Except.pure]

end Args

end TheSix
