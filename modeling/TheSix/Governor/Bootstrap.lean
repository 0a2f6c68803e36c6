import TheSix.Tier.Forwarding

/-!
# Ladder assembly

`governor/bootstrap.rs` with the redis feature: read the endpoint from the environment, bind the
six cache rungs, and hand back the ladder together with the rungs that autonomy may rebind.

A manager is built from `tiers`, a governor from `hotRungs`. Where the first connection succeeds
both hold the same `HotRungTier`. Where it fails, the ladder keeps the stub itself and only the
governor holds the wrapper around it, so no later swap is seen by the manager.
-/

namespace TheSix

/-! ## The endpoint -/

def envTheSixRedisUrl : String := "THESIX_REDIS_URL"
def envTheSixValkeyUrl : String := "THESIX_VALKEY_URL"
def envRedisUrl : String := "REDIS_URL"
def envValkeyUrl : String := "VALKEY_URL"

/-- `EnvSource`: the value of a variable, if it is set and not blank. -/
abbrev EnvSource := String → Option String

/-- `DetectedUrl`. -/
structure DetectedUrl where
  normalized : String
  valkey : Bool
  deriving DecidableEq, Repr

/-- `str::strip_prefix`. -/
def stripPrefix (s pre : String) : Option String :=
  if pre.toList.isPrefixOf s.toList then some (String.ofList (s.toList.drop pre.toList.length))
  else none

/-- `normalize_url`. -/
def normalizeUrl (raw : String) (valkeyByName : Bool) : Except CacheError DetectedUrl :=
  match stripPrefix raw "valkey://" with
  | some rest => .ok ⟨"redis://" ++ rest, true⟩
  | none =>
    match stripPrefix raw "valkeys://" with
    | some rest => .ok ⟨"rediss://" ++ rest, true⟩
    | none =>
      if (stripPrefix raw "redis://").isSome || (stripPrefix raw "rediss://").isSome then
        .ok ⟨raw, false || valkeyByName⟩
      else .error .configurationError

/-- `detect_redis_endpoint`: the first variable that is set decides. -/
def detectRedisEndpoint (env : EnvSource) : Except CacheError (Option DetectedUrl) :=
  let candidates : List (String × Bool) :=
    [(envTheSixRedisUrl, false), (envTheSixValkeyUrl, true), (envRedisUrl, false),
      (envValkeyUrl, true)]
  match candidates.findSome? fun c => (env c.1).map fun raw => (raw, c.2) with
  | some (raw, valkeyByName) => (normalizeUrl raw valkeyByName).map some
  | none => .ok none

/-! ## The ladder -/

/-- `L3Binding`. -/
inductive L3Binding
  | notConfigured
  | redis (url : String) (valkey : Bool)
  | redisDegradedToMemory (url : String) (valkey : Bool) (reason : String)
  deriving DecidableEq, Repr

/-- `Ladder`. The rebinder is given by the endpoint that it closes over. -/
structure Ladder where
  tiers : List TierArc
  hotRungs : List TierArc
  rebinder : Option DetectedUrl
  l3 : L3Binding
  deriving DecidableEq, Repr

/-- `bind_l3`, with `connect` for the attempt of `L3RedisBackend::connect`. -/
def bindL3 (connect : String → Bool) (detected : DetectedUrl) (tiers : List TierArc)
    (bound : 3 < tiers.length) (heap : TierHeap) : Except CacheError (Ladder × TierHeap) :=
  if connect detected.normalized then do
    let (backend, heap) := heap.alloc (.backend .L3)
    let (hot, heap) ← HotRungTier.new heap .L3 backend
    return ({ tiers := tiers.set 3 hot
              hotRungs := [hot]
              rebinder := some detected
              l3 := .redis detected.normalized detected.valkey }, heap)
  else do
    -- the wrapper around the stub is not put into `tiers`
    let (hot, heap) ← HotRungTier.new heap .L3 tiers[3]
    return ({ tiers := tiers
              hotRungs := [hot]
              rebinder := some detected
              l3 := .redisDegradedToMemory detected.normalized detected.valkey
                "the redis server did not accept a connection" }, heap)

/-- `assemble_ladder`, with the allocations it leaves behind. -/
def assembleLadder (env : EnvSource) (connect : String → Bool) :
    Except CacheError (Ladder × TierHeap) := do
  let endpoint ← detectRedisEndpoint env
  -- the six stubs, `L0` first
  let heap : TierHeap := cacheLadder.map .backend
  let tiers : List TierArc := [0, 1, 2, 3, 4, 5]
  match endpoint with
  | none => return ({ tiers, hotRungs := [], rebinder := none, l3 := .notConfigured }, heap)
  | some detected => bindL3 connect detected tiers (by decide) heap

/-- The tier at which `redis_rebinder` reconnects a rung, if it does. -/
def redisRebinder (connect : String → Bool) (endpoint : DetectedUrl) (rung : TierId) :
    Except CacheError (Option TierObject) :=
  if rung ≠ .L3 then .ok none
  else if connect endpoint.normalized then .ok (some (.backend .L3))
  else .error .tierUnavailable

/-- A hot rung takes the tier that it is reconnected to, and no call on it goes in a circle. -/
theorem redisRebinder_rebinds {connect : String → Bool} {endpoint : DetectedUrl} {rung : TierId}
    {object : TierObject} (h : redisRebinder connect endpoint rung = .ok (some object))
    {heap : TierHeap} {hot : TierArc} (hhot : HotRungTier.rung heap hot = some rung) :
    (HotRungTier.hotSwap (heap.alloc object).2 hot heap.length).1.isOk ∧
      ¬ (Wiring.swap hot heap.length).ClosesCircle (heap.alloc object).2 := by
  obtain ⟨rfl, rfl⟩ : rung = .L3 ∧ object = .backend .L3 := by
    unfold redisRebinder at h
    split_ifs at h with hrung
    · cases h
    · exact ⟨not_not.mp hrung, (Option.some.inj (Except.ok.inj h)).symm⟩
  have hnew : (heap.alloc (.backend .L3)).2[heap.length]? = some (.backend .L3) :=
    List.getElem?_concat_length
  have hrung : HotRungTier.rung (heap.alloc (.backend .L3)).2 hot = some .L3 := by
    have hlt : hot < heap.length := by
      by_contra hle
      simp [HotRungTier.rung, List.getElem?_eq_none (not_lt.mp hle)] at hhot
    rw [HotRungTier.rung, TierHeap.alloc, List.getElem?_append_left hlt]
    exact hhot
  refine ⟨?_, not_closesCircle_of_backend hnew⟩
  rw [TierHeap.hotSwap_isOk hrung, ← TierHeap.tierId_eq, TierHeap.tierId, hnew]
  rfl

/-! ## Who sees a rebinding -/

/-- `CacheManager::bound_tier` of a manager that is built from a ladder. -/
def Ladder.boundTier (ladder : Ladder) (rung : TierId) : Option TierArc :=
  ladder.tiers[rung.asUsize]?

/-- Every rebindable rung is the tier that the manager calls, and so is what was last swapped into
it: a call of the manager on that rung reaches it. -/
def RebindingReaches (ladder : Ladder) (heap : TierHeap) : Prop :=
  ∀ hot ∈ ladder.hotRungs, ∃ rung, HotRungTier.rung heap hot = some rung ∧
    ladder.boundTier rung = some hot ∧
    ∀ events x, lastSwapped hot heap events none = some x →
      ∃ a, ladder.boundTier rung = some a ∧ Reaches (rebound heap events) a x

theorem assembleLadder_notConfigured {env : EnvSource} {connect : String → Bool}
    (h : detectRedisEndpoint env = .ok none) :
    assembleLadder env connect = .ok
      ({ tiers := [0, 1, 2, 3, 4, 5], hotRungs := [], rebinder := none, l3 := .notConfigured },
        cacheLadder.map .backend) := by
  rw [assembleLadder, h]
  rfl

theorem assembleLadder_connected {env : EnvSource} {connect : String → Bool}
    {detected : DetectedUrl} (h : detectRedisEndpoint env = .ok (some detected))
    (hconnect : connect detected.normalized = true) :
    assembleLadder env connect = .ok
      ({ tiers := [0, 1, 2, 7, 4, 5], hotRungs := [7], rebinder := some detected,
         l3 := .redis detected.normalized detected.valkey },
        cacheLadder.map .backend ++ [.backend .L3] ++ [.hotRung .L3 6]) := by
  rw [assembleLadder, h]
  show bindL3 connect detected [0, 1, 2, 3, 4, 5] (by decide) (cacheLadder.map .backend) = _
  rw [bindL3, if_pos hconnect]
  rfl

theorem assembleLadder_refused {env : EnvSource} {connect : String → Bool}
    {detected : DetectedUrl} (h : detectRedisEndpoint env = .ok (some detected))
    (hconnect : connect detected.normalized = false) :
    assembleLadder env connect = .ok
      ({ tiers := [0, 1, 2, 3, 4, 5], hotRungs := [6], rebinder := some detected,
         l3 := .redisDegradedToMemory detected.normalized detected.valkey
           "the redis server did not accept a connection" },
        cacheLadder.map .backend ++ [.hotRung .L3 3]) := by
  rw [assembleLadder, h]
  show bindL3 connect detected [0, 1, 2, 3, 4, 5] (by decide) (cacheLadder.map .backend) = _
  rw [bindL3, if_neg (by simp [hconnect])]
  rfl

/-- The wrapper around a stub is not the stub that the manager calls. -/
theorem not_reaches_of_refused {ladder : Ladder} (htiers : ladder.tiers = [0, 1, 2, 3, 4, 5])
    (hhot : ladder.hotRungs = [6]) :
    ¬ RebindingReaches ladder (cacheLadder.map .backend ++ [.hotRung .L3 3]) := by
  intro hreaches
  obtain ⟨rung, hrung, hsame, -⟩ := hreaches 6 (by simp [hhot])
  obtain rfl : TierId.L3 = rung := by simpa [HotRungTier.rung, cacheLadder] using hrung
  rw [Ladder.boundTier, htiers] at hsame
  exact absurd hsame (by decide)

/-- **Rebinding reaches the manager exactly when the first connection was made**, or when there is
nothing to rebind. -/
theorem rebinding_reaches_iff (env : EnvSource) (connect : String → Bool) (ladder : Ladder)
    (heap : TierHeap) (h : assembleLadder env connect = .ok (ladder, heap)) :
    RebindingReaches ladder heap ↔
      ∀ detected, detectRedisEndpoint env = .ok (some detected) →
        connect detected.normalized = true := by
  cases hdetect : detectRedisEndpoint env with
  | error e => simp [assembleLadder, hdetect, bind, Except.bind] at h
  | ok endpoint =>
    cases endpoint with
    | none =>
      rw [assembleLadder_notConfigured hdetect] at h
      cases h
      exact iff_of_true (by simp [RebindingReaches]) (by simp)
    | some detected =>
      cases hconnect : connect detected.normalized with
      | true =>
        rw [assembleLadder_connected hdetect hconnect] at h
        cases h
        refine iff_of_true ?_ (by rintro _ ⟨⟩; exact hconnect)
        intro hot hhot
        rw [List.mem_singleton] at hhot
        subst hhot
        refine ⟨.L3, rfl, rfl, fun events x hx => ⟨7, rfl, ?_⟩⟩
        have hinner : (rebound (cacheLadder.map .backend ++ [.backend .L3] ++ [.hotRung .L3 6])
            events)[7]? = some (.hotRung .L3 ((some x).getD 6)) := by
          rw [← hx]
          exact rebound_hotRung events rfl
        exact .forward hinner (.self x)
      | false =>
        rw [assembleLadder_refused hdetect hconnect] at h
        cases h
        refine iff_of_false (not_reaches_of_refused rfl rfl) fun hall => ?_
        rw [hall detected rfl] at hconnect
        cases hconnect

/-- The environment of the two cases below. -/
def redisAt : EnvSource := fun name => if name = envRedisUrl then some "redis://h" else none

theorem detect_redisAt : detectRedisEndpoint redisAt = .ok (some ⟨"redis://h", false⟩) := by
  decide

/-- A server that answers at once. -/
theorem rebinding_reaches_connected :
    ∃ ladder heap, assembleLadder redisAt (fun _ => true) = .ok (ladder, heap) ∧
      ladder.hotRungs = [7] ∧ RebindingReaches ladder heap :=
  have h : assembleLadder redisAt (fun _ => true) = _ :=
    assembleLadder_connected detect_redisAt rfl
  ⟨_, _, h, rfl, (rebinding_reaches_iff _ _ _ _ h).mpr fun _ _ => rfl⟩

/-- A server that refuses the first connection: what the governor swaps, the manager never calls. -/
theorem rebinding_lost_refused :
    ∃ ladder heap, assembleLadder redisAt (fun _ => false) = .ok (ladder, heap) ∧
      ¬ RebindingReaches ladder heap :=
  ⟨_, _, assembleLadder_refused detect_redisAt rfl, not_reaches_of_refused rfl rfl⟩

end TheSix
