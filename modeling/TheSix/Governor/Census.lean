import TheSix.Governor.Planner
import TheSix.Manager.Framing

/-!
# The census

`KeyCensus` of `governor/census.rs`: the keys that maintenance may move, each with its frame. It
frames a key into buffers of its own, with a budget that mirrors the one of the manager, so it takes
exactly the keys that the manager encodes, with the same frames (`KeyCensus.register_eq`).

The limit that `key.rs` publishes is another one, twice as large. The manager keeps to it exactly
for frames within its own limit and for frames beyond the published one (`publishedLimit_iff`).
-/

namespace TheSix

open Slice

/-- `key::MAX_KEY_SIZE`, the published limit: the largest frame the manager is said to encode. -/
def Key.maxKeySize : ℕ := 512

/-- `MANAGER_KEY_BUDGET`. -/
def managerKeyBudget : ℕ := 256

/-- `CensusKey`: a movable key, the bytes it is framed into, and its identity in the telemetry. -/
structure CensusKey (K : Type) where
  key : K
  framed : KeyRef
  identity : KeyIdentity

/-- `KeyCensus`. The lock of its entries is poisoned when a thread has panicked with it. -/
structure KeyCensus (K : Type) where
  context : CacheContext
  entries : List (CensusKey K)
  poisoned : Bool

variable {K : Type} [ByteKey K]

/-- The frame of a key under a caller's tenant. -/
def frameOf (ctx : CacheContext) (key : K) : List UInt8 :=
  ctx.tenant ++ tenantSeparator :: ByteKey.asBytes key

theorem length_frameOf (ctx : CacheContext) (key : K) :
    (frameOf ctx key).length = ctx.tenant.length + 1 + (ByteKey.asBytes key).length := by
  rw [frameOf, length_frame]

/-- The manager's limit. -/
theorem encodeKey_eq {ctx : CacheContext} (hsep : tenantSeparator ∉ ctx.tenant) (key : K) :
    encodeKey key ctx = if (frameOf ctx key).length ≤ maxKeySize then .ok (frameOf ctx key)
      else .error .configurationError := by
  have hlength := length_frameOf ctx key
  have hcontains : ¬ ctx.tenant.contains tenantSeparator = true := by simpa using hsep
  unfold encodeKey
  rw [ByteKey.encode_eq]
  split_ifs with hraw hframe hframe
  · omega
  · rfl
  · show frameTenantKey ctx.tenant (ByteKey.asBytes key) maxKeySize = _
    rw [frameTenantKey, if_neg hcontains, if_neg (by omega)]
    rfl
  · show frameTenantKey ctx.tenant (ByteKey.asBytes key) maxKeySize = _
    rw [frameTenantKey, if_neg hcontains, if_pos (by omega)]

namespace KeyCensus

/-- `KeyCensus::new`. -/
def new (context : CacheContext) : KeyCensus K := ⟨context, [], false⟩

/-- `KeyCensus::register`. -/
def register (census : KeyCensus K) (key : K) :
    Option (Except CacheError (CensusKey K) × KeyCensus K) := do
  let (encoded, raw) ← encodeInto (ByteKey.asBytes key) (List.replicate managerKeyBudget 0)
  match encoded with
  | .error e => return (.error e, census)
  | .ok encoded =>
    let rawKey ← range raw 0 encoded
    let (len, framed) ←
      frameTenantKeyInto census.context.tenant rawKey (List.replicate managerKeyBudget 0)
    match len with
    | .error e => return (.error e, census)
    | .ok len =>
      let framed ← range framed 0 len
      let entry : CensusKey K := ⟨key, framed, .of framed⟩
      if census.poisoned then return (.error .configurationError, census)
      else return (.ok entry, { census with entries := census.entries ++ [entry] })

/-- The census with what a registration has answered. -/
def extended (census : KeyCensus K) (r : Except CacheError (CensusKey K)) : KeyCensus K :=
  { census with entries := census.entries ++ r.toOption.toList }

/-- **The census takes the keys that the manager encodes**, with their frames. -/
theorem register_eq {census : KeyCensus K} (h : census.poisoned = false) (key : K) :
    census.register key =
      let r := (encodeKey key census.context).map fun framed => ⟨key, framed, .of framed⟩
      some (r, census.extended r) := by
  have hsame : ∀ e, census.extended (.error e) = census := by
    intro e
    simp [extended, Except.toOption]
  have hbudget : managerKeyBudget = maxKeySize := rfl
  unfold register encodeKey
  rw [hbudget, encodeInto_eq, ByteKey.encode_eq, List.length_replicate]
  by_cases hroom : maxKeySize < (ByteKey.asBytes key).length
  · rw [if_pos hroom]
    exact congrArg some (Prod.ext rfl (hsame _).symm)
  · rw [if_neg hroom]
    dsimp only [written, bind, Option.bind_some]
    rw [range_append rfl, Option.bind_some, frameTenantKeyInto_of_length _ _ List.length_replicate]
    dsimp only [Except.bind, Option.bind_some]
    cases frameTenantKey census.context.tenant (ByteKey.asBytes key) maxKeySize with
    | error e => exact congrArg some (Prod.ext rfl (hsame _).symm)
    | ok frame =>
      have hlock : ¬ census.poisoned = true := by
        rw [h]
        exact Bool.false_ne_true
      dsimp only [written]
      rw [range_append rfl, Option.bind_some, if_neg hlock]
      rfl

/-- The censuses that a caller's registrations lead to. -/
inductive Registered (ctx : CacheContext) : KeyCensus K → Prop
  | new : Registered ctx (new ctx)
  | register {census census' : KeyCensus K} {key : K} {r : Except CacheError (CensusKey K)}
      (h : Registered ctx census) (hregister : census.register key = some (r, census')) :
      Registered ctx census'

theorem Registered.fixed {ctx : CacheContext} {census : KeyCensus K} (h : census.Registered ctx) :
    census.context = ctx ∧ census.poisoned = false := by
  induction h with
  | new => exact ⟨rfl, rfl⟩
  | register h hregister ih =>
    rw [register_eq ih.2, Option.some.injEq] at hregister
    cases hregister
    exact ih

end KeyCensus

/-! ## The published limit -/

/-- What the published limit says of a key: the manager encodes it exactly if its frame is within
the limit, as its frame, and the census takes exactly what the manager encodes. -/
def KeepsPublishedLimit (ctx : CacheContext) (census : KeyCensus K) (key : K) : Prop :=
  ∀ buf : List UInt8, buf.length = maxKeySize → ∃ encoded after r census',
    encodeKeyInto key ctx buf = some (encoded, after) ∧
    encoded = (if (frameOf ctx key).length ≤ Key.maxKeySize then .ok (frameOf ctx key)
      else .error .configurationError) ∧
    census.register key = some (r, census') ∧ r.map (·.framed) = encoded ∧
    census'.entries = census.entries ++ r.toOption.toList

theorem keepsPublishedLimit_of_encodeKey {ctx : CacheContext} {census : KeyCensus K}
    (hcensus : census.Registered ctx) (key : K) : KeepsPublishedLimit ctx census key ↔
      encodeKey key ctx = if (frameOf ctx key).length ≤ Key.maxKeySize then .ok (frameOf ctx key)
        else .error .configurationError := by
  obtain ⟨rfl, hpoisoned⟩ := hcensus.fixed
  have hregister := KeyCensus.register_eq hpoisoned key
  constructor
  · intro h
    obtain ⟨encoded, after, -, -, hencode, hlimit, -⟩ := h (List.replicate maxKeySize 0) (by simp)
    rw [encodeKeyInto_eq key census.context (by simp), Option.some.injEq] at hencode
    rw [← hlimit]
    exact congrArg Prod.fst hencode
  · intro hlimit buf hbuf
    refine ⟨_, _, _, _, encodeKeyInto_eq key census.context hbuf, hlimit, hregister, ?_, rfl⟩
    cases encodeKey key census.context <;> rfl

/-- **The published limit is kept for short frames and for very long ones**: for those within the
limit of the manager, and for those beyond the published one. -/
theorem publishedLimit_iff {ctx : CacheContext} (hsep : tenantSeparator ∉ ctx.tenant)
    {census : KeyCensus K} (hcensus : census.Registered ctx) (key : K) :
    KeepsPublishedLimit ctx census key ↔
      (frameOf ctx key).length ≤ maxKeySize ∨ Key.maxKeySize < (frameOf ctx key).length := by
  rw [keepsPublishedLimit_of_encodeKey hcensus, encodeKey_eq hsep]
  have hlimits : maxKeySize = 256 ∧ Key.maxKeySize = 512 := ⟨rfl, rfl⟩
  split_ifs with hshort hlong hlong
  · exact iff_of_true rfl (.inl hshort)
  · omega
  · exact iff_of_false nofun (by omega)
  · exact iff_of_true rfl (.inr (Nat.not_le.1 hlong))

/-- A key of one letter, of a tenant with a name. -/
theorem publishedLimit_iff_short :
    KeepsPublishedLimit ⟨"ops", [116], none⟩ (.new ⟨"ops", [116], none⟩) ([107] : List UInt8) := by
  have hsep : tenantSeparator ∉ (⟨"ops", [116], none⟩ : CacheContext).tenant := by decide
  apply (publishedLimit_iff hsep .new ([107] : List UInt8)).2
  left
  decide

/-- A key of 256 bytes is within the published limit, and is not encoded. -/
theorem publishedLimit_broken : ¬ KeepsPublishedLimit ⟨"ops", [116], none⟩
    (.new ⟨"ops", [116], none⟩) (List.replicate 256 107 : List UInt8) := by
  have hlength : ∀ n, (frameOf ⟨"ops", [116], none⟩ (List.replicate n 107 : List UInt8)).length =
      2 + n := by
    intro n
    rw [length_frameOf]
    show 1 + 1 + (List.replicate n (107 : UInt8)).length = 2 + n
    rw [List.length_replicate]
  have hsep : tenantSeparator ∉ (⟨"ops", [116], none⟩ : CacheContext).tenant := by decide
  rw [keepsPublishedLimit_of_encodeKey .new, encodeKey_eq hsep, hlength, if_neg (by decide),
    if_pos (by decide)]
  nofun

end TheSix
