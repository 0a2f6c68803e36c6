import TheSix.Sequential.Calls
import TheSix.Tier.CacheTier

/-!
# The two planes, for all keys

`Planes` is what a manager acts on: the control-plane entry of every address, the rungs with what they
store, and the health of the rungs. The calls are the programs of `Manager`, on the key of the call;
a request reaches the key's own entry and the rungs, except that an eviction also reaches the entry of
the victim.

The environment decides what the fetch returns, whether the shard of the control plane has a free slot
and whether a wait times out. What the rungs answer is up to the rungs.
-/

namespace TheSix

open Coroutine

/-- The state of the two planes. `shardCursor` is the counter of `ShardedTierStub::next_shard`. -/
structure Planes (T : Type) where
  now : ℕ
  placement : Placement
  slots : KeyAddress → KeySlot
  rungs : TierId → T
  failures : TierId → ℕ
  shardCursor : ℕ

namespace Planes

variable {T V : Type}

/-- The control-plane address of a key. -/
def address (P : Planes T) (key : KeyRef) : KeyAddress := .of key P.placement

/-- A control plane without entries over the given rungs. -/
def empty (placement : Placement) (rungs : TierId → T) : Planes T where
  now := 1
  placement := placement
  slots := fun _ => none
  rungs := rungs
  failures := fun _ => 0
  shardCursor := 0

/-- Time passes. -/
def tick (d : ℕ) (P : Planes T) : Planes T := { P with now := P.now + d }

/-- Change the entry at an address. -/
def putSlot (P : Planes T) (a : KeyAddress) (s : KeySlot) : Planes T :=
  { P with slots := Function.update P.slots a s }

/-- Change a rung. -/
def putRung (P : Planes T) (rung : TierId) (t : T) : Planes T :=
  { P with rungs := Function.update P.rungs rung t }

/-- The effect of a control-plane method on the entry at an address. -/
def onSlot {β : Type} (P : Planes T) (a : KeyAddress) (r : β × KeySlot) : β × Planes T :=
  (r.1, P.putSlot a r.2)

/-- The effect of a method of a rung. -/
def onRung {β : Type} (P : Planes T) (rung : TierId) (r : β × T) : β × Planes T :=
  (r.1, P.putRung rung r.2)

/-- The number of notifications a key's entry has sent. -/
def notifications (P : Planes T) (a : KeyAddress) : ℕ := (P.slots a).elim 0 (·.notifications)

/-- `TierRegistry::fail` and `recover`, as `record_outcome` and `record_read` call them. -/
def recordOutcome (P : Planes T) (rung : TierId) : Except CacheError Unit → Planes T
  | .ok _ => { P with failures := Function.update P.failures rung 0 }
  | .error .tierUnavailable =>
    { P with failures := Function.update P.failures rung (P.failures rung + 1) }
  | .error _ => P

/-- A rung nominates a victim. -/
def nominate [CacheTier T V] (P : Planes T) (rung : TierId) : Option KeyAddress × Planes T :=
  let r := CacheTier.evictionCandidate (P.rungs rung) P.now P.shardCursor
  (r.1, { P.putRung rung r.2.2 with shardCursor := r.2.1 })

/-- A rung removes what it holds at an address: whether it answered `Ok(true)`. -/
def takeOut [CacheTier T V] (P : Planes T) (rung : TierId) (a : KeyAddress) : Bool × Planes T :=
  let r := CacheTier.removeIfAddress (P.rungs rung) a
  (match r.1 with
    | .ok true => true
    | _ => false, P.putRung rung r.2)

/-- The atomic effect of a request of a call on `key`. -/
def exec [CacheTier T V] (key : KeyRef) :
    (q : Req V) → Outcome V → Planes T → Option (q.Answer × Planes T)
  | .peek, _, P => some ((P.slots (P.address key)).peek P.now, P)
  | .acquire tier, o, P =>
    some (P.onSlot (P.address key)
      ((P.slots (P.address key)).acquire (P.address key) o.room tier P.now))
  | .setState state, o, P =>
    some (P.onSlot (P.address key)
      ((P.slots (P.address key)).setState (P.address key) o.room state))
  | .publish g tier ttl, _, P =>
    some (P.onSlot (P.address key) ((P.slots (P.address key)).publish g tier ttl P.now))
  | .failWithError e, _, P =>
    some (P.onSlot (P.address key) ((P.slots (P.address key)).failWithError e))
  | .invalidate, _, P => some (P.onSlot (P.address key) (P.slots (P.address key)).invalidate)
  | .release, _, P => some (P.onSlot (P.address key) (P.slots (P.address key)).release)
  | .prepare tier kind, o, P =>
    some (P.onSlot (P.address key)
      ((P.slots (P.address key)).prepare (P.address key) o.room none tier kind P.now))
  | .commit token ttl, _, P =>
    some (P.onSlot (P.address key) ((P.slots (P.address key)).commit token ttl P.now))
  | .abort _ e, _, P => some (P.onSlot (P.address key) ((P.slots (P.address key)).abort e))
  | .abortProvenClean _ e, _, P =>
    some (P.onSlot (P.address key) ((P.slots (P.address key)).abortProvenClean e))
  | .evictionCandidate rung, _, P => some (P.nominate rung)
  | .reserveEviction a, _, P => some (P.onSlot a (P.slots a).reserveEviction)
  | .removeIfAddress rung a, _, P => some (P.takeOut rung a)
  | .tierGet rung, _, P => some (P.onRung rung (CacheTier.get (P.rungs rung) key P.now))
  | .tierSet rung value ttl, _, P =>
    some (P.onRung rung (CacheTier.set (P.rungs rung) key value ttl P.now))
  | .tierRemove rung, _, P => some (P.onRung rung (CacheTier.remove (P.rungs rung) key P.now))
  | .tierContains rung, _, P => some (CacheTier.contains (P.rungs rung) key P.now, P)
  | .fetch, o, P => some (o.fetched, P)
  | .register notify, _, P =>
    match notify with
    | .entry => some (some (P.notifications (P.address key)), P)
    | .detached => some (none, P)
  | .notified epoch, o, P =>
    if o.timeout then some (.error .timeout, P)
    else if epoch.elim false (· != P.notifications (P.address key)) then some (.ok (), P)
    else none
  | .sleep, _, P => some ((), P)
  | .yieldNow, _, P => some ((), P)
  | .tierHealth rung, _, P => some (P.failures rung, P)
  | .record rung result, _, P => some ((), P.recordOutcome rung result)

/-- Answer a request of a call on `key`, and count the fetches. The environment may decide otherwise
after every fetch. -/
def serve [CacheTier T V] (key : KeyRef) (o : ℕ → Req V → Outcome V) (q : Req V)
    (s : Planes T × ℕ) : Option (q.Answer × Planes T × ℕ) :=
  (exec key q (o s.2 q) s.1).map fun ap => (ap.1, ap.2, s.2 + q.isFetch.toNat)

end Planes

variable {T V : Type} [CacheTier T V]

/-- The key a call is about; a call whose key is refused makes no request. -/
def Call.key (c : Call V) : KeyRef :=
  match c with
  | .get a | .getOrFetch a | .exists a | .set a _ | .invalidate a | .remove a | .refresh a
  | .promote a | .demote a => a.keyRef.toOption.getD []
  | .evict => []

/-- Run a call alone on the planes: its answer, the planes it leaves, and how often it has called the
fetch. -/
def Call.runOn (tiers : ℕ) (o : ℕ → Req V → Outcome V) (c : Call V) (P : Planes T) :
    Option (Reply V × Planes T × ℕ) :=
  (c.prog tiers).eval (Planes.serve c.key o) (P, 0)

/-! ## Histories of one client -/

/-- A call of the client, some time after its last one, and what the environment decides about it. -/
structure Act (V : Type) where
  wait : ℕ := 0
  env : ℕ → Req V → Outcome V := fun _ _ => {}
  call : Call V

/-- The calls of a client, one after another: the answers, with the number of fetches of each call, and
the planes they leave. -/
def Planes.runs (tiers : ℕ) : List (Act V) → Planes T → Option (List (Reply V × ℕ) × Planes T)
  | [], P => some ([], P)
  | x :: xs, P =>
    (x.call.runOn tiers x.env (P.tick x.wait)).bind fun s =>
      (runs tiers xs s.2.1).map fun rest => ((s.1, s.2.2) :: rest.1, rest.2)

/-- What time and every call keep, a history keeps. -/
theorem Planes.runs_keeps {J : Planes T → Prop} {tiers : ℕ}
    (htick : ∀ {P : Planes T} (d : ℕ), J P → J (P.tick d))
    (hcall : ∀ {P P' : Planes T} {c : Call V} {o : ℕ → Req V → Outcome V} {r : Reply V} {n : ℕ},
      J P → c.runOn tiers o P = some (r, P', n) → J P')
    {acts : List (Act V)} {replies : List (Reply V × ℕ)} {P P' : Planes T} (h : J P)
    (hruns : P.runs tiers acts = some (replies, P')) : J P' := by
  induction acts generalizing P replies with
  | nil =>
    simp only [Planes.runs, Option.some.injEq, Prod.mk.injEq] at hruns
    rwa [← hruns.2]
  | cons x acts ih =>
    simp only [Planes.runs, Option.bind_eq_some_iff, Option.map_eq_some_iff] at hruns
    obtain ⟨⟨r, P₁, n⟩, hrun, ⟨rest, P₂⟩, hrest, heq⟩ := hruns
    simp only [Prod.mk.injEq] at heq
    rw [heq.2] at hrest
    exact ih (hcall (htick x.wait h) hrun) hrest

/-- A known caller of a key whose policy names one rung, whatever it is shown. -/
def Args.naming (key : KeyRef) (rung : TierId) (ttl : Option ℕ) : Args where
  authenticated := true
  keyRef := .ok key
  ttl := ttl
  select _ := ⟨true, rung, .closed⟩

end TheSix
