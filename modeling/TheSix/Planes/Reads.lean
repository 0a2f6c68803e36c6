import TheSix.Planes.World

/-!
# Reading from the planes

A `get` on an entry that nobody works on answers what the rung of the entry answers, when the entry is
`Ready` and its TTL has not elapsed, and misses otherwise (`get_replyOn`).
-/

namespace TheSix

open Coroutine

variable {T V : Type} [CacheTier T V]

/-- The answer of a call that runs alone on the planes. -/
def Call.replyOn (tiers : ℕ) (o : ℕ → Req V → Outcome V) (c : Call V) (P : Planes T) :
    Option (Reply V) :=
  (c.runOn tiers o P).map Prod.fst

namespace Planes

/-- The entry at an address; an address that was never written reads as a blank entry. -/
def entry (P : Planes T) (a : KeyAddress) : ControlEntry := (P.slots a).getD { address := a }

variable {P : Planes T} {key : KeyRef} {o : ℕ → Req V → Outcome V} {n : ℕ}

theorem serve_peek :
    serve key o .peek (P, n) = some ((P.slots (P.address key)).peek P.now, P, n) := rfl

theorem serve_setState {state : EntryState} (hs : (P.slots (P.address key)).isSome = true) :
    serve key o (.setState state) (P, n) = some (.ok (),
      P.putSlot (P.address key) (some ((P.entry (P.address key)).setState state)), n) := by
  obtain ⟨e, he⟩ := Option.isSome_iff_exists.1 hs
  simp [serve, exec, onSlot, KeySlot.setState, he, entry, Req.isFetch]

theorem serve_tierGet (rung : TierId) :
    serve key o (.tierGet rung) (P, n) = some ((CacheTier.get (P.rungs rung) key P.now).1,
      P.putRung rung (CacheTier.get (P.rungs rung) key P.now).2, n) := rfl

theorem serve_record (rung : TierId) (r : Except CacheError Unit) :
    serve key o (.record rung r) (P, n) = some ((), P.recordOutcome rung r, n) := rfl

theorem recordOutcome_slots (P : Planes T) (rung : TierId) (r : Except CacheError Unit) :
    (P.recordOutcome rung r).slots = P.slots := by
  cases r with
  | ok u => rfl
  | error e => cases e <;> rfl

theorem recordOutcome_rungs (P : Planes T) (rung : TierId) (r : Except CacheError Unit) :
    (P.recordOutcome rung r).rungs = P.rungs := by
  cases r with
  | ok u => rfl
  | error e => cases e <;> rfl

theorem recordOutcome_now (P : Planes T) (rung : TierId) (r : Except CacheError Unit) :
    (P.recordOutcome rung r).now = P.now := by
  cases r with
  | ok u => rfl
  | error e => cases e <;> rfl

theorem recordOutcome_placement (P : Planes T) (rung : TierId) (r : Except CacheError Unit) :
    (P.recordOutcome rung r).placement = P.placement := by
  cases r with
  | ok u => rfl
  | error e => cases e <;> rfl

theorem peek_state (P : Planes T) (a : KeyAddress) :
    ((P.slots a).peek P.now).state = (P.entry a).state := by
  cases hs : P.slots a <;>
    simp [KeySlot.peek, ControlSnapshot.neverWritten, ControlEntry.peek, ControlEntry.snapshotOf,
      entry, hs]

theorem peek_tier (P : Planes T) (a : KeyAddress) :
    ((P.slots a).peek P.now).tier = (P.entry a).tier := by
  cases hs : P.slots a <;>
    simp [KeySlot.peek, ControlSnapshot.neverWritten, ControlEntry.peek, ControlEntry.snapshotOf,
      entry, hs]

theorem peek_expired (P : Planes T) (a : KeyAddress) :
    ((P.slots a).peek P.now).expired = (P.entry a).isExpired P.now := by
  cases hs : P.slots a <;>
    simp [KeySlot.peek, ControlSnapshot.neverWritten, ControlEntry.peek, ControlEntry.snapshotOf,
      entry, hs, ControlEntry.isExpired, ControlEntry.ttl]

theorem isSome_of_state {a : KeyAddress} (h : (P.entry a).state ≠ .absent) :
    (P.slots a).isSome = true := by
  cases hs : P.slots a with
  | none => simp [entry, hs] at h
  | some e => rfl

/-- What a reader of a key is told. -/
def answer (tiers : ℕ) (P : Planes T) (key : KeyRef) : Except CacheError (Option V) :=
  if (P.entry (P.address key)).state = .ready ∧ (P.entry (P.address key)).isExpired P.now = false then
    if Manager.hasTier tiers (P.entry (P.address key)).tier then
      (CacheTier.get (P.rungs (P.entry (P.address key)).tier) key P.now).1
    else .error .tierUnavailable
  else .error .miss

end Planes

namespace Manager

variable {P : Planes T} {o : ℕ → Req V → Outcome V}

/-- **What a `get` answers** when nobody works on the entry. -/
theorem get_replyOn {tiers : ℕ} {a : Args} {d : PolicyDecision} {key : KeyRef}
    (hgate : a.admitEncoded = .ok d) (hkey : a.keyRef = .ok key)
    (hi : (P.entry (P.address key)).state ≠ .inFlight)
    (hp : (P.entry (P.address key)).state ≠ .prepared) :
    (Call.get a).replyOn tiers o P = some (.read (P.answer tiers key)) := by
  have hcall : (Call.get a : Call V).key = key := by simp [Call.key, hkey, Except.toOption]
  simp only [Call.replyOn, Call.runOn, hcall, Call.prog, Prog.eval_map, Manager.get, hgate, call,
    noTelemetry_eq, await, Prog.req_bind, Prog.ret_bind]
  rw [Prog.eval_req Planes.serve_peek]
  simp only [Planes.peek_state, Planes.peek_expired, Planes.peek_tier, Planes.answer]
  by_cases hs : (P.entry (P.address key)).state = .ready
  · cases he : (P.entry (P.address key)).isExpired P.now with
    | true =>
      simp only [hs, Bool.true_eq_false, and_false, if_false, if_true]
      rw [Prog.eval_req (Planes.serve_setState (Planes.isSome_of_state (by simp [hs])))]
      rfl
    | false =>
      simp only [hs, and_self, if_true]
      cases hb : hasTier tiers (P.entry (P.address key)).tier with
      | false => simp
      | true =>
        simp only [Bool.true_eq_false, if_false, if_true]
        rw [Prog.eval_req (Planes.serve_tierGet _), Prog.eval_req (Planes.serve_record _ _)]
        simp only [Planes.peek_tier]
        cases hr : (CacheTier.get (P.rungs (P.entry (P.address key)).tier) key P.now).1 with
        | error e => rfl
        | ok v =>
          rw [Prog.eval_req Planes.serve_peek, Planes.peek_state]
          split_ifs with hafter
          · rfl
          · exact absurd hs hafter
  · simp [hs, hi, hp]

end Manager

end TheSix
