import TheSix.Manager.System
import TheSix.Manager.Effects
import TheSix.Lib.BigStep

/-!
# Calls that run alone

With one client and nothing dropped, a call is a function of the key's world and of what the
environment decides about each request: `Call.run`, which also counts the fetches. The lemmas here
evaluate the parts that calls share.
-/

namespace TheSix

open Coroutine

variable {V : Type}

/-- Whether a request calls the fetch. -/
def Req.isFetch : Req V → Bool
  | .fetch => true
  | _ => false

/-- Answer a request as `o` decides, and count the fetches. -/
def KeyWorld.serve (o : Req V → Outcome V) (q : Req V) (s : KeyWorld V × ℕ) :
    Option (q.Answer × KeyWorld V × ℕ) :=
  (s.1.exec q (o q)).map fun aw => (aw.1, aw.2, s.2 + q.isFetch.toNat)

/-- Run a call alone: its answer, the world it leaves, and how often it has called the fetch. -/
def Call.run (tiers : ℕ) (o : Req V → Outcome V) (c : Call V) (w : KeyWorld V) :
    Option (Reply V × KeyWorld V × ℕ) :=
  (c.prog tiers).eval (KeyWorld.serve o) (w, 0)

/-- The answer of a call that runs alone. -/
def Call.reply (tiers : ℕ) (o : Req V → Outcome V) (c : Call V) (w : KeyWorld V) :
    Option (Reply V) :=
  (c.run tiers o w).map Prod.fst

theorem KeyWorld.exec_of_serve {o : Req V → Outcome V} (q : Req V) (s : KeyWorld V × ℕ)
    (a : q.Answer) (s' : KeyWorld V × ℕ) (h : KeyWorld.serve o q s = some (a, s')) :
    s.1.exec q (o q) = some (a, s'.1) := by
  cases he : s.1.exec q (o q) with
  | none => simp [KeyWorld.serve, he] at h
  | some aw =>
    simp only [KeyWorld.serve, he, Option.map_some, Option.some.injEq, Prod.mk.injEq] at h
    obtain ⟨rfl, rfl⟩ := h
    rfl

namespace KeyWorld

variable {o : Req V → Outcome V} {w : KeyWorld V} {n : ℕ}

/-- The world after a write on `rung` was committed. -/
def afterWrite (w : KeyWorld V) (rung : TierId) (v : V) (ttl : Option ℕ) : KeyWorld V where
  now := w.now
  address := w.address
  slot := some ((w.entry.preparedFor (w.entry.intentFor rung .write w.now)).committed
    (w.entry.tokenFor rung .write) ttl w.now)
  rungs := Function.update w.rungs rung (some v)
  failures := Function.update w.failures rung 0

/-- The key `k` after a `set` of 1 to `L0`, at time 1. -/
def writtenAtL0 (ttl : Option ℕ) : KeyWorld ℕ := unwritten.afterWrite .L0 1 ttl

theorem serve_peek : serve o .peek (w, n) = some (w.slot.peek w.now, w, n) := rfl

theorem serve_setState {state : EntryState} (hs : w.slot.isSome = true) :
    serve o (.setState state) (w, n) = some (.ok (), w.putEntry (w.entry.setState state), n) := by
  obtain ⟨e, he⟩ := Option.isSome_iff_exists.1 hs
  simp [serve, exec, onSlot, KeySlot.setState, he, putEntry, entry, Req.isFetch]

/-- What a read of a rung answers. -/
def read (o : Req V → Outcome V) (w : KeyWorld V) (rung : TierId) :
    Except CacheError (Option V) :=
  match (o (.tierGet rung)).error with
  | some e => .error e
  | none => .ok (if (o (.tierGet rung)).effect then w.rungs rung else none)

theorem serve_tierGet (rung : TierId) :
    serve o (.tierGet rung) (w, n) = some (w.read o rung, w, n) := by
  cases he : (o (.tierGet rung)).error <;> simp [serve, exec, read, he, Req.isFetch]

theorem peek_state (w : KeyWorld V) : (w.slot.peek w.now).state = w.entry.state := by
  cases hs : w.slot <;>
    simp [KeySlot.peek, ControlSnapshot.neverWritten, ControlEntry.peek, ControlEntry.snapshotOf,
      entry, hs]

theorem peek_tier (w : KeyWorld V) : (w.slot.peek w.now).tier = w.entry.tier := by
  cases hs : w.slot <;>
    simp [KeySlot.peek, ControlSnapshot.neverWritten, ControlEntry.peek, ControlEntry.snapshotOf,
      entry, hs]

theorem peek_expired (w : KeyWorld V) : (w.slot.peek w.now).expired = w.entry.isExpired w.now := by
  cases hs : w.slot <;>
    simp [KeySlot.peek, ControlSnapshot.neverWritten, ControlEntry.peek, ControlEntry.snapshotOf,
      entry, hs, ControlEntry.isExpired, ControlEntry.ttl]

theorem serve_tierHealth (rung : TierId) :
    serve o (.tierHealth rung) (w, n) = some (w.failures rung, w, n) := rfl

theorem serve_prepare {rung : TierId} {kind : IntentKind}
    (h : (o (.prepare rung kind)).room = true ∨ w.slot.isSome = true) :
    serve o (.prepare rung kind) (w, n) = some (.ok (w.entry.tokenFor rung kind),
      w.putEntry (w.entry.preparedFor (w.entry.intentFor rung kind w.now)), n) := by
  cases hs : w.slot with
  | some e =>
    simp [serve, exec, onSlot, KeySlot.prepare, hs, ControlEntry.prepare_none, putEntry, entry,
      Req.isFetch]
  | none =>
    have hroom : (o (.prepare rung kind)).room = true := by simpa [hs] using h
    simp [serve, exec, onSlot, KeySlot.prepare, KeySlot.withOrCreate, hs, hroom,
      ControlEntry.prepare_none, putEntry, entry, Req.isFetch]

theorem serve_tierSet {rung : TierId} {v : V} {ttl : Option ℕ}
    (h : (o (.tierSet rung v ttl)).error = none) :
    serve o (.tierSet rung v ttl) (w, n) = some (.ok (), w.store rung (some v), n) := by
  simp [serve, exec, h, Req.isFetch]

theorem serve_record (rung : TierId) (r : Except CacheError Unit) :
    serve o (.record rung r) (w, n) = some ((), w.recordOutcome rung r, n) := rfl

theorem serve_commit {token : CommitToken} {ttl : Option ℕ} {e : ControlEntry}
    (hs : w.slot = some e) (hg : e.generation = token.generation) (hp : e.state = .prepared) :
    serve o (.commit token ttl) (w, n) =
      some (.ok (), { w with slot := some (e.committed token ttl w.now) }, n) := by
  simp [serve, exec, onSlot, KeySlot.commit, hs, ControlEntry.commit_of_live hg hp, Req.isFetch]

end KeyWorld

namespace Manager

variable {o : Req V → Outcome V} {w : KeyWorld V} {n : ℕ}

/-- A write that its rung accepts is committed. -/
theorem writeAt_eval {a : Args} {v : V} {rung : TierId} (races : ℕ)
    (hroom : (o (.prepare rung .write)).room = true ∨ w.slot.isSome = true)
    (haccepts : (o (.tierSet rung v a.ttl)).error = none) :
    (writeAt a v rung (races + 1)).eval (KeyWorld.serve o) (w, n) =
      some (.finished (.ok ()), w.afterWrite rung v a.ttl, n) := by
  rw [writeAt]
  simp only [writeUnder, call, noTelemetry_eq, await, Prog.req_bind, Prog.ret_bind]
  rw [Prog.eval_req (KeyWorld.serve_prepare hroom)]
  simp only [Prog.eval_bind, Prog.eval_guarded]
  rw [Prog.eval_req (KeyWorld.serve_tierSet haccepts), Prog.eval_req (KeyWorld.serve_record _ _)]
  simp only
  rw [Prog.eval_req (KeyWorld.serve_commit rfl rfl rfl)]
  rfl

/-- The walk skips the rungs that are not bound. -/
theorem walk_eval {tiers : ℕ} {a : Args} {v : V} {rungs : List TierId} {rung : TierId}
    (hrung : rungs.find? (hasTier tiers) = some rung)
    (hroom : (o (.prepare rung .write)).room = true ∨ w.slot.isSome = true)
    (haccepts : (o (.tierSet rung v a.ttl)).error = none) (e : CacheError) :
    (walk tiers a v rungs e).eval (KeyWorld.serve o) (w, n) =
      some (.finished (.ok ()), w.afterWrite rung v a.ttl, n) := by
  induction rungs with
  | nil => cases hrung
  | cons first rungs ih =>
    rw [walk]
    by_cases hb : hasTier tiers first = true
    · rw [List.find?_cons_of_pos hb, Option.some.injEq] at hrung
      subst hrung
      rw [if_neg (by simp [hb]), Prog.eval_bind, maxCommitAttempts, writeAt_eval 63 hroom haccepts]
      rfl
    · rw [List.find?_cons_of_neg hb] at hrung
      rw [if_pos (by simpa using hb)]
      exact ih hrung

/-- What `set` is shown of the key before it asks the policy. -/
def shownTo (w : KeyWorld V) : CacheState :=
  .fromSnapshot (w.slot.peek w.now) (w.failures (w.slot.peek w.now).tier)

/-- The rung a `set` writes first. -/
def firstRung (tiers : ℕ) (a : Args) (w : KeyWorld V) : Option TierId :=
  (descent (a.select (shownTo w)).tier).find? (hasTier tiers)

/-- **A `set` whose first bound rung accepts the write returns `Ok`.** -/
theorem set_eval {tiers : ℕ} {a : Args} {v : V} {rung : TierId} (hgate : a.admitWrite = .ok ())
    (hauth : (a.select (shownTo w)).authorized = true) (hrung : firstRung tiers a w = some rung)
    (hroom : (o (.prepare rung .write)).room = true ∨ w.slot.isSome = true)
    (haccepts : (o (.tierSet rung v a.ttl)).error = none) :
    (set tiers a v).eval (KeyWorld.serve o) (w, n) =
      some (.ok (), w.afterWrite rung v a.ttl, n) := by
  have htier : (a.select (shownTo w)).tier ≠ authorityTier := by
    intro h
    simp [firstRung, h, authorityTier, descent] at hrung
  have hwalk := walk_eval (n := n) hrung hroom haccepts .tierUnavailable
  simp only [set, hgate, call, noTelemetry_eq, Prog.req_bind, Prog.ret_bind]
  rw [Prog.eval_req KeyWorld.serve_peek, Prog.eval_req (KeyWorld.serve_tierHealth _)]
  have hok : Args.authorize (a.select (shownTo w)) = .ok () := if_pos hauth
  simp only [shownTo] at hok htier hwalk
  simp only [hok, if_neg htier]
  rw [setPasses, Prog.eval_bind, hwalk]
  rfl

/-- A `get` on an entry that is neither `Ready` nor being worked on misses. -/
theorem get_reply_of_unreadable {tiers : ℕ} {a : Args} {d : PolicyDecision}
    (hgate : a.admitEncoded = .ok d) (hs : w.entry.state ≠ .ready ∧ w.entry.state ≠ .inFlight ∧
      w.entry.state ≠ .prepared) :
    (Call.get a).reply tiers o w = some (.read (.error .miss)) := by
  simp only [Call.reply, Call.run, Call.prog, Prog.eval_map, Manager.get, hgate, call,
    noTelemetry_eq, Prog.req_bind, Prog.ret_bind]
  rw [Prog.eval_req KeyWorld.serve_peek]
  simp [KeyWorld.peek_state, hs.1, hs.2.1, hs.2.2]

/-- A `get` that finds the TTL elapsed misses. -/
theorem get_reply_of_expired {tiers : ℕ} {a : Args} {d : PolicyDecision}
    (hgate : a.admitEncoded = .ok d) (hs : w.entry.state = .ready)
    (he : w.entry.isExpired w.now = true) :
    (Call.get a).reply tiers o w = some (.read (.error .miss)) := by
  have hslot : w.slot.isSome = true := KeyWorld.isSome_of_state (by simp [hs])
  simp only [Call.reply, Call.run, Call.prog, Prog.eval_map, Manager.get, hgate, call,
    noTelemetry_eq, Prog.req_bind, Prog.ret_bind]
  rw [Prog.eval_req KeyWorld.serve_peek]
  simp only [KeyWorld.peek_state, KeyWorld.peek_expired, hs, he, Bool.true_eq_false, and_false,
    if_false, if_true]
  rw [Prog.eval_req (KeyWorld.serve_setState hslot)]
  rfl

/-- A `get` on a `Ready` entry within its TTL answers what the rung of the entry answers. -/
theorem get_reply_of_ready {tiers : ℕ} {a : Args} {d : PolicyDecision}
    (hgate : a.admitEncoded = .ok d) (hs : w.entry.state = .ready)
    (he : w.entry.isExpired w.now = false) :
    (Call.get a).reply tiers o w = some (.read
      (if hasTier tiers w.entry.tier then w.read o w.entry.tier else .error .tierUnavailable)) := by
  simp only [Call.reply, Call.run, Call.prog, Prog.eval_map, Manager.get, hgate, call,
    noTelemetry_eq, await, Prog.req_bind, Prog.ret_bind]
  rw [Prog.eval_req KeyWorld.serve_peek]
  simp only [KeyWorld.peek_state, KeyWorld.peek_expired, KeyWorld.peek_tier, hs, he, and_self,
    if_true]
  cases hb : hasTier tiers w.entry.tier with
  | false => simp
  | true =>
    simp only [Bool.true_eq_false, if_false, if_true]
    rw [Prog.eval_req (KeyWorld.serve_tierGet _), Prog.eval_req (KeyWorld.serve_record _ _)]
    simp only [KeyWorld.peek_tier]
    cases hr : w.read o w.entry.tier with
    | error e => simp
    | ok v =>
      have hentry : (w.recordOutcome w.entry.tier (.ok ())).entry = w.entry := rfl
      simp only [Except.map]
      rw [Prog.eval_req KeyWorld.serve_peek, KeyWorld.peek_state, hentry, if_pos hs]
      rfl

theorem get_reply_of_refused {tiers : ℕ} {a : Args} {e : CacheError}
    (hgate : a.admitEncoded = .error e) :
    (Call.get a).reply tiers o w = some (.read (.error e)) := by
  simp [Call.reply, Call.run, Call.prog, Prog.eval_map, Manager.get, hgate]

end Manager

end TheSix
