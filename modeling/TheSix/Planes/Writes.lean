import TheSix.Planes.Reclaim
import TheSix.Planes.Quiescence

/-!
# Writing when rungs fill up

How a write goes over rungs that keep to `BoundedTier`: the walk ends at the first bound rung that
accepts the write (`walk_ends`), and a refusal puts the key's entry back as it was, so that neither
readers nor evictions can tell the planes after it from the planes before (`Alike`).
-/

namespace TheSix

open Coroutine

variable {T V : Type} [CacheTier T V]

namespace Planes

/-- The planes after a write on a rung was committed. -/
def afterWrite (P : Planes T) (key : KeyRef) (rung : TierId) (ttl : Option ℕ) (t : T) : Planes T :=
  let e := P.entry (P.address key)
  (((P.putRung rung t).recordOutcome rung (.ok ())).putSlot (P.address key)
    (some ((e.preparedFor (e.intentFor rung .write P.now)).committed (e.tokenFor rung .write) ttl
      P.now)))

/-- The planes after a write that a rung refused for want of room. -/
def afterRefusal (P : Planes T) (key : KeyRef) (rung : TierId) : Planes T :=
  let e := P.entry (P.address key)
  P.putSlot (P.address key)
    (some ((e.preparedFor (e.intentFor rung .write P.now)).aborted .capacityExhausted true))

/-- The control plane has, or can make, the entry a write needs. -/
def HasSlot (P : Planes T) (key : KeyRef) (o : Req V → Outcome V) (rung : TierId) : Prop :=
  (P.slots (P.address key)).isSome = true ∨ (o (.prepare rung .write)).room = true

variable {P : Planes T} {key : KeyRef} {o : ℕ → Req V → Outcome V} {n : ℕ}

theorem serve_prepare {rung : TierId} {kind : IntentKind}
    (h : (P.slots (P.address key)).isSome = true ∨ (o n (.prepare rung kind)).room = true) :
    serve key o (.prepare rung kind) (P, n) =
      some (.ok ((P.entry (P.address key)).tokenFor rung kind),
        P.putSlot (P.address key) (some ((P.entry (P.address key)).preparedFor
          ((P.entry (P.address key)).intentFor rung kind P.now))), n) := by
  cases hs : P.slots (P.address key) with
  | some e =>
    simp [serve, exec, onSlot, KeySlot.prepare, hs, ControlEntry.prepare_none, entry, Req.isFetch]
  | none =>
    have hroom : (o n (.prepare rung kind)).room = true := by simpa [hs] using h
    simp [serve, exec, onSlot, KeySlot.prepare, KeySlot.withOrCreate, hs, hroom,
      ControlEntry.prepare_none, entry, Req.isFetch]

theorem serve_prepare_full {rung : TierId} {kind : IntentKind}
    (hs : P.slots (P.address key) = none) (hroom : (o n (.prepare rung kind)).room = false) :
    serve key o (.prepare rung kind) (P, n) = some (.error .configurationError, P, n) := by
  have hself := putSlot_self P (P.address key)
  rw [hs] at hself
  simp [serve, exec, onSlot, KeySlot.prepare, KeySlot.withOrCreate, hs, hroom, hself, Req.isFetch]

theorem serve_tierSet {rung : TierId} {v : V} {ttl : Option ℕ} {r : Except CacheError Unit} {t : T}
    (h : CacheTier.set (P.rungs rung) key v ttl P.now = (r, t)) :
    serve key o (.tierSet rung v ttl) (P, n) = some (r, P.putRung rung t, n) := by
  simp [serve, exec, onRung, h, Req.isFetch]

theorem serve_commit {token : CommitToken} {ttl : Option ℕ} {e : ControlEntry}
    (hs : P.slots (P.address key) = some e) (hg : e.generation = token.generation)
    (hp : e.state = .prepared) :
    serve key o (.commit token ttl) (P, n) =
      some (.ok (), P.putSlot (P.address key) (some (e.committed token ttl P.now)), n) := by
  simp [serve, exec, onSlot, KeySlot.commit, hs, ControlEntry.commit_of_live hg hp, Req.isFetch]

theorem serve_abortProvenClean {token : CommitToken} {error : CacheError} {e : ControlEntry}
    (hs : P.slots (P.address key) = some e) (hp : e.state = .prepared) :
    serve key o (.abortProvenClean token error) (P, n) =
      some (.ok (), P.putSlot (P.address key) (some (e.aborted error true)), n) := by
  simp [serve, exec, onSlot, KeySlot.abortProvenClean, hs, ControlEntry.abortProvenClean,
    ControlEntry.abortInner_of_prepared hp, Req.isFetch]

end Planes

namespace Manager

open Planes

variable {P : Planes T} {key : KeyRef} {o : ℕ → Req V → Outcome V} {n : ℕ} {a : Args} {v : V}
  {rung : TierId}

/-- A write that its rung accepts is committed. -/
theorem writeAt_accepted (races : ℕ) (hslot : P.HasSlot key (o n) rung) {t : T}
    (hset : CacheTier.set (P.rungs rung) key v a.ttl P.now = (.ok (), t)) :
    (writeAt a v rung (races + 1)).eval (serve key o) (P, n) =
      some (.finished (.ok ()), P.afterWrite key rung a.ttl t, n) := by
  rw [writeAt]
  simp only [writeUnder, call, noTelemetry_eq, await, Prog.req_bind, Prog.ret_bind]
  rw [Prog.eval_req (serve_prepare hslot)]
  simp only [Prog.eval_bind, Prog.eval_guarded]
  rw [Prog.eval_req (serve_tierSet (P := P.putSlot _ _) hset), Prog.eval_req (serve_record _ _)]
  simp only
  rw [Prog.eval_req (serve_commit (Function.update_self _ _ _) rfl rfl)]
  simp [afterWrite, recordOutcome, putSlot, putRung, address]

/-- A write that its rung refuses for want of room goes on to the next rung. -/
theorem writeAt_refused (races : ℕ) (hslot : P.HasSlot key (o n) rung)
    (hset : CacheTier.set (P.rungs rung) key v a.ttl P.now =
      (.error .capacityExhausted, P.rungs rung)) :
    (writeAt a v rung (races + 1)).eval (serve key o) (P, n) =
      some (.nextRung .capacityExhausted, P.afterRefusal key rung, n) := by
  rw [writeAt]
  simp only [writeUnder, call, noTelemetry_eq, await, Prog.req_bind, Prog.ret_bind]
  rw [Prog.eval_req (serve_prepare hslot)]
  simp only [Prog.eval_bind, Prog.eval_guarded]
  rw [Prog.eval_req (serve_tierSet (P := P.putSlot _ _) hset), Prog.eval_req (serve_record _ _)]
  simp only [reduceCtorEq, if_false, Prog.eval_pure, Option.bind_some, abortRefused,
    writeProvablyStoredNothing, if_true, call, Prog.req_bind, Prog.ret_bind]
  rw [Prog.eval_req (serve_abortProvenClean (Function.update_self _ _ _) rfl)]
  simp [afterRefusal, recordOutcome, putSlot, putRung, address, degrades]

theorem writeAt_full (races : ℕ) (hs : P.slots (P.address key) = none)
    (hroom : (o n (.prepare rung .write)).room = false) :
    (writeAt a v rung (races + 1)).eval (serve key o) (P, n) =
      some (.finished (.error .configurationError), P, n) := by
  rw [writeAt]
  simp only [call, noTelemetry_eq, Prog.req_bind, Prog.ret_bind]
  rw [Prog.eval_req (serve_prepare_full hs hroom)]
  rfl

end Manager

/-! ## Refused writes leave no trace -/

/-- Two entries that nobody works on, and that readers and evictions cannot tell apart. -/
structure ControlEntry.Resembles (e e' : ControlEntry) : Prop where
  rest : AtRest e
  rest' : AtRest e'
  state : e.state = e'.state
  tier : e.tier = e'.tier
  expirationNanos : e.expirationNanos = e'.expirationNanos
  populationTimestamp : e.populationTimestamp = e'.populationTimestamp

namespace ControlEntry.Resembles

variable {e e' : ControlEntry}

theorem refl (h : AtRest e) : e.Resembles e := ⟨h, h, rfl, rfl, rfl, rfl⟩

theorem isExpired (h : e.Resembles e') (now : ℕ) : e.isExpired now = e'.isExpired now := by
  simp only [ControlEntry.isExpired, ControlEntry.ttl, h.expirationNanos, h.populationTimestamp]

theorem evicted (h : e.Resembles e') : e.evicted.Resembles e'.evicted :=
  ⟨⟨by simp, by simp, by simp [h.rest.unowned], by simp [h.rest.noIntent]⟩,
    ⟨by simp, by simp, by simp [h.rest'.unowned], by simp [h.rest'.noIntent]⟩, rfl, h.tier,
    h.expirationNanos, h.populationTimestamp⟩

theorem refused (h : e.Resembles e') (intent : CommitIntent) (error : CacheError) :
    ((e.preparedFor intent).aborted error true).Resembles e' :=
  ⟨⟨h.rest.notInFlight, h.rest.notPrepared, rfl, rfl⟩, h.rest', h.state, h.tier, h.expirationNanos,
    h.populationTimestamp⟩

end ControlEntry.Resembles

namespace Planes

/-- The planes differ in nothing but the bookkeeping of one entry that nobody works on. -/
structure Alike (a₀ : KeyAddress) (P Q : Planes T) : Prop where
  now : P.now = Q.now
  placement : P.placement = Q.placement
  rungs : P.rungs = Q.rungs
  shardCursor : P.shardCursor = Q.shardCursor
  slots : ∀ a ≠ a₀, P.slots a = Q.slots a
  own : (P.entry a₀).Resembles (Q.entry a₀)

section Alike

variable {a₀ : KeyAddress} {P Q : Planes T}

omit [CacheTier T V]

theorem Alike.refl (h : AtRest (P.entry a₀)) : Alike a₀ P P :=
  ⟨rfl, rfl, rfl, rfl, fun _ _ => rfl, .refl h⟩

theorem evictable_of_atRest {a : KeyAddress} (h : AtRest (P.entry a)) :
    P.evictable a = decide ((P.entry a).state = .ready) := by
  unfold evictable
  cases hs : P.slots a with
  | none => simp [entry, hs, KeySlot.reserveEviction]
  | some e =>
    simp only [entry, hs, Option.getD_some] at h ⊢
    by_cases hr : e.state = .ready <;>
      simp [KeySlot.reserveEviction, ControlEntry.reserveEviction, h.unowned, h.noIntent, hr]

theorem Alike.entry (h : Alike a₀ P Q) (a : KeyAddress) :
    P.entry a = Q.entry a ∨ (a = a₀ ∧ (P.entry a).Resembles (Q.entry a)) := by
  by_cases ha : a = a₀
  · subst ha
    exact Or.inr ⟨rfl, h.own⟩
  · exact Or.inl (by rw [Planes.entry, Planes.entry, h.slots a ha])

theorem Alike.evictable (h : Alike a₀ P Q) : P.evictable = Q.evictable := by
  funext a
  by_cases ha : a = a₀
  · rw [ha, evictable_of_atRest h.own.rest, evictable_of_atRest h.own.rest', h.own.state]
  · rw [Planes.evictable, h.slots a ha, Planes.evictable]

theorem Alike.refused (h : Alike a₀ P Q) {key : KeyRef} (ha : P.address key = a₀) (rung : TierId) :
    Alike a₀ (P.afterRefusal key rung) Q := by
  subst ha
  refine ⟨h.now, h.placement, h.rungs, h.shardCursor, fun a ha => ?_, ?_⟩
  · rw [← h.slots a ha]
    exact Function.update_of_ne ha _ _
  · rw [afterRefusal, entry_putSlot]
    exact h.own.refused _ _

end Alike

theorem Alike.answer {a₀ : KeyAddress} {P Q : Planes T} (h : Alike a₀ P Q) (tiers : ℕ) (k : KeyRef) :
    P.answer tiers k = Q.answer tiers k := by
  have haddress : P.address k = Q.address k := by rw [address, address, h.placement]
  simp only [Planes.answer, haddress, h.now, h.rungs]
  rcases h.entry (Q.address k) with he | ⟨-, hr⟩
  · rw [he]
  · rw [hr.state, hr.tier, hr.isExpired]

/-- A rung accepts a write. -/
def accepts (P : Planes T) (key : KeyRef) (v : V) (ttl : Option ℕ) (rung : TierId) : Bool :=
  (CacheTier.set (P.rungs rung) key v ttl P.now).1.isOk

/-- Every rung keeps to its contract. -/
def Intact [BoundedTier T V] (P : Planes T) : Prop :=
  ∀ rung, BoundedTier.Valid P.placement (P.rungs rung)

theorem Alike.accepts {a₀ : KeyAddress} {P Q : Planes T} (h : Alike a₀ P Q) (key : KeyRef) (v : V)
    (ttl : Option ℕ) (rung : TierId) : P.accepts key v ttl rung = Q.accepts key v ttl rung := by
  rw [Planes.accepts, Planes.accepts, h.rungs, h.now]

end Planes

namespace Manager

open Planes

variable [BoundedTier T V] {P Q : Planes T} {key : KeyRef} {o : ℕ → Req V → Outcome V} {n tiers : ℕ}
  {a : Args} {v : V}

/-- How a walk may end: at a bound rung that accepts the write, behind the last rung when every bound
one refuses, or for want of room in the control plane. -/
inductive WalkEnds (tiers : ℕ) (key : KeyRef) (a : Args) (v : V) (o : Req V → Outcome V)
    (rungs : List TierId) (e : CacheError) (P Q : Planes T) : RungEnd → Planes T → Prop
  | accepted {P' : Planes T}
      (h : ∃ rung ∈ rungs, hasTier tiers rung = true ∧ Q.accepts key v a.ttl rung = true) :
      WalkEnds tiers key a v o rungs e P Q (.finished (.ok ())) P'
  | refused {P' : Planes T}
      (h : ∀ rung ∈ rungs, hasTier tiers rung = true → Q.accepts key v a.ttl rung = false)
      (alike : Alike (P.address key) P' Q) :
      WalkEnds tiers key a v o rungs e P Q
        (.nextRung (if rungs.any (hasTier tiers) then .capacityExhausted else e)) P'
  | full {P' : Planes T} (h : ∃ rung, (o (.prepare rung .write)).room = false) :
      WalkEnds tiers key a v o rungs e P Q (.finished (.error .configurationError)) P'

theorem walk_ends {rungs : List TierId} (hP : P.Intact) (h : Alike (P.address key) P Q)
    (e : CacheError) :
    ∃ r P', (walk tiers a v rungs e).eval (serve key o) (P, n) = some (r, P', n) ∧
      WalkEnds tiers key a v (o n) rungs e P Q r P' := by
  induction rungs generalizing P e with
  | nil => exact ⟨_, P, rfl, .refused (by simp) h⟩
  | cons rung rungs ih =>
    rw [walk]
    by_cases hb : hasTier tiers rung = true
    · rw [if_neg (by simp [hb])]
      by_cases hslot : P.HasSlot key (o n) rung
      · have hacc := h.accepts key v a.ttl rung
        rw [accepts] at hacc
        cases hset : CacheTier.set (P.rungs rung) key v a.ttl P.now with
        | mk r t =>
          cases r with
          | ok u =>
            refine ⟨_, P.afterWrite key rung a.ttl t, ?_, .accepted ⟨rung, List.mem_cons_self, hb, ?_⟩⟩
            · rw [Prog.eval_bind, maxCommitAttempts, writeAt_accepted 63 hslot hset]
              rfl
            · rw [← hacc, hset]
              rfl
          | error e' =>
            obtain ⟨rfl, rfl⟩ := BoundedTier.refused (hP rung) hset
            have halike := h.refused rfl rung
            obtain ⟨r, P', heval, hends⟩ := ih (P := P.afterRefusal key rung) hP halike
              .capacityExhausted
            refine ⟨r, P', ?_, ?_⟩
            · rw [Prog.eval_bind, maxCommitAttempts, writeAt_refused 63 hslot hset]
              exact heval
            · have hno : Q.accepts key v a.ttl rung = false := by
                rw [← hacc, hset]
                rfl
              cases hends with
              | accepted hx =>
                obtain ⟨x, hx, hbx⟩ := hx
                exact .accepted ⟨x, List.mem_cons_of_mem _ hx, hbx⟩
              | refused hall hlike =>
                have hany : (if rungs.any (hasTier tiers) then CacheError.capacityExhausted
                    else .capacityExhausted) =
                    if (rung :: rungs).any (hasTier tiers) then .capacityExhausted else e := by
                  simp [hb]
                rw [hany]
                exact .refused (by simpa [hno] using hall) hlike
              | full hx => exact .full hx
      · rw [HasSlot, not_or, Option.not_isSome_iff_eq_none, Bool.not_eq_true] at hslot
        refine ⟨_, P, ?_, .full ⟨rung, hslot.2⟩⟩
        rw [Prog.eval_bind, maxCommitAttempts, writeAt_full 63 hslot.1 hslot.2]
        rfl
    · rw [if_pos (by simpa using hb)]
      obtain ⟨r, P', heval, hends⟩ := ih hP h e
      refine ⟨r, P', heval, ?_⟩
      cases hends with
      | accepted hx =>
        obtain ⟨x, hx, hbx⟩ := hx
        exact .accepted ⟨x, List.mem_cons_of_mem _ hx, hbx⟩
      | refused hall hlike =>
        have hany : rungs.any (hasTier tiers) = (rung :: rungs).any (hasTier tiers) := by simp [hb]
        rw [hany]
        exact .refused (by simpa [hb] using hall) hlike
      | full hx => exact .full hx

end Manager

end TheSix
