import TheSix.Planes.Tenants
import TheSix.Planes.Exactness
import TheSix.Lib.Focus

/-!
# Keys are independent

The clients of all tenants share one control plane, one ladder and one set of circuit breakers. Seen
from one key, what the calls on the others do is small: time passes, breakers move, the entry is
reserved for an eviction, a rung loses the value. `amongOthers` is the one-key manager with these moves
in its environment, beside what maintenance does to the entry.

A rung is a map up to losses (`LossyTier`): it may evict, expire and forget, and fail with or without an
effect, but it answers with what was stored last. On such rungs every run of all clients is, seen from
a key, a run of the one-key manager (`seen_from_key`).
-/

namespace TheSix

open Coroutine

/-! ## Rungs that lose -/

/-- A map has lost some of its entries, or none. -/
def Lost {V : Type} (m m' : KeyRef → Option V) : Prop := ∀ k, m' k = m k ∨ m' k = none

theorem Lost.refl {V : Type} (m : KeyRef → Option V) : Lost m m := fun _ => Or.inl rfl

/-- A rung that is a map up to losses: it answers with what was stored last, or with nothing. -/
class LossyTier (T : Type) (V : outParam Type) [CacheTier T V] where
  content : T → KeyRef → Option V
  get_eq : ∀ {t : T} {k now v}, (CacheTier.get t k now).1 = .ok (some v) → content t k = some v
  content_get : ∀ (t : T) k now, Lost (content t) (content (CacheTier.get t k now).2)
  content_set : ∀ (t : T) k v ttl now,
    Lost (Function.update (content t) k (some v)) (content (CacheTier.set t k v ttl now).2) ∨
      (CacheTier.set t k v ttl now).1 ≠ .ok () ∧
        Lost (content t) (content (CacheTier.set t k v ttl now).2)
  remove_eq : ∀ {t : T} {k now}, (CacheTier.remove t k now).1 = .ok () →
    content (CacheTier.remove t k now).2 k = none
  content_remove : ∀ (t : T) k now, Lost (content t) (content (CacheTier.remove t k now).2)
  contains_eq : ∀ {t : T} {k now}, CacheTier.contains t k now = .ok true → (content t k).isSome = true
  content_evictionCandidate : ∀ (t : T) now cursor,
    Lost (content t) (content (CacheTier.evictionCandidate t now cursor).2.2)
  removeIfAddress_eq : ∀ {t : T} {a : KeyAddress} {k}, (CacheTier.removeIfAddress t a).1 = .ok true →
    KeyFingerprint.of k = a.fingerprint → content (CacheTier.removeIfAddress t a).2 k = none
  content_removeIfAddress : ∀ (t : T) a,
    Lost (content t) (content (CacheTier.removeIfAddress t a).2)

instance {V : Type} : LossyTier (MapTier V) V where
  content := MapTier.content
  get_eq h := Except.ok.inj h
  content_get _ _ _ := .refl _
  content_set _ _ _ _ _ := Or.inl (.refl _)
  remove_eq _ := Function.update_self _ _ _
  content_remove t k _ k' := by
    show Function.update t.content k none k' = t.content k' ∨ Function.update t.content k none k' = none
    by_cases hk : k' = k
    · exact Or.inr (by rw [hk, Function.update_self])
    · exact Or.inl (Function.update_of_ne hk _ _)
  contains_eq h := Except.ok.inj h
  content_evictionCandidate _ _ _ := .refl _
  removeIfAddress_eq h := by cases h
  content_removeIfAddress _ _ := .refl _

/-! ## One key among others -/

/-- What happens to a key beside its own calls. -/
inductive Elsewhere
  | tick (d : ℕ)
  | sweepExpired
  | abortIntent
  | releaseClaim
  /-- A call on another key has recorded an outcome. -/
  | record (rung : TierId) (result : Except CacheError Unit)
  /-- A `set` of another key has reserved the entry for an eviction. -/
  | reserveEviction
  /-- A rung no longer holds the value. -/
  | lose (rung : TierId)

/-- What it does to the world of the key. -/
def KeyWorld.elsewhere {V : Type} (e : Elsewhere) (w : KeyWorld V) : KeyWorld V :=
  match e with
  | .tick d => w.tick d
  | .sweepExpired => { w with slot := (w.slot.sweepExpired w.now).2 }
  | .abortIntent => { w with slot := (w.slot.abortIntentByAddress .uncommittedIntent).2 }
  | .releaseClaim => { w with slot := w.slot.releasePopulationClaim.2 }
  | .record rung result => w.recordOutcome rung result
  | .reserveEviction => { w with slot := w.slot.reserveEviction.2 }
  | .lose rung => w.store rung none

/-- The manager at work on one key, among others. -/
def amongOthers (V : Type) (tiers : ℕ) :
    Machine (Call V) Fn (Req V) Req.Answer (Reply V) (KeyWorld V) (Outcome V) Elsewhere where
  prog := Call.prog tiers
  exec := KeyWorld.exec
  env := KeyWorld.elsewhere

namespace Planes

variable {T V : Type} [CacheTier T V] [LossyTier T V] {P P' : Planes T} {key key' : KeyRef}

/-- What the planes are for a key. -/
def seenFrom (P : Planes T) (key : KeyRef) : KeyWorld V where
  now := P.now
  address := P.address key
  slot := P.slots (P.address key)
  rungs rung := LossyTier.content (P.rungs rung) key
  failures := P.failures

theorem seenFrom_putSlot (s : KeySlot) :
    (P.putSlot (P.address key) s).seenFrom key = { P.seenFrom key with slot := s } := by
  simp [seenFrom, putSlot, address]

theorem seenFrom_putSlot_of_ne {a : KeyAddress} (ha : P.address key ≠ a) (s : KeySlot) :
    (P.putSlot a s).seenFrom key = P.seenFrom key := by
  simp [seenFrom, putSlot, address, Function.update_of_ne (show KeyAddress.of key P.placement ≠ a from ha)]

theorem seenFrom_putRung {rung : TierId} {t : T} {x : Option V} (h : LossyTier.content t key = x) :
    (P.putRung rung t).seenFrom key = (P.seenFrom key).store rung x := by
  have hrungs : (fun r => LossyTier.content ((P.putRung rung t).rungs r) key) =
      Function.update (fun r => LossyTier.content (P.rungs r) key) rung x := by
    funext r
    by_cases hr : r = rung
    · subst hr
      simp [putRung, h]
    · simp [putRung, hr]
  simp only [seenFrom, hrungs]
  rfl

theorem seenFrom_recordOutcome (rung : TierId) (result : Except CacheError Unit) :
    (P.recordOutcome rung result).seenFrom key = (P.seenFrom key).recordOutcome rung result := by
  cases result with
  | ok u => rfl
  | error e => cases e <;> rfl

/-- The key's world drifts after what is left of it at a rung: the value, or nothing. -/
theorem drift_store (P : Planes T) (key : KeyRef) (rung : TierId) {t : T} {x : Option V} (tiers : ℕ)
    (h : LossyTier.content t key = x ∨ LossyTier.content t key = none) :
    ∃ moves, (P.putRung rung t).seenFrom key =
      (amongOthers V tiers).drift ((P.seenFrom key).store rung x) moves := by
  rcases h with h | h
  · exact ⟨[], seenFrom_putRung h⟩
  · refine ⟨[.lose rung], (seenFrom_putRung h).trans ?_⟩
    show (P.seenFrom key).store rung none = ((P.seenFrom key).store rung x).store rung none
    simp [KeyWorld.store]

/-- A rung that loses something. -/
theorem drift_lost (P : Planes T) (key : KeyRef) {rung : TierId} {t : T} (tiers : ℕ)
    (h : Lost (LossyTier.content (P.rungs rung)) (LossyTier.content t)) :
    ∃ moves, (P.putRung rung t).seenFrom key =
      (amongOthers V tiers).drift (P.seenFrom key) moves := by
  have hstore := drift_store P key rung tiers (h key)
  rwa [show LossyTier.content (P.rungs rung) key = (P.seenFrom key).rungs rung from rfl,
    store_self] at hstore

omit [LossyTier T V] in
theorem ok_of_takeOut {rung : TierId} {a : KeyAddress} (h : (P.takeOut rung a).1 = true) :
    (CacheTier.removeIfAddress (P.rungs rung) a).1 = .ok true := by
  simp only [takeOut] at h
  split at h
  · assumption
  · cases h

/-- **A request about the key** does to the planes what it does in the world of the key. -/
theorem exec_own (tiers : ℕ) {q : Req V} {o : Outcome V} {a : q.Answer}
    (h : P.exec key q o = some (a, P')) :
    ∃ o' w' moves, (P.seenFrom key).exec q o' = some (a, w') ∧
      P'.seenFrom key = (amongOthers V tiers).drift w' moves := by
  cases q with
  | peek | fetch | sleep | yieldNow | tierHealth =>
    obtain ⟨rfl, rfl⟩ := Prod.mk.inj (Option.some.inj h)
    exact ⟨o, _, [], rfl, rfl⟩
  | acquire | setState | publish | failWithError | invalidate | release | prepare | commit | abort
  | abortProvenClean =>
    obtain ⟨rfl, rfl⟩ := Prod.mk.inj (Option.some.inj h)
    exact ⟨o, _, [], rfl, seenFrom_putSlot _⟩
  | evictionCandidate rung =>
    obtain ⟨rfl, rfl⟩ := Prod.mk.inj (Option.some.inj h)
    obtain ⟨moves, hmoves⟩ := drift_lost P key tiers
      (LossyTier.content_evictionCandidate (P.rungs rung) P.now P.shardCursor)
    exact ⟨{ o with candidate := (P.nominate rung).1 }, _, moves, rfl, hmoves⟩
  | reserveEviction b =>
    obtain ⟨rfl, rfl⟩ := Prod.mk.inj (Option.some.inj h)
    by_cases hb : b = P.address key
    · subst hb
      exact ⟨o, _, [], if_pos rfl, seenFrom_putSlot _⟩
    · refine ⟨{ o with effect := (P.slots b).reserveEviction.1 }, P.seenFrom key, [], if_neg hb, ?_⟩
      exact seenFrom_putSlot_of_ne (Ne.symm hb) _
  | removeIfAddress rung b =>
    have hpair : P.takeOut rung b = (a, P') := Option.some.inj h
    obtain rfl : P.putRung rung (CacheTier.removeIfAddress (P.rungs rung) b).2 = P' :=
      congrArg Prod.snd hpair
    by_cases hgone : b = P.address key ∧ a = true
    · obtain ⟨rfl, rfl⟩ := hgone
      refine ⟨{ o with effect := true }, (P.seenFrom key).store rung none, [], if_pos rfl, ?_⟩
      exact seenFrom_putRung
        (LossyTier.removeIfAddress_eq (ok_of_takeOut (congrArg Prod.fst hpair)) rfl)
    · obtain ⟨moves, hmoves⟩ := drift_lost P key tiers
        (LossyTier.content_removeIfAddress (P.rungs rung) b)
      refine ⟨{ o with effect := a }, P.seenFrom key, moves, ?_, hmoves⟩
      by_cases hb : b = P.address key
      · obtain rfl : a = false := by simpa [hb] using hgone
        exact if_pos hb
      · exact if_neg hb
  | tierGet rung =>
    obtain ⟨rfl, rfl⟩ := Prod.mk.inj (Option.some.inj h)
    obtain ⟨moves, hmoves⟩ := drift_lost P key tiers
      (LossyTier.content_get (P.rungs rung) key P.now)
    cases hanswer : (CacheTier.get (P.rungs rung) key P.now).1 with
    | error e =>
      refine ⟨{ o with error := some e }, P.seenFrom key, moves, ?_, hmoves⟩
      simp only [KeyWorld.exec]
    | ok v =>
      cases v with
      | none =>
        refine ⟨{ o with error := none, effect := false }, P.seenFrom key, moves, ?_, hmoves⟩
        simp [KeyWorld.exec]
      | some v =>
        refine ⟨{ o with error := none, effect := true }, P.seenFrom key, moves, ?_, hmoves⟩
        simp [KeyWorld.exec, seenFrom, LossyTier.get_eq hanswer]
  | tierSet rung v ttl =>
    obtain ⟨rfl, rfl⟩ := Prod.mk.inj (Option.some.inj h)
    cases hanswer : (CacheTier.set (P.rungs rung) key v ttl P.now).1 with
    | error e =>
      rcases LossyTier.content_set (P.rungs rung) key v ttl P.now with hlost | ⟨-, hlost⟩
      · obtain ⟨moves, hmoves⟩ := drift_store P key rung tiers (hlost key)
        rw [Function.update_self] at hmoves
        refine ⟨{ o with error := some e, effect := true }, _, moves, ?_, hmoves⟩
        simp only [KeyWorld.exec, KeyWorld.storeIf, if_true]
      · obtain ⟨moves, hmoves⟩ := drift_lost P key tiers hlost
        refine ⟨{ o with error := some e, effect := false }, P.seenFrom key, moves, ?_, hmoves⟩
        simp [KeyWorld.exec, KeyWorld.storeIf]
    | ok u =>
      rcases LossyTier.content_set (P.rungs rung) key v ttl P.now with hlost | ⟨hne, -⟩
      · obtain ⟨moves, hmoves⟩ := drift_store P key rung tiers (hlost key)
        rw [Function.update_self] at hmoves
        refine ⟨{ o with error := none }, _, moves, ?_, hmoves⟩
        simp only [KeyWorld.exec]
      · exact absurd hanswer hne
  | tierRemove rung =>
    obtain ⟨rfl, rfl⟩ := Prod.mk.inj (Option.some.inj h)
    cases hanswer : (CacheTier.remove (P.rungs rung) key P.now).1 with
    | error e =>
      obtain ⟨moves, hmoves⟩ := drift_lost P key tiers
        (LossyTier.content_remove (P.rungs rung) key P.now)
      refine ⟨{ o with error := some e, effect := false }, P.seenFrom key, moves, ?_, hmoves⟩
      simp [KeyWorld.exec, KeyWorld.storeIf]
    | ok u =>
      refine ⟨{ o with error := none, effect := true }, (P.seenFrom key).store rung none, [], ?_,
        seenFrom_putRung (LossyTier.remove_eq hanswer)⟩
      simp only [KeyWorld.exec, KeyWorld.storeIf, if_true]
  | tierContains rung =>
    obtain ⟨rfl, rfl⟩ := Prod.mk.inj (Option.some.inj h)
    cases hanswer : CacheTier.contains (P.rungs rung) key P.now with
    | error e =>
      refine ⟨{ o with error := some e }, P.seenFrom key, [], ?_, rfl⟩
      simp only [KeyWorld.exec]
    | ok b =>
      refine ⟨{ o with error := none, effect := b }, P.seenFrom key, [], ?_, rfl⟩
      cases b with
      | false => simp [KeyWorld.exec]
      | true => simp [KeyWorld.exec, seenFrom, LossyTier.contains_eq hanswer]
  | register notify =>
    cases notify <;>
      · obtain ⟨rfl, rfl⟩ := Prod.mk.inj (Option.some.inj h)
        exact ⟨o, _, [], rfl, rfl⟩
  | notified epoch =>
    refine ⟨o, P.seenFrom key, [], ?_, ?_⟩ <;>
      · simp only [exec] at h
        split_ifs at h with htimeout hwoken
        all_goals
          obtain ⟨rfl, rfl⟩ := Prod.mk.inj (Option.some.inj h)
          first
            | rfl
            | exact if_pos htimeout
            | exact (if_neg htimeout).trans (if_pos hwoken)
  | record rung result =>
    obtain ⟨rfl, rfl⟩ := Prod.mk.inj (Option.some.inj h)
    exact ⟨o, _, [], rfl, seenFrom_recordOutcome rung result⟩

/-- **A request about another key** is a move of the key's environment, or nothing. -/
theorem exec_other (tiers : ℕ) (hkey : KeyFingerprint.of key' ≠ KeyFingerprint.of key) {q : Req V}
    {o : Outcome V} {a : q.Answer} (h : P.exec key' q o = some (a, P')) :
    ∃ moves, P'.seenFrom key = (amongOthers V tiers).drift (P.seenFrom key) moves := by
  have haddress : P.address key ≠ P.address key' := by
    intro heq
    exact hkey (congrArg KeyAddress.fingerprint heq).symm
  have hne : key ≠ key' := by
    rintro rfl
    exact hkey rfl
  cases q with
  | peek | fetch | sleep | yieldNow | tierHealth | tierContains =>
    obtain ⟨-, rfl⟩ := Prod.mk.inj (Option.some.inj h)
    exact ⟨[], rfl⟩
  | acquire | setState | publish | failWithError | invalidate | release | prepare | commit | abort
  | abortProvenClean =>
    obtain ⟨-, rfl⟩ := Prod.mk.inj (Option.some.inj h)
    exact ⟨[], seenFrom_putSlot_of_ne haddress _⟩
  | evictionCandidate rung =>
    obtain ⟨-, rfl⟩ := Prod.mk.inj (Option.some.inj h)
    exact drift_lost _ _ tiers (LossyTier.content_evictionCandidate (P.rungs rung) P.now P.shardCursor)
  | reserveEviction b =>
    obtain ⟨-, rfl⟩ := Prod.mk.inj (Option.some.inj h)
    by_cases hb : b = P.address key
    · subst hb
      exact ⟨[.reserveEviction], seenFrom_putSlot _⟩
    · exact ⟨[], seenFrom_putSlot_of_ne (Ne.symm hb) _⟩
  | removeIfAddress rung b =>
    obtain ⟨-, rfl⟩ := Prod.mk.inj (Option.some.inj h)
    exact drift_lost _ _ tiers (LossyTier.content_removeIfAddress (P.rungs rung) b)
  | tierGet rung =>
    obtain ⟨-, rfl⟩ := Prod.mk.inj (Option.some.inj h)
    exact drift_lost _ _ tiers (LossyTier.content_get (P.rungs rung) key' P.now)
  | tierSet rung v ttl =>
    obtain ⟨-, rfl⟩ := Prod.mk.inj (Option.some.inj h)
    have hkept : LossyTier.content (CacheTier.set (P.rungs rung) key' v ttl P.now).2 key =
        (P.seenFrom key).rungs rung ∨
          LossyTier.content (CacheTier.set (P.rungs rung) key' v ttl P.now).2 key = none := by
      rcases LossyTier.content_set (P.rungs rung) key' v ttl P.now with hlost | ⟨-, hlost⟩
      · have hlost' := hlost key
        rwa [Function.update_of_ne hne] at hlost'
      · exact hlost key
    obtain ⟨moves, hmoves⟩ := drift_store P key rung tiers hkept
    rw [store_self] at hmoves
    exact ⟨moves, hmoves⟩
  | tierRemove rung =>
    obtain ⟨-, rfl⟩ := Prod.mk.inj (Option.some.inj h)
    exact drift_lost _ _ tiers (LossyTier.content_remove (P.rungs rung) key' P.now)
  | register notify =>
    cases notify <;>
      · obtain ⟨-, rfl⟩ := Prod.mk.inj (Option.some.inj h)
        exact ⟨[], rfl⟩
  | notified epoch =>
    simp only [exec] at h
    split_ifs at h
    all_goals
      obtain ⟨-, rfl⟩ := Prod.mk.inj (Option.some.inj h)
      exact ⟨[], rfl⟩
  | record rung result =>
    obtain ⟨-, rfl⟩ := Prod.mk.inj (Option.some.inj h)
    exact ⟨[.record rung result], seenFrom_recordOutcome rung result⟩

/-- A tier call about the key that fails leaves what it has done, or nothing. -/
theorem failed_own (tiers : ℕ) {q : Req V} {o : Outcome V} {e : CacheError} {a : q.Answer}
    (h : q.failed e = some a) :
    ∃ o' w' moves, (P.seenFrom key).exec q o' = some (a, w') ∧
      (if o.effect then (P.exec key q o).elim P (·.2) else P).seenFrom key =
        (amongOthers V tiers).drift w' moves := by
  cases q with
  | tierGet rung =>
    obtain rfl := Option.some.inj h
    cases o.effect with
    | false => exact ⟨{ o with error := some e }, _, [], rfl, rfl⟩
    | true =>
      obtain ⟨moves, hmoves⟩ := drift_lost P key tiers
        (LossyTier.content_get (P.rungs rung) key P.now)
      exact ⟨{ o with error := some e }, _, moves, rfl, hmoves⟩
  | tierSet rung v ttl =>
    obtain rfl := Option.some.inj h
    have hmissed : (P.seenFrom key).exec (.tierSet rung v ttl)
        { o with error := some e, effect := false } = some (.error e, P.seenFrom key) := by
      simp [KeyWorld.exec, KeyWorld.storeIf]
    cases o.effect with
    | false => exact ⟨_, _, [], hmissed, rfl⟩
    | true =>
      rcases LossyTier.content_set (P.rungs rung) key v ttl P.now with hlost | ⟨-, hlost⟩
      · obtain ⟨moves, hmoves⟩ := drift_store P key rung tiers (hlost key)
        rw [Function.update_self] at hmoves
        exact ⟨{ o with error := some e, effect := true }, _, moves, rfl, hmoves⟩
      · obtain ⟨moves, hmoves⟩ := drift_lost P key tiers hlost
        exact ⟨_, _, moves, hmissed, hmoves⟩
  | tierRemove rung =>
    obtain rfl := Option.some.inj h
    have hmissed : (P.seenFrom key).exec (.tierRemove rung)
        { o with error := some e, effect := false } = some (.error e, P.seenFrom key) := by
      simp [KeyWorld.exec, KeyWorld.storeIf]
    cases o.effect with
    | false => exact ⟨_, _, [], hmissed, rfl⟩
    | true =>
      obtain ⟨moves, hmoves⟩ := drift_lost P key tiers
        (LossyTier.content_remove (P.rungs rung) key P.now)
      exact ⟨_, _, moves, hmissed, hmoves⟩
  | tierContains rung =>
    obtain rfl := Option.some.inj h
    exact ⟨{ o with error := some e }, _, [], rfl, by cases o.effect <;> rfl⟩
  | _ => cases h

theorem attempt_own (tiers : ℕ) {q : Req V} {o : Outcome V} {a : q.Answer}
    (h : P.attempt key q o = some (a, P')) :
    ∃ o' w' moves, (P.seenFrom key).exec q o' = some (a, w') ∧
      P'.seenFrom key = (amongOthers V tiers).drift w' moves := by
  unfold attempt at h
  split at h
  · rename_i answer hfailed
    obtain ⟨rfl, rfl⟩ := Prod.mk.inj (Option.some.inj h)
    obtain ⟨e, -, hanswer⟩ := Option.bind_eq_some_iff.1 hfailed
    exact failed_own tiers hanswer
  · exact exec_own tiers h

theorem attempt_other (tiers : ℕ) (hkey : KeyFingerprint.of key' ≠ KeyFingerprint.of key) {q : Req V}
    {o : Outcome V} {a : q.Answer} (h : P.attempt key' q o = some (a, P')) :
    ∃ moves, P'.seenFrom key = (amongOthers V tiers).drift (P.seenFrom key) moves := by
  unfold attempt at h
  split at h
  · obtain ⟨-, rfl⟩ := Prod.mk.inj (Option.some.inj h)
    cases o.effect with
    | false => exact ⟨[], rfl⟩
    | true =>
      cases hexec : P.exec key' q o with
      | none => exact ⟨[], by simp [Machine.drift]⟩
      | some ap => exact exec_other tiers hkey hexec
  · exact exec_other tiers hkey h

/-- What the environment does to the planes, it does to the key, or to another one. -/
theorem chore_drift (tiers : ℕ) (e : Chore) (P : Planes T) :
    ∃ moves, (chore e P).seenFrom key = (amongOthers V tiers).drift (P.seenFrom key) moves := by
  have hslot : ∀ {a : KeyAddress} {s : KeySlot} (move : Elsewhere),
      (a = P.address key → { P.seenFrom key with slot := s } = (P.seenFrom key).elsewhere move) →
      ∃ moves, (P.putSlot a s).seenFrom key =
        (amongOthers V tiers).drift (P.seenFrom key) moves := by
    intro a s move hmove
    by_cases ha : a = P.address key
    · subst ha
      exact ⟨[move], (seenFrom_putSlot s).trans (hmove rfl)⟩
    · exact ⟨[], seenFrom_putSlot_of_ne (Ne.symm ha) s⟩
  cases e with
  | tick d => exact ⟨[.tick d], rfl⟩
  | sweepExpired a => exact hslot .sweepExpired fun ha => by rw [ha]; rfl
  | abortIntent a => exact hslot .abortIntent fun ha => by rw [ha]; rfl
  | releaseClaim a => exact hslot .releaseClaim fun ha => by rw [ha]; rfl

end Planes

/-! ## A key, from its own side -/

section Seen

variable {K T V : Type} [Key K] [CacheTier T V] [LossyTier T V]

/-- The call, when it is on the key. -/
def Asked.on (key : KeyRef) (c : Asked K V) : Option (Call V) :=
  match c.keyRef with
  | .ok k => if k = key then some c.call else none
  | .error _ => none

theorem Asked.on_eq_some {key : KeyRef} {c : Asked K V} {c' : Call V} :
    c.on key = some c' ↔ c.keyRef = .ok key ∧ c.call = c' := by
  unfold Asked.on
  split
  · rename_i k hk
    split_ifs with heq <;> simp [hk, heq]
  · rename_i e hk
    simp [hk]

/-- The machine of all clients, from a key among keys of distinct fingerprints. -/
def focusOn {U : Set KeyRef} (hU : Set.InjOn KeyFingerprint.of U) (tiers : ℕ) {key : KeyRef}
    (hkey : key ∈ U) : Focus (tenants K V T tiers) (amongOthers V tiers) where
  key := key
  view P := P.seenFrom key
  own := Asked.on key
  calls c := ∀ k, c.keyRef = .ok k → k ∈ U
  others k := KeyFingerprint.of k ≠ KeyFingerprint.of key
  prog_own := by
    intro c c' h
    obtain ⟨hk, rfl⟩ := Asked.on_eq_some.1 h
    show (c.call.prog tiers).tagged c.call.key = (c.call.prog tiers).tagged key
    rw [Asked.key_call hk]
  prog_other := by
    intro c hc h
    show ((c.call.prog tiers).tagged c.call.key).Asks _ _
    cases hk : c.keyRef with
    | error e =>
      obtain ⟨r, hr⟩ := Asked.prog_refused hk tiers
      rw [hr]
      trivial
    | ok k =>
      have hne : k ≠ key := by
        rintro rfl
        rw [Asked.on_eq_some.2 ⟨hk, rfl⟩] at h
        cases h
      rw [Asked.key_call hk]
      exact Prog.tagged_asks (P := fun k => KeyFingerprint.of k ≠ KeyFingerprint.of key)
        (fun heq => hne (hU (hc k hk) hkey heq)) _
  exec_own h := Planes.attempt_own tiers h
  exec_other hother h := Planes.attempt_other tiers hother h
  env e P := Planes.chore_drift tiers e P

/-- What an answered request was for a key, when its call was on it. -/
def handedOn (key : KeyRef) (it : Handed K V T) : Option (ℕ × Call V × Exchange Fn (Req V) Req.Answer) :=
  (it.call.on key).map fun c => (it.thread, c, ⟨it.site, it.req.2, it.ans⟩)

/-- **Keys are independent.** Whatever the clients of all tenants do on all keys, on rungs that are maps
up to losses, with failing tier calls, evictions, moves, drops and maintenance in any order: seen from
one key it is a run of the one-key manager, with the same entry, rungs and breakers, the same requests
with the same answers, and the same replies. All the others can do to the key is to let time pass, to
move the breakers, to reserve its entry for an eviction and to make a rung lose its value. The
fingerprints of the framed keys in use are distinct. -/
theorem seen_from_key {U : Set KeyRef} (hU : Set.InjOn KeyFingerprint.of U) {tiers : ℕ} {P : Planes T}
    {schedule : List (Event (Asked K V) (Outcome V) Chore)}
    (hkeys : ∀ i c k, .start i c ∈ schedule → c.keyRef = .ok k → k ∈ U) {key : KeyRef} (hkey : key ∈ U) :
    ∃ schedule' : List (Event (Call V) (Outcome V) Elsewhere),
      let s := (tenants K V T tiers).run P schedule
      let s' := (amongOthers V tiers).run (P.seenFrom key) schedule'
      s'.world = s.world.seenFrom key ∧
        s'.trace.map (fun it => (it.thread, it.call, it.exchange)) = s.trace.filterMap (handedOn key) ∧
        ∀ i c r, s.tasks i = some ⟨c, .ret r⟩ → c.keyRef = .ok key → s'.result i = r := by
  obtain ⟨schedule', h⟩ := (focusOn (K := K) (T := T) hU tiers hkey).focused_run P
    fun i c hmem k hk => hkeys i c k hmem hk
  refine ⟨schedule', h.world, h.trace, ?_⟩
  intro i c r ht hk
  exact h.result (Asked.on_eq_some.2 ⟨hk, rfl⟩) ht

end Seen

/-- What the tenant `a` reads on its key, side by side with a tenant `b` that writes another value. -/
theorem seen_from_key_sameKeyTwice :
    ∃ schedule', ((amongOthers (List UInt8) 1).run
      ((Planes.empty .allToZero fun _ => (⟨fun _ => none⟩ : MapTier (List UInt8))).seenFrom [97, 0, 107])
      schedule').result 2 = some (.read (.ok (some [1]))) := by
  have hresult : ((tenants (List UInt8) (List UInt8) (MapTier (List UInt8)) 1).run
      (.empty .allToZero fun _ => ⟨fun _ => none⟩) sameKeyTwice).result 2 =
        some (.read (.ok (some [1]))) := by decide +kernel
  obtain ⟨c, ht⟩ := Sys.result_eq_some hresult
  obtain rfl : c = clientOf [97] .get := by
    simpa [sameKeyTwice] using Machine.started_of_task ht
  have hfingerprints : Set.InjOn KeyFingerprint.of {[97, 0, 107], [98, 0, 107]} :=
    Set.injOn_pair.2 fun h => absurd h (by decide +kernel)
  have hkeys : ∀ i c k, .start i c ∈ sameKeyTwice → c.keyRef = .ok k →
      k ∈ ({[97, 0, 107], [98, 0, 107]} : Set KeyRef) := by
    intro i c k hstart hk
    have hcall : c = clientOf [97] (.set [1]) ∨ c = clientOf [98] (.set [2]) ∨
        c = clientOf [97] .get := by
      simp only [sameKeyTwice, List.mem_cons, Event.start.injEq, reduceCtorEq, List.not_mem_nil] at hstart
      tauto
    rcases hcall with rfl | rfl | rfl
    · exact Or.inl (Except.ok.inj hk).symm
    · exact Or.inr (Except.ok.inj hk).symm
    · exact Or.inl (Except.ok.inj hk).symm
  obtain ⟨schedule', -, -, hreplies⟩ :=
    seen_from_key (T := MapTier (List UInt8)) hfingerprints hkeys (Set.mem_insert _ _)
  exact ⟨schedule', hreplies 2 _ _ ht rfl⟩

end TheSix
