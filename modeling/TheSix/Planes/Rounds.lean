import TheSix.Planes.Writes

/-!
# Rounds of reclaiming

After a walk that was refused everywhere, `set` gives up one entry somewhere in the ladder and walks
again, sixteen times at most. A round asks the bound rungs from `L0` on for nominees, eight in all, and
takes the first evictable one (`reclaim`). Refused writes leave no trace, so the rounds of a call are
determined by the planes before it: `set_ends` says how the call ends in terms of the planes after each
round (`reclaimed`) and of the addresses the rounds take (`victims`).
-/

namespace TheSix

open Coroutine

variable {T V : Type} [CacheTier T V]

namespace Planes

/-- The first evictable nominee of the bound rungs of a ladder, within the attempts that are left. -/
def pick (tiers : ℕ) : List TierId → ℕ → Planes T → Option (TierId × KeyAddress) × Planes T
  | [], _, P => (none, P)
  | rung :: rungs, n, P =>
    if Manager.hasTier tiers rung = false then pick tiers rungs n P
    else
      match P.pickAt rung n with
      | (some a, _, P') => (some (rung, a), P')
      | (none, left, P') => pick tiers rungs left P'

/-- Ask a ladder: whether something was given up, and the planes after it. -/
def freed (tiers : ℕ) (rungs : List TierId) (n : ℕ) (P : Planes T) : Bool × Planes T :=
  match P.pick tiers rungs n with
  | (some (rung, a), P') => (true, (P'.evict rung a).2)
  | (none, P') => (false, P')

/-- One round: the address it gives up and the planes after it, or nothing. -/
def reclaim (tiers : ℕ) (P : Planes T) : Option (KeyAddress × Planes T) :=
  match P.pick tiers cacheLadder Manager.maxEvictionAttempts with
  | (some (rung, a), P') => some (a, (P'.evict rung a).2)
  | (none, _) => none

/-- The planes after a number of rounds that have all given something up. -/
def reclaimed (tiers : ℕ) : ℕ → Planes T → Option (Planes T)
  | 0, P => some P
  | n + 1, P => (P.reclaim tiers).bind fun x => reclaimed tiers n x.2

/-- The addresses given up in a number of rounds, until a round gives up nothing. -/
def victims (tiers : ℕ) : ℕ → Planes T → List KeyAddress
  | 0, _ => []
  | n + 1, P =>
    match P.reclaim tiers with
    | none => []
    | some (a, P') => a :: victims tiers n P'

section Alike

variable {a₀ : KeyAddress} {P Q : Planes T}

theorem Alike.nominate (h : Alike a₀ P Q) (rung : TierId) :
    (P.nominate rung).1 = (Q.nominate rung).1 ∧ Alike a₀ (P.nominate rung).2 (Q.nominate rung).2 := by
  unfold Planes.nominate
  rw [h.rungs, h.now, h.shardCursor]
  refine ⟨rfl, ⟨h.now, h.placement, ?_, rfl, h.slots, h.own⟩⟩
  simp only [putRung, h.rungs]

theorem Alike.pickAt (h : Alike a₀ P Q) (rung : TierId) (n : ℕ) :
    (P.pickAt rung n).1 = (Q.pickAt rung n).1 ∧ (P.pickAt rung n).2.1 = (Q.pickAt rung n).2.1 ∧
      Alike a₀ (P.pickAt rung n).2.2 (Q.pickAt rung n).2.2 := by
  induction n generalizing P Q with
  | zero => exact ⟨rfl, rfl, h⟩
  | succ n ih =>
    obtain ⟨hsame, hlike⟩ := h.nominate rung
    rw [Planes.pickAt, Planes.pickAt]
    generalize P.nominate rung = x at hsame hlike
    generalize Q.nominate rung = y at hsame hlike
    obtain ⟨candidate, P'⟩ := x
    obtain ⟨candidate', Q'⟩ := y
    obtain rfl : candidate = candidate' := hsame
    have hlike' : Alike a₀ P' Q' := hlike
    cases candidate with
    | none => exact ⟨rfl, rfl, hlike'⟩
    | some a =>
      simp only [hlike'.evictable]
      split_ifs
      · exact ⟨rfl, rfl, hlike'⟩
      · exact ih hlike'

theorem Alike.pick (h : Alike a₀ P Q) (tiers : ℕ) (rungs : List TierId) (n : ℕ) :
    (P.pick tiers rungs n).1 = (Q.pick tiers rungs n).1 ∧
      Alike a₀ (P.pick tiers rungs n).2 (Q.pick tiers rungs n).2 := by
  induction rungs generalizing P Q n with
  | nil => exact ⟨rfl, h⟩
  | cons rung rungs ih =>
    rw [Planes.pick, Planes.pick]
    split_ifs
    · exact ih h n
    · obtain ⟨hsame, hleft, hlike⟩ := h.pickAt rung n
      generalize P.pickAt rung n = x at hsame hleft hlike
      generalize Q.pickAt rung n = y at hsame hleft hlike
      obtain ⟨victim, left, P'⟩ := x
      obtain ⟨victim', left', Q'⟩ := y
      obtain rfl : victim = victim' := hsame
      obtain rfl : left = left' := hleft
      cases victim with
      | none => exact ih hlike left
      | some a => exact ⟨rfl, hlike⟩

theorem Alike.evict (h : Alike a₀ P Q) (rung : TierId) {a : KeyAddress} (ha : Q.evictable a = true) :
    Alike a₀ (P.evict rung a).2 (Q.evict rung a).2 := by
  have hP := entry_of_evictable (h.evictable ▸ ha : P.evictable a = true)
  have hQ := entry_of_evictable ha
  unfold Planes.evict takeOut
  refine ⟨h.now, h.placement, ?_, h.shardCursor, ?_, ?_⟩
  · simp only [putRung, putSlot, h.rungs]
  · intro x hx
    simp only [putRung, putSlot]
    by_cases hxa : x = a
    · subst hxa
      rw [Function.update_self, Function.update_self, h.slots x hx]
    · rw [Function.update_of_ne hxa, Function.update_of_ne hxa, h.slots x hx]
  · have hown : ∀ R : Planes T, ∀ t, (R.putRung rung t).entry a₀ = R.entry a₀ := fun _ _ => rfl
    rw [hown, hown, hP.2, hQ.2]
    by_cases hxa : a₀ = a
    · subst hxa
      rw [entry_putSlot, entry_putSlot]
      exact h.own.evicted
    · rw [entry_putSlot_of_ne _ hxa, entry_putSlot_of_ne _ hxa]
      exact h.own

end Alike

section Intact

variable [BoundedTier T V] {P : Planes T} {tiers : ℕ}

theorem Intact.putRung (h : P.Intact) {t : T} (ht : BoundedTier.Valid P.placement t) (rung : TierId) :
    (P.putRung rung t).Intact := by
  intro r
  by_cases hr : r = rung
  · subst hr
    simp only [Planes.putRung, Function.update_self]
    exact ht
  · simp only [Planes.putRung, Function.update_of_ne hr]
    exact h r

theorem Intact.nominate (h : P.Intact) (rung : TierId) : (P.nominate rung).2.Intact :=
  h.putRung (BoundedTier.valid_evictionCandidate _ _ (h rung)) rung

theorem Intact.takeOut (h : P.Intact) (rung : TierId) (a : KeyAddress) :
    (P.takeOut rung a).2.Intact :=
  h.putRung (BoundedTier.valid_removeIfAddress _ (h rung)) rung

theorem Alike.intact {a₀ : KeyAddress} {P Q : Planes T} (h : Alike a₀ P Q) (hQ : Q.Intact) :
    P.Intact := by
  intro rung
  rw [h.placement, h.rungs]
  exact hQ rung

/-- What is picked can be taken out. -/
theorem Intact.pickAt (h : P.Intact) (rung : TierId) (n : ℕ) :
    (P.pickAt rung n).2.2.Intact ∧ ∀ a, (P.pickAt rung n).1 = some a →
      ((P.pickAt rung n).2.2.evict rung a).1 = true := by
  induction n generalizing P with
  | zero => exact ⟨h, by rintro _ ⟨⟩⟩
  | succ n ih =>
    have hstep := h.nominate rung
    have htaken : ∀ a, (P.nominate rung).1 = some a → ((P.nominate rung).2.evict rung a).1 = true := by
      intro a ha
      have hremoved := BoundedTier.nominated (h rung) ha
      simp only [Planes.evict, Planes.takeOut, Planes.nominate, putSlot, Planes.putRung,
        Function.update_self, hremoved]
    rw [Planes.pickAt]
    generalize P.nominate rung = x at hstep htaken
    obtain ⟨candidate, P'⟩ := x
    cases candidate with
    | none => exact ⟨hstep, by rintro _ ⟨⟩⟩
    | some a =>
      simp only
      split_ifs
      · exact ⟨hstep, htaken⟩
      · exact ih hstep

/-- `try_free_somewhere_in_the_ladder` gives up what is picked. -/
theorem tryFreeSomewhere_eval (h : P.Intact) {key : KeyRef} {o : ℕ → Req V → Outcome V} {m : ℕ}
    (rungs : List TierId) (n : ℕ) :
    (Manager.tryFreeSomewhere tiers rungs n).eval (serve key o) (P, m) =
      some ((P.freed tiers rungs n).1, (P.freed tiers rungs n).2, m) := by
  induction rungs generalizing P n with
  | nil => rfl
  | cons rung rungs ih =>
    rw [Manager.tryFreeSomewhere, freed, pick]
    split_ifs
    · exact ih h n
    · rw [Prog.eval_bind, Manager.tryEvictAtRung_eval, evictAt]
      obtain ⟨hintact, htaken⟩ := h.pickAt rung n
      generalize P.pickAt rung n = x at hintact htaken
      obtain ⟨victim, left, P'⟩ := x
      cases victim with
      | none => exact ih hintact left
      | some a =>
        have htrue : (P'.evict rung a).1 = true := htaken a rfl
        simp only [Option.bind_some, htrue]
        rfl

theorem Intact.pick (h : P.Intact) (tiers : ℕ) (rungs : List TierId) (n : ℕ) :
    (P.pick tiers rungs n).2.Intact := by
  induction rungs generalizing P n with
  | nil => exact h
  | cons rung rungs ih =>
    rw [Planes.pick]
    split_ifs
    · exact ih h n
    · obtain ⟨hintact, -⟩ := h.pickAt rung n
      generalize P.pickAt rung n = x at hintact
      obtain ⟨victim, left, P'⟩ := x
      cases victim with
      | none => exact ih hintact left
      | some a => exact hintact

theorem Intact.freed (h : P.Intact) (tiers : ℕ) (rungs : List TierId) (n : ℕ) :
    (P.freed tiers rungs n).2.Intact := by
  have hpick := h.pick tiers rungs n
  unfold Planes.freed
  generalize P.pick tiers rungs n = x at hpick
  obtain ⟨victim, P'⟩ := x
  cases victim with
  | none => exact hpick
  | some ra =>
    have hput : (P'.putSlot ra.2 (P'.slots ra.2).reserveEviction.2).Intact := hpick
    exact hput.takeOut ra.1 ra.2

end Intact

/-! ## What a round costs -/

section Rounds

variable {P Q : Planes T} {tiers : ℕ} {a₀ : KeyAddress}

theorem evictable_of_pick {rungs : List TierId} {n : ℕ} {rung : TierId} {a : KeyAddress}
    (h : (P.pick tiers rungs n).1 = some (rung, a)) : (P.pick tiers rungs n).2.evictable a = true := by
  induction rungs generalizing P n with
  | nil => cases h
  | cons r rungs ih =>
    rw [Planes.pick] at h ⊢
    split_ifs at h ⊢
    · exact ih h
    · have honly := onlyRung_pickAt P r n
      have hpick : ∀ {x}, (P.pickAt r n).1 = some x → P.evictable x = true := evictable_of_pickAt
      generalize P.pickAt r n = x at honly hpick h
      obtain ⟨victim, left, P'⟩ := x
      cases victim with
      | none => exact ih h
      | some x =>
        simp only [Option.some.injEq, Prod.mk.injEq] at h
        obtain ⟨rfl, rfl⟩ := h
        have hev : P'.evictable = P.evictable := honly.evictable
        simpa only [hev] using hpick rfl

theorem placement_pick (P : Planes T) (tiers : ℕ) (rungs : List TierId) (n : ℕ) :
    (P.pick tiers rungs n).2.placement = P.placement := by
  induction rungs generalizing P n with
  | nil => rfl
  | cons rung rungs ih =>
    rw [Planes.pick]
    split_ifs
    · exact ih P n
    · have hsame := (onlyRung_pickAt P rung n).placement
      generalize P.pickAt rung n = x at hsame
      obtain ⟨victim, left, P'⟩ := x
      cases victim with
      | none => exact (ih P' left).trans hsame
      | some a => exact hsame

/-- A round that gives something up. -/
theorem freed_of_reclaim {a : KeyAddress} {P' : Planes T} (h : P.reclaim tiers = some (a, P')) :
    P.freed tiers cacheLadder Manager.maxEvictionAttempts = (true, P') := by
  unfold reclaim at h
  unfold freed
  generalize P.pick tiers cacheLadder Manager.maxEvictionAttempts = x at h
  obtain ⟨victim, P₁⟩ := x
  cases victim with
  | none => cases h
  | some ra =>
    simp only [Option.some.injEq, Prod.mk.injEq] at h ⊢
    exact ⟨trivial, h.2⟩

theorem freed_of_reclaim_none (h : P.reclaim tiers = none) :
    P.freed tiers cacheLadder Manager.maxEvictionAttempts =
      (false, (P.pick tiers cacheLadder Manager.maxEvictionAttempts).2) := by
  unfold reclaim at h
  unfold freed
  generalize P.pick tiers cacheLadder Manager.maxEvictionAttempts = x at h
  obtain ⟨victim, P₁⟩ := x
  cases victim with
  | none => rfl
  | some ra => cases h

theorem placement_reclaim {a : KeyAddress} {P' : Planes T} (h : P.reclaim tiers = some (a, P')) :
    P'.placement = P.placement := by
  have hsame := placement_pick P tiers cacheLadder Manager.maxEvictionAttempts
  unfold reclaim at h
  generalize P.pick tiers cacheLadder Manager.maxEvictionAttempts = x at h hsame
  obtain ⟨victim, P₁⟩ := x
  cases victim with
  | none => cases h
  | some ra =>
    simp only [Option.some.injEq, Prod.mk.injEq] at h
    rw [← h.2]
    exact hsame

/-- The planes after fewer rounds than `n + 1` are the present ones and those after a first round. -/
theorem forall_reclaimed_succ {p : Planes T → Prop} (n : ℕ) :
    (∀ i < n + 1, ∀ Q, P.reclaimed tiers i = some Q → p Q) ↔
      p P ∧ ∀ x, P.reclaim tiers = some x → ∀ i < n, ∀ Q, x.2.reclaimed tiers i = some Q → p Q := by
  constructor
  · intro h
    refine ⟨h 0 (by omega) P rfl, ?_⟩
    intro x hx i hi Q hQ
    exact h (i + 1) (by omega) Q (by simpa [reclaimed, hx] using hQ)
  · intro h i hi Q hQ
    cases i with
    | zero =>
      obtain rfl : P = Q := by simpa [reclaimed] using hQ
      exact h.1
    | succ i =>
      obtain ⟨x, hx, hQ⟩ := Option.bind_eq_some_iff.1 hQ
      exact h.2 x hx i (by omega) Q hQ

theorem Alike.freed (h : Alike a₀ P Q) (tiers : ℕ) (rungs : List TierId) (n : ℕ) :
    (P.freed tiers rungs n).1 = (Q.freed tiers rungs n).1 ∧
      Alike a₀ (P.freed tiers rungs n).2 (Q.freed tiers rungs n).2 := by
  obtain ⟨hsame, hlike⟩ := h.pick tiers rungs n
  have hev : ∀ {rung a}, (Q.pick tiers rungs n).1 = some (rung, a) →
    (Q.pick tiers rungs n).2.evictable a = true := evictable_of_pick
  unfold Planes.freed
  generalize P.pick tiers rungs n = x at hsame hlike
  generalize Q.pick tiers rungs n = y at hsame hlike hev
  obtain ⟨victim, P'⟩ := x
  obtain ⟨victim', Q'⟩ := y
  obtain rfl : victim = victim' := hsame
  cases victim with
  | none => exact ⟨rfl, hlike⟩
  | some ra =>
    obtain ⟨rung, a⟩ := ra
    have hlike' : Alike a₀ P' Q' := hlike
    exact ⟨rfl, hlike'.evict rung (hev rfl)⟩

variable [BoundedTier T V]

theorem Intact.reclaimed (h : P.Intact) {n : ℕ} (hr : P.reclaimed tiers n = some Q) : Q.Intact := by
  induction n generalizing P with
  | zero =>
    obtain rfl : P = Q := by simpa [Planes.reclaimed] using hr
    exact h
  | succ n ih =>
    obtain ⟨x, hx, hr⟩ := Option.bind_eq_some_iff.1 hr
    have hfreed := h.freed tiers cacheLadder Manager.maxEvictionAttempts
    rw [freed_of_reclaim hx] at hfreed
    exact ih hfreed hr

theorem Intact.answer_nominate (h : P.Intact) (tiers : ℕ) (rung : TierId) (k : KeyRef) :
    (P.nominate rung).2.answer tiers k = P.answer tiers k := by
  have hget : ∀ r now', (CacheTier.get ((P.nominate rung).2.rungs r) k now').1 =
      (CacheTier.get (P.rungs r) k now').1 := by
    intro r now'
    by_cases hr : r = rung
    · subst hr
      simp only [Planes.nominate, Planes.putRung, Function.update_self]
      exact BoundedTier.get_evictionCandidate k _ _ _ (h r)
    · simp only [Planes.nominate, Planes.putRung, Function.update_of_ne hr]
  have hentry : ∀ a, (P.nominate rung).2.entry a = P.entry a := fun _ => rfl
  have haddress : (P.nominate rung).2.address k = P.address k := rfl
  have hnow : (P.nominate rung).2.now = P.now := rfl
  simp only [answer, haddress, hentry, hnow, hget]

theorem Intact.answer_pickAt (h : P.Intact) (tiers : ℕ) (rung : TierId) (n : ℕ) (k : KeyRef) :
    (P.pickAt rung n).2.2.answer tiers k = P.answer tiers k := by
  induction n generalizing P with
  | zero => rfl
  | succ n ih =>
    have hstep := h.nominate rung
    have hsame := h.answer_nominate tiers rung k
    rw [Planes.pickAt]
    generalize P.nominate rung = x at hstep hsame
    obtain ⟨candidate, P'⟩ := x
    cases candidate with
    | none => exact hsame
    | some a =>
      simp only
      split_ifs
      · exact hsame
      · exact (ih hstep).trans hsame

theorem Intact.answer_pick (h : P.Intact) (tiers : ℕ) (rungs : List TierId) (n : ℕ) (k : KeyRef) :
    (P.pick tiers rungs n).2.answer tiers k = P.answer tiers k := by
  induction rungs generalizing P n with
  | nil => rfl
  | cons rung rungs ih =>
    rw [Planes.pick]
    split_ifs
    · exact ih h n
    · have hintact := (h.pickAt rung n).1
      have hsame := h.answer_pickAt tiers rung n k
      generalize P.pickAt rung n = x at hintact hsame
      obtain ⟨victim, left, P'⟩ := x
      cases victim with
      | none => exact (ih hintact left).trans hsame
      | some a => exact hsame

/-- An eviction makes the victim a miss, and changes no other answer. -/
theorem Intact.answer_evict (h : P.Intact) (rung : TierId) {a : KeyAddress}
    (ha : P.evictable a = true) (k : KeyRef) :
    (P.evict rung a).2.answer tiers k =
      if P.address k = a then .error .miss else P.answer tiers k := by
  have haddress : (P.evict rung a).2.address k = P.address k := rfl
  split_ifs with hk
  · apply answer_of_not_ready
    rw [haddress, hk]
    have hentry : (P.evict rung a).2.entry a = (P.entry a).evicted := by
      have hslot := (entry_of_evictable ha).2
      have hrung : (P.evict rung a).2.entry a =
        (P.putSlot a (P.slots a).reserveEviction.2).entry a := rfl
      rw [hrung, hslot, entry_putSlot]
      rfl
    simp [hentry]
  · have hentry : (P.evict rung a).2.entry (P.address k) = P.entry (P.address k) :=
      entry_putSlot_of_ne P hk _
    have hget : ∀ r now', (CacheTier.get ((P.evict rung a).2.rungs r) k now').1 =
        (CacheTier.get (P.rungs r) k now').1 := by
      intro r now'
      by_cases hr : r = rung
      · subst hr
        simp only [Planes.evict, Planes.takeOut, Planes.putRung, putSlot, Function.update_self]
        exact BoundedTier.get_removeIfAddress now' (h r) hk
      · simp only [Planes.evict, Planes.takeOut, Planes.putRung, putSlot, Function.update_of_ne hr]
    have hnow : (P.evict rung a).2.now = P.now := rfl
    simp only [answer, haddress, hentry, hnow, hget]

/-- What a round leaves to the readers. -/
theorem Intact.answer_reclaim (h : P.Intact) {a : KeyAddress} {P' : Planes T}
    (hr : P.reclaim tiers = some (a, P')) (k : KeyRef) :
    P'.answer tiers k = if P.address k = a then .error .miss else P.answer tiers k := by
  have hsame := h.answer_pick tiers cacheLadder Manager.maxEvictionAttempts k
  have hintact := h.pick tiers cacheLadder Manager.maxEvictionAttempts
  have hev : ∀ {rung a}, (P.pick tiers cacheLadder Manager.maxEvictionAttempts).1 = some (rung, a) →
    (P.pick tiers cacheLadder Manager.maxEvictionAttempts).2.evictable a = true := evictable_of_pick
  have hframe : (P.pick tiers cacheLadder Manager.maxEvictionAttempts).2.address k = P.address k := by
    rw [address, placement_pick, address]
  unfold reclaim at hr
  generalize P.pick tiers cacheLadder Manager.maxEvictionAttempts = x at hsame hintact hev hr hframe
  obtain ⟨victim, P₁⟩ := x
  cases victim with
  | none => cases hr
  | some ra =>
    obtain ⟨rung, b⟩ := ra
    simp only [Option.some.injEq, Prod.mk.injEq] at hr
    obtain ⟨rfl, rfl⟩ := hr
    rw [hintact.answer_evict rung (hev rfl), hframe, hsame]

end Rounds

end Planes

/-! ## How a write ends -/

/-- A bound rung at or below the policy's choice accepts the write. -/
def Planes.Takes (tiers : ℕ) (tier : TierId) (key : KeyRef) (v : V) (ttl : Option ℕ) (P : Planes T) :
    Prop :=
  ∃ rung ∈ Manager.descent tier, Manager.hasTier tiers rung = true ∧ P.accepts key v ttl rung = true

namespace Manager

open Planes

variable [BoundedTier T V] {P Q : Planes T} {key : KeyRef} {o : ℕ → Req V → Outcome V} {n tiers : ℕ}
  {a : Args} {v : V} {tier : TierId}

/-- How the passes of a write may end: a rung takes the write, after some rounds; no rung takes it after
any number of rounds, and the rounds have cost what they gave up; or the control plane has no room. -/
inductive PassesEnd (tiers : ℕ) (key : KeyRef) (a : Args) (v : V) (tier : TierId) (passes : ℕ)
    (o : Req V → Outcome V) (Q : Planes T) : Except CacheError Unit → Planes T → Prop
  | stored {P' : Planes T}
      (h : ∃ i < passes, ∃ Q', Q.reclaimed tiers i = some Q' ∧ Q'.Takes tiers tier key v a.ttl) :
      PassesEnd tiers key a v tier passes o Q (.ok ()) P'
  | exhausted {P' : Planes T}
      (h : ∀ i < passes, ∀ Q', Q.reclaimed tiers i = some Q' → ¬Q'.Takes tiers tier key v a.ttl)
      (answers : ∀ k, P'.answer tiers k =
        if Q.address k ∈ Q.victims tiers passes then .error .miss else Q.answer tiers k) :
      PassesEnd tiers key a v tier passes o Q (.error .capacityExhausted) P'
  | full {P' : Planes T} (h : ∃ rung, (o (.prepare rung .write)).room = false) :
      PassesEnd tiers key a v tier passes o Q (.error .configurationError) P'

omit [CacheTier T V] in
theorem address_eq (h : P.placement = Q.placement) (k : KeyRef) : P.address k = Q.address k := by
  rw [address, address, h]

/-- The passes of a write over planes that resemble `Q`. -/
theorem setPasses_ends (hb : (descent tier).any (hasTier tiers) = true) (passes : ℕ) (hQ : Q.Intact)
    (h : Alike (Q.address key) P Q) (e : CacheError) (he : passes = 0 → e = .capacityExhausted) :
    ∃ r P', (setPasses tiers a v tier passes e).eval (serve key o) (P, n) = some (r, P', n) ∧
      PassesEnd tiers key a v tier passes (o n) Q r P' := by
  induction passes generalizing P Q e with
  | zero =>
    rw [he rfl]
    exact ⟨_, P, rfl, .exhausted (by simp) fun k => by simpa [victims] using h.answer tiers k⟩
  | succ passes ih =>
    have hP := h.intact hQ
    have haddress : Q.address key = P.address key := (address_eq h.placement key).symm
    obtain ⟨r, P₁, heval, hends⟩ := walk_ends (a := a) (v := v) (o := o) (n := n) hP
      (haddress ▸ h : Alike (P.address key) P Q) e
    rw [setPasses, Prog.eval_bind, heval]
    cases hends with
    | accepted htakes => exact ⟨_, P₁, rfl, .stored ⟨0, by omega, Q, rfl, htakes⟩⟩
    | full hroom => exact ⟨_, P₁, rfl, .full hroom⟩
    | refused hrefused hlike =>
      have hP₁ := hlike.intact hQ
      have hno : ¬Q.Takes tiers tier key v a.ttl := by
        intro hyes
        obtain ⟨rung, hmem, hbound, hyes⟩ := hyes
        simp [hrefused rung hmem hbound] at hyes
      obtain ⟨hsame, hlike₁⟩ := hlike.freed tiers cacheLadder maxEvictionAttempts
      simp only [hb, if_true, Option.bind_some, Prog.eval_bind]
      rw [silent_eq, tryFreeSomewhere_eval hP₁]
      rw [← haddress] at hlike₁
      generalize P₁.freed tiers cacheLadder maxEvictionAttempts = x at hsame hlike₁
      obtain ⟨found, P₂⟩ := x
      cases hr : Q.reclaim tiers with
      | none =>
        rw [freed_of_reclaim_none hr] at hsame hlike₁
        obtain rfl : found = false := hsame
        refine ⟨_, P₂, rfl, .exhausted ?_ fun k => ?_⟩
        · rw [forall_reclaimed_succ]
          exact ⟨hno, by simp [hr]⟩
        · rw [hlike₁.answer, hQ.answer_pick]
          simp [victims, hr]
      | some x =>
        obtain ⟨b, Q'⟩ := x
        have hQ₁ := hQ.freed tiers cacheLadder maxEvictionAttempts
        rw [freed_of_reclaim hr] at hsame hlike₁ hQ₁
        obtain rfl : found = true := hsame
        have haddress' : ∀ k, Q'.address k = Q.address k := address_eq (placement_reclaim hr)
        rw [← haddress' key] at hlike₁
        obtain ⟨r, P', heval', hends'⟩ := ih hQ₁ hlike₁ .capacityExhausted fun _ => rfl
        refine ⟨r, P', heval', ?_⟩
        cases hends' with
        | stored hx =>
          obtain ⟨i, hi, Q'', hQ'', htakes⟩ := hx
          refine .stored ⟨i + 1, by omega, Q'', ?_, htakes⟩
          simpa [reclaimed, hr] using hQ''
        | full hx => exact .full hx
        | exhausted hx hans =>
          refine .exhausted ?_ fun k => ?_
          · rw [forall_reclaimed_succ]
            refine ⟨hno, ?_⟩
            intro x hx'
            obtain rfl : (b, Q') = x := Option.some.inj (hr.symm.trans hx')
            exact hx
          · rw [hans, hQ.answer_reclaim hr, haddress']
            simp only [victims, hr, List.mem_cons]
            by_cases hk : Q.address k = b <;> simp [hk]

end Manager

end TheSix
