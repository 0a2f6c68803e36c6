import TheSix.Planes.Reads

/-!
# Reclaiming a slot

A rung nominates addresses one after another (`nominees`), and the control plane gives up the first one
whose entry is `Ready`, without an owner and without an intent (`evictable`). `tryEvictAtRung` then
advances the entry and takes the address out of the rung (`evict`).

The control plane does not look at the rung the entry names. An eviction at a rung therefore costs an
entry that lives on another rung whenever an older copy of it is nominated (`evict_spares_iff`).
-/

namespace TheSix

open Coroutine

variable {T V : Type} [CacheTier T V]

namespace Planes

/-- The control plane lets the entry at an address be evicted. -/
def evictable (P : Planes T) (a : KeyAddress) : Bool := (P.slots a).reserveEviction.1

/-- The next addresses a rung nominates, up to a number. -/
def nominees (rung : TierId) : ℕ → Planes T → List KeyAddress
  | 0, _ => []
  | n + 1, P =>
    match P.nominate rung with
    | (none, _) => []
    | (some a, P') => a :: nominees rung n P'

/-- The first evictable address among the next nominees of a rung, what is left of the attempts, and
the planes after these nominations. -/
def pickAt (rung : TierId) : ℕ → Planes T → Option KeyAddress × ℕ × Planes T
  | 0, P => (none, 0, P)
  | n + 1, P =>
    match P.nominate rung with
    | (none, P') => (none, n, P')
    | (some a, P') => if P'.evictable a then (some a, n, P') else pickAt rung n P'

/-- Advance the entry at an address and take the address out of a rung. -/
def evict (P : Planes T) (rung : TierId) (a : KeyAddress) : Bool × Planes T :=
  (P.putSlot a (P.slots a).reserveEviction.2).takeOut rung a

/-- An eviction at a rung, with the attempts that are left: whether it has freed a slot, and what is left
of the attempts. -/
def evictAt (P : Planes T) (rung : TierId) (n : ℕ) : (Bool × ℕ) × Planes T :=
  match P.pickAt rung n with
  | (some a, left, P') => (((P'.evict rung a).1, left), (P'.evict rung a).2)
  | (none, left, P') => ((false, left), P')

variable {P : Planes T} {key : KeyRef} {o : ℕ → Req V → Outcome V} {m : ℕ} {rung : TierId}

/-- Nothing but what is on a rung has changed. -/
structure OnlyRung (rung : TierId) (P P' : Planes T) : Prop where
  slots : P'.slots = P.slots
  now : P'.now = P.now
  placement : P'.placement = P.placement
  rungs : ∀ r ≠ rung, P'.rungs r = P.rungs r

theorem OnlyRung.trans {P P' P'' : Planes T} (h : OnlyRung rung P P') (h' : OnlyRung rung P' P'') :
    OnlyRung rung P P'' where
  slots := h'.slots.trans h.slots
  now := h'.now.trans h.now
  placement := h'.placement.trans h.placement
  rungs r hr := (h'.rungs r hr).trans (h.rungs r hr)

theorem OnlyRung.evictable {P P' : Planes T} (h : OnlyRung rung P P') : P'.evictable = P.evictable := by
  funext a
  rw [Planes.evictable, h.slots, Planes.evictable]

theorem onlyRung_nominate (P : Planes T) (rung : TierId) : OnlyRung rung P (P.nominate rung).2 where
  slots := rfl
  now := rfl
  placement := rfl
  rungs _ hr := Function.update_of_ne hr _ _

theorem onlyRung_pickAt (P : Planes T) (rung : TierId) (n : ℕ) :
    OnlyRung rung P (P.pickAt rung n).2.2 := by
  induction n generalizing P with
  | zero => exact ⟨rfl, rfl, rfl, fun _ _ => rfl⟩
  | succ n ih =>
    have hstep := onlyRung_nominate P rung
    rw [pickAt]
    generalize P.nominate rung = x at hstep
    obtain ⟨candidate, P'⟩ := x
    cases candidate with
    | none => exact hstep
    | some a =>
      simp only
      split_ifs
      · exact hstep
      · exact hstep.trans (ih P')

/-- The pick is the first evictable nominee. -/
theorem pickAt_eq_find (P : Planes T) (rung : TierId) (n : ℕ) :
    (P.pickAt rung n).1 = (P.nominees rung n).find? P.evictable := by
  induction n generalizing P with
  | zero => rfl
  | succ n ih =>
    have hstep := onlyRung_nominate P rung
    rw [pickAt, nominees]
    generalize P.nominate rung = x at hstep
    obtain ⟨candidate, P'⟩ := x
    cases candidate with
    | none => rfl
    | some a =>
      simp only [List.find?_cons]
      rw [← hstep.evictable]
      cases P'.evictable a with
      | true => rfl
      | false => exact ih P'

/-- What is evicted is on the planes that were asked. -/
theorem evictable_of_pickAt {n : ℕ} {a : KeyAddress} (h : (P.pickAt rung n).1 = some a) :
    P.evictable a = true := by
  rw [pickAt_eq_find] at h
  exact List.find?_some h

theorem putSlot_self (P : Planes T) (a : KeyAddress) : P.putSlot a (P.slots a) = P := by
  simp [putSlot]

theorem reserveEviction_of_not_evictable {a : KeyAddress} (h : P.evictable a = false) :
    serve key o (.reserveEviction a) (P, m) = some (false, P, m) := by
  have hslot : (P.slots a).reserveEviction = (false, P.slots a) := by
    unfold evictable at h
    cases hs : P.slots a with
    | none => rfl
    | some e =>
      rw [hs, KeySlot.reserveEviction, KeySlot.withEntry_some] at h
      rw [KeySlot.reserveEviction, KeySlot.withEntry_some]
      unfold ControlEntry.reserveEviction at h ⊢
      split_ifs at h ⊢ <;> simp_all
  simp [serve, exec, onSlot, hslot, putSlot_self, Req.isFetch]

theorem reserveEviction_of_evictable {a : KeyAddress} (h : P.evictable a = true) :
    serve key o (.reserveEviction a) (P, m) =
      some (true, P.putSlot a (P.slots a).reserveEviction.2, m) := by
  have hslot : (P.slots a).reserveEviction.1 = true := h
  simp [serve, exec, onSlot, hslot, Req.isFetch]

end Planes

namespace Manager

open Planes

variable {P : Planes T} {key : KeyRef} {o : ℕ → Req V → Outcome V} {m : ℕ}

/-- What `try_evict_at_rung` does. -/
theorem tryEvictAtRung_eval (P : Planes T) (rung : TierId) (n : ℕ) :
    (tryEvictAtRung rung n).eval (serve key o) (P, m) =
      some ((P.evictAt rung n).1, (P.evictAt rung n).2, m) := by
  induction n generalizing P with
  | zero => rfl
  | succ n ih =>
    have hserve : serve key o (.evictionCandidate rung) (P, m) =
        some ((P.nominate rung).1, (P.nominate rung).2, m) := rfl
    rw [tryEvictAtRung, evictAt, pickAt]
    simp only [call, Prog.req_bind, Prog.ret_bind]
    rw [Prog.eval_req hserve]
    generalize P.nominate rung = x
    obtain ⟨candidate, P'⟩ := x
    cases candidate with
    | none => rfl
    | some a =>
      simp only
      cases he : P'.evictable a with
      | false =>
        rw [Prog.eval_req (reserveEviction_of_not_evictable he)]
        simp only [Bool.false_eq_true, if_false]
        exact ih P'
      | true =>
        rw [Prog.eval_req (reserveEviction_of_evictable he)]
        rfl

end Manager

/-! ## What an eviction costs -/

namespace Planes

variable {P : Planes T} {rung : TierId} {n : ℕ}

/-- An evictable entry is `Ready`, and `Stale` once it is evicted. -/
theorem entry_of_evictable {a : KeyAddress} (h : P.evictable a = true) :
    (P.entry a).state = .ready ∧ (P.slots a).reserveEviction.2 = some (P.entry a).evicted := by
  unfold evictable at h
  cases hs : P.slots a with
  | none => rw [hs] at h; cases h
  | some e =>
    rw [hs, KeySlot.reserveEviction, KeySlot.withEntry_some] at h
    rw [KeySlot.reserveEviction, KeySlot.withEntry_some]
    unfold ControlEntry.reserveEviction at h ⊢
    split_ifs at h ⊢ with h₁ h₂
    rw [not_or, not_ne_iff] at h₁
    simpa [entry, hs] using h₁.1

/-- What a round of nominations and an eviction leave of the entries. -/
theorem evictAt_entry (P : Planes T) (rung : TierId) (n : ℕ) (a : KeyAddress) :
    ((P.evictAt rung n).2).entry a =
      if (P.nominees rung n).find? P.evictable = some a then (P.entry a).evicted
      else P.entry a := by
  have honly := onlyRung_pickAt P rung n
  rw [← pickAt_eq_find, evictAt]
  have hev : ∀ {x}, (P.pickAt rung n).1 = some x → P.evictable x = true := evictable_of_pickAt
  generalize P.pickAt rung n = x at honly hev
  obtain ⟨victim, left, P'⟩ := x
  have hslots : P'.slots = P.slots := honly.slots
  cases victim with
  | none => simp [entry, hslots]
  | some v =>
    have hv := entry_of_evictable (honly.evictable ▸ hev rfl : P'.evictable v = true)
    have hentry : P'.entry a = P.entry a := by rw [entry, entry, hslots]
    by_cases ha : v = a
    · subst ha
      simp [evict, takeOut, putRung, putSlot, entry, hv.2] at hentry ⊢
      rw [hentry]
    · simp [evict, takeOut, putRung, putSlot, entry, Ne.symm ha, ha] at hentry ⊢
      exact hentry

theorem evictAt_frame (P : Planes T) (rung : TierId) (n : ℕ) :
    (P.evictAt rung n).2.now = P.now ∧ (P.evictAt rung n).2.placement = P.placement ∧
      ∀ r ≠ rung, (P.evictAt rung n).2.rungs r = P.rungs r := by
  have honly := onlyRung_pickAt P rung n
  rw [evictAt]
  generalize P.pickAt rung n = x at honly
  obtain ⟨victim, left, P'⟩ := x
  cases victim with
  | none => exact ⟨honly.now, honly.placement, honly.rungs⟩
  | some v =>
    refine ⟨honly.now, honly.placement, fun r hr => ?_⟩
    rw [← honly.rungs r hr]
    exact Function.update_of_ne hr _ _

end Planes

/-- A read of a fixed-capacity rung never answers `Miss`. -/
theorem FixedTierStub.get_ne_miss {V : Type} [IntegrityCheck V] (t : FixedTierStub V) (k : KeyRef)
    (now : ℕ) : (t.get k now).1 ≠ .error .miss := by
  rw [get_fst]
  generalize (t.findSlot (t.placementOf k) (KeyFingerprint.of k) now).bind t.slotAt = s
  cases s with
  | none => simp [readSlot]
  | some s =>
    rw [readSlot]
    cases t.pool.get s.poolIdx with
    | none => simp
    | some v =>
      simp only
      split_ifs <;> simp

namespace Planes

theorem answer_of_not_ready {tiers : ℕ} {P : Planes T} {k : KeyRef}
    (h : (P.entry (P.address k)).state ≠ .ready) : P.answer tiers k = .error .miss :=
  if_neg fun hr => h hr.1

theorem answer_ne_miss {V : Type} [IntegrityCheck V] {tiers : ℕ} (P : Planes (FixedTierStub V))
    {k : KeyRef} (hs : (P.entry (P.address k)).state = .ready)
    (he : (P.entry (P.address k)).isExpired P.now = false) :
    P.answer tiers k ≠ .error .miss := by
  rw [answer, if_pos ⟨hs, he⟩]
  split_ifs
  · exact FixedTierStub.get_ne_miss _ k P.now
  · simp

end Planes

/-- **An eviction at a rung spares the entries of the other rungs** exactly when the first evictable one
of the next nominees of the rung, if there is one, has its value there, or has expired. -/
theorem evict_spares_iff {V : Type} [IntegrityCheck V] (tiers : ℕ) (P : Planes (FixedTierStub V))
    (rung : TierId) (n : ℕ) (key : KeyRef) (o : ℕ → Req V → Outcome V) :
    ∃ freed left P', (Manager.tryEvictAtRung rung n).eval (Planes.serve key o) (P, 0) =
        some ((freed, left), P', 0) ∧
      ((∀ k a d o', a.keyRef = .ok k → a.admitEncoded = .ok d →
          (P.entry (P.address k)).state = .ready → (P.entry (P.address k)).tier ≠ rung →
          (Call.get a).replyOn tiers o' P' = (Call.get a).replyOn tiers o' P) ↔
        ∀ k, (P.nominees rung n).find? P.evictable = some (P.address k) →
          (P.entry (P.address k)).tier = rung ∨
            (P.entry (P.address k)).isExpired P.now = true) := by
  obtain ⟨hnow, hplacement, hrungs⟩ := P.evictAt_frame rung n
  refine ⟨_, _, _, Manager.tryEvictAtRung_eval P rung n, ?_⟩
  have haddress : ∀ k, (P.evictAt rung n).2.address k = P.address k := by
    intro k
    rw [Planes.address, Planes.address, hplacement]
  have hget : ∀ {k a d} o', a.keyRef = .ok k → a.admitEncoded = .ok d →
      (P.entry (P.address k)).state = .ready →
      (Call.get a).replyOn tiers o' P = some (.read (P.answer tiers k)) ∧
        (Call.get a).replyOn tiers o' (P.evictAt rung n).2 =
          some (.read ((P.evictAt rung n).2.answer tiers k)) := by
    intro k a d o' hk hgate hready
    refine ⟨Manager.get_replyOn hgate hk (by simp [hready]) (by simp [hready]), ?_⟩
    refine Manager.get_replyOn hgate hk ?_ ?_ <;> rw [haddress, Planes.evictAt_entry]
    · split_ifs <;> simp [hready]
    · split_ifs <;> simp [hready]
  constructor
  · intro hsame k hpick
    by_contra hcon
    rw [not_or, Bool.not_eq_true] at hcon
    have hready := (Planes.entry_of_evictable (List.find?_some hpick)).1
    have hgate : (Args.naming k .L0 none).admitEncoded = .ok ⟨true, .L0, .closed⟩ := rfl
    have hreply := hsame k (.naming k .L0 none) _ (fun _ _ => {}) rfl hgate hready hcon.1
    obtain ⟨hbefore, hafter⟩ := hget (fun _ _ => {}) rfl hgate hready
    rw [hbefore, hafter, Option.some.injEq, Reply.read.injEq,
      Planes.answer_of_not_ready (by rw [haddress, Planes.evictAt_entry, if_pos hpick]; simp)]
      at hreply
    exact P.answer_ne_miss hready hcon.2 hreply.symm
  · intro hpick k a d o' hk hgate hready htier
    obtain ⟨hbefore, hafter⟩ := hget o' hk hgate hready
    rw [hbefore, hafter]
    congr 2
    by_cases hvictim : (P.nominees rung n).find? P.evictable = some (P.address k)
    · have hexpired := (hpick k hvictim).resolve_left htier
      rw [Planes.answer_of_not_ready (by rw [haddress, Planes.evictAt_entry, if_pos hvictim]; simp),
        Planes.answer, if_neg (by simp [hexpired])]
    · have hentry : (P.evictAt rung n).2.entry (P.address k) = P.entry (P.address k) := by
        rw [Planes.evictAt_entry, if_neg hvictim]
      simp only [Planes.answer, haddress, hentry, hnow, hrungs _ htier]

/-- An empty rung with one slot. -/
def FixedTierStub.oneSlot : FixedTierStub (List UInt8) :=
  ⟨⟨[none], [0], 1⟩, [none], .default, 0, 0⟩

example : FixedTierStub.withCapacity 1 .default = .ok FixedTierStub.oneSlot := rfl

/-- Two rungs of one slot each. -/
def Planes.oneSlotEach : Planes (FixedTierStub (List UInt8)) :=
  .empty .default fun _ => FixedTierStub.oneSlot

/-- A value is set on `L0`, and then another one on `L1`. -/
def setOnBoth : List (Act (List UInt8)) :=
  [{ call := .set (.naming [0, 107] .L0 none) [1] },
    { call := .set (.naming [0, 107] .L1 none) [2] }]

/-- An eviction at `L0` finds the older copy: the value on `L1`, which was read before, is a miss after
it. -/
theorem setOnBoth_evict_misses :
    (Planes.oneSlotEach.runs 2 setOnBoth).map (fun s =>
        ((s.2.entry (s.2.address [0, 107])).state, (s.2.entry (s.2.address [0, 107])).tier)) =
        some (.ready, .L1) ∧
      (Planes.oneSlotEach.runs 2 setOnBoth).bind (fun s =>
        (Call.get (.naming [0, 107] .L0 none)).replyOn 2 (fun _ _ => {}) s.2) =
        some (.read (.ok (some [2]))) ∧
      (Planes.oneSlotEach.runs 2 setOnBoth).bind (fun s =>
        ((Manager.tryEvictAtRung .L0 8).eval (Planes.serve [] fun _ _ => {}) (s.2, 0)).bind fun s' =>
          (Call.get (.naming [0, 107] .L0 none)).replyOn 2 (fun _ _ => {}) s'.2.1) =
        some (.read (.error .miss)) := by
  decide +kernel

end TheSix
