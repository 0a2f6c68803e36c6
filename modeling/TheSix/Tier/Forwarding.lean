import TheSix.Lib.Links
import TheSix.Tier.HotRung

/-!
# Where a call ends up

A `HotRungTier` holds any tier of its rung, so a hot rung may hold another one, or itself: both
`HotRungTier::new` and `hot_swap` look at the rung of the tier they are handed and at nothing else.
A call is forwarded from one to the next until a tier answers by itself. `wired_answered_iff` says
when it always does, over every order of constructing and swapping tiers: unless a swap hands a hot
rung a tier that forwards to it. The tier that answers is of the rung that was called.
-/

namespace TheSix

open Links

/-! ## The rungs of the tiers -/

namespace TierHeap

/-- The rungs of the tiers allocated, which no swap changes. -/
def rungs (heap : TierHeap) : List TierId := heap.map TierObject.tierId

theorem tierId_eq (heap : TierHeap) (a : TierArc) : heap.tierId a = heap.rungs[a]? := by
  rw [tierId, rungs, List.getElem?_map]

theorem rungs_append (heap made : TierHeap) :
    rungs (heap ++ made : List TierObject) = heap.rungs ++ made.rungs := List.map_append

theorem rungs_hotSwap (heap : TierHeap) (hot replacement : TierArc) :
    (HotRungTier.hotSwap heap hot replacement).2.rungs = heap.rungs := by
  unfold HotRungTier.hotSwap
  split
  · rename_i rung displaced hobject
    split_ifs
    · rfl
    · apply List.ext_getElem?
      intro a
      rw [← tierId_eq, ← tierId_eq, tierId, tierId]
      by_cases ha : a = hot
      · have hlt := (List.getElem?_eq_some_iff.mp hobject).1
        rw [ha, List.getElem?_set_self hlt, hobject]
        rfl
      · rw [List.getElem?_set_ne (Ne.symm ha)]
  · rfl

/-- A hot rung takes the tiers of its own rung. -/
theorem hotSwap_isOk {heap : TierHeap} {hot : TierArc} {rung : TierId}
    (h : HotRungTier.rung heap hot = some rung) (replacement : TierArc) :
    (HotRungTier.hotSwap heap hot replacement).1.isOk =
      decide (heap.rungs[replacement]? = some rung) := by
  rw [← tierId_eq]
  unfold HotRungTier.rung at h
  unfold HotRungTier.hotSwap
  split at h
  · rename_i served displaced hobject
    obtain rfl : served = rung := Option.some.inj h
    by_cases htier : heap.tierId replacement = some served
    · simp [htier, Except.isOk, Except.toBool]
    · simp [htier, Except.isOk, Except.toBool]
  · cases h

end TierHeap

/-! ## Forwarding -/

/-- The tier inside a hot rung. -/
def TierObject.inner : TierObject → Option TierArc
  | .backend _ => none
  | .hotRung _ inner => some inner

namespace TierHeap

/-- Where a tier forwards its calls to. -/
def link (heap : TierHeap) (a : TierArc) : Option TierArc := heap[a]?.bind TierObject.inner

/-- A call on `a` is answered, by a backend of the rung that `a` says it is. -/
def Answers (heap : TierHeap) (a : TierArc) : Prop :=
  ∃ b rung, heap.tierId a = some rung ∧ Reaches heap a b ∧ heap[b]? = some (.backend rung)

/-- Every hot rung holds a tier that is there, and of its own rung. -/
def Wired (heap : TierHeap) : Prop :=
  ∀ (a : TierArc) (rung : TierId) (inner : TierArc), heap[a]? = some (.hotRung rung inner) →
    heap.tierId inner = some rung

variable {heap : TierHeap} {a b : TierArc} {rung : TierId}

theorem link_eq_some : heap.link a = some b ↔ ∃ rung, heap[a]? = some (.hotRung rung b) := by
  rw [link, Option.bind_eq_some_iff]
  constructor
  · rintro ⟨object, hobject, hinner⟩
    cases object with
    | backend rung => cases hinner
    | hotRung rung inner => exact ⟨rung, Option.some.inj hinner ▸ hobject⟩
  · rintro ⟨rung, hobject⟩
    exact ⟨_, hobject, rfl⟩

theorem link_of_le (h : heap.length ≤ a) : heap.link a = none := by
  rw [link, List.getElem?_eq_none h]
  rfl

theorem reaches_iff : Reaches heap a b ↔ Leads heap.link a b := by
  constructor
  · intro h
    induction h with
    | self a => exact .refl
    | forward hobject _ ih => exact .head (link_eq_some.mpr ⟨_, hobject⟩) ih
  · intro h
    induction h using Relation.ReflTransGen.head_induction_on with
    | refl => exact .self _
    | head hstep _ ih =>
      obtain ⟨rung, hobject⟩ := link_eq_some.mp hstep
      exact .forward hobject ih

/-- Forwarding keeps the rung. -/
theorem Wired.tierId_of_reaches (h : heap.Wired) (hreach : Reaches heap a b) :
    heap.tierId a = some rung → heap.tierId b = some rung := by
  induction hreach with
  | self a => exact id
  | forward hobject _ ih =>
    intro hrung
    rw [tierId, hobject] at hrung
    obtain rfl := Option.some.inj hrung
    exact ih (h _ _ _ hobject)

/-- Calls are answered where forwarding ends. -/
theorem Wired.answers_iff (h : heap.Wired) :
    (∀ a < heap.length, heap.Answers a) ↔ ∀ a, Ends heap.link a := by
  constructor
  · intro hall a
    by_cases ha : a < heap.length
    · obtain ⟨b, rung, -, hreach, hb⟩ := hall a ha
      refine ends_of_leads (reaches_iff.mp hreach) (ends_of_none ?_)
      rw [link, hb]
      rfl
    · exact ends_of_none (link_of_le (Nat.le_of_not_lt ha))
  · intro hends a ha
    obtain ⟨b, hlead, hlast⟩ := (hends a).exists_end
    obtain ⟨rung, hrung⟩ : ∃ rung, heap.tierId a = some rung :=
      ⟨heap[a].tierId, by rw [tierId, List.getElem?_eq_getElem ha]; rfl⟩
    have hb := h.tierId_of_reaches (reaches_iff.mpr hlead) hrung
    refine ⟨b, rung, hrung, reaches_iff.mpr hlead, ?_⟩
    -- the last tier is there, and forwards no further
    rw [tierId, Option.map_eq_some_iff] at hb
    obtain ⟨object, hobject, rfl⟩ := hb
    cases object with
    | backend rung => exact hobject
    | hotRung rung inner =>
      rw [link_eq_some.mpr ⟨rung, hobject⟩] at hlast
      cases hlast

end TierHeap

/-! ## Wiring over time -/

/-- What is done with tiers: a backend is built, a hot rung is put around a tier, or a tier is
swapped in. -/
inductive Wiring
  | bind (rung : TierId)
  | wrap (rung : TierId) (initial : TierArc)
  | swap (hot replacement : TierArc)
  deriving DecidableEq, Repr

/-- The tiers after one event. A refused one leaves them as they are. -/
def Wiring.after (heap : TierHeap) : Wiring → TierHeap
  | .bind rung => (heap.alloc (.backend rung)).2
  | .wrap rung initial =>
    match HotRungTier.new heap rung initial with
    | .ok (_, heap') => heap'
    | .error _ => heap
  | .swap hot replacement => (HotRungTier.hotSwap heap hot replacement).2

/-- The tiers after a run of events. -/
def wired (events : List Wiring) : TierHeap := events.foldl Wiring.after []

/-- A swap that is accepted although the tier swapped in forwards to the hot rung. -/
def Wiring.ClosesCircle (heap : TierHeap) : Wiring → Prop
  | .swap hot replacement =>
    (HotRungTier.hotSwap heap hot replacement).1.isOk ∧ Reaches heap replacement hot
  | _ => False

namespace TierHeap

variable {heap : TierHeap}

/-- A tier that is allocated brings its own link. -/
theorem link_alloc (heap : TierHeap) (object : TierObject) :
    (heap.alloc object).2.link = Function.update heap.link heap.length object.inner := by
  funext a
  rw [link, alloc]
  rcases Nat.lt_trichotomy a heap.length with ha | rfl | ha
  · rw [Function.update_of_ne ha.ne, List.getElem?_append_left ha, link]
  · rw [Function.update_self, List.getElem?_concat_length]
    rfl
  · rw [Function.update_of_ne ha.ne', link_of_le ha.le, List.getElem?_eq_none]
    · rfl
    · rw [List.length_append, List.length_singleton]
      exact ha

/-- An accepted swap links the hot rung to its new tier. -/
theorem link_hotSwap {hot replacement : TierArc}
    (h : (HotRungTier.hotSwap heap hot replacement).1.isOk) :
    (HotRungTier.hotSwap heap hot replacement).2.link =
      Function.update heap.link hot (some replacement) := by
  unfold HotRungTier.hotSwap at h ⊢
  split at h
  · rename_i rung displaced hobject
    split_ifs at h ⊢
    · cases h
    · funext a
      have hlt := (List.getElem?_eq_some_iff.mp hobject).1
      rw [link]
      by_cases ha : a = hot
      · rw [ha, Function.update_self, List.getElem?_set_self hlt]
        rfl
      · rw [Function.update_of_ne ha, List.getElem?_set_ne (Ne.symm ha), link]
  · cases h

theorem tierId_alloc {heap : TierHeap} {a : TierArc} {rung : TierId} (object : TierObject)
    (h : heap.tierId a = some rung) : (heap.alloc object).2.tierId a = some rung := by
  rw [tierId_eq] at h
  rw [tierId_eq, alloc, rungs_append, List.getElem?_append_left (List.getElem?_eq_some_iff.mp h).1,
    h]

theorem hotSwap_of_refused {hot replacement : TierArc}
    (h : (HotRungTier.hotSwap heap hot replacement).1.isOk = false) :
    (HotRungTier.hotSwap heap hot replacement).2 = heap := by
  unfold HotRungTier.hotSwap at h ⊢
  split at h
  · split_ifs at h ⊢
    · rfl
    · cases h
  · rfl

theorem tierId_hotSwap (heap : TierHeap) (hot replacement a : TierArc) :
    (HotRungTier.hotSwap heap hot replacement).2.tierId a = heap.tierId a := by
  rw [tierId_eq, tierId_eq, rungs_hotSwap]

/-- Allocating keeps a heap wired if the tier allocated holds one of its own rung. -/
theorem Wired.alloc (h : heap.Wired) {object : TierObject}
    (hobject : ∀ inner, object.inner = some inner → heap.tierId inner = some object.tierId) :
    (heap.alloc object).2.Wired := by
  intro a rung inner ha
  apply tierId_alloc
  rw [TierHeap.alloc, List.getElem?_append] at ha
  split_ifs at ha with hlt
  · exact h a rung inner ha
  · -- the new tier itself
    have hnew := List.mem_singleton.mp (List.mem_of_getElem? ha)
    subst hnew
    exact hobject inner rfl

theorem Wired.hotSwap (h : heap.Wired) (hot replacement : TierArc) :
    (HotRungTier.hotSwap heap hot replacement).2.Wired := by
  intro a rung inner ha
  rw [tierId_hotSwap]
  unfold HotRungTier.hotSwap at ha
  split at ha
  · rename_i served displaced hobject
    split_ifs at ha with hrefused
    · exact h a rung inner ha
    · by_cases hhot : a = hot
      · rw [hhot, List.getElem?_set_self (List.getElem?_eq_some_iff.mp hobject).1] at ha
        cases ha
        exact not_not.mp hrefused
      · rw [List.getElem?_set_ne (Ne.symm hhot)] at ha
        exact h a rung inner ha
  · exact h a rung inner ha

theorem Wired.after (h : heap.Wired) (event : Wiring) : (event.after heap).Wired := by
  cases event with
  | bind rung => exact h.alloc fun inner hinner => by cases hinner
  | wrap rung initial =>
    rw [Wiring.after, HotRungTier.new]
    split_ifs with hrefused
    · exact h
    · exact h.alloc fun inner hinner => by
        cases hinner
        exact not_not.mp hrefused
  | swap hot replacement => exact h.hotSwap hot replacement

/-- Only a swap that closes a circle stops a call from being answered. -/
theorem Wired.ends_after_iff (h : heap.Wired) (hends : ∀ a, Ends heap.link a) (event : Wiring) :
    (∀ a, Ends (event.after heap).link a) ↔ ¬ event.ClosesCircle heap := by
  cases event with
  | bind rung =>
    have hsame : (heap.alloc (.backend rung)).2.link = heap.link := by
      have hnone : (TierObject.backend rung).inner = heap.link heap.length :=
        (link_of_le (le_refl heap.length)).symm
      rw [link_alloc, hnone, Function.update_eq_self]
    rw [Wiring.after, hsame]
    exact iff_of_true hends not_false
  | wrap rung initial =>
    refine iff_of_true ?_ not_false
    rw [Wiring.after, HotRungTier.new]
    split_ifs with hrefused
    · exact hends
    · -- the new hot rung is nothing that its tier can lead to
      show ∀ a, Ends (heap.alloc (.hotRung rung initial)).2.link a
      rw [link_alloc]
      refine (ends_update_iff hends _ _).mpr fun hlead => ?_
      have hrung := h.tierId_of_reaches (reaches_iff.mpr hlead) (not_not.mp hrefused)
      rw [tierId, List.getElem?_eq_none (le_refl _)] at hrung
      cases hrung
  | swap hot replacement =>
    show (∀ a, Ends (HotRungTier.hotSwap heap hot replacement).2.link a) ↔ ¬ (_ ∧ _)
    cases hok : (HotRungTier.hotSwap heap hot replacement).1.isOk with
    | true => rw [link_hotSwap hok, ends_update_iff hends, reaches_iff, and_iff_right rfl]
    | false =>
      rw [hotSwap_of_refused hok]
      exact iff_of_true hends fun h => Bool.false_ne_true h.1

end TierHeap

/-- A tier that answers by itself forwards to no hot rung. -/
theorem not_closesCircle_of_backend {heap : TierHeap} {hot replacement : TierArc} {rung : TierId}
    (h : heap[replacement]? = some (.backend rung)) :
    ¬ (Wiring.swap hot replacement).ClosesCircle heap := by
  rintro ⟨hok, hreach⟩
  cases hreach with
  | self =>
    rw [HotRungTier.hotSwap, h] at hok
    cases hok
  | forward hobject =>
    rw [h] at hobject
    cases hobject

/-- A hot rung is a tier of its own rung. -/
example : (Wiring.swap 1 1).ClosesCircle (wired [.bind .L3, .wrap .L3 0]) := ⟨rfl, .self 1⟩

/-! ## Runs -/

theorem wired_concat (events : List Wiring) (event : Wiring) :
    wired (events ++ [event]) = event.after (wired events) := by
  rw [wired, wired, List.foldl_append]
  rfl

theorem wired_wired (events : List Wiring) : (wired events).Wired := by
  induction events using List.reverseRecOn with
  | nil => exact fun a rung inner h => by cases h
  | append_singleton events event ih =>
    rw [wired_concat]
    exact ih.after event

/-- **Every call is answered, by a tier of the rung that was called, as long as no swap closes a
circle**, and then only: over every order of building, wrapping and swapping tiers. -/
theorem wired_answered_iff (events : List Wiring) :
    (∀ earlier, earlier <+: events → ∀ a < (wired earlier).length, (wired earlier).Answers a) ↔
      ∀ earlier event, earlier ++ [event] <+: events → ¬ event.ClosesCircle (wired earlier) := by
  simp only [(wired_wired _).answers_iff]
  constructor
  · intro hall earlier event hprefix
    have hends := hall _ hprefix
    rw [wired_concat] at hends
    exact ((wired_wired earlier).ends_after_iff
      (hall earlier ((List.prefix_append _ _).trans hprefix)) event).mp hends
  · intro hno earlier
    induction earlier using List.reverseRecOn with
    | nil => exact fun _ a => Links.ends_of_none rfl
    | append_singleton earlier event ih =>
      intro hprefix
      rw [wired_concat]
      exact ((wired_wired earlier).ends_after_iff
        (ih ((List.prefix_append _ _).trans hprefix)) event).mpr (hno earlier event hprefix)

end TheSix
