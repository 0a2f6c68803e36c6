import TheSix.Basic

/-!
# Rungs that can be rebound

`HotRungTier` of `tier/hot_rung.rs`: a tier that forwards every call to an inner tier, which can be
replaced while the cache is live. Who holds the same `Arc` sees the replacement, who holds another
one does not, so allocations are explicit here. An `Arc` is a position in the list of allocations.
-/

namespace TheSix

/-- `Arc<dyn CacheTier<V>>`. -/
abbrev TierArc := ℕ

/-- What an `Arc` points to: a tier that answers by itself, or a `HotRungTier`. -/
inductive TierObject
  | backend (rung : TierId)
  | hotRung (rung : TierId) (inner : TierArc)
  deriving DecidableEq, Repr

/-- `CacheTier::tier_id`. -/
def TierObject.tierId : TierObject → TierId
  | .backend rung => rung
  | .hotRung rung _ => rung

/-- What has been allocated. -/
abbrev TierHeap := List TierObject

namespace TierHeap

def alloc (heap : TierHeap) (object : TierObject) : TierArc × TierHeap :=
  (heap.length, heap ++ [object])

def tierId (heap : TierHeap) (a : TierArc) : Option TierId := heap[a]?.map TierObject.tierId

end TierHeap

namespace HotRungTier

/-- `HotRungTier::new`, inside its `Arc`. -/
def new (heap : TierHeap) (rung : TierId) (initial : TierArc) :
    Except CacheError (TierArc × TierHeap) :=
  if heap.tierId initial ≠ some rung then .error .configurationError
  else .ok (heap.alloc (.hotRung rung initial))

/-- `HotRungTier::rung`. -/
def rung (heap : TierHeap) (hot : TierArc) : Option TierId :=
  match heap[hot]? with
  | some (.hotRung rung _) => some rung
  | _ => none

/-- `HotRungTier::hot_swap`. It answers with the tier displaced. -/
def hotSwap (heap : TierHeap) (hot replacement : TierArc) :
    Except CacheError TierArc × TierHeap :=
  match heap[hot]? with
  | some (.hotRung rung displaced) =>
    if heap.tierId replacement ≠ some rung then (.error .configurationError, heap)
    else (.ok displaced, heap.set hot (.hotRung rung replacement))
  -- the receiver is a `HotRungTier` by its type
  | _ => (.error .configurationError, heap)

end HotRungTier

namespace HotRungTier

/-- A swap changes the rung of no hot rung. -/
theorem rung_hotSwap (heap : TierHeap) (hot replacement h : TierArc) :
    rung (hotSwap heap hot replacement).2 h = rung heap h := by
  unfold hotSwap
  split
  · rename_i served displaced hobject
    split_ifs
    · rfl
    · by_cases hh : h = hot
      · subst hh
        have hlt : h < List.length heap := (List.getElem?_eq_some_iff.mp hobject).1
        rw [rung, rung, List.getElem?_set_self hlt, hobject]
      · rw [rung, rung, List.getElem?_set_ne (Ne.symm hh)]
  · rfl

theorem rung_append {heap : TierHeap} {h : TierArc} (made : List TierObject)
    (hh : (rung heap h).isSome) : rung (heap ++ made) h = rung heap h := by
  have hlt : h < List.length heap := by
    by_contra hge
    simp [rung, List.getElem?_eq_none (Nat.le_of_not_lt hge)] at hh
  rw [rung, rung, List.getElem?_append_left hlt]

end HotRungTier

/-- A call on the first `Arc` is carried out by, or forwarded through, the second. -/
inductive Reaches (heap : TierHeap) : TierArc → TierArc → Prop
  | self (a : TierArc) : Reaches heap a a
  | forward {a inner b : TierArc} {rung : TierId} (h : heap[a]? = some (.hotRung rung inner))
      (rest : Reaches heap inner b) : Reaches heap a b

/-! ## Rebinding over time -/

/-- What happens to the allocations after assembly: new ones, and swaps. -/
inductive Rebinding
  | alloc (object : TierObject)
  | swap (hot replacement : TierArc)
  deriving DecidableEq, Repr

/-- The allocations after one event. -/
def Rebinding.after (heap : TierHeap) : Rebinding → TierHeap
  | .alloc object => (heap.alloc object).2
  | .swap hot replacement => (HotRungTier.hotSwap heap hot replacement).2

/-- The allocations after a run of events. -/
def rebound (heap : TierHeap) (events : List Rebinding) : TierHeap :=
  events.foldl Rebinding.after heap

/-- The last tier that a swap of `hot` was accepted with. -/
def lastSwapped (hot : TierArc) : TierHeap → List Rebinding → Option TierArc → Option TierArc
  | _, [], last => last
  | heap, event :: rest, last =>
    lastSwapped hot (event.after heap) rest <|
      match event with
      | .alloc _ => last
      | .swap target replacement =>
        if target = hot ∧ (HotRungTier.hotSwap heap target replacement).1.isOk then
          some replacement
        else last

section

variable {heap : TierHeap} {hot : TierArc} {rung : TierId} {inner : TierArc}

/-- One event leaves a hot rung where it is, and replaces its inner tier if it is an accepted swap
of it. -/
theorem after_hotRung (h : heap[hot]? = some (.hotRung rung inner)) (event : Rebinding) :
    (event.after heap)[hot]? = some (.hotRung rung
      (match event with
      | .alloc _ => inner
      | .swap target replacement =>
        if target = hot ∧ (HotRungTier.hotSwap heap target replacement).1.isOk then replacement
        else inner)) := by
  have hlt : hot < heap.length := (List.getElem?_eq_some_iff.mp h).1
  cases event with
  | alloc object => simpa [Rebinding.after, TierHeap.alloc, List.getElem?_append_left hlt] using h
  | swap target replacement =>
    by_cases htarget : target = hot
    · subst htarget
      simp only [Rebinding.after, HotRungTier.hotSwap, h, true_and]
      split_ifs <;> simp_all [Except.isOk, Except.toBool]
    · simp only [Rebinding.after, HotRungTier.hotSwap, htarget, false_and, if_false]
      split
      · split_ifs
        · exact h
        · rw [List.getElem?_set_ne htarget, h]
      · exact h

/-- **A hot rung holds the last tier swapped in**, over any run. -/
theorem rebound_hotRung (events : List Rebinding) {last : Option TierArc}
    (h : heap[hot]? = some (.hotRung rung (last.getD inner))) :
    (rebound heap events)[hot]? =
      some (.hotRung rung ((lastSwapped hot heap events last).getD inner)) := by
  induction events generalizing heap last with
  | nil => exact h
  | cons event rest ih =>
    apply ih
    rw [after_hotRung h event]
    cases event with
    | alloc object => rfl
    | swap target replacement =>
      dsimp only
      split_ifs <;> rfl

end

end TheSix
