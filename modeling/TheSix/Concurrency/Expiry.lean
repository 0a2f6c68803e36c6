import TheSix.Concurrency.Fence

/-!
# Lazy expiry

A `get`, a `get_or_fetch` and a `refresh_detailed` mark an entry stale that they have observed as
`Ready`: the first two because its TTL has elapsed, the third because it is about to be populated
again. The mark is a second call of the control plane. `set_state` takes the lock again and stores
the state it is given, whatever has become of the entry in between, so it leaves newer work in place
only where that is marked stale already (`unchanged_iff_stale`).
-/

namespace TheSix

open Coroutine

variable {V : Type}

/-- What an item shows its thread of the entry: the snapshot of a `peek`, or of an `acquire`. -/
def observed : Served V → Option ControlSnapshot
  | ⟨_, _, _, .peek, s, _, _⟩ | ⟨_, _, _, .acquire _, .ok s, _, _⟩ => some s
  | _ => none

/-- The entry was committed, published, prepared, claimed or invalidated. -/
def renews : Served V → Bool
  | ⟨_, _, _, .commit _ _, .ok _, _, _⟩ | ⟨_, _, _, .publish _ _ _, .ok _, _, _⟩
  | ⟨_, _, _, .prepare _ _, .ok _, _, _⟩ => true
  | ⟨_, _, _, .acquire _, .ok s, _, _⟩ => s.populationOwner
  | ⟨_, _, _, .invalidate, _, pre, _⟩ | ⟨_, _, _, .release, _, pre, _⟩ => pre.slot.isSome
  | _ => false

/-- The item marks the entry stale. -/
def marks : Served V → Bool
  | ⟨_, _, _, .setState .stale, _, _, _⟩ => true
  | _ => false

/-- Another thread has renewed the entry since the item's thread last observed it. -/
def overtakenSinceObserved (it : Served V) (older : List (Served V)) : Bool :=
  (older.takeWhile fun x => !(x.thread == it.thread && (observed x).isSome)).any fun x =>
    x.thread != it.thread && renews x

/-- Only an entry that exists is renewed. -/
theorem isSome_of_renews {it : Served V} {o : Outcome V}
    (h : it.pre.exec it.req o = some (it.ans, it.post)) (hr : renews it = true) :
    it.post.slot.isSome = true := by
  obtain ⟨i, c, l, q, a, pre, post⟩ := it
  dsimp only at h ⊢
  cases q with
  | commit token ttl =>
    rcases KeyWorld.exec_commit h with ⟨e, rfl, -⟩ | ⟨-, -, -, rfl⟩
    · cases hr
    · simp
  | publish g tier ttl =>
    rcases KeyWorld.exec_publish h with ⟨e, rfl, -⟩ | ⟨-, -, rfl⟩
    · cases hr
    · simp
  | prepare tier kind =>
    rcases KeyWorld.exec_prepare h with ⟨e, rfl, -⟩ | ⟨-, rfl⟩
    · cases hr
    · simp
  | acquire tier =>
    rcases KeyWorld.exec_acquire h with ⟨e, rfl, -⟩ | ⟨-, rfl⟩
    · cases hr
    · simp
  | invalidate => exact KeyWorld.exec_isSome h hr
  | release => exact KeyWorld.exec_isSome h hr
  | _ => cases hr

/-- `set_state` stores the state, whatever the entry was. -/
theorem KeyWorld.state_of_setState {w w' : KeyWorld V} {o : Outcome V} {state : EntryState}
    {a : Except CacheError Unit} (h : w.exec (.setState state) o = some (a, w'))
    (hs : w.slot.isSome = true) : w'.entry.state = state := by
  obtain ⟨e, he⟩ := Option.isSome_iff_exists.1 hs
  simp only [exec, onSlot, KeySlot.setState, he, KeySlot.withOrCreate_some, Option.some.injEq,
    Prod.mk.injEq] at h
  obtain ⟨-, rfl⟩ := h
  rfl

variable {tiers : ℕ} {w : KeyWorld V} {schedule : List (Turn V)}

/-- **Lazy expiry undoes newer work.** In any interleaving of any calls, when another operation has
committed, published, prepared, claimed or invalidated the entry since the caller observed it, the
caller's `set_state(Stale)` leaves the state in place exactly when that is `Stale`. -/
theorem unchanged_iff_stale {it : Served V} {older : List (Served V)}
    (hit : it :: older <:+ ((manager V tiers).run w schedule).trace)
    (hmark : marks it = true) (hovertaken : overtakenSinceObserved it older = true) :
    it.post.entry.state = it.pre.entry.state ↔ it.pre.entry.state = .stale := by
  obtain ⟨⟨o, hexec⟩, hlinked⟩ := linked_of_suffix hit
  have hslot : it.pre.slot.isSome = true := by
    obtain ⟨x, hx, hr⟩ := List.any_eq_true.1 hovertaken
    have hmem : x ∈ older := (List.takeWhile_sublist _).subset hx
    obtain ⟨mid, earlier, rfl⟩ := List.append_of_mem hmem
    have hpost : x.post.slot.isSome = true := by
      obtain ⟨w', -, ⟨o', ho'⟩, -⟩ := hlinked.older
      simp only [Bool.and_eq_true] at hr
      exact isSome_of_renews ho' hr.2
    exact hlinked.keeps (P := fun w => w.slot.isSome = true) (fun _ _ hw => hw)
      (fun _ _ _ _ _ => KeyWorld.exec_isSome) hpost
  have hstale : it.post.entry.state = .stale := by
    obtain ⟨i, c, l, q, a, pre, post⟩ := it
    dsimp only at hexec hslot hmark ⊢
    cases q with
    | setState state =>
      cases state with
      | stale => exact KeyWorld.state_of_setState hexec hslot
      | _ => cases hmark
    | _ => cases hmark
  rw [hstale]
  exact eq_comm

/-- One `set` on thread 1, with a TTL of five nanoseconds. -/
def shortLivedSet : List (Turn ℕ) :=
  .start 1 (.set (.pinned .L0 (some 5)) 7) :: List.replicate 6 (.run 1 {})

/-- A reader finds the value expired, and before it marks it a `set` commits a new one. -/
def readAcrossSet : List (Turn ℕ) :=
  shortLivedSet ++ [.env 10, .start 0 (.get (.pinned .L0 none)), .run 0 {}] ++ shortLivedSet

/-- The reader goes on when another one has marked the new value. -/
def markedTwice : List (Turn ℕ) :=
  readAcrossSet ++ [.env 10, .start 2 (.get (.pinned .L0 none)), .run 2 {}, .run 2 {}, .run 0 {}]

theorem markedTwice_trace : ((manager ℕ 1).run .unwritten markedTwice).trace ≠ [] := by
  decide +kernel

theorem unchanged_iff_stale_markedTwice :
    ∃ it older, it :: older <:+ ((manager ℕ 1).run .unwritten markedTwice).trace ∧
      marks it = true ∧ overtakenSinceObserved it older = true ∧
        it.post.entry.state = it.pre.entry.state := by
  have hit : _ <:+ ((manager ℕ 1).run .unwritten markedTwice).trace :=
    ⟨[], List.cons_head_tail markedTwice_trace⟩
  refine ⟨_, _, hit, ?_, ?_, (unchanged_iff_stale hit ?_ ?_).2 ?_⟩ <;> decide +kernel

/-- The reader goes on right after the `set`. -/
def marksCommitted : List (Turn ℕ) := readAcrossSet ++ [.run 0 {}]

theorem marksCommitted_trace : ((manager ℕ 1).run .unwritten marksCommitted).trace ≠ [] := by
  decide +kernel

/-- The fresh value that the `set` has committed is marked stale. -/
theorem marksCommitted_undoes_commit :
    ∃ it older, it :: older <:+ ((manager ℕ 1).run .unwritten marksCommitted).trace ∧
      marks it = true ∧ overtakenSinceObserved it older = true ∧ it.pre.entry.state = .ready ∧
        it.pre.entry.isExpired it.pre.now = false ∧ it.post.entry.state = .stale := by
  refine ⟨_, _, ⟨[], List.cons_head_tail marksCommitted_trace⟩, ?_⟩
  decide +kernel

end TheSix
