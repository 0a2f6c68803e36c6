import TheSix.Control.Token

/-!
# Whose intent an abort gives up

An abort is meant to give up the intent of the `prepare` that issued its token, and to leave an
entry alone that carries another one. `abort`, `abort_proven_clean`, the drop of an `IntentGuard`
(an `abort` with `Cancelled`) and the recovery of an intent all end in `abort_inner`, which finds
the entry by the address of the token and only asks whether it is `Prepared`.

`AbortsOwn` is the promise about one abort. It holds in a reachable state exactly when the abort
meets no `Prepared` entry, or one that carries the intent of the last `prepare`, whose token it
presents (`AbortsLast`).
-/

namespace TheSix

/-- What an abort changes of an entry: its state, generation, owner flag, intent and error. -/
def ControlEntry.intentFields (e : ControlEntry) :
    EntryState × Generation × Bool × Option CommitIntent × ℕ :=
  (e.state, e.generation, e.populationOwner, e.intent, e.lastError)

/-- The key has an entry exactly when it had one, and an abort would not tell the two apart. -/
def KeySlot.Untouched (before after : KeySlot) : Prop :=
  after.map ControlEntry.intentFields = before.map ControlEntry.intentFields

instance (before after : KeySlot) : Decidable (before.Untouched after) :=
  inferInstanceAs (Decidable (_ = _))

namespace TokenLedger

/-- An abort that does not find its own intent leaves the entry as it was. -/
def AbortsOwn (l : TokenLedger) (c : PlaneCall) : Prop :=
  match c.op with
  | .abort issued _ | .abortProvenClean issued _ =>
    l.recorded ≠ some issued → l.plane.slot.Untouched (l.plane.slotAfter c)
  | .resolveIntent intent .abort =>
    l.plane.slot.outstanding ≠ some intent → l.plane.slot.Untouched (l.plane.slotAfter c)
  | _ => True

/-- An abort that meets a `Prepared` entry presents the token of the last `prepare`, whose intent
the entry carries. A clean abort may also meet one that carries none and that it leaves as it
is. -/
def AbortsLast (l : TokenLedger) (c : PlaneCall) : Prop :=
  match c.op with
  | .abort issued _ =>
    ∀ e, l.plane.slot = some e → e.state = .prepared → issued < l.plane.tokens.length →
      e.intent.isSome = true ∧ issued + 1 = l.plane.tokens.length
  | .abortProvenClean issued error =>
    ∀ e, l.plane.slot = some e → e.state = .prepared → issued < l.plane.tokens.length →
      (e.intent.isSome = true ∧ issued + 1 = l.plane.tokens.length) ∨
        (e.intent = none ∧ e.intentPrevState = .prepared ∧ e.populationOwner = false ∧
          e.lastError = ControlEntry.encodeError (some error))
  | .resolveIntent intent .abort =>
    ∀ e, l.plane.slot = some e → e.state = .prepared → e.intent = some intent
  | _ => True

variable {l : TokenLedger} {c : PlaneCall}

/-! ## What one abort changes -/

/-- A conservative abort touches every `Prepared` entry, and no other. -/
theorem untouched_abort_iff (e : ControlEntry) (error : CacheError) :
    KeySlot.Untouched (some e) (some (e.abort error)) ↔ e.state ≠ .prepared := by
  constructor
  · intro h hp
    rw [ControlEntry.abort, ControlEntry.abortInner_of_prepared hp] at h
    simp [KeySlot.Untouched, ControlEntry.intentFields, hp] at h
  · intro hp
    rw [ControlEntry.abort, ControlEntry.abortInner_of_ne hp]
    rfl

/-- A clean abort touches a `Prepared` entry unless it carries no intent and is otherwise the way
the abort would leave it. -/
theorem untouched_abortProvenClean_iff (e : ControlEntry) (error : CacheError) :
    KeySlot.Untouched (some e) (some (e.abortProvenClean error)) ↔
      (e.state = .prepared → e.intent = none ∧ e.intentPrevState = .prepared ∧
        e.populationOwner = false ∧ e.lastError = ControlEntry.encodeError (some error)) := by
  by_cases hp : e.state = .prepared
  · rw [ControlEntry.abortProvenClean, ControlEntry.abortInner_of_prepared hp]
    simp only [KeySlot.Untouched, ControlEntry.intentFields, ControlEntry.aborted, Option.map_some,
      Option.some.injEq, Prod.mk.injEq, hp, if_true, true_and, forall_const]
    grind
  · rw [ControlEntry.abortProvenClean, ControlEntry.abortInner_of_ne hp]
    simp [hp, KeySlot.Untouched]

/-- In a ledger that tracks the last `prepare`, an entry with an intent carries that of the last
token. -/
theorem Tracks.recorded_eq_iff (h : l.Tracks) {e : ControlEntry} (hs : l.plane.slot = some e)
    (n : ℕ) :
    l.recorded = some n ↔ e.intent.isSome = true ∧ n + 1 = l.plane.tokens.length := by
  have hiff := h.recorded_iff
  rw [hs, KeySlot.outstanding_some] at hiff
  constructor
  · intro hn
    exact ⟨by rw [← hiff, hn]; rfl, h.last n hn⟩
  · rintro ⟨hsome, hlen⟩
    rw [← hiff] at hsome
    obtain ⟨m, hm⟩ := Option.isSome_iff_exists.1 hsome
    have hmn : m = n := by
      have := h.last m hm
      omega
    rw [hm, hmn]

/-! ## The promise -/

theorem Tracks.abortsOwn_abort_iff (h : l.Tracks) {n : ℕ} {error : CacheError}
    (hop : c.op = .abort n error) : l.AbortsOwn c ↔ l.AbortsLast c := by
  simp only [AbortsOwn, AbortsLast, hop, PlaneState.slotAfter]
  cases hs : l.plane.slot with
  | none => cases l.plane.tokens[n]? <;> simp [KeySlot.Untouched, KeySlot.abort]
  | some e =>
    rw [ne_eq, h.recorded_eq_iff hs]
    by_cases hn : n < l.plane.tokens.length
    · simp only [List.getElem?_eq_getElem hn, KeySlot.abort, KeySlot.withEntry_some,
        untouched_abort_iff, Option.some.injEq, forall_eq', hn, forall_const]
      exact not_imp_not
    · simp [KeySlot.Untouched, hn]

theorem Tracks.abortsOwn_abortProvenClean_iff (h : l.Tracks) {n : ℕ} {error : CacheError}
    (hop : c.op = .abortProvenClean n error) : l.AbortsOwn c ↔ l.AbortsLast c := by
  simp only [AbortsOwn, AbortsLast, hop, PlaneState.slotAfter]
  cases hs : l.plane.slot with
  | none => cases l.plane.tokens[n]? <;> simp [KeySlot.Untouched, KeySlot.abortProvenClean]
  | some e =>
    rw [ne_eq, h.recorded_eq_iff hs]
    by_cases hn : n < l.plane.tokens.length
    · simp only [List.getElem?_eq_getElem hn, KeySlot.abortProvenClean, KeySlot.withEntry_some,
        untouched_abortProvenClean_iff, Option.some.injEq, forall_eq', hn, forall_const]
      rw [or_iff_not_imp_left, forall_comm]
    · simp [KeySlot.Untouched, hn]

theorem abortsOwn_resolveIntent_iff {intent : CommitIntent}
    (hop : c.op = .resolveIntent intent .abort) : l.AbortsOwn c ↔ l.AbortsLast c := by
  simp only [AbortsOwn, AbortsLast, hop, PlaneState.slotAfter]
  cases hs : l.plane.slot with
  | none => simp [KeySlot.Untouched, KeySlot.abort]
  | some e =>
    simp only [KeySlot.abort, KeySlot.withEntry_some, untouched_abort_iff, Option.some.injEq,
      forall_eq', KeySlot.outstanding_some]
    exact not_imp_not

/-- **When an abort gives up its own intent only.** In every state that control-plane calls on one
key lead to, an abort that does not find its own intent leaves the entry as it was, exactly when
it meets no `Prepared` entry but one that carries the intent of the last `prepare`, whose token it
presents. -/
theorem abortsOwn_iff_abortsLast (a : KeyAddress) (calls : List PlaneCall) (c : PlaneCall) :
    (calls.foldl step (fresh a)).AbortsOwn c ↔ (calls.foldl step (fresh a)).AbortsLast c := by
  have hstep : ∀ l c, Tracks l → Tracks (step l c) := fun _ c hl => hl.step c
  have h := Run.inv_run hstep (tracks_fresh a) calls
  cases hop : c.op with
  | abort n error => exact h.abortsOwn_abort_iff hop
  | abortProvenClean n error => exact h.abortsOwn_abortProvenClean_iff hop
  | resolveIntent intent direction =>
    cases direction with
    | abort => exact abortsOwn_resolveIntent_iff hop
    | completeForward | externalReconciliation => simp [AbortsOwn, AbortsLast, hop]
  | _ => simp [AbortsOwn, AbortsLast, hop]

/-- Two writers prepare, the second on top of the first. -/
def twoPrepares : List PlaneCall :=
  [⟨1, true, .prepare none .L1 .write⟩, ⟨2, true, .prepare none .L2 .write⟩]

/-- The drop of the first writer's guard cancels the second writer's intent. -/
theorem twoPrepares_abort_cancels_foreign_intent :
    ¬(twoPrepares.foldl step (fresh (.of [107] .default))).AbortsOwn
      ⟨3, true, .abort 0 .cancelled⟩ := by
  intro h
  exact absurd (h (by decide)) (by decide +kernel)

end TokenLedger

end TheSix
