import TheSix.Manager.Runs

/-!
# No wedged key at quiescence

A claim or an intent is released by `commit`, by two kinds of abort, by two guards, by `publish`
and by `fail_with_error`. Each releases whatever the entry carries, so what one of them leaves
behind depends on what the others have nested on top of each other. The accounting below says who
is answerable for what an entry carries (`Accounted`): an intent sits on a `Prepared` entry only, a
`Prepared` entry has a thread that holds a token, and an `InFlight` one has a thread that
populates.

Four things break it, and nothing else does (`Unnested`): a `publish`, a `fail_with_error` or a
`set_state` that hits a `Prepared` entry leaves its intent behind, and a clean abort over a nested
`prepare` restores `Prepared` with nobody to release it.
-/

namespace TheSix

open Coroutine

variable {V : Type}

/-- The entry is not in the middle of anything. -/
def KeyWorld.Unwedged (w : KeyWorld V) : Prop :=
  w.entry.state ≠ .prepared ∧ w.entry.state ≠ .inFlight ∧ w.entry.populationOwner = false ∧
    w.entry.intent = none

instance (w : KeyWorld V) : Decidable w.Unwedged := inferInstanceAs (Decidable (_ ∧ _))

/-- The calls other than `invalidate` and `remove`. -/
def Call.Keeps : Call V → Prop
  | .invalidate _ | .remove _ => False
  | _ => True

instance : DecidablePred (Call.Keeps (V := V))
  | .invalidate _ | .remove _ => .isFalse id
  | .get _ | .getOrFetch _ | .exists _ | .set _ _ | .refresh _ | .promote _ | .demote _ | .evict =>
    .isTrue trivial

/-- No accepted `publish`, no `fail_with_error` and no `set_state` meets a `Prepared` entry, and no
clean abort one that was prepared on top of a `Prepared` one. -/
def Unnested (it : Served V) : Prop :=
  match it.req with
  | .publish g _ _ => ¬(it.pre.entry.state = .prepared ∧ it.pre.entry.generation = g)
  | .failWithError _ | .setState _ => it.pre.entry.state ≠ .prepared
  | .abortProvenClean _ _ =>
    it.pre.entry.state = .prepared → it.pre.entry.intentPrevState ≠ .prepared
  | _ => True

instance : DecidablePred (Unnested (V := V)) := fun ⟨_, _, _, q, _, _, _⟩ => by
  induction q using Req.casesOn <;> dsimp only [Unnested] <;> infer_instance

/-- Any number of `set`, `get`, `get_or_fetch`, `refresh`, `promote` and `demote`, with any tier
errors and any drops, whose steps do not nest. -/
def unnestedCalls (V : Type) : Terms V where
  starts _ _ c := c.Keeps
  good _ it := Unnested it

instance : (unnestedCalls V).Checkable where
  starts _ _ c := inferInstanceAs (Decidable c.Keeps)
  outcome _ := .isTrue trivial
  drops := .isTrue trivial
  good _ it := inferInstanceAs (Decidable (Unnested it))

namespace Wedge

/-- Some thread is in a stage with `P`. -/
def Somewhere (P : Stage V → Prop) (φ : ℕ → Phase V) : Prop := ∃ i, P (φ i).stage

theorem Somewhere.update {P : Stage V → Prop} {φ : ℕ → Phase V} (h : Somewhere P φ) {i : ℕ}
    {c : Call V} {st : Stage V} (hst : P (φ i).stage → P st) :
    Somewhere P (Function.update φ i ⟨c, st⟩) := by
  obtain ⟨j, hj⟩ := h
  by_cases hji : j = i
  · subst hji
    exact ⟨j, by simpa using hst hj⟩
  · exact ⟨j, by simpa [Function.update_of_ne hji] using hj⟩

theorem somewhere_update_self {P : Stage V → Prop} {φ : ℕ → Phase V} {i : ℕ} {c : Call V}
    {st : Stage V} (h : P st) : Somewhere P (Function.update φ i ⟨c, st⟩) :=
  ⟨i, by simpa using h⟩

/-- The thread holds a token. -/
def Holds (st : Stage V) : Prop := st.token.isSome = true

/-- The thread populates. -/
def Populates (st : Stage V) : Prop := st.isPopulating = true

theorem not_holds_of_settled {st : Stage V} (h : st.Settled) : ¬Holds st := by
  rw [Holds, h.1]
  simp

theorem not_populates_of_settled {st : Stage V} (h : st.Settled) : ¬Populates st := by
  rw [Populates, h.2]
  simp

/-- Who is answerable for what an entry carries. -/
structure Accounted (e : ControlEntry) (φ : ℕ → Phase V) : Prop where
  calls : ∀ i, (φ i).call.Keeps
  intent : e.intent.isSome = true → e.state = .prepared
  held : e.state = .prepared → Somewhere Holds φ
  populated : e.state = .inFlight ∨ (e.state = .prepared ∧ e.intentPrevState = .inFlight) →
    Somewhere Populates φ
  owned : e.populationOwner = true → e.state = .prepared ∨ Somewhere Populates φ

variable {e : ControlEntry} {φ : ℕ → Phase V} {i : ℕ} {c : Call V} {st : Stage V}

theorem calls_update (h : ∀ i, (φ i).call.Keeps) (hc : c.Keeps) :
    ∀ j, (Function.update φ i ⟨c, st⟩ j).call.Keeps := by
  intro j
  by_cases hj : j = i
  · subst hj
    simpa using hc
  · simpa [Function.update_of_ne hj] using h j

/-- A step that keeps the entry, and that gives up neither a token nor a population. -/
theorem Accounted.keep (h : Accounted e φ) (hc : c.Keeps) (ht : Holds (φ i).stage → Holds st)
    (hp : Populates (φ i).stage → Populates st) : Accounted e (Function.update φ i ⟨c, st⟩) where
  calls := calls_update h.calls hc
  intent := h.intent
  held hs := (h.held hs).update ht
  populated hs := (h.populated hs).update hp
  owned ho := (h.owned ho).imp_right (·.update hp)

/-- A step that leaves an entry nobody has to answer for. -/
theorem Accounted.settle (h : Accounted e φ) (hc : c.Keeps) {e' : ControlEntry}
    (hi : e'.intent = none) (hs : e'.state ≠ .prepared) (hf : e'.state ≠ .inFlight)
    (ho : e'.populationOwner = false) : Accounted e' (Function.update φ i ⟨c, st⟩) where
  calls := calls_update h.calls hc
  intent := by simp [hi]
  held h := absurd h hs
  populated h := by
    rcases h with h | ⟨h, -⟩
    · exact absurd h hf
    · exact absurd h hs
  owned := by simp [ho]

theorem Accounted.intent_none (h : Accounted e φ) (hs : e.state ≠ .prepared) : e.intent = none := by
  by_contra hne
  exact hs (h.intent (Option.isSome_iff_ne_none.2 hne))

/-! ## One step -/

variable {w w' : KeyWorld V} {l : Fn} {o : Outcome V}

theorem Accounted.acquire (h : Accounted w.entry φ) (hc : c.Keeps) {tier : TierId}
    {a : Except CacheError ControlSnapshot} (hexec : w.exec (.acquire tier) o = some (a, w'))
    (hok : (φ i).allows l (.acquire tier)) :
    Accounted w'.entry (Function.update φ i ⟨c, Phase.next (φ i).stage l (.acquire tier) a⟩) := by
  have hfree : ¬Holds (φ i).stage ∧ ¬Populates (φ i).stage := by
    rcases hok.2 with h | ⟨s, h⟩ | h <;> simp [h, Holds, Populates]
  rcases KeyWorld.exec_acquire hexec with ⟨err, -, rfl, -⟩ | ⟨rfl, rfl⟩
  · exact h.keep hc (absurd · hfree.1) (absurd · hfree.2)
  · rw [KeyWorld.putEntry_entry]
    cases hcl : w.entry.state.isClaimable with
    | false =>
      rw [ControlEntry.acquire_of_not_claimable hcl]
      exact h.keep hc (absurd · hfree.1) (absurd · hfree.2)
    | true =>
      -- the claim is granted: this thread populates from here on
      rw [ControlEntry.acquire_of_claimable hcl]
      have hne : w.entry.state ≠ .prepared := by
        intro hp
        simp [hp, EntryState.isClaimable] at hcl
      have hpop : ∀ c, Somewhere Populates (Function.update φ i
          ⟨c, Phase.next (φ i).stage l (.acquire tier)
            (.ok ((w.entry.claimed tier w.now).snapshotOf w.now .inFlight (w.entry.generation + 1)
              tier true (some w.now)))⟩) := fun c =>
        somewhere_update_self (by simp [Populates, Phase.next, ControlEntry.snapshotOf])
      exact {
        calls := calls_update h.calls hc
        intent := by simp [h.intent_none hne]
        held := by simp
        populated := fun _ => hpop c
        owned := fun _ => Or.inr (hpop c) }

theorem Accounted.prepare (h : Accounted w.entry φ) (hc : c.Keeps) {tier : TierId}
    {kind : IntentKind} {a : Except CacheError CommitToken}
    (hexec : w.exec (.prepare tier kind) o = some (a, w')) (hok : (φ i).allows l (.prepare tier kind)) :
    Accounted w'.entry
      (Function.update φ i ⟨c, Phase.next (φ i).stage l (.prepare tier kind) a⟩) := by
  have hfree : ¬Holds (φ i).stage ∧ ¬Populates (φ i).stage := by
    cases kind with
    | write => rcases hok.2 with h | ⟨s, h⟩ | ⟨n, h⟩ <;> simp [h, Holds, Populates]
    | move =>
      obtain ⟨-, s, h, -⟩ := hok
      simp [h, Holds, Populates]
  rcases KeyWorld.exec_prepare hexec with ⟨err, -, rfl, -⟩ | ⟨rfl, rfl⟩
  · exact h.keep hc (absurd · hfree.1) (absurd · hfree.2)
  · rw [KeyWorld.putEntry_entry]
    refine ⟨calls_update h.calls hc, by simp, fun _ => somewhere_update_self ?_, fun hs => ?_,
      fun _ => Or.inl rfl⟩
    · rw [Holds, Phase.next_prepare_token]
      rfl
    · -- the intent remembers a population that was running before it
      have hf : w.entry.state = .inFlight := by simpa using hs
      exact (h.populated (Or.inl hf)).update (absurd · hfree.2)

theorem Accounted.publish (h : Accounted w.entry φ) (hc : c.Keeps) {g : Generation}
    {tier : TierId} {ttl : Option ℕ} {a : Except CacheError Unit}
    (hexec : w.exec (.publish g tier ttl) o = some (a, w'))
    (hgood : ¬(w.entry.state = .prepared ∧ w.entry.generation = g))
    (hok : (φ i).allows l (.publish g tier ttl)) :
    Accounted w'.entry
      (Function.update φ i ⟨c, Phase.next (φ i).stage l (.publish g tier ttl) a⟩) := by
  obtain ⟨b, v, hst⟩ := hok
  rcases KeyWorld.exec_publish hexec with ⟨err, rfl, rfl, -⟩ | ⟨rfl, hg, rfl⟩
  · exact h.keep hc (by simp [Holds, hst]) (by simp [Populates, hst, Phase.next])
  · have hne : w.entry.state ≠ .prepared := fun hp => hgood ⟨hp, hg.symm⟩
    exact h.settle hc (by simpa using h.intent_none hne) (by simp) (by simp) (by simp)

theorem Accounted.failWithError (h : Accounted w.entry φ) (hc : c.Keeps) {error : CacheError}
    {a : Except CacheError Unit} (hexec : w.exec (.failWithError error) o = some (a, w'))
    (hgood : w.entry.state ≠ .prepared) : Accounted w'.entry
      (Function.update φ i ⟨c, Phase.next (φ i).stage l (.failWithError error) a⟩) := by
  have hi := h.intent_none hgood
  rcases KeyWorld.exec_failWithError hexec with ⟨hnone, rfl⟩ | ⟨-, rfl⟩
  · have he : w'.entry = { address := w'.address } := by simp [KeyWorld.entry, hnone]
    exact h.settle hc hi hgood (by simp [he]) (by simp [he])
  · exact h.settle hc (by simpa using hi) (by simp) (by simp) (by simp)

theorem Accounted.setState (h : Accounted w.entry φ) (hc : c.Keeps) {state : EntryState}
    {a : Except CacheError Unit} (hexec : w.exec (.setState state) o = some (a, w'))
    (hgood : w.entry.state ≠ .prepared) (hok : (φ i).allows l (.setState state)) : Accounted w'.entry
      (Function.update φ i ⟨c, Phase.next (φ i).stage l (.setState state) a⟩) := by
  obtain ⟨rfl, hst⟩ := hok
  have hfree : ¬Holds (φ i).stage ∧ ¬Populates (φ i).stage := by
    rcases hst with ⟨s, h, -⟩ | ⟨s, h, -⟩ <;> simp [h, Holds, Populates]
  rcases KeyWorld.exec_setState hexec with ⟨rfl, -⟩ | rfl
  · exact h.keep hc (absurd · hfree.1) (absurd · hfree.2)
  · refine ⟨calls_update h.calls hc, by simp [h.intent_none hgood], by simp, by simp, ?_⟩
    intro ho
    -- the owner of an entry that is not `Prepared` is a population
    exact Or.inr (((h.owned (by simpa using ho)).resolve_left hgood).update (absurd · hfree.2))

theorem Accounted.commit (h : Accounted w.entry φ) (hc : c.Keeps) {token : CommitToken}
    {ttl : Option ℕ} {a : Except CacheError Unit}
    (hexec : w.exec (.commit token ttl) o = some (a, w')) (hok : (φ i).allows l (.commit token ttl)) :
    Accounted w'.entry
      (Function.update φ i ⟨c, Phase.next (φ i).stage l (.commit token ttl) a⟩) := by
  rcases KeyWorld.exec_commit hexec with ⟨err, rfl, rfl, -, -⟩ | ⟨rfl, -, -, rfl⟩
  · rcases hok with ⟨r, n, hst⟩ | ⟨s, dst, v, hst⟩
    · refine h.keep hc (fun _ => ?_) (by simp [Populates, hst])
      simp only [Holds, hst, Phase.next]
      split <;> simp
    · exact h.keep hc (by simp [Holds, hst, Phase.next]) (by simp [Populates, hst])
  · exact h.settle hc (by simp) (by simp) (by simp) (by simp)

/-- An abort on an entry that is not `Prepared` gives the token up, which nobody needs. -/
theorem Accounted.release (h : Accounted w.entry φ) (hc : c.Keeps)
    (hs : w.entry.state ≠ .prepared) (hp : ¬Populates (φ i).stage) :
    Accounted w.entry (Function.update φ i ⟨c, st⟩) where
  calls := calls_update h.calls hc
  intent := h.intent
  held hs' := absurd hs' hs
  populated hs' := (h.populated hs').update (absurd · hp)
  owned ho := (h.owned ho).imp_right (·.update (absurd · hp))

theorem Accounted.abort (h : Accounted w.entry φ) (hc : c.Keeps) {token : CommitToken}
    {error : CacheError} {a : Except CacheError Unit}
    (hexec : w.exec (.abort token error) o = some (a, w')) (hok : (φ i).allows l (.abort token error)) :
    Accounted w'.entry
      (Function.update φ i ⟨c, Phase.next (φ i).stage l (.abort token error) a⟩) := by
  have hp : ¬Populates (φ i).stage := by
    intro hp
    cases hst : (φ i).stage <;> simp_all [Populates, Phase.allows]
  rcases KeyWorld.exec_abort hexec with ⟨hs, rfl⟩ | ⟨-, rfl⟩
  · exact h.release hc hs hp
  · exact h.settle hc (by simp) (by simp) (by simp) (by simp)

theorem Accounted.abortProvenClean (h : Accounted w.entry φ) (hc : c.Keeps) {token : CommitToken}
    {error : CacheError} {a : Except CacheError Unit}
    (hexec : w.exec (.abortProvenClean token error) o = some (a, w'))
    (hgood : w.entry.state = .prepared → w.entry.intentPrevState ≠ .prepared)
    (hok : (φ i).allows l (.abortProvenClean token error)) :
    Accounted w'.entry
      (Function.update φ i ⟨c, Phase.next (φ i).stage l (.abortProvenClean token error) a⟩) := by
  obtain ⟨r, hst, -⟩ := hok
  have hp : ¬Populates (φ i).stage := by simp [Populates, hst]
  rcases KeyWorld.exec_abortProvenClean hexec with ⟨hs, rfl⟩ | ⟨hs, rfl⟩
  · exact h.release hc hs hp
  · refine ⟨calls_update h.calls hc, by simp, fun h' => absurd (by simpa using h') (hgood hs), ?_,
      by simp⟩
    intro h'
    -- the restored state is `InFlight` only over a population that still runs
    have hprev : w.entry.intentPrevState = .inFlight := by
      rcases h' with h' | ⟨-, h'⟩
      · simpa using h'
      · simpa using h'
    exact (h.populated (Or.inr ⟨hs, hprev⟩)).update (absurd · hp)

theorem Accounted.reserveEviction (h : Accounted w.entry φ) (hc : c.Keeps) {address : KeyAddress}
    {a : Bool} (hexec : w.exec (.reserveEviction address) o = some (a, w')) :
    Accounted w'.entry
      (Function.update φ i ⟨c, Phase.next (φ i).stage l (.reserveEviction address) a⟩) := by
  rcases KeyWorld.exec_reserveEviction hexec with ⟨rfl, -⟩ | ⟨-, ⟨-, ho, hi⟩, rfl⟩
  · exact h.keep hc id id
  · exact h.settle hc (by simpa using hi) (by simp) (by simp) (by simpa using ho)

/-- Every step that does not nest keeps the accounts. -/
theorem Accounted.answer (h : Accounted w.entry φ) (hcall : (φ i).call = c) {q : Req V}
    {a : q.Answer} (hgood : Unnested ⟨i, c, l, q, a, w, w'⟩) (hexec : w.exec q o = some (a, w'))
    (hok : (φ i).allows l q) :
    Accounted w'.entry (Function.update φ i ⟨c, Phase.next (φ i).stage l q a⟩) := by
  have hc : c.Keeps := hcall ▸ h.calls i
  cases hq : q.touchesEntry with
  | false =>
    rw [KeyWorld.exec_entry hq hexec]
    obtain ⟨ht, hp⟩ := Phase.next_of_not_touches (a := a) hq hok
    exact h.keep hc (by rw [Holds, Holds, ht]; exact id) hp
  | true =>
    cases q with
    | acquire tier => exact h.acquire hc hexec hok
    | setState state => exact h.setState hc hexec hgood hok
    | publish g tier ttl => exact h.publish hc hexec hgood hok
    | failWithError error => exact h.failWithError hc hexec hgood
    | prepare tier kind => exact h.prepare hc hexec hok
    | commit token ttl => exact h.commit hc hexec hok
    | abort token error => exact h.abort hc hexec hok
    | abortProvenClean token error => exact h.abortProvenClean hc hexec hgood hok
    | reserveEviction address => exact h.reserveEviction hc hexec
    | invalidate =>
      obtain ⟨-, a', ha⟩ := hok
      rw [← hcall, ha] at hc
      exact hc.elim
    | release =>
      obtain ⟨-, a', ha⟩ := hok
      rw [← hcall, ha] at hc
      exact hc.elim
    | peek | evictionCandidate | removeIfAddress | tierGet | tierSet | tierRemove | tierContains
    | fetch | register | notified | sleep | yieldNow | tierHealth | record => cases hq

/-- A dropped call keeps its intent until its guard gives it up. -/
theorem Accounted.drop (h : Accounted e φ) (hcall : (φ i).call = c) :
    Accounted e (Function.update φ i ⟨c, (φ i).stage.cancel⟩) := by
  refine h.keep (hcall ▸ h.calls i) ?_ ?_
  · rw [Holds, Holds, Stage.cancel_token]
    exact id
  · intro hp
    cases hst : (φ i).stage <;> simp_all [Populates]

/-! ## All runs -/

theorem upholds : Upholds (unnestedCalls V) fun s φ => Accounted s.world.entry φ where
  start h _ hc hst :=
    h.keep hc (absurd · (not_holds_of_settled hst)) (absurd · (not_populates_of_settled hst))
  answer _ h _ _ hs := h.answer hs.call hs.good hs.exec hs.allows
  drop _ h _ _ hcall := h.drop hcall
  env h := h

/-- The accounts of an entry that is in the middle of nothing, with no thread running. -/
theorem accounted_of_unwedged (h : w.Unwedged) :
    Accounted w.entry fun _ => (⟨.evict, .idle⟩ : Phase V) where
  calls _ := trivial
  intent hi := by simp [h.2.2.2] at hi
  held hs := absurd hs h.1
  populated hs := by
    rcases hs with hs | ⟨hs, -⟩
    · exact absurd hs h.2.1
    · exact absurd hs h.1
  owned ho := by simp [h.2.2.1] at ho

end Wedge

/-- **No wedged key at quiescence.** Whenever no call on the key is running, its entry is neither
`Prepared` nor `InFlight`, nobody owns it, and it carries no intent, after every interleaving of
`set`, `get`, `get_or_fetch`, `refresh`, `promote` and `demote` whose steps do not nest. -/
theorem unwedged_of_quiescent {tiers : ℕ} {w : KeyWorld V} (hw : w.Unwedged)
    {schedule : List (Turn V)} (hT : (unnestedCalls V).Hold tiers w schedule)
    (hq : ((manager V tiers).run w schedule).Quiescent) :
    ((manager V tiers).run w schedule).world.Unwedged := by
  obtain ⟨φ, hr⟩ := Wedge.upholds.run (Wedge.accounted_of_unwedged hw) (fun _ => rfl) hT
  have hfree : ¬Wedge.Somewhere Wedge.Holds φ ∧ ¬Wedge.Somewhere Wedge.Populates φ := by
    refine ⟨?_, ?_⟩
    · rintro ⟨i, hi⟩
      exact Wedge.not_holds_of_settled (hr.conforming.settled hr.belongs (hq i)) hi
    · rintro ⟨i, hi⟩
      exact Wedge.not_populates_of_settled (hr.conforming.settled hr.belongs (hq i)) hi
  have hs : ((manager V tiers).run w schedule).world.entry.state ≠ .prepared :=
    fun h => hfree.1 (hr.inv.held h)
  refine ⟨hs, fun h => hfree.2 (hr.inv.populated (Or.inl h)), ?_, hr.inv.intent_none hs⟩
  by_contra ho
  rcases hr.inv.owned (by simpa using ho) with h | h
  · exact hs h
  · exact hfree.2 h

/-- The rung is full. -/
def fullRung : Outcome ℕ := { error := some .capacityExhausted, effect := false }

/-- Two writes and a refresh that overlap: one write is refused, and the refresh is dropped. -/
def overlappingCalls : List (Turn ℕ) :=
  [.start 0 (.set (.pinned .L0 none) 1), .start 1 (.set (.pinned .L0 none) 2),
    .start 2 (.refresh (.pinned .L0 none)),
    -- both writes prepare, and the second commits over the first
    .run 0 {}, .run 0 {}, .run 0 {}, .run 1 {}, .run 1 {}, .run 1 {}, .run 1 {}, .run 1 {}, .run 1 {},
    -- the refresh reads the value, marks it stale and claims the entry
    .run 2 {}, .run 2 {}, .run 2 {}, .run 2 {},
    -- the rung is full for the first write, which has nothing left to abort and nothing to evict
    .run 0 fullRung, .run 0 {}, .run 0 {}, .run 0 {},
    -- the refresh is dropped in its fetch, and its guard fails the entry
    .drop 2 none, .run 2 {}]

theorem unwedged_of_quiescent_overlappingCalls :
    (unnestedCalls ℕ).Hold 1 .unwritten overlappingCalls ∧
      ((manager ℕ 1).run .unwritten overlappingCalls).world.Unwedged := by
  have hhold : (unnestedCalls ℕ).Hold 1 .unwritten overlappingCalls := by
    decide +kernel
  exact ⟨hhold, unwedged_of_quiescent (by decide) hhold
    (Machine.quiescent_run (n := 3) rfl (by decide +kernel))⟩

/-- Two writes that prepare on top of each other, and whose rung refuses both. -/
def nestedWrites : List (Turn ℕ) :=
  [.start 0 (.set (.pinned .L0 none) 1), .start 1 (.set (.pinned .L0 none) 2),
    -- each peeks, asks for the rung's health and prepares
    .run 0 {}, .run 0 {}, .run 0 {}, .run 1 {}, .run 1 {}, .run 1 {},
    -- the rung is full, and both abort cleanly
    .run 0 fullRung, .run 0 {}, .run 0 {}, .run 1 fullRung, .run 1 {}, .run 1 {},
    -- nothing can be evicted
    .run 0 {}, .run 1 {}]

/-- Both writes have ended, and the key is `Prepared` for nobody. -/
theorem nestedWrites_wedge :
    ((manager ℕ 1).run .unwritten nestedWrites).Quiescent ∧
      ((manager ℕ 1).run .unwritten nestedWrites).world.entry.state =
        .prepared := by
  exact ⟨Machine.quiescent_run (n := 2) rfl (by decide +kernel), by decide +kernel⟩

end TheSix
