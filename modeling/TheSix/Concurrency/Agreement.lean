import TheSix.Concurrency.Joining
import TheSix.Concurrency.SingleFlight

/-!
# Owner and waiters of one population

A waiter learns how a population has ended from the entry alone, from its state, its rung and a
one-byte error code. The owner knows it first-hand, and when it fails open it looks for a copy of
its own after the population has failed. The invariant `Flight` ties the entry to where the owner
stands, and what the waiters have seen to the entry; `agrees_of_results` reads off what they return.
-/

namespace TheSix

open Coroutine Manager

variable {V : Type}

/-! ## The runs -/

/-- What an item has acquired. -/
def acquiredBy : Served V → Option ControlSnapshot
  | ⟨_, _, _, .acquire _, .ok s, _, _⟩ => some s
  | _ => none

/-- What an item has fetched. -/
def fetchAnswer : Served V → Option (Except CacheError V)
  | ⟨_, _, _, .fetch, r, _, _⟩ => some r
  | _ => none

/-- The answer of the last fetch. -/
def lastFetch (trace : List (Served V)) : Option (Except CacheError V) :=
  trace.findSome? fetchAnswer

/-- The first caller to acquire the key claims it, and the others see it `InFlight`. -/
def JoinsOne (s : System V) : Served V → Prop
  | ⟨_, _, _, .acquire _, .ok snapshot, _, _⟩ => snapshot.state = .inFlight ∧
      (snapshot.populationOwner = true ↔ ∀ it ∈ s.trace, acquiredBy it = none)
  | ⟨_, _, _, .acquire _, .error _, _, _⟩ => False
  | _ => True

/-- The runs of callers that join one population: each makes one call without a TTL, the rungs are
maps, no wait times out, and nothing else is done with the key. -/
def onePopulation (V : Type) : Terms V where
  starts s i c := s.tasks i = none ∧ ∃ a, c = .getOrFetch a ∧ a.ttl = none
  outcome o := o.Exact ∧ o.timeout = false
  drops := False
  good := JoinsOne

instance (s : System V) : DecidablePred (JoinsOne s) := fun ⟨_, _, _, q, a, _, _⟩ => by
  induction q using Req.casesOn
  case acquire => induction a using Except.casesOn <;> dsimp only [JoinsOne] <;> infer_instance
  all_goals exact .isTrue trivial

instance (c : Call V) : Decidable (∃ a, c = .getOrFetch a ∧ a.ttl = none) :=
  match c with
  | .getOrFetch a => decidable_of_iff (a.ttl = none) (by simp)
  | .get _ | .exists _ | .set _ _ | .invalidate _ | .remove _ | .refresh _ | .promote _ | .demote _
  | .evict => .isFalse (by simp)

instance : (onePopulation V).Checkable where
  starts s i _ := @instDecidableAnd _ _
    (decidable_of_iff ((s.tasks i).isNone = true) Option.isNone_iff_eq_none) inferInstance
  outcome _ := inferInstanceAs (Decidable (_ ∧ _))
  drops := .isFalse id
  good s it := inferInstanceAs (Decidable (JoinsOne s it))

/-- A bound rung of the ladder with a closed circuit holds a value for the key. -/
def Resident (tiers : ℕ) (w : KeyWorld V) (rung : TierId) (v : V) : Prop :=
  rung ∈ cacheLadder ∧ hasTier tiers rung = true ∧ isCircuitOpen (w.failures rung) = false ∧
    w.rungs rung = some v

/-! ## The invariant -/

/-- The population is under way, at a generation. -/
def Airborne (w : KeyWorld V) (g : Generation) : Prop :=
  w.entry.state = .inFlight ∧ w.entry.generation = g ∧ w.entry.lastError = 0

/-- The population has failed. -/
def Crashed (w : KeyWorld V) (e : CacheError) : Prop :=
  w.entry.state = .failed ∧ w.entry.lastError = ControlEntry.encodeError (some e)

/-- The rungs are as they were. -/
def Untouched (start w : KeyWorld V) : Prop := w.rungs = start.rungs ∧ w.failures = start.failures

/-- The entry is as a waiter has seen it. -/
def Seen (w : KeyWorld V) (s : ControlSnapshot) : Prop :=
  w.entry.state ≠ .inFlight ∧ s.state = w.entry.state ∧ s.tier = w.entry.tier ∧
    s.lastError = ControlEntry.decodeError w.entry.lastError

/-- What the owner knows; `last` is how the population ends by its last fetch. -/
def Part.Owns (tiers : ℕ) (d : PolicyDecision) (start w : KeyWorld V)
    (last : Option (Except CacheError V)) : Part V → Prop
  | .owning g => Airborne w g ∧ Untouched start w
  | .fetched g v => Airborne w g ∧ Untouched start w ∧ last = some (.ok v)
  | .stored g rung v => Airborne w g ∧ w.rungs rung = some v ∧ hasTier tiers rung = true ∧
      last = some (.ok v)
  | .published v => w.entry.state = .ready ∧ w.entry.lastError = 0 ∧
      hasTier tiers w.entry.tier = true ∧ w.rungs w.entry.tier = some v ∧ last = some (.ok v)
  | .failing g e => Airborne w g ∧ Untouched start w ∧ last = some (.error e)
  | .failed e passed => Crashed w e ∧ Untouched start w ∧ last = some (.error e) ∧
      ∀ rung ∈ passed, ∀ v, ¬Resident tiers start rung v
  | .asked e passed rung => Crashed w e ∧ Untouched start w ∧ last = some (.error e) ∧
      (∀ rung ∈ passed, ∀ v, ¬Resident tiers start rung v) ∧
      (d.failMode = .open ∧ e ≠ .staleGeneration) ∧ rung ∈ cacheLadder ∧
      hasTier tiers rung = true ∧ isCircuitOpen (start.failures rung) = false
  | .found e rung v => Crashed w e ∧ last = some (.error e) ∧
      (d.failMode = .open ∧ e ≠ .staleGeneration) ∧ Resident tiers start rung v
  | _ => False

/-- What a waiter knows. -/
def Part.Knows (w : KeyWorld V) : Part V → Prop
  | .outside | .joined => True
  | .registered n | .watching n => w.entry.state = .inFlight → n = w.notifications
  | .awake => w.entry.state ≠ .inFlight
  | .looked s => Seen w s
  | .read s x => Seen w s ∧ x = w.rungs s.tier
  | _ => False

/-- The population of thread `o`. -/
structure InAir (tiers : ℕ) (start : KeyWorld V) (s : System V) (φ : ℕ → Standing V) (o : ℕ) :
    Prop where
  owner : (φ o).part.Owns tiers (φ o).decision start s.world
    ((lastFetch s.trace).map (populationEnds tiers (φ o).decision))
  waiters : ∀ i ≠ o, (φ i).part.Knows s.world
  acquired : ∃ it ∈ s.trace, acquiredBy it ≠ none
  claims : ∀ it ∈ s.trace, ∀ snapshot, acquiredBy it = some snapshot →
    (snapshot.populationOwner = true ↔ it.thread = o) ∧ (φ it.thread).part ≠ .outside

/-- Nobody has acquired the key. -/
structure Grounded (start : KeyWorld V) (s : System V) (φ : ℕ → Standing V) : Prop where
  outside : ∀ i, (φ i).part = .outside
  none : ∀ it ∈ s.trace, acquiredBy it = none
  untouched : Untouched start s.world

/-- The invariant of the callers. -/
structure Flight (tiers : ℕ) (start : KeyWorld V) (s : System V) (φ : ℕ → Standing V) : Prop where
  calls : ∀ i t, s.tasks i = some t →
    ∃ a, t.call = .getOrFetch a ∧ (φ i).decision = a.select .new
  idle : ∀ i, s.tasks i = none → (φ i).part = .outside
  population : Grounded start s φ ∨ ∃ o, InAir tiers start s φ o

namespace KeyWorld

variable {w w' : KeyWorld V} {o : Outcome V}

theorem exec_peek_lastError {s : ControlSnapshot} (h : w.exec .peek o = some (s, w')) :
    s.lastError = ControlEntry.decodeError w.entry.lastError := by
  simp only [exec, Option.some.injEq, Prod.mk.injEq] at h
  obtain ⟨rfl, -⟩ := h
  cases hs : w.slot with
  | none => simp [KeySlot.peek, ControlSnapshot.neverWritten, entry, hs, ControlEntry.decodeError]
  | some e =>
    rw [entry_of_slot hs]
    rfl

theorem putEntry_entry_self (h : w.entry.state ≠ .absent) : w.putEntry w.entry = w := by
  obtain ⟨e, he⟩ := Option.isSome_iff_exists.1 (isSome_of_state h)
  rw [entry_of_slot he]
  exact eq_of_slot he.symm

end KeyWorld

namespace Part

variable {tiers : ℕ} {d : PolicyDecision} {start w w' : KeyWorld V}
  {last : Option (Except CacheError V)} {part : Part V}

/-- While the population is under way, a waiter knows nothing that the rungs could change. -/
theorem Knows.of_slot (h : part.Knows w) (hair : w.entry.state = .inFlight)
    (hslot : w'.slot = w.slot) : part.Knows w' := by
  have hentry : w'.entry = w.entry ∨ w.slot = none := by
    cases hs : w.slot with
    | none => exact Or.inr rfl
    | some e => exact Or.inl (by rw [KeyWorld.entry_of_slot (hslot.trans hs),
        KeyWorld.entry_of_slot hs])
  rcases hentry with hentry | hnone
  · have hcount : w'.notifications = w.notifications := by
      rw [KeyWorld.notifications, KeyWorld.notifications, hslot]
    cases part with
    | outside | joined => trivial
    | registered n | watching n =>
      intro _
      rw [hcount]
      exact h hair
    | awake => exact absurd hair h
    | looked s => exact absurd hair h.1
    | read s x => exact absurd hair h.1.1
    | _ => exact h.elim
  · have := w.isSome_of_state (by simp [hair])
    rw [hnone] at this
    cases this

/-- When the population ends, what a waiter knows is what it is to know then. -/
theorem Knows.land (h : part.Knows w) (hair : w.entry.state = .inFlight)
    (hland : w'.entry.state ≠ .inFlight) : part.Knows w' := by
  cases part with
  | outside | joined => trivial
  | registered n | watching n => exact fun hf => absurd hf hland
  | awake => exact hland
  | looked s => exact absurd hair h.1
  | read s x => exact absurd hair h.1.1
  | _ => exact h.elim

theorem Knows.tick (h : part.Knows w) (n : ℕ) : part.Knows (w.tick n) := by
  cases part <;> exact h

theorem Owns.tick (h : part.Owns tiers d start w last) (n : ℕ) :
    part.Owns tiers d start (w.tick n) last := by
  cases part <;> exact h

/-- An owner is not outside. -/
theorem Owns.ne_outside (h : part.Owns tiers d start w last) : part ≠ .outside := by
  rintro rfl
  exact h

/-- No answer leads outside. -/
theorem Next.ne_outside {q : Req V} {r : q.Answer} {part' : Part V}
    (h : part.Next tiers d q r part') : part' ≠ .outside := by
  cases h <;> simp

end Part

namespace InAir

variable {tiers : ℕ} {start : KeyWorld V} {s : System V} {φ : ℕ → Standing V} {o i : ℕ}
  {c : Call V} {l : Fn} {q : Req V} {r : q.Answer} {w : KeyWorld V}
  {rest : Prog Fn (Req V) Req.Answer (Option (Reply V))} {part : Part V}

/-- A request of the owner is answered. -/
theorem owns (h : InAir tiers start s φ o)
    (howner : part.Owns tiers (φ o).decision start w
      ((lastFetch (⟨o, c, l, q, r, s.world, w⟩ :: s.trace)).map
        (populationEnds tiers (φ o).decision)))
    (hwaiters : ∀ i ≠ o, (φ i).part.Knows w)
    (hitem : acquiredBy ⟨o, c, l, q, r, s.world, w⟩ = none) :
    InAir tiers start (s.answer o c l q r w rest)
      (Function.update φ o ⟨(φ o).decision, part⟩) o where
  owner := by
    rw [Function.update_self]
    exact howner
  waiters j hj := by
    rw [Function.update_of_ne hj]
    exact hwaiters j hj
  acquired := by
    obtain ⟨it, hit, hne⟩ := h.acquired
    exact ⟨it, List.mem_cons_of_mem _ hit, hne⟩
  claims := by
    refine List.forall_mem_cons.2 ⟨?_, ?_⟩
    · intro snapshot hs
      rw [hitem] at hs
      cases hs
    · intro it hit snapshot hs
      obtain ⟨hiff, hne⟩ := h.claims it hit snapshot hs
      refine ⟨hiff, ?_⟩
      rw [Function.update_apply]
      split_ifs
      · exact howner.ne_outside
      · exact hne

/-- A request of a waiter is answered; it changes nothing. -/
theorem waits (h : InAir tiers start s φ o) (hi : i ≠ o) (hknows : part.Knows s.world)
    (hne : part ≠ .outside)
    (hfetch : fetchAnswer ⟨i, c, l, q, r, s.world, s.world⟩ = none)
    (hitem : ∀ snapshot, acquiredBy ⟨i, c, l, q, r, s.world, s.world⟩ = some snapshot →
      snapshot.populationOwner = false) :
    InAir tiers start (s.answer i c l q r s.world rest)
      (Function.update φ i ⟨(φ i).decision, part⟩) o where
  owner := by
    rw [Function.update_of_ne (Ne.symm hi), Sys.answer_trace, lastFetch, List.findSome?_cons,
      hfetch]
    exact h.owner
  waiters j hj := by
    rw [Function.update_apply]
    split_ifs
    · exact hknows
    · exact h.waiters j hj
  acquired := by
    obtain ⟨it, hit, hne⟩ := h.acquired
    exact ⟨it, List.mem_cons_of_mem _ hit, hne⟩
  claims := by
    refine List.forall_mem_cons.2 ⟨?_, ?_⟩
    · intro snapshot hs
      rw [hitem snapshot hs, Function.update_self]
      exact ⟨iff_of_false Bool.false_ne_true hi, hne⟩
    · intro it hit snapshot hs
      obtain ⟨hiff, hne'⟩ := h.claims it hit snapshot hs
      refine ⟨hiff, ?_⟩
      rw [Function.update_apply]
      split_ifs
      · exact hne
      · exact hne'

theorem lastFetch_cons (h : fetchAnswer ⟨i, c, l, q, r, s.world, w⟩ = none) :
    lastFetch (⟨i, c, l, q, r, s.world, w⟩ :: s.trace) = lastFetch s.trace := by
  rw [lastFetch, List.findSome?_cons, h]
  rfl

/-- The owner goes on. -/
theorem ownerNext (h : InAir tiers start s φ o) {out : Outcome V} (hout : out.Exact)
    (hexec : s.world.exec q out = some (r, w))
    (hok : (φ o).part.Allows tiers (φ o).decision q) :
    ∃ part', (φ o).part.Next tiers (φ o).decision q r part' ∧
      InAir tiers start (s.answer o c l q r w rest)
        (Function.update φ o ⟨(φ o).decision, part'⟩) o := by
  have howner := h.owner
  generalize hpart : (φ o).part = part at howner hok
  cases hok with
  | acquire | register | peek | notified | look | read | cleanup => exact howner.elim
  | fetch g =>
    simp only [KeyWorld.exec, Option.some.injEq, Prod.mk.injEq] at hexec
    obtain ⟨-, rfl⟩ := hexec
    obtain ⟨hair, hunt⟩ := howner
    cases hends : populationEnds tiers (φ o).decision r with
    | ok v => exact ⟨_, .fetch g hends, h.owns ⟨hair, hunt, congrArg some hends⟩ h.waiters rfl⟩
    | error e => exact ⟨_, .refuse g hends, h.owns ⟨hair, hunt, congrArg some hends⟩ h.waiters rfl⟩
  | store g v hrung ttl =>
    obtain ⟨rfl, rfl⟩ := KeyWorld.exec_tierSet_exact hout hexec
    obtain ⟨hair, -, hlast⟩ := howner
    refine ⟨_, .store g v _ ttl, h.owns ⟨hair, ?_, hasTier_of_nearestBoundRung hrung, ?_⟩
      (fun i hi => (h.waiters i hi).of_slot hair.1 rfl) rfl⟩
    · simp
    · rw [lastFetch_cons rfl]
      exact hlast
  | record g rung v result =>
    have hentry : w.entry = s.world.entry := KeyWorld.exec_entry rfl hexec
    have hrungs : w.rungs = s.world.rungs := KeyWorld.exec_rungs rfl hexec
    obtain ⟨hair, hstored, hb, hlast⟩ := howner
    refine ⟨_, .record g rung v result, h.owns ⟨?_, ?_, hb, ?_⟩
      (fun i hi => (h.waiters i hi).of_slot hair.1 (KeyWorld.exec_slot rfl hexec)) rfl⟩
    · rw [Airborne, hentry]
      exact hair
    · rw [hrungs]
      exact hstored
    · rw [lastFetch_cons rfl]
      exact hlast
  | publish g rung v ttl =>
    obtain ⟨hair, hstored, hb, hlast⟩ := howner
    have hsome := KeyWorld.isSome_of_state (w := s.world) (by simp [hair.1])
    rcases KeyWorld.exec_publish hexec with ⟨e, -, -, hnone | hg⟩ | ⟨rfl, -, rfl⟩
    · rw [hnone] at hsome
      cases hsome
    · exact absurd hair.2.1.symm hg
    · refine ⟨_, .publish g rung v ttl, h.owns ⟨rfl, rfl, hb, hstored, ?_⟩
        (fun i hi => (h.waiters i hi).land hair.1 (by simp)) rfl⟩
      rw [lastFetch_cons rfl]
      exact hlast
  | sleep g e =>
    simp only [KeyWorld.exec, Option.some.injEq, Prod.mk.injEq] at hexec
    obtain ⟨-, rfl⟩ := hexec
    obtain ⟨hair, hunt, -⟩ := howner
    exact ⟨_, .sleep g e, h.owns ⟨hair, hunt⟩ h.waiters rfl⟩
  | fail g e =>
    obtain ⟨hair, hunt, hlast⟩ := howner
    have hsome := KeyWorld.isSome_of_state (w := s.world) (by simp [hair.1])
    rcases KeyWorld.exec_failWithError hexec with ⟨hnone, -⟩ | ⟨-, rfl⟩
    · rw [hnone] at hsome
      cases hsome
    · refine ⟨_, .fail g e r, h.owns ⟨⟨rfl, rfl⟩, hunt, ?_, by simp⟩
        (fun i hi => (h.waiters i hi).land hair.1 (by simp)) rfl⟩
      rw [lastFetch_cons rfl]
      exact hlast
  | @health e passed rung hopen he hl hb =>
    simp only [KeyWorld.exec, Option.some.injEq, Prod.mk.injEq] at hexec
    obtain ⟨rfl, rfl⟩ := hexec
    obtain ⟨hcrash, hunt, hlast, hpassed⟩ := howner
    cases hcircuit : isCircuitOpen (s.world.failures _) with
    | true =>
      refine ⟨_, .opened e passed _ hcircuit, h.owns ⟨hcrash, hunt, hlast, ?_⟩ h.waiters rfl⟩
      refine List.forall_mem_cons.2 ⟨?_, hpassed⟩
      rintro v ⟨-, -, hclosed, -⟩
      rw [← hunt.2, hcircuit] at hclosed
      cases hclosed
    | false =>
      refine ⟨_, .ask e passed _ hcircuit, h.owns ⟨hcrash, hunt, hlast, hpassed, ⟨hopen, he⟩, hl, hb,
        ?_⟩ h.waiters rfl⟩
      rw [← hunt.2]
      exact hcircuit
  | scan e passed rung =>
    obtain ⟨rfl, rfl⟩ := KeyWorld.exec_tierGet_exact hout hexec
    obtain ⟨hcrash, hunt, hlast, hpassed, hopen, hl, hb, hcircuit⟩ := howner
    cases hx : s.world.rungs rung with
    | none =>
      refine ⟨_, .empty e passed rung, h.owns ⟨hcrash, hunt, hlast, ?_⟩ h.waiters rfl⟩
      refine List.forall_mem_cons.2 ⟨?_, hpassed⟩
      rintro v ⟨-, -, -, hv⟩
      rw [← hunt.1, hx] at hv
      cases hv
    | some v =>
      refine ⟨_, .found e passed rung v, h.owns ⟨hcrash, hlast, hopen, hl, hb, hcircuit, ?_⟩
        h.waiters rfl⟩
      rw [← hunt.1]
      exact hx

/-- A waiter goes on. -/
theorem waiterNext (h : InAir tiers start s φ o) (hi : i ≠ o) {out : Outcome V}
    (hout : out.Exact ∧ out.timeout = false) (hexec : s.world.exec q out = some (r, w))
    (hgood : JoinsOne s ⟨i, c, l, q, r, s.world, w⟩)
    (hok : (φ i).part.Allows tiers (φ i).decision q) :
    ∃ part', (φ i).part.Next tiers (φ i).decision q r part' ∧
      InAir tiers start (s.answer i c l q r w rest)
        (Function.update φ i ⟨(φ i).decision, part'⟩) o := by
  have hknows := h.waiters i hi
  generalize hpart : (φ i).part = part at hknows hok
  cases hok with
  | fetch | store | record | publish | sleep | fail | health | scan | cleanup => exact hknows.elim
  | acquire tier =>
    rcases KeyWorld.exec_acquire hexec with ⟨e, rfl, -, -⟩ | ⟨rfl, hw⟩
    · exact hgood.elim
    · obtain ⟨hs, howner⟩ := hgood
      obtain ⟨it, hit, hne⟩ := h.acquired
      have hfalse : (s.world.entry.acquire tier s.world.now).1.populationOwner = false := by
        rw [Bool.eq_false_iff]
        exact fun htrue => hne (howner.1 htrue it hit)
      have hclaim : s.world.entry.state.isClaimable = false := by
        cases hc : s.world.entry.state.isClaimable with
        | false => rfl
        | true =>
          rw [ControlEntry.acquire_of_claimable hc] at hfalse
          cases hfalse
      rw [ControlEntry.acquire_of_not_claimable hclaim] at hs hfalse hw ⊢
      have hair : s.world.entry.state = .inFlight := hs
      obtain rfl : w = s.world := hw.trans (KeyWorld.putEntry_entry_self (by simp [hair]))
      refine ⟨_, .join hs hfalse rfl, h.waits hi trivial (by simp) rfl ?_⟩
      rintro snapshot ⟨⟩
      rfl
  | register hn =>
    subst hn
    simp only [KeyWorld.exec, Option.some.injEq, Prod.mk.injEq] at hexec
    obtain ⟨rfl, rfl⟩ := hexec
    exact ⟨_, .register .entry _, h.waits hi (fun _ => rfl) (by simp) rfl (by simp [acquiredBy])⟩
  | peek n =>
    obtain ⟨hs, -, -, -, rfl⟩ := KeyWorld.exec_peek hexec
    by_cases hbusy : r.state.Busy
    · exact ⟨_, .busy n hbusy, h.waits hi hknows (by simp) rfl (by simp [acquiredBy])⟩
    · refine ⟨_, .settled n hbusy, h.waits hi ?_ (by simp) rfl (by simp [acquiredBy])⟩
      intro hair
      exact hbusy (Or.inl (hs.trans hair))
  | notified n =>
    simp only [KeyWorld.exec, hout.2, Bool.false_eq_true, if_false, Option.elim_some,
      Option.ite_none_right_eq_some, bne_iff_ne, Option.some.injEq, Prod.mk.injEq] at hexec
    obtain ⟨hmoved, rfl, rfl⟩ := hexec
    refine ⟨_, .notified n, h.waits hi ?_ (by simp) rfl (by simp [acquiredBy])⟩
    exact fun hair => hmoved (hknows hair)
  | look =>
    obtain ⟨hs, -, ht, -, rfl⟩ := KeyWorld.exec_peek hexec
    refine ⟨_, .look r, h.waits hi ⟨hknows, hs, ht, ?_⟩ (by simp) rfl (by simp [acquiredBy])⟩
    exact KeyWorld.exec_peek_lastError hexec
  | read snapshot =>
    obtain ⟨rfl, rfl⟩ := KeyWorld.exec_tierGet_exact hout.1 hexec
    exact ⟨_, .read snapshot _, h.waits hi ⟨hknows, rfl⟩ (by simp) rfl (by simp [acquiredBy])⟩

end InAir

/-- The first caller claims the key. -/
theorem Grounded.next {tiers : ℕ} {start : KeyWorld V} {s : System V} {φ : ℕ → Standing V}
    (h : Grounded start s φ) {i : ℕ} {c : Call V} {l : Fn} {q : Req V} {r : q.Answer}
    {w : KeyWorld V} {rest : Prog Fn (Req V) Req.Answer (Option (Reply V))} {out : Outcome V}
    (hexec : s.world.exec q out = some (r, w))
    (hgood : JoinsOne s ⟨i, c, l, q, r, s.world, w⟩)
    (hok : (φ i).part.Allows tiers (φ i).decision q) :
    ∃ part', (φ i).part.Next tiers (φ i).decision q r part' ∧
      InAir tiers start (s.answer i c l q r w rest)
        (Function.update φ i ⟨(φ i).decision, part'⟩) i := by
  rw [h.outside i] at hok ⊢
  cases hok with
  | acquire tier =>
    rcases KeyWorld.exec_acquire hexec with ⟨e, rfl, -, -⟩ | ⟨rfl, rfl⟩
    · exact hgood.elim
    · obtain ⟨hs, howner⟩ := hgood
      have htrue := howner.2 h.none
      have hclaim : s.world.entry.state.isClaimable = true := by
        cases hc : s.world.entry.state.isClaimable with
        | true => rfl
        | false =>
          rw [ControlEntry.acquire_of_not_claimable hc] at htrue
          cases htrue
      rw [ControlEntry.acquire_of_claimable hclaim] at hs htrue ⊢
      refine ⟨_, .claim hs htrue, ⟨?_, ?_, ⟨_, List.mem_cons_self, by simp [acquiredBy]⟩, ?_⟩⟩
      · rw [Function.update_self]
        exact ⟨⟨rfl, rfl, rfl⟩, h.untouched⟩
      · intro j hj
        rw [Function.update_of_ne hj, h.outside j]
        trivial
      · refine List.forall_mem_cons.2 ⟨?_, ?_⟩
        · rintro snapshot ⟨⟩
          rw [Function.update_self]
          exact ⟨iff_of_true rfl rfl, by simp⟩
        · intro it hit snapshot hsnap
          rw [h.none it hit] at hsnap
          cases hsnap

namespace Flight

variable {tiers : ℕ} {start : KeyWorld V} {s : System V} {φ : ℕ → Standing V}

theorem calls_update (h : Flight tiers start s φ) {i : ℕ} {a : Args} {part : Part V}
    {rest : Prog Fn (Req V) Req.Answer (Option (Reply V))} :
    ∀ j t, Function.update s.tasks i (some ⟨.getOrFetch a, rest⟩) j = some t →
      ∃ a', t.call = .getOrFetch a' ∧
        (Function.update φ i ⟨a.select .new, part⟩ j).decision = a'.select .new := by
  intro j t ht
  rw [Function.update_apply] at ht ⊢
  split_ifs at ht ⊢
  · obtain rfl := Option.some.inj ht
    exact ⟨a, rfl, rfl⟩
  · exact h.calls j t ht

theorem idle_update (h : Flight tiers start s φ) {i : ℕ} {st : Standing V} {t : Running V} :
    ∀ j, Function.update s.tasks i (some t) j = none → (Function.update φ i st j).part = .outside := by
  intro j ht
  rw [Function.update_apply] at ht ⊢
  split_ifs at ht ⊢
  exact h.idle j ht

/-- A caller starts. -/
theorem leave (h : Flight tiers start s φ) {i : ℕ} (hi : s.tasks i = none) (a : Args)
    {rest : Prog Fn (Req V) Req.Answer (Option (Reply V))} :
    Flight tiers start (s.leave i (.getOrFetch a) rest)
      (Function.update φ i ⟨a.select .new, .outside⟩) where
  calls := h.calls_update
  idle := h.idle_update
  population := by
    have hout := h.idle i hi
    rcases h.population with hground | ⟨o, hair⟩
    · refine Or.inl ⟨fun j => ?_, hground.none, hground.untouched⟩
      rw [Function.update_apply]
      split_ifs
      · rfl
      · exact hground.outside j
    · have hio : i ≠ o := by
        rintro rfl
        exact hair.owner.ne_outside hout
      refine Or.inr ⟨o, ?_, ?_, hair.acquired, ?_⟩
      · rw [Function.update_of_ne (Ne.symm hio)]
        exact hair.owner
      · intro j hj
        rw [Function.update_apply]
        split_ifs
        · trivial
        · exact hair.waiters j hj
      · intro it hit snapshot hs
        obtain ⟨hiff, hne⟩ := hair.claims it hit snapshot hs
        refine ⟨hiff, ?_⟩
        rw [Function.update_of_ne]
        · exact hne
        · rintro rfl
          exact hne hout

/-- A caller goes on. -/
theorem next (h : Flight tiers start s φ) {i : ℕ} {c : Call V} {l : Fn} {q : Req V}
    {cancel : Option (List (Req V))} {k : q.Answer → Prog Fn (Req V) Req.Answer (Option (Reply V))}
    {r : q.Answer} {w : KeyWorld V} {rest : Prog Fn (Req V) Req.Answer (Option (Reply V))}
    {out : Outcome V} (ht : s.tasks i = some ⟨c, .req l q cancel k⟩)
    (hout : out.Exact ∧ out.timeout = false) (hexec : s.world.exec q out = some (r, w))
    (hgood : JoinsOne s ⟨i, c, l, q, r, s.world, w⟩)
    (hok : (φ i).part.Allows tiers (φ i).decision q) :
    ∃ part', (φ i).part.Next tiers (φ i).decision q r part' ∧
      Flight tiers start (s.answer i c l q r w rest)
        (Function.update φ i ⟨(φ i).decision, part'⟩) := by
  obtain ⟨a, hc, hd⟩ := h.calls i _ ht
  obtain rfl : c = .getOrFetch a := hc
  have hbuild : ∀ {part' o}, InAir tiers start (s.answer i (.getOrFetch a) l q r w rest)
      (Function.update φ i ⟨(φ i).decision, part'⟩) o →
      Flight tiers start (s.answer i (.getOrFetch a) l q r w rest)
        (Function.update φ i ⟨(φ i).decision, part'⟩) := by
    intro part' o hair
    refine ⟨?_, h.idle_update, Or.inr ⟨o, hair⟩⟩
    rw [hd]
    exact h.calls_update
  rcases h.population with hground | ⟨o, hair⟩
  · obtain ⟨part', hnext, hair⟩ := hground.next hexec hgood hok
    exact ⟨part', hnext, hbuild hair⟩
  · by_cases hi : i = o
    · subst hi
      obtain ⟨part', hnext, hair⟩ := hair.ownerNext hout.1 hexec hok
      exact ⟨part', hnext, hbuild hair⟩
    · obtain ⟨part', hnext, hair⟩ := hair.waiterNext hi hout hexec hgood hok
      exact ⟨part', hnext, hbuild hair⟩

theorem keeps (tiers : ℕ) (start : KeyWorld V) :
    Machine.Keeps (manager V tiers) (joining V tiers) (Standing.Final tiers) (Flight tiers start)
      ((onePopulation V).Admits tiers) := by
  refine ⟨?_, ?_, ?_, ?_, ?_⟩
  · rintro s φ i c ⟨h, -⟩ ⟨⟨hi, a, rfl, -⟩, -⟩ -
    refine ⟨⟨a.select .new, .outside⟩, ?_, h.leave hi a⟩
    refine (Prog.wp_map _ _ _ _).2 (Prog.wp_mono ?_ (getOrFetch_joining fun _ => rfl))
    intro φ r hends
    exact ⟨r, rfl, hends⟩
  · rintro s φ i c l q cancel k o a w ⟨h, -⟩ ht ⟨hout, hgood⟩ hstep hexec hok
    obtain ⟨part', hnext, h'⟩ := h.next ht hout hexec (hgood _ (Machine.answered_of_step hstep)) hok
    exact ⟨⟨(φ i).decision, part'⟩, ⟨rfl, hnext⟩, h'⟩
  · rintro s φ i c l q cs k o a w - - ⟨⟨hdrop, -⟩, -⟩
    exact hdrop.elim
  · rintro s φ i c l q cs k - ⟨⟨hdrop, -⟩, -⟩
    exact hdrop.elim
  · rintro s φ n h -
    refine ⟨h.calls, h.idle, ?_⟩
    rcases h.population with hground | ⟨o, hair⟩
    · exact Or.inl ⟨hground.outside, hground.none, hground.untouched⟩
    · exact Or.inr ⟨o, hair.owner.tick n, fun i hi => (hair.waiters i hi).tick n, hair.acquired,
        hair.claims⟩

end Flight

/-! ## What the callers return -/

/-- The entry has a code of its own for an error. -/
def HasCode (e : CacheError) : Prop :=
  ControlEntry.decodeError (ControlEntry.encodeError (some e)) = some e

/-- The thread has claimed the key. -/
def Claims (s : System V) (i : ℕ) : Prop :=
  ∃ it ∈ s.trace, it.thread = i ∧ ∃ x ∈ acquiredBy it, x.populationOwner = true

/-- The thread has seen the population of another one. -/
def SeesInFlight (s : System V) (i : ℕ) : Prop :=
  ∃ it ∈ s.trace, it.thread = i ∧ ∃ x ∈ acquiredBy it, x.populationOwner = false

instance (s : System V) : DecidablePred (Claims s) := fun _ =>
  inferInstanceAs (Decidable (∃ it ∈ s.trace, _))

instance (s : System V) : DecidablePred (SeesInFlight s) := fun _ =>
  inferInstanceAs (Decidable (∃ it ∈ s.trace, _))

/-- The owner of a population that has failed with an error finds a copy of its own. -/
def FallsBack (tiers : ℕ) (d : PolicyDecision) (start : KeyWorld V) (e : CacheError) : Prop :=
  d.failMode = .open ∧ e ≠ .staleGeneration ∧ ∃ rung v, Resident tiers start rung v

/-- What an owner and a waiter return, by how the population has ended. -/
def Agrees (tiers : ℕ) (d : PolicyDecision) (start : KeyWorld V)
    (owner waiter : Except CacheError V) : Except CacheError V → Prop
  | .ok v => owner = .ok v ∧ waiter = .ok v
  | .error e => (∃ e', waiter = .error e') ∧ (HasCode e → waiter = .error e) ∧
      (¬FallsBack tiers d start e → owner = .error e) ∧
      (FallsBack tiers d start e → ∃ rung v, Resident tiers start rung v ∧ owner = .ok v)

/-- An error that was stored is read back as some error. -/
theorem decodeError_encodeError (e : CacheError) :
    ∃ e', ControlEntry.decodeError (ControlEntry.encodeError (some e)) = some e' := by
  cases e <;> exact ⟨_, rfl⟩

namespace Part

variable {tiers : ℕ} {d : PolicyDecision} {w : KeyWorld V} {part : Part V} {r : Except CacheError V}

/-- A waiter of a population that was published returns its value. -/
theorem Ends.of_ready (hends : part.Ends tiers d r) (hknows : part.Knows w) (hne : part ≠ .outside)
    (hready : w.entry.state = .ready) (hclean : w.entry.lastError = 0)
    (hbound : hasTier tiers w.entry.tier = true) {v : V} (hv : w.rungs w.entry.tier = some v) :
    r = .ok v := by
  have hrefusal : ∀ s, Seen w s → refusal tiers s = none := by
    rintro s ⟨-, hs, ht, he⟩
    have hnone : s.lastError = none := by
      rw [he, hclean]
      rfl
    simp [refusal, hnone, hs, ht, hready, hbound, EntryState.isReadable]
  cases part with
  | outside => exact absurd rfl hne
  | looked s =>
    obtain ⟨e, he, -⟩ := hends
    rw [hrefusal s hknows] at he
    cases he
  | read s x =>
    obtain ⟨-, rfl⟩ := hends
    obtain ⟨⟨-, -, ht, -⟩, rfl⟩ := hknows
    rw [ht, hv]
    rfl
  | joined | registered | watching | awake => exact hends.elim
  | _ => exact hknows.elim

/-- A waiter of a population that has failed returns the error that the entry has a code for. -/
theorem Ends.of_crashed (hends : part.Ends tiers d r) (hknows : part.Knows w) (hne : part ≠ .outside)
    {e e' : CacheError} (hcrash : Crashed w e)
    (he' : ControlEntry.decodeError (ControlEntry.encodeError (some e)) = some e') :
    r = .error e' := by
  have hrefusal : ∀ s, Seen w s → refusal tiers s = some e' := by
    rintro s ⟨-, -, -, he⟩
    rw [hcrash.2, he'] at he
    simp [refusal, he]
  cases part with
  | outside => exact absurd rfl hne
  | looked s =>
    obtain ⟨x, hx, rfl⟩ := hends
    rw [hrefusal s hknows, Option.some.injEq] at hx
    rw [hx]
  | read s x =>
    have hnone := hrefusal s hknows.1
    rw [hends.1] at hnone
    cases hnone
  | joined | registered | watching | awake => exact hends.elim
  | _ => exact hknows.elim

/-- What the owner and a waiter return, from where they stand. -/
theorem agrees {d' : PolicyDecision} {start : KeyWorld V} {last : Option (Except CacheError V)}
    {part' : Part V} {owner waiter : Except CacheError V}
    (howns : part.Owns tiers d start w last) (hends : part.Ends tiers d owner)
    (hends' : part'.Ends tiers d' waiter) (hknows : part'.Knows w) (hne : part' ≠ .outside) :
    ∃ x, last = some x ∧ Agrees tiers d start owner waiter x := by
  have hfailed : ∀ {e}, Crashed w e →
      (∃ e', waiter = .error e') ∧ (HasCode e → waiter = .error e) := by
    intro e hcrash
    obtain ⟨e', he'⟩ := decodeError_encodeError e
    have hwaiter := hends'.of_crashed hknows hne hcrash he'
    refine ⟨⟨e', hwaiter⟩, fun hcode => ?_⟩
    rw [hwaiter, Option.some.inj (he'.symm.trans hcode)]
  cases part with
  | published v =>
    obtain ⟨hready, hclean, hbound, hv, rfl⟩ := howns
    exact ⟨_, rfl, hends, hends'.of_ready hknows hne hready hclean hbound hv⟩
  | failed e passed =>
    obtain ⟨hcrash, -, rfl, hpassed⟩ := howns
    obtain ⟨hsome, hcode⟩ := hfailed hcrash
    obtain ⟨howner, hgives⟩ := hends
    refine ⟨_, rfl, hsome, hcode, fun _ => howner, ?_⟩
    rintro ⟨hopen, hstale, rung, v, hres⟩
    rcases hgives with hclosed | hs | hall
    · rw [hopen] at hclosed
      cases hclosed
    · exact absurd hs hstale
    · exact absurd hres (hpassed rung (hall rung hres.1 hres.2.1) v)
  | found e rung v =>
    obtain ⟨hcrash, rfl, ⟨hopen, hstale⟩, hres⟩ := howns
    obtain ⟨hsome, hcode⟩ := hfailed hcrash
    exact ⟨_, rfl, hsome, hcode, fun hno => absurd ⟨hopen, hstale, rung, v, hres⟩ hno,
      fun _ => ⟨rung, v, hres, hends⟩⟩
  | outside | joined | registered | watching | awake | looked | read | dropped =>
    exact howns.elim
  | owning | fetched | stored | failing | asked => exact hends.elim

end Part

/-- **Owner and waiters of one population.** When its last fetch has given a value, and there is a
rung for it, all of them return that value. When the population has failed, every waiter returns an
error, the same one if the entry has a code for it; the owner returns the error, unless it fails
open and finds a copy on a rung. -/
theorem agrees_of_results {tiers : ℕ} {start : KeyWorld V} {schedule : List (Turn V)}
    (hT : (onePopulation V).Hold tiers start schedule) {o i : ℕ} {a a' : Args}
    {owner waiter : Except CacheError V}
    (howner : Claims ((manager V tiers).run start schedule) o)
    (hwaiter : SeesInFlight ((manager V tiers).run start schedule) i)
    (hro : ((manager V tiers).run start schedule).tasks o =
      some ⟨.getOrFetch a, .ret (some (.fetched owner))⟩)
    (hri : ((manager V tiers).run start schedule).tasks i =
      some ⟨.getOrFetch a', .ret (some (.fetched waiter))⟩) :
    ∃ answer, lastFetch ((manager V tiers).run start schedule).trace = some answer ∧
      Agrees tiers (a.select .new) start owner waiter
        (populationEnds tiers (a.select .new) answer) := by
  have hinitial : Flight tiers start (.initial start)
      fun _ => (⟨a.select .new, .outside⟩ : Standing V) :=
    ⟨by simp [Sys.initial], fun _ _ => rfl,
      Or.inl ⟨fun _ => rfl, by simp [Sys.initial], rfl, rfl⟩⟩
  obtain ⟨φ, h, hconf⟩ := Machine.invariant (Flight.keeps tiers start) hinitial hT
  generalize (manager V tiers).run start schedule = s at *
  obtain ⟨claim, hclaim, rfl, x, hx, hown⟩ := howner
  obtain ⟨join, hjoin, rfl, y, hy, hwait⟩ := hwaiter
  rcases h.population with hground | ⟨p, hair⟩
  · rw [hground.none claim hclaim] at hx
    cases hx
  · obtain ⟨hiff, -⟩ := hair.claims claim hclaim x hx
    obtain ⟨hiff', hne⟩ := hair.claims join hjoin y hy
    obtain rfl := hiff.1 hown
    have hi : join.thread ≠ claim.thread := by
      rw [Ne, ← hiff', hwait]
      exact Bool.false_ne_true
    obtain ⟨a₀, hcall, hd⟩ := h.calls _ _ hro
    obtain rfl := Call.getOrFetch.inj hcall
    obtain ⟨_, ⟨⟩, hends⟩ := hconf _ _ hro
    obtain ⟨_, ⟨⟩, hends'⟩ := hconf _ _ hri
    have howns := hair.owner
    have hknows := hair.waiters _ hi
    rw [hd] at howns hends
    obtain ⟨x, hlast, hagrees⟩ := Part.agrees howns hends hends' hknows hne
    obtain ⟨answer, hanswer, rfl⟩ := Option.map_eq_some_iff.1 hlast
    exact ⟨answer, hanswer, hagrees⟩

/-- A call that fails open. -/
def Args.failsOpen : Args := { Args.pinned .L0 none with select _ := ⟨true, .L0, .open⟩ }

/-- Two callers: the first one fetches with these answers, the second one joins it. -/
def joinedPopulation (a : Args) (answers : List (Except CacheError ℕ)) (more : List (Turn ℕ)) :
    List (Turn ℕ) :=
  [.start 0 (.getOrFetch a), .start 1 (.getOrFetch a), .run 0 {}, .run 1 {}, .run 1 {}, .run 1 {}] ++
    answers.flatMap (fun r => [.run 0 { fetched := r }, .run 0 {}]) ++ more ++
    [.run 1 {}, .run 1 {}, .run 1 {}]

theorem agrees_of_results_joinedPopulation :
    ∃ answer, lastFetch ((manager ℕ 1).run .unwritten
        (joinedPopulation .failsOpen [.ok 7] [.run 0 {}, .run 0 {}])).trace = some answer ∧
      Agrees 1 (Args.failsOpen.select .new) .unwritten (.ok 7) (.ok 7)
        (populationEnds 1 (Args.failsOpen.select .new) answer) := by
  have hhold : (onePopulation ℕ).Hold 1 .unwritten
      (joinedPopulation .failsOpen [.ok 7] [.run 0 {}, .run 0 {}]) := by decide +kernel
  have howner : Claims ((manager ℕ 1).run .unwritten
      (joinedPopulation .failsOpen [.ok 7] [.run 0 {}, .run 0 {}])) 0 := by decide +kernel
  have hwaiter : SeesInFlight ((manager ℕ 1).run .unwritten
      (joinedPopulation .failsOpen [.ok 7] [.run 0 {}, .run 0 {}])) 1 := by decide +kernel
  exact agrees_of_results hhold howner hwaiter rfl rfl

/-- The key after a value was set and invalidated: the rung still has it. -/
def invalidated : KeyWorld ℕ :=
  ((manager ℕ 1).run .unwritten
    [.start 0 (.set (.pinned .L0 none) 3), .run 0 {}, .run 0 {}, .run 0 {}, .run 0 {}, .run 0 {},
      .run 0 {}, .start 0 (.invalidate (.pinned .L0 none)), .run 0 {}]).world

/-- A run of one population in which the first caller owns it, the second one joins it, and they
return these answers. -/
def Returned (start : KeyWorld ℕ) (schedule : List (Turn ℕ)) (owner waiter : Except CacheError ℕ) :
    Prop :=
  (onePopulation ℕ).Hold 1 start schedule ∧ Claims ((manager ℕ 1).run start schedule) 0 ∧
    SeesInFlight ((manager ℕ 1).run start schedule) 1 ∧
    ((manager ℕ 1).run start schedule).result 0 = some (.fetched owner) ∧
    ((manager ℕ 1).run start schedule).result 1 = some (.fetched waiter)

/-- An owner that fails open is given the old value, and the waiter is given the error. An error
without a code reaches the waiter under another name, also when the owner fails closed. -/
theorem joinedPopulation_disagrees :
    Returned invalidated (joinedPopulation .failsOpen [.error .cancelled] [.run 0 {}, .run 0 {}])
        (.ok 3) (.error .cancelled) ∧
      Returned .unwritten (joinedPopulation (.pinned .L0 none) [.error .corrupted] [])
        (.error .corrupted) (.error .populationFailed) := by
  refine ⟨⟨?_, ?_, ?_, ?_, ?_⟩, ⟨?_, ?_, ?_, ?_, ?_⟩⟩ <;> decide +kernel

end TheSix
