import TheSix.Manager.Protocol
import TheSix.Manager.Effects

/-!
# Runs of the manager

`Terms` are the assumptions a statement about interleavings makes: which calls are started, what
the environment may answer, whether calls are dropped, and a condition on every answered request
in the state it is answered in. `Upholds` is what it takes for an invariant of the world and of
the threads' phases to survive one step of each kind, and `Upholds.run` makes it an invariant of
all runs under the terms.
-/

namespace TheSix

open Coroutine

variable {V : Type}

/-- What every world guarantees about the answers of `Phase.Possible`. -/
theorem KeyWorld.possible_of_exec {q : Req V} {o : Outcome V} {w w' : KeyWorld V} {a : q.Answer}
    (h : w.exec q o = some (a, w')) : Phase.Possible q a := by
  cases q with
  | acquire tier =>
    simp only [KeyWorld.exec, Option.some.injEq, KeyWorld.onSlot, Prod.mk.injEq] at h
    obtain ⟨rfl, -⟩ := h
    have hentry (e : ControlEntry) : Phase.Possible (V := V) (.acquire tier)
        (.ok (e.acquire tier w.now).1) := by
      cases hc : e.state.isClaimable
      · rw [ControlEntry.acquire_of_not_claimable hc]
        exact Or.inr ⟨rfl, hc⟩
      · rw [ControlEntry.acquire_of_claimable hc]
        exact Or.inl ⟨rfl, rfl⟩
    unfold KeySlot.acquire KeySlot.withOrCreate
    split
    · exact hentry _
    · split
      · exact hentry _
      · trivial
  | _ => trivial

namespace Phase

/-- A request that does not touch the entry neither records nor releases an intent, and does not
end a population. -/
theorem next_of_not_touches {φ : Phase V} {l : Fn} {q : Req V} {a : q.Answer}
    (hq : q.touchesEntry = false) (hok : φ.allows l q) :
    (next φ.stage l q a).token = φ.stage.token ∧
      (φ.stage.isPopulating = true → (next φ.stage l q a).isPopulating = true) := by
  obtain ⟨c, st⟩ := φ
  cases q with
  | peek =>
    rcases hok with h | ⟨s, v, h⟩ | h <;> obtain rfl := h
    · simp [next]
    · simp only [next]
      split <;> simp
    · simp [next]
  | tierGet rung =>
    rcases hok with ⟨s, h, -⟩ | ⟨b, s, h, -⟩ | h | ⟨h, -⟩ | ⟨t, s, dst, h, -⟩ <;>
      obtain rfl := h <;> rcases a with e | _ | v <;> simp only [next] <;> (try split) <;> simp
  | tierSet rung value ttl =>
    rcases hok with ⟨b, g, h⟩ | ⟨t, n, a', h, -⟩ | ⟨t, s, h⟩ <;> obtain rfl := h <;>
      cases a <;> simp [next]
  | tierRemove rung =>
    rcases hok with ⟨h, -⟩ | ⟨t, h⟩ | ⟨t, s, dst, v, h, -⟩ | ⟨t, h⟩ <;> obtain rfl := h <;>
      simp [next]
  | fetch =>
    rcases hok with ⟨-, ⟨b, g, v, h⟩ | ⟨s, h, -⟩ | ⟨s, h, -⟩⟩ <;> obtain rfl := h <;> simp [next]
  | register n =>
    rcases hok with ⟨s, h, -⟩ | ⟨b, s, h, -⟩ <;> obtain rfl := h <;> simp [next]
  | evictionCandidate | removeIfAddress | tierContains | notified | sleep | yieldNow | tierHealth
  | record => simp [next]
  | acquire | setState | publish | failWithError | invalidate | release | prepare | commit | abort
  | abortProvenClean | reserveEviction => cases hq

end Phase

/-- The assumptions of a statement about runs. -/
structure Terms (V : Type) where
  /-- The calls that may start, and where. -/
  starts : System V → ℕ → Call V → Prop := fun _ _ _ => True
  /-- What the environment may decide. -/
  outcome : Outcome V → Prop := fun _ => True
  /-- Whether calls may be dropped. -/
  drops : Prop := True
  /-- A condition on every answered request, in the state before it. -/
  good : System V → Served V → Prop := fun _ _ => True

/-- A turn of a schedule meets the terms. -/
def Terms.Admits (T : Terms V) (tiers : ℕ) (s : System V) (turn : Turn V) : Prop :=
  (match turn with
    | .start i c => T.starts s i c
    | .run _ o => T.outcome o
    | .drop _ o => T.drops ∧ ∀ o' ∈ o, T.outcome o'
    | .env _ => True) ∧ (manager V tiers).Answers T.good s turn

/-- Terms that can be checked along a given schedule. -/
class Terms.Checkable (T : Terms V) where
  starts : ∀ s i c, Decidable (T.starts s i c)
  outcome : DecidablePred T.outcome
  drops : Decidable T.drops
  good : ∀ s it, Decidable (T.good s it)

instance (T : Terms V) [h : T.Checkable] (tiers : ℕ) (s : System V) (turn : Turn V) :
    Decidable (T.Admits tiers s turn) :=
  have := h.good
  have := h.outcome
  match turn with
  | .start i c => @instDecidableAnd _ _ (h.starts s i c) inferInstance
  | .run _ o => @instDecidableAnd _ _ (h.outcome o) inferInstance
  | .drop _ o =>
    @instDecidableAnd _ _ (@instDecidableAnd _ _ h.drops
      (inferInstanceAs (Decidable (∀ o' ∈ o, T.outcome o')))) inferInstance
  | .env _ => @instDecidableAnd _ _ (.isTrue trivial) inferInstance

/-- A schedule meets the terms, from a world in which nothing runs. -/
def Terms.Hold (T : Terms V) (tiers : ℕ) (w : KeyWorld V) (schedule : List (Turn V)) : Prop :=
  Run.Along (manager V tiers).step (T.Admits tiers) (.initial w) schedule

instance (T : Terms V) [T.Checkable] (tiers : ℕ) (w : KeyWorld V) (schedule : List (Turn V)) :
    Decidable (T.Hold tiers w schedule) :=
  inferInstanceAs (Decidable (Run.Along _ _ _ _))

/-- Where calls are not dropped, every one that has finished has returned. -/
theorem Terms.Hold.returns {T : Terms V} {tiers : ℕ} {w : KeyWorld V} {schedule : List (Turn V)}
    (hT : T.Hold tiers w schedule) (hdrops : ¬T.drops) {i : ℕ} {t : Running V}
    (ht : ((manager V tiers).run w schedule).tasks i = some t) : t.rest.Returns := by
  have hstep : ∀ s turn, (∀ i t, s.tasks i = some t → t.rest.Returns) → T.Admits tiers s turn →
      ∀ i t, ((manager V tiers).step s turn).tasks i = some t → t.rest.Returns := by
    intro s turn hs hadm i t ht
    refine Machine.returns_step hs ?_ ht
    rintro j o rfl
    exact hdrops hadm.1.1
  refine Run.inv_foldl hstep ?_ hT i t ht
  intro i t ht
  cases ht

/-- A thread's phase belongs to its call, and one that never ran a call is idle. -/
def Belongs (s : System V) (φ : ℕ → Phase V) : Prop :=
  ∀ i, (s.tasks i = none → (φ i).stage = .idle) ∧ ∀ t, s.tasks i = some t → (φ i).call = t.call

/-- Every thread's call keeps to the protocol from its phase on. -/
def Conforming (s : System V) (φ : ℕ → Phase V) : Prop :=
  ∀ i t, s.tasks i = some t → Machine.Conforms (protocol V) Phase.Final (φ i) t.rest

/-- A request of thread `i` is answered under the terms. -/
structure Terms.Serves (T : Terms V) (s : System V) (φ : Phase V) (i : ℕ) (c : Call V) (l : Fn)
    (q : Req V) (o : Outcome V) (a : q.Answer) (w : KeyWorld V) : Prop where
  pending : ∃ cancel k, s.tasks i = some ⟨c, .req l q cancel k⟩
  call : φ.call = c
  outcome : T.outcome o
  good : T.good s ⟨i, c, l, q, a, s.world, w⟩
  exec : s.world.exec q o = some (a, w)
  allows : φ.allows l q

/-- The obligations of an invariant under the terms. -/
structure Upholds (T : Terms V) (J : System V → (ℕ → Phase V) → Prop) : Prop where
  start : ∀ {s φ i c rest}, J s φ → Belongs s φ → T.starts s i c → (φ i).stage.Settled →
    J (s.leave i c rest) (Function.update φ i ⟨c, .idle⟩)
  answer : ∀ {s φ i c l q o a w} rest, J s φ → Belongs s φ → Conforming s φ →
    T.Serves s (φ i) i c l q o a w →
    J (s.answer i c l q a w rest) (Function.update φ i ⟨c, Phase.next (φ i).stage l q a⟩)
  drop : ∀ {s φ i c l q cancel k} rest, J s φ → T.drops →
    s.tasks i = some ⟨c, .req l q cancel k⟩ → (φ i).call = c →
    J (s.leave i c rest) (Function.update φ i ⟨c, (φ i).stage.cancel⟩)
  env : ∀ {s φ d}, J s φ → J { s with world := s.world.tick d } φ

/-- What is known wherever a run leads: the invariant, and how the finished calls ended. -/
structure Reached (J : System V → (ℕ → Phase V) → Prop) (s : System V) (φ : ℕ → Phase V) :
    Prop where
  inv : J s φ
  belongs : Belongs s φ
  conforming : Conforming s φ

/-- A finished call ended as the protocol says. -/
theorem Conforming.final {s : System V} {φ : ℕ → Phase V} (h : Conforming s φ) {i : ℕ}
    {t : Running V} {r : Option (Reply V)} (ht : s.tasks i = some t) (hr : t.rest = .ret r) :
    (φ i).Final r := by
  have := h i t ht
  rwa [Machine.Conforms, hr] at this

/-- A pending request is one that the protocol allows. -/
theorem Conforming.pending {s : System V} {φ : ℕ → Phase V} (h : Conforming s φ) {i : ℕ}
    {c : Call V} {l : Fn} {q : Req V} {cancel : Option (List (Req V))}
    {k : q.Answer → Prog Fn (Req V) Req.Answer (Option (Reply V))}
    (ht : s.tasks i = some ⟨c, .req l q cancel k⟩) : (φ i).ok l q := (h i _ ht).1

/-- An idle thread has nothing left to release. -/
theorem Conforming.settled {s : System V} {φ : ℕ → Phase V} (h : Conforming s φ)
    (hB : Belongs s φ) {i : ℕ} (hi : s.Idle i) : (φ i).stage.Settled := by
  cases ht : s.tasks i with
  | none => simp [(hB i).1 ht]
  | some t =>
    obtain ⟨r, hr⟩ := hi t ht
    exact (h.final ht hr).1

theorem Belongs.update {s s' : System V} {φ : ℕ → Phase V} (h : Belongs s φ) {i : ℕ} {c : Call V}
    {rest : Prog Fn (Req V) Req.Answer (Option (Reply V))}
    (htasks : s'.tasks = Function.update s.tasks i (some ⟨c, rest⟩)) {st : Stage V} :
    Belongs s' (Function.update φ i ⟨c, st⟩) := by
  intro j
  rw [htasks]
  by_cases hj : j = i
  · subst hj
    simp only [Function.update_self]
    refine ⟨by simp, ?_⟩
    rintro t ⟨⟩
    rfl
  · simpa only [Function.update_of_ne hj] using h j

/-- **The rule for runs of the manager.** -/
theorem Upholds.run {T : Terms V} {J : System V → (ℕ → Phase V) → Prop} (h : Upholds T J)
    {w : KeyWorld V} {φ : ℕ → Phase V} (h0 : J (.initial w) φ) (hidle : ∀ i, (φ i).stage = .idle)
    {tiers : ℕ} {schedule : List (Turn V)} (hT : T.Hold tiers w schedule) :
    ∃ φ, Reached J ((manager V tiers).run w schedule) φ := by
  have hkeeps : Machine.Keeps (manager V tiers) (protocol V) Phase.Final
      (fun s φ => J s φ ∧ Belongs s φ) (T.Admits tiers) := by
    refine ⟨?_, ?_, ?_, ?_, ?_⟩
    · rintro s φ i c ⟨⟨hJ, hB⟩, hC⟩ ⟨hc, -⟩ hi
      exact ⟨⟨c, .idle⟩, Call.conforms tiers c, h.start hJ hB hc (Conforming.settled hC hB hi),
        hB.update rfl⟩
    · rintro s φ i c l q cancel k o a w ⟨⟨hJ, hB⟩, hC⟩ ht ⟨hout, hgood⟩ hstep hexec hok
      have hserves : T.Serves s (φ i) i c l q o a w :=
        ⟨⟨cancel, k, ht⟩, (hB i).2 _ ht, hout, hgood _ (Machine.answered_of_step hstep), hexec, hok.1⟩
      exact ⟨⟨c, Phase.next (φ i).stage l q a⟩,
        ⟨KeyWorld.possible_of_exec hexec, by rw [hserves.call]⟩, h.answer _ hJ hB hC hserves,
        hB.update rfl⟩
    · rintro s φ i c l q cs k o a w ⟨⟨hJ, hB⟩, hC⟩ ht ⟨⟨hdrop, hout⟩, hgood⟩ hstep hexec hok
      have hserves : T.Serves s (φ i) i c l q o a w :=
        ⟨⟨some cs, k, ht⟩, (hB i).2 _ ht, hout o rfl, hgood _ (Machine.answered_of_step hstep),
          hexec, hok.1⟩
      -- the answer arrives while the request is still pending, and then the call is dropped
      have hJ' := h.drop (.unwind l cs) (h.answer (.req l q (some cs) k) hJ hB hC hserves) hdrop
        (by rw [Sys.answer_tasks, Function.update_self]) (by rw [Function.update_self])
      simp only [Function.update_self, Function.update_idem] at hJ'
      refine ⟨⟨c, Phase.next (φ i).stage l q a⟩,
        ⟨KeyWorld.possible_of_exec hexec, by rw [hserves.call]⟩, ?_, hB.update rfl⟩
      simpa only [Sys.leave, Sys.answer, Function.update_idem, protocol] using hJ'
    · rintro s φ i c l q cs k ⟨hJ, hB⟩ ⟨⟨hdrop, -⟩, -⟩ ht
      have hcall : (φ i).call = c := (hB i).2 _ ht
      have hJ' := h.drop (.unwind l cs) hJ hdrop ht hcall
      refine ⟨?_, ?_⟩
      · simpa only [protocol, hcall] using hJ'
      · simp only [protocol, hcall]
        exact hB.update rfl
    · rintro s φ d ⟨hJ, hB⟩ -
      exact ⟨h.env hJ, hB⟩
  obtain ⟨φ', ⟨hJ, hB⟩, hC⟩ :=
    Machine.invariant hkeeps ⟨h0, fun i => ⟨fun _ => hidle i, by simp [Sys.initial]⟩⟩ hT
  exact ⟨φ', hJ, hB, hC⟩

end TheSix
