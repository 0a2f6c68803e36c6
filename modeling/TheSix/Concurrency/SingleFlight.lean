import TheSix.Manager.Runs

/-!
# Single flight

Callers of `get_or_fetch` on one key share one population: `acquire` grants the claim to one of
them, and the others wait. A caller is inside `become_population_owner` from the step that sends it
there to the one that answers its call, the scan of the ladder after a failure included.

Three things let a second caller in, and nothing else does (`KeepsClaim`). The mark of an expired
entry is written without looking, and may hit a claim that was granted meanwhile. A caller that is
shown a `Ready` entry goes in without a claim when its rung holds nothing, or when the entry has
expired again by the time of its second `acquire`. And a caller that scans the ladder has released
its claim already.
-/

namespace TheSix

open Coroutine

variable {V : Type}

/-- A thread is inside `become_population_owner`. -/
def inside (s : System V) (i : ℕ) : Bool := (s.site i).elim false Fn.ofPopulation

/-- A thread's fetch is running. -/
def fetching (s : System V) (i : ℕ) : Bool :=
  match s.tasks i with
  | some ⟨_, .req _ .fetch _ _⟩ => true
  | _ => false

/-- The last thing a thread did was to mark the entry. -/
def justMarked (s : System V) (i : ℕ) : Bool :=
  match s.trace.find? (·.thread == i) with
  | some ⟨_, _, _, .setState _, _, _, _⟩ => true
  | _ => false

/-- The entry is `Ready`, and its TTL has elapsed. -/
def KeyWorld.readyExpired (w : KeyWorld V) : Bool :=
  w.entry.state == .ready && w.entry.isExpired w.now

/-- A `set_state` does not meet a claim, a `Ready` entry sends nobody to populate, and no claim is
granted while one of the `n` callers scans the ladder. -/
def KeepsClaim (n : ℕ) (s : System V) : Served V → Prop
  | ⟨_, _, _, .setState _, _, pre, _⟩ => pre.entry.state ≠ .inFlight
  | ⟨_, _, .getOrFetch, .tierGet _, .ok none, _, _⟩ => False
  | ⟨i, _, _, .acquire _, _, pre, _⟩ =>
    (justMarked s i = true → pre.readyExpired = false) ∧
      (pre.entry.state.isClaimable = true → ∀ j < n, s.site j ≠ some .tryFallbackTier)
  | _ => True

instance (n : ℕ) (s : System V) : DecidablePred (KeepsClaim n s) := fun ⟨_, _, l, q, a, _, _⟩ => by
  induction q using Req.casesOn
  case tierGet =>
    induction l using Fn.casesOn <;> induction a using Except.casesOn
    case getOrFetch.ok a =>
      induction a using Option.casesOn <;> dsimp only [KeepsClaim] <;> infer_instance
    all_goals (dsimp only [KeepsClaim]; infer_instance)
  all_goals (dsimp only [KeepsClaim]; infer_instance)

/-- `get_or_fetch` on `n` threads, with any tier answers, fetches and drops. -/
def flights (V : Type) (n : ℕ) : Terms V where
  starts _ i c := i < n ∧ ∃ a, c = .getOrFetch a
  good := KeepsClaim n

instance (n : ℕ) : (flights V n).Checkable where
  starts _ i c := inferInstanceAs (Decidable (i < n ∧ ∃ a, c = .getOrFetch a))
  outcome _ := .isTrue trivial
  drops := .isTrue trivial
  good s it := inferInstanceAs (Decidable (KeepsClaim n s it))

namespace SingleFlight

/-- The population a stage stands in or enters next, and whether it holds the claim. -/
def claim : Stage V → Option Bool
  | .populating claimed _ _ | .filled claimed _ _ _ => some claimed
  | .missed _ => some false
  | .refused true s => if s.state = .ready ∧ s.expired = true then some false else none
  | _ => none

theorem inside_iff {st : Stage V} : st.Inside ↔ (claim st).isSome = true ∨ st = .failed := by
  cases st with
  | refused again s => cases again <;> simp [claim]
  | _ => simp [claim]

theorem claim_of_populating {st : Stage V} (h : st.isPopulating = true) :
    (claim st).isSome = true := by
  cases st <;> simp_all [claim]

/-- A thread stands between its entry into `become_population_owner` and its return. -/
def Busy (s : System V) (φ : ℕ → Phase V) (i : ℕ) : Prop := (φ i).stage.Inside ∧ ¬s.Idle i

/-- Whoever populates holds the claim on the entry, and is alone. -/
structure Alone (n : ℕ) (s : System V) (φ : ℕ → Phase V) : Prop where
  callers : ∀ i t, s.tasks i = some t → i < n ∧ ∃ a, t.call = .getOrFetch a
  free : ∀ i, (φ i).stage.token = none
  marked : ∀ i, (φ i).stage = .marked → justMarked s i = true
  claimed : ∀ i b, claim (φ i).stage = some b → b = true ∧ s.world.entry.state = .inFlight
  alone : ∀ i j, Busy s φ i → Busy s φ j → i = j

variable {n : ℕ} {s : System V} {φ : ℕ → Phase V} {i : ℕ} {c : Call V} {l : Fn} {q : Req V}
  {o : Outcome V} {a : q.Answer} {w : KeyWorld V}
  {rest : Prog Fn (Req V) Req.Answer (Option (Reply V))}

/-! ## What one step does to a claim -/

/-- A request that does not touch the entry lets nobody in, except for a read that misses. -/
theorem claim_next_of_not_touches {φ : Phase V} (hq : q.touchesEntry = false)
    (hok : φ.allows l q) (hgood : KeepsClaim n s ⟨i, c, l, q, a, s.world, w⟩) :
    claim (Phase.next φ.stage l q a) = claim φ.stage ∧
      (Phase.next φ.stage l q a = .failed → φ.stage = .failed) ∧
      Phase.next φ.stage l q a ≠ .marked := by
  obtain ⟨c, st⟩ := φ
  cases q with
  | peek =>
    rcases hok with h | ⟨s, v, h⟩ | h <;> obtain rfl := h
    · simp [Phase.next, claim]
    · simp only [Phase.next]
      split <;> simp [claim]
    · simp [Phase.next]
  | tierGet rung =>
    rcases hok with ⟨s, h, -⟩ | ⟨b, s, h, hs, he, -, rfl⟩ | h | ⟨h, -⟩ | ⟨t, s, dst, h, -⟩ <;>
      obtain rfl := h
    · rcases a with e | v <;> simp only [Phase.next] <;> split <;> simp [claim]
    · -- the fast path of `get_or_fetch`
      rcases a with e | _ | v
      · cases b <;> simp [Phase.next, claim, he]
      · exact hgood.elim
      · cases b <;> simp [Phase.next, claim, he]
    · simp [Phase.next]
    · simp [Phase.next]
    · rcases a with e | _ | v <;> simp [Phase.next, claim]
  | tierSet rung value ttl =>
    rcases hok with ⟨b, g, h⟩ | ⟨t, n, a', h, -⟩ | ⟨t, s, h⟩ <;> obtain rfl := h <;>
      cases a <;> simp [Phase.next, claim]
  | tierRemove rung =>
    rcases hok with ⟨h, -⟩ | ⟨t, h⟩ | ⟨t, s, dst, v, h, -⟩ | ⟨t, h⟩ <;> obtain rfl := h <;>
      simp [Phase.next, claim]
  | fetch =>
    rcases hok with ⟨-, ⟨b, g, v, h⟩ | ⟨s, h, -⟩ | ⟨s, h, hs, he⟩⟩ <;> obtain rfl := h
    · simp [Phase.next, claim]
    · simp [Phase.next, claim]
    · simp [Phase.next, claim, hs, he]
  | register =>
    rcases hok with ⟨s, h, -⟩ | ⟨b, s, h, hs⟩ <;> obtain rfl := h
    · simp [Phase.next, claim]
    · have hne : ¬(s.state = .ready ∧ s.expired = true) := by
        rcases hs with hs | hs <;> simp [hs]
      cases b <;> simp [Phase.next, claim, hne]
  | sleep =>
    obtain ⟨b, g, v, h⟩ := hok
    obtain rfl := h
    simp [Phase.next]
  | notified =>
    obtain rfl := hok
    simp [Phase.next]
  | evictionCandidate | removeIfAddress =>
    rcases hok.2 with h | ⟨s, h⟩ <;> obtain rfl := h <;> simp [Phase.next]
  | tierContains =>
    obtain ⟨s, h, -⟩ := hok
    obtain rfl := h
    simp [Phase.next]
  | yieldNow =>
    obtain ⟨t, r, n, h⟩ := hok
    obtain rfl := h
    simp [Phase.next]
  | tierHealth =>
    rcases hok with ⟨s, h⟩ | ⟨h, -⟩ <;> obtain rfl := h <;> simp [Phase.next]
  | record => simpa [Phase.next] using hok.2.1
  | acquire | setState | publish | failWithError | invalidate | release | prepare | commit | abort
  | abortProvenClean | reserveEviction => cases hq

/-! ## One step -/

theorem Alone.caller (h : Alone n s φ) {cancel : Option (List (Req V))}
    {k : q.Answer → Prog Fn (Req V) Req.Answer (Option (Reply V))}
    (hpend : s.tasks i = some ⟨c, .req l q cancel k⟩) : i < n ∧ ∃ a, c = .getOrFetch a :=
  h.callers i _ hpend

theorem justMarked_answer_of_ne {j : ℕ} (h : j ≠ i) :
    justMarked (s.answer i c l q a w rest) j = justMarked s j := by
  have hij : ¬i = j := fun hij => h hij.symm
  simp [justMarked, hij]

theorem idle_answer_of_ne {j : ℕ} (h : j ≠ i) :
    (s.answer i c l q a w rest).Idle j ↔ s.Idle j := by
  simp [Sys.Idle, Function.update_of_ne h]

/-- What a step of thread `i` has to show. -/
theorem Alone.step (h : Alone n s φ) (hserves : (flights V n).Serves s (φ i) i c l q o a w)
    {st : Stage V} (hfree : st.token = none) (hmarked : st = .marked → ∃ state, q = .setState state)
    (hown : ∀ b, claim st = some b → b = true ∧ w.entry.state = .inFlight)
    (hother : ∀ j, j ≠ i → ∀ b, claim (φ j).stage = some b → w.entry.state = .inFlight)
    (hin : st.Inside → (φ i).stage.Inside ∨ ∀ j, j ≠ i → ¬Busy s φ j) :
    Alone n (s.answer i c l q a w rest) (Function.update φ i ⟨c, st⟩) := by
  obtain ⟨cancel, k, hpend⟩ := hserves.pending
  have hbusy : ∀ j, j ≠ i → (Busy (s.answer i c l q a w rest) (Function.update φ i ⟨c, st⟩) j ↔
      Busy s φ j) := by
    intro j hj
    rw [Busy, Busy, Function.update_of_ne hj, idle_answer_of_ne hj]
  -- a thread that is inside after its step was inside, or went in alone
  have hself : st.Inside → Busy s φ i ∨ ∀ j, j ≠ i → ¬Busy s φ j := fun hi =>
    (hin hi).imp_left fun h' => ⟨h', Sys.not_idle_of_pending hpend⟩
  refine ⟨?_, ?_, ?_, ?_, ?_⟩
  · refine (Function.forall_update_iff s.tasks fun j x => ∀ t, x = some t →
      j < n ∧ ∃ a, t.call = .getOrFetch a).2
      ⟨?_, fun j _ => h.callers j⟩
    rintro t ⟨⟩
    exact h.caller hpend
  · exact (Function.forall_update_iff φ fun j ψ => ψ.stage.token = none).2
      ⟨hfree, fun j _ => h.free j⟩
  · refine (Function.forall_update_iff φ fun j ψ => ψ.stage = .marked → _).2 ⟨?_, fun j hj h' => ?_⟩
    · intro h'
      obtain ⟨state, rfl⟩ := hmarked h'
      simp [justMarked]
    · rw [justMarked_answer_of_ne hj]
      exact h.marked j h'
  · exact (Function.forall_update_iff φ fun j ψ => ∀ b, claim ψ.stage = some b →
      b = true ∧ w.entry.state = .inFlight).2
      ⟨hown, fun j hj b hb => ⟨(h.claimed j b hb).1, hother j hj b hb⟩⟩
  · intro j k hj hk
    by_cases hji : j = i <;> by_cases hki : k = i
    · rw [hji, hki]
    · subst hji
      rw [hbusy k hki] at hk
      rw [Busy, Function.update_self] at hj
      rcases hself hj.1 with hb | hb
      · exact h.alone j k hb hk
      · exact absurd hk (hb k hki)
    · subst hki
      rw [hbusy j hji] at hj
      rw [Busy, Function.update_self] at hk
      rcases hself hk.1 with hb | hb
      · exact h.alone j k hj hb
      · exact absurd hj (hb j hji)
    · exact h.alone j k ((hbusy j hji).1 hj) ((hbusy k hki).1 hk)

/-- A step that keeps the entry, and lets nobody in. -/
theorem Alone.keep (h : Alone n s φ) (hserves : (flights V n).Serves s (φ i) i c l q o a w)
    (hw : w.entry = s.world.entry) {st : Stage V} (hfree : st.token = none) (hmarked : st ≠ .marked)
    (hclaim : claim st = none ∨ claim st = claim (φ i).stage)
    (hfail : st = .failed → (φ i).stage = .failed) :
    Alone n (s.answer i c l q a w rest) (Function.update φ i ⟨c, st⟩) := by
  refine h.step hserves hfree (fun h' => absurd h' hmarked) ?_ ?_ ?_
  · intro b hb
    rw [hw]
    rcases hclaim with hn | he
    · rw [hn] at hb
      cases hb
    · exact h.claimed i b (he ▸ hb)
  · intro j _ b hb
    rw [hw]
    exact (h.claimed j b hb).2
  · intro hi
    refine Or.inl (inside_iff.2 ?_)
    rcases inside_iff.1 hi with hs | hf
    · rcases hclaim with hn | he
      · simp [hn] at hs
      · exact Or.inl (he ▸ hs)
    · exact Or.inr (hfail hf)

/-- The threads that are busy while the entry can be claimed scan the ladder. -/
theorem Alone.site_of_busy (h : Alone n s φ) (hC : Conforming s φ)
    (hs : s.world.entry.state ≠ .inFlight) {j : ℕ} (hj : Busy s φ j) :
    j < n ∧ s.site j = some .tryFallbackTier := by
  obtain ⟨c, l, q, cancel, k, hpend⟩ := Sys.pending_of_not_idle hj.2
  have hfail : (φ j).stage = .failed := by
    rcases inside_iff.1 hj.1 with hc | hf
    · obtain ⟨b, hb⟩ := Option.isSome_iff_exists.1 hc
      exact absurd (h.claimed j b hb).2 hs
    · exact hf
  have hok := (hC.pending hpend).1
  have hl : l = .tryFallbackTier := by
    cases q with
    | prepare rung kind => cases kind <;> simp [Phase.allows, hfail] at hok
    | tierGet rung => exact (by simpa [Phase.allows, hfail] using hok : l = _ ∧ _).1
    | tierHealth rung => exact (by simpa [Phase.allows, hfail] using hok : l = _ ∧ _).1
    | _ => simp [Phase.allows, hfail] at hok
  exact ⟨(h.caller hpend).1, by rw [Sys.site_of_pending hpend, hl]⟩

theorem Alone.acquire (h : Alone n s φ) (hC : Conforming s φ) {tier : TierId}
    {a : Except CacheError ControlSnapshot}
    (hserves : (flights V n).Serves s (φ i) i c l (.acquire tier) o a w) :
    Alone n (s.answer i c l (.acquire tier) a w rest)
      (Function.update φ i ⟨c, Phase.next (φ i).stage l (.acquire tier) a⟩) := by
  obtain ⟨hmark, hscan⟩ := hserves.good
  rcases KeyWorld.exec_acquire hserves.exec with ⟨e, rfl, rfl, -⟩ | ⟨rfl, rfl⟩
  · exact h.keep hserves rfl (by simp [Phase.next]) (by simp [Phase.next])
      (Or.inl (by simp [Phase.next, claim])) (by simp [Phase.next])
  cases hcl : s.world.entry.state.isClaimable with
  | false =>
    -- the claim is refused, and an entry that was just marked is not `Ready` and expired
    have hacq := ControlEntry.acquire_of_not_claimable hcl tier s.world.now
    have hnext : ∃ b, Phase.next (φ i).stage l (.acquire tier)
        (.ok (s.world.entry.acquire tier s.world.now).1) =
          .refused b (s.world.entry.acquire tier s.world.now).1 ∧
        (b = true → (φ i).stage = .marked) := by
      rw [hacq]
      cases hst : (φ i).stage <;> simp [Phase.next, ControlEntry.snapshotOf]
    obtain ⟨b, hnext, hb⟩ := hnext
    rw [hnext]
    refine h.keep hserves (by simp [hacq]) (by simp) (by simp) (Or.inl ?_) (by simp)
    cases b with
    | false => simp [claim]
    | true =>
      have := hmark (h.marked i (hb rfl))
      simp only [claim, hacq]
      rw [if_neg]
      rintro ⟨h₁, h₂⟩
      simp only [ControlEntry.snapshotOf] at h₁ h₂
      simp [KeyWorld.readyExpired, h₁, h₂] at this
  | true =>
    have hne : s.world.entry.state ≠ .inFlight := by
      intro hf
      simp [hf, EntryState.isClaimable] at hcl
    have hfree : ∀ j, ¬Busy s φ j := fun j hj => by
      obtain ⟨hjn, hsite⟩ := h.site_of_busy hC hne hj
      exact hscan hcl j hjn hsite
    have hacq := ControlEntry.acquire_of_claimable hcl tier s.world.now
    have hnext : Phase.next (φ i).stage l (.acquire tier)
        (.ok (s.world.entry.acquire tier s.world.now).1) =
          .populating true (s.world.entry.generation + 1) none := by
      rw [hacq]
      simp [Phase.next, ControlEntry.snapshotOf]
    rw [hnext]
    refine h.step hserves (by simp) (by simp) ?_ ?_ fun _ => Or.inr fun j _ => hfree j
    · intro b hb
      simp only [claim, Option.some.injEq] at hb
      simp [← hb, hacq]
    · intro j _ b hb
      exact absurd (h.claimed j b hb).2 hne

theorem populating_of_claim {st : Stage V} (h : claim st = some true) : st.isPopulating = true := by
  cases st with
  | refused again s =>
    cases again
    · cases h
    · simp only [claim] at h
      split at h <;> cases h
  | populating | filled => rfl
  | _ => cases h

/-- The other threads hold no claim while one populates. -/
theorem Alone.claim_eq_none (h : Alone n s φ) (hB : Belongs s φ) (hC : Conforming s φ)
    (hi : Busy s φ i) {j : ℕ} (hj : j ≠ i) : claim (φ j).stage = none := by
  by_contra hne
  obtain ⟨b, hb⟩ := Option.ne_none_iff_exists'.1 hne
  obtain ⟨rfl, -⟩ := h.claimed j b hb
  refine hj (h.alone j i ⟨inside_iff.2 (Or.inl (by simp [hb])), fun hidle => ?_⟩ hi)
  have := (hC.settled hB hidle).2
  rw [populating_of_claim hb] at this
  cases this

/-- A step with which a population ends. -/
theorem Alone.finish (h : Alone n s φ) (hB : Belongs s φ) (hC : Conforming s φ)
    (hserves : (flights V n).Serves s (φ i) i c l q o a w) (hin : (φ i).stage.Inside)
    {st : Stage V} (hfree : st.token = none) (hmarked : st ≠ .marked) (hclaim : claim st = none) :
    Alone n (s.answer i c l q a w rest) (Function.update φ i ⟨c, st⟩) := by
  obtain ⟨cancel, k, hpend⟩ := hserves.pending
  refine h.step hserves hfree (fun h' => absurd h' hmarked) ?_ ?_ fun _ => Or.inl hin
  · intro b hb
    rw [hclaim] at hb
    cases hb
  · intro j hj b hb
    rw [h.claim_eq_none hB hC ⟨hin, Sys.not_idle_of_pending hpend⟩ hj] at hb
    cases hb

/-- Every step that keeps the claims keeps the population alone. -/
theorem Alone.answer (h : Alone n s φ) (hB : Belongs s φ) (hC : Conforming s φ)
    (hserves : (flights V n).Serves s (φ i) i c l q o a w) :
    Alone n (s.answer i c l q a w rest)
      (Function.update φ i ⟨c, Phase.next (φ i).stage l q a⟩) := by
  have hok := hserves.allows
  have hcall : ∃ a, c = .getOrFetch a := by
    obtain ⟨cancel, k, hpend⟩ := hserves.pending
    exact (h.caller hpend).2
  cases hq : q.touchesEntry with
  | false =>
    obtain ⟨hclaim, hfail, hmarked⟩ := claim_next_of_not_touches hq hok hserves.good
    have hfree := (Phase.next_of_not_touches (a := a) hq hok).1.trans (h.free i)
    exact h.keep hserves (KeyWorld.exec_entry hq hserves.exec) hfree hmarked (Or.inr hclaim) hfail
  | true =>
    obtain ⟨a', rfl⟩ := hcall
    have hcall' := hserves.call
    cases q with
    | acquire tier => exact h.acquire hC hserves
    | setState state =>
      have hgood : s.world.entry.state ≠ .inFlight := hserves.good
      have hnext : claim (Phase.next (φ i).stage l (.setState state) a) = none ∧
          ¬(Phase.next (φ i).stage l (.setState state) a).Inside ∧
          (Phase.next (φ i).stage l (.setState state) a).token = none := by
        rcases hok.2 with ⟨s, hst, -⟩ | ⟨s, hst, -⟩
        · simp only [Phase.next, hst]
          split <;> simp_all [claim]
        · simp [Phase.next, hst, claim]
      refine h.step hserves hnext.2.2 (fun _ => ⟨state, rfl⟩) ?_ ?_ fun hi => absurd hi hnext.2.1
      · intro b hb
        rw [hnext.1] at hb
        cases hb
      · intro j _ b hb
        exact absurd (h.claimed j b hb).2 hgood
    | publish g tier ttl =>
      obtain ⟨b, v, hst⟩ := hok
      rcases KeyWorld.exec_publish hserves.exec with ⟨e, rfl, rfl, -⟩ | ⟨rfl, -, -⟩
      · exact h.keep hserves rfl (by simp [Phase.next, hst]) (by simp [Phase.next, hst])
          (Or.inr (by simp [Phase.next, hst, claim])) (by simp [Phase.next, hst])
      · exact h.finish hB hC hserves (by simp [hst]) (by simp [Phase.next, hst])
          (by simp [Phase.next, hst]) (by simp [Phase.next, hst, claim])
    | failWithError error =>
      have hin : (φ i).stage.Inside := by
        refine inside_iff.2 (Or.inl ?_)
        rcases hok with hst | ⟨s, hst, -⟩ | ⟨s, hst, hs, he⟩
        · exact claim_of_populating hst
        · simp [hst, claim]
        · simp [hst, claim, hs, he]
      exact h.finish hB hC hserves hin (by simp [Phase.next]) (by simp [Phase.next])
        (by simp [Phase.next, claim])
    | prepare tier kind =>
      cases kind with
      | write =>
        obtain ⟨⟨a, v, hset⟩, -⟩ := hok
        exact absurd (hset.symm.trans hcall') (by simp)
      | move =>
        have hmoves := hok.1
        rw [hcall'] at hmoves
        exact hmoves.elim
    | reserveEviction address =>
      have hevicts := hok.1
      rw [hcall'] at hevicts
      exact hevicts.elim
    | commit token ttl =>
      have hfree := h.free i
      rcases hok with ⟨r, n, hst⟩ | ⟨s, dst, v, hst⟩ <;> simp [hst] at hfree
    | abort token error =>
      have hfree := h.free i
      rcases hok with hst | ⟨r, n, hst⟩ | ⟨r, e, hst⟩ | ⟨s, dst, hst⟩ <;> simp [hst] at hfree
    | abortProvenClean token error =>
      have hfree := h.free i
      obtain ⟨r, hst, -⟩ := hok
      simp [hst] at hfree
    | invalidate =>
      obtain ⟨-, a, ha⟩ := hok
      exact absurd (ha.symm.trans hcall') (by simp)
    | release =>
      obtain ⟨-, a, ha⟩ := hok
      exact absurd (ha.symm.trans hcall') (by simp)
    | peek | evictionCandidate | removeIfAddress | tierGet | tierSet | tierRemove | tierContains
    | fetch | register | notified | sleep | yieldNow | tierHealth | record => cases hq

/-! ## All runs -/

theorem Alone.start (h : Alone n s φ) (hi : i < n) (hc : ∃ a, c = .getOrFetch a) :
    Alone n (s.leave i c rest) (Function.update φ i ⟨c, .idle⟩) := by
  have hbusy : ∀ j, Busy (s.leave i c rest) (Function.update φ i ⟨c, .idle⟩) j → Busy s φ j := by
    intro j hj
    by_cases hji : j = i
    · subst hji
      simp [Busy] at hj
    · simpa [Busy, Sys.Idle, Function.update_of_ne hji] using hj
  refine ⟨?_, ?_, ?_, ?_, fun j k hj hk => h.alone j k (hbusy j hj) (hbusy k hk)⟩
  · exact (Function.forall_update_iff s.tasks fun j x => ∀ t, x = some t →
      j < n ∧ ∃ a, t.call = .getOrFetch a).2
      ⟨by rintro t ⟨⟩; exact ⟨hi, hc⟩, fun j _ => h.callers j⟩
  · exact (Function.forall_update_iff φ fun j ψ => ψ.stage.token = none).2 ⟨rfl, fun j _ => h.free j⟩
  · exact (Function.forall_update_iff φ fun j ψ => ψ.stage = .marked → _).2
      ⟨(by simp), fun j _ => h.marked j⟩
  · exact (Function.forall_update_iff φ fun j ψ => ∀ b, claim ψ.stage = some b →
      b = true ∧ s.world.entry.state = .inFlight).2
      ⟨by simp [claim], fun j _ => h.claimed j⟩

theorem Alone.drop (h : Alone n s φ) {cancel : Option (List (Req V))}
    {k : q.Answer → Prog Fn (Req V) Req.Answer (Option (Reply V))}
    (hpend : s.tasks i = some ⟨c, .req l q cancel k⟩) (hcall : (φ i).call = c) :
    Alone n (s.leave i c rest) (Function.update φ i ⟨c, (φ i).stage.cancel⟩) := by
  -- a call without an intent stays where it is
  have hφ : Function.update φ i ⟨c, (φ i).stage.cancel⟩ = φ := by
    rw [Stage.cancel_of_none (h.free i), ← hcall, Function.update_eq_self]
  rw [hφ]
  have hbusy : ∀ j, Busy (s.leave i c rest) φ j → Busy s φ j := by
    rintro j ⟨hin, hidle⟩
    refine ⟨hin, ?_⟩
    by_cases hj : j = i
    · subst hj
      exact Sys.not_idle_of_pending hpend
    · simpa [Sys.Idle, Function.update_of_ne hj] using hidle
  refine ⟨?_, h.free, h.marked, h.claimed, fun j k hj hk => h.alone j k (hbusy j hj) (hbusy k hk)⟩
  refine (Function.forall_update_iff s.tasks fun j x => ∀ t, x = some t →
      j < n ∧ ∃ a, t.call = .getOrFetch a).2
    ⟨?_, fun j _ => h.callers j⟩
  rintro t ⟨⟩
  exact h.caller hpend

theorem upholds : Upholds (flights V n) (Alone n) where
  start h _ hc _ := h.start hc.1 hc.2
  answer _ h hB hC hserves := h.answer hB hC hserves
  drop _ h _ hpend hcall := h.drop hpend hcall
  env h := ⟨h.callers, h.free, h.marked, h.claimed, h.alone⟩

theorem alone_initial (n : ℕ) (w : KeyWorld V) :
    Alone n (.initial w) fun _ => (⟨.evict, .idle⟩ : Phase V) where
  callers _ _ := by rintro ⟨⟩
  free _ := rfl
  marked _ := (by simp)
  claimed _ _ := by rintro ⟨⟩
  alone _ _ := by simp [Busy]

theorem busy_of_inside (hC : Conforming s φ) (h : inside s i = true) : Busy s φ i := by
  unfold inside Sys.site at h
  cases ht : s.tasks i with
  | none => simp [ht] at h
  | some t =>
    obtain ⟨c, rest⟩ := t
    cases rest with
    | ret r => simp [ht, Prog.site] at h
    | req l q cancel k =>
      simp only [ht, Option.bind_some, Prog.site, Option.elim_some] at h
      exact ⟨(hC.pending ht).2 h, Sys.not_idle_of_pending ht⟩

theorem inside_of_fetching (hC : Conforming s φ) (h : fetching s i = true) : inside s i = true := by
  unfold fetching at h
  split at h
  · rename_i ht
    obtain ⟨hl, -⟩ := (hC.pending ht).1
    simp [inside, Sys.site_of_pending ht, hl]
  · cases h

end SingleFlight

/-- **Single flight.** At every moment at most one caller of `get_or_fetch` is inside
`become_population_owner`, and at most one fetch is running. -/
theorem single_flight {n tiers : ℕ} {w : KeyWorld V} {schedule : List (Turn V)}
    (hT : (flights V n).Hold tiers w schedule) (i j : ℕ) :
    (inside ((manager V tiers).run w schedule) i = true →
      inside ((manager V tiers).run w schedule) j = true → i = j) ∧
    (fetching ((manager V tiers).run w schedule) i = true →
      fetching ((manager V tiers).run w schedule) j = true → i = j) := by
  obtain ⟨φ, hr⟩ := SingleFlight.upholds.run (SingleFlight.alone_initial n w) (fun _ => rfl) hT
  have halone : ∀ {i j}, inside ((manager V tiers).run w schedule) i = true →
      inside ((manager V tiers).run w schedule) j = true → i = j := fun hi hj =>
    hr.inv.alone _ _ (SingleFlight.busy_of_inside hr.conforming hi)
      (SingleFlight.busy_of_inside hr.conforming hj)
  exact ⟨halone, fun hi hj => halone (SingleFlight.inside_of_fetching hr.conforming hi)
    (SingleFlight.inside_of_fetching hr.conforming hj)⟩

/-- A fetch that returns `7`. -/
def fetchesSeven : Outcome ℕ := { fetched := .ok 7 }

/-- Two callers on a key nobody has written: the first is granted the claim, the second waits. -/
def sharedFlight : List (Turn ℕ) :=
  [.start 0 (.getOrFetch (.pinned .L0 none)), .start 1 (.getOrFetch (.pinned .L0 none)),
    .run 0 {}, .run 1 {}, .run 1 {}, .run 0 fetchesSeven]

theorem single_flight_sharedFlight :
    (flights ℕ 2).Hold 1 .unwritten sharedFlight ∧
      inside ((manager ℕ 1).run .unwritten sharedFlight) 0 = true ∧
      ∀ j, inside ((manager ℕ 1).run .unwritten sharedFlight) j = true → 0 = j := by
  have hhold : (flights ℕ 2).Hold 1 .unwritten sharedFlight := by decide +kernel
  have h0 : inside ((manager ℕ 1).run .unwritten sharedFlight) 0 = true := by decide +kernel
  exact ⟨hhold, h0, fun j => (single_flight hhold 0 j).1 h0⟩

/-- A population with a TTL, and two callers after it has elapsed: the second marks the entry stale
when the first has claimed it already. -/
def expiredRace : List (Turn ℕ) :=
  [.start 0 (.getOrFetch (.pinned .L0 (some 1))),
    .run 0 {}, .run 0 fetchesSeven, .run 0 {}, .run 0 {}, .run 0 {}, .env 5,
    .start 1 (.getOrFetch (.pinned .L0 none)), .start 2 (.getOrFetch (.pinned .L0 none)),
    -- both are shown the expired entry
    .run 1 {}, .run 2 {},
    -- each marks it and claims it
    .run 1 {}, .run 1 {}, .run 2 {}, .run 2 {}]

/-- Two fetches of one key are running. -/
theorem expiredRace_fetches_twice :
    fetching ((manager ℕ 1).run .unwritten expiredRace) 1 = true ∧
      fetching ((manager ℕ 1).run .unwritten expiredRace) 2 = true ∧
      inside ((manager ℕ 1).run .unwritten expiredRace) 1 = true ∧
      inside ((manager ℕ 1).run .unwritten expiredRace) 2 = true := by
  decide +kernel

end TheSix
