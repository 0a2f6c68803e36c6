import TheSix.Sequential.Calls

/-!
# A refresh whose fetch fails

`refresh_detailed` serves the old value when its revalidation fails. On the way there it marks the
entry stale, `acquire` claims it and names the policy's rung, and the population that gives up fails
it. The call returns the old value once, and nobody can read it afterwards: the next `get` misses,
and the next refresh that fails has nothing to serve.
-/

namespace TheSix

open Coroutine

variable {V : Type}

/-- Answer a request as `o` decides after so many fetches, and count the fetches. -/
def KeyWorld.serveEach (o : ℕ → Req V → Outcome V) (q : Req V) (s : KeyWorld V × ℕ) :
    Option (q.Answer × KeyWorld V × ℕ) :=
  KeyWorld.serve (o s.2) q s

/-- Run a call alone, with a fetch that may answer otherwise on every attempt. -/
def Call.runEach (tiers : ℕ) (o : ℕ → Req V → Outcome V) (c : Call V) (w : KeyWorld V) :
    Option (Reply V × KeyWorld V × ℕ) :=
  (c.prog tiers).eval (KeyWorld.serveEach o) (w, 0)

/-- The fetch fails on every attempt. -/
def FetchFails (o : ℕ → Req V → Outcome V) : Prop := ∀ n, ∃ e, (o n .fetch).fetched = .error e

namespace Manager

variable {tiers : ℕ} {a : Args} {o : ℕ → Req V → Outcome V} {w : KeyWorld V} {n : ℕ}

theorem serveEach_fetch (hfails : FetchFails o) :
    ∃ e, KeyWorld.serveEach o .fetch (w, n) = some (.error e, w, n + 1) := by
  obtain ⟨e, he⟩ := hfails n
  exact ⟨e, by simp [KeyWorld.serveEach, KeyWorld.serve, KeyWorld.exec, he, Req.isFetch]⟩

theorem populateOnce_fails (tiers : ℕ) (a : Args) (w : KeyWorld V) (n : ℕ) (hfails : FetchFails o)
    (decision : PolicyDecision) (g : Generation) :
    ∃ e, (populateOnce tiers a decision g).eval (KeyWorld.serveEach o) (w, n) =
      some (.error e, w, n + 1) := by
  obtain ⟨e, he⟩ := serveEach_fetch (w := w) (n := n) hfails
  refine ⟨e, ?_⟩
  simp only [populateOnce, await, noTelemetry_eq, Prog.req_bind, Prog.ret_bind]
  rw [Prog.eval_req he]
  rfl

/-- Attempts that all fail touch nothing. -/
theorem populateAttempts_fails (tiers : ℕ) (a : Args) (w : KeyWorld V) (n : ℕ)
    (hfails : FetchFails o) (decision : PolicyDecision) (g : Generation) (retries : ℕ) :
    ∃ e m, (populateAttempts tiers a decision g retries).eval (KeyWorld.serveEach o) (w, n) =
      some (.error e, w, m) := by
  induction retries generalizing n with
  | zero =>
    obtain ⟨e, he⟩ := populateOnce_fails tiers a w n hfails decision g
    exact ⟨e, n + 1, he⟩
  | succ retries ih =>
    obtain ⟨e, he⟩ := populateOnce_fails tiers a w n hfails decision g
    simp only [populateAttempts, Prog.eval_bind, he, Option.bind_some]
    by_cases hretry : isRetryable e = true
    · simp only [hretry, if_true, await, noTelemetry_eq, Prog.req_bind, Prog.ret_bind]
      exact ih (n + 1)
    · simp [hretry]

/-- A population that fails closed fails the entry. -/
theorem becomePopulationOwner_fails (tiers : ℕ) (a : Args) (n : ℕ) (hfails : FetchFails o)
    (hs : w.slot.isSome = true) (decision : PolicyDecision) (hclosed : decision.failMode = .closed) (g : Generation) :
    ∃ e e' m, (becomePopulationOwner tiers a decision g).eval (KeyWorld.serveEach o) (w, n) =
      some (.error e', w.putEntry (w.entry.failWithError e), m) := by
  obtain ⟨e, m, he⟩ :=
    populateAttempts_fails tiers a w n hfails decision g 2
  have hfail : KeyWorld.serveEach o (.failWithError e) (w, m) =
      some (.ok (), w.putEntry (w.entry.failWithError e), m) := by
    obtain ⟨entry, hentry⟩ := Option.isSome_iff_exists.1 hs
    simp [KeyWorld.serveEach, KeyWorld.serve, KeyWorld.exec, KeyWorld.onSlot, KeySlot.failWithError,
      hentry, KeyWorld.putEntry, KeyWorld.entry, Req.isFetch]
  simp only [becomePopulationOwner, Prog.eval_bind, Prog.eval_guarded, he, Option.bind_some, call,
    noTelemetry_eq, Prog.req_bind, Prog.ret_bind]
  rw [Prog.eval_req hfail]
  by_cases hstale : e = .staleGeneration
  · exact ⟨e, .staleGeneration, m, by simp [hstale]⟩
  · exact ⟨e, e, m, by simp [hstale, hclosed]⟩

/-- The claim of a refresh that finds the entry claimable, and the failure behind it. -/
theorem revalidate_fails (tiers : ℕ) (a : Args) (n : ℕ) (hfails : FetchFails o)
    (hs : w.slot.isSome = true)
    (hclaim : w.entry.state.isClaimable = true) (decision : PolicyDecision) (current : Option V) :
    ∃ e w' m, (revalidate tiers a decision current).eval (KeyWorld.serveEach o) (w, n) =
      some (if current.isSome then .ok ⟨current, false⟩ else .error e, w', m) ∧
        w'.entry.state = .failed ∧ w'.slot.isSome = true := by
  have hacquire : KeyWorld.serveEach o (.acquire decision.tier) (w, n) =
      some (.ok (w.entry.acquire decision.tier w.now).1,
        w.putEntry (w.entry.claimed decision.tier w.now), n) := by
    obtain ⟨entry, hentry⟩ := Option.isSome_iff_exists.1 hs
    rw [KeyWorld.entry_of_slot hentry] at hclaim ⊢
    simp [KeyWorld.serveEach, KeyWorld.serve, KeyWorld.exec, KeyWorld.onSlot, KeySlot.acquire, hentry,
      KeyWorld.putEntry, Req.isFetch, ControlEntry.acquire_of_claimable hclaim]
  have hclaimed : (w.putEntry (w.entry.claimed decision.tier w.now)).slot.isSome = true := rfl
  obtain ⟨e, e', m, he⟩ := becomePopulationOwner_fails tiers a n hfails hclaimed
    { decision with failMode := .closed } rfl
    (w.entry.acquire decision.tier w.now).1.generation
  simp only [revalidate, call, noTelemetry_eq, Prog.req_bind, Prog.ret_bind]
  rw [Prog.eval_req hacquire]
  refine ⟨e', (w.putEntry (w.entry.claimed decision.tier w.now)).putEntry
    ((w.entry.claimed decision.tier w.now).failWithError e), m, ?_, rfl, rfl⟩
  have howner : (w.entry.acquire decision.tier w.now).1.populationOwner = true := by
    rw [ControlEntry.acquire_of_claimable hclaim]
    rfl
  simp only [howner, Bool.true_eq_false, if_false, Prog.eval_bind, he, Option.bind_some]
  cases current <;> rfl

theorem serveEach_peek :
    KeyWorld.serveEach o .peek (w, n) = some (w.slot.peek w.now, w, n) := rfl

/-- A refresh of a readable value whose fetch fails returns the value, and fails the entry. -/
theorem refresh_fails {d : PolicyDecision} {v : V} (hgate : a.admitPopulation = .ok d)
    (hs : w.entry.state = .ready) (he : w.entry.isExpired w.now = false)
    (hb : hasTier tiers w.entry.tier = true) (hv : w.rungs w.entry.tier = some v)
    (hexact : (o 0 (.tierGet w.entry.tier)).Exact) (hfails : FetchFails o) :
    ∃ w' m, (Call.refresh a).runEach tiers o w = some (.refreshed (.ok ⟨some v, false⟩), w', m) ∧
      w'.entry.state = .failed ∧ w'.slot.isSome = true := by
  have hslot : w.slot.isSome = true := KeyWorld.isSome_of_state (by simp [hs])
  have hread : KeyWorld.serveEach o (.tierGet w.entry.tier) (w, 0) = some (.ok (some v), w, 0) := by
    rw [KeyWorld.serveEach, KeyWorld.serve_tierGet]
    simp [KeyWorld.read, hexact.1, hexact.2, hv]
  have hmark : KeyWorld.serveEach o (.setState .stale) (w, 0) =
      some (.ok (), w.putEntry (w.entry.setState .stale), 0) := KeyWorld.serve_setState hslot
  have hstale : (w.putEntry (w.entry.setState .stale)).slot.isSome = true := rfl
  obtain ⟨e, w', m, hrun, hfailed, hsome⟩ :=
    revalidate_fails tiers a 0 hfails hstale rfl d (some v)
  refine ⟨w', m, ?_, hfailed, hsome⟩
  simp only [Call.runEach, Call.prog, Prog.eval_map, refreshDetailed, hgate, call, noTelemetry_eq,
    Prog.req_bind, Prog.ret_bind]
  rw [Prog.eval_req serveEach_peek]
  simp only [readCurrent, KeyWorld.peek_state, KeyWorld.peek_expired, hs, he, and_self, if_true]
  rw [if_neg (by simp [EntryState.isReadable, KeyWorld.peek_tier, hb])]
  simp only [await, Prog.req_bind, Prog.ret_bind]
  have htier := KeyWorld.peek_tier w
  generalize (w.slot.peek w.now).tier = tier at htier
  subst htier
  rw [Prog.eval_req hread]
  simp only [Prog.eval_bind, Prog.eval_pure, Option.bind_some]
  rw [Prog.eval_req hmark, hrun]
  rfl

/-- A refresh of an entry that has failed, with a fetch that fails, has nothing to serve. -/
theorem refresh_of_failed {d : PolicyDecision} (hgate : a.admitPopulation = .ok d)
    (hs : w.entry.state = .failed) (hslot : w.slot.isSome = true) (hfails : FetchFails o) :
    ∃ e w' m, (Call.refresh a).runEach tiers o w = some (.refreshed (.error e), w', m) := by
  obtain ⟨e, w', m, hrun, -⟩ := revalidate_fails tiers a 0 hfails hslot
    (by simp [hs, EntryState.isClaimable]) d none
  refine ⟨e, w', m, ?_⟩
  simp only [Call.runEach, Call.prog, Prog.eval_map, refreshDetailed, hgate, call, noTelemetry_eq,
    Prog.req_bind, Prog.ret_bind]
  rw [Prog.eval_req serveEach_peek]
  simp only [readCurrent, KeyWorld.peek_state, hs, EntryState.isReadable, true_or, if_true,
    reduceCtorEq, false_and, if_false, Prog.eval_bind, Prog.eval_pure, Option.bind_some, hrun]
  rfl

end Manager

/-- Every `get` returns `v`, while the tiers are maps. -/
def Serves (tiers : ℕ) (v : V) (w : KeyWorld V) : Prop :=
  ∀ a d o, a.admitEncoded = .ok d → (∀ q, (o q).Exact) →
    (Call.get a).reply tiers o w = some (.read (.ok (some v)))

/-- Every `get` returns `v`, and so does every refresh whose fetch fails, `n` times over. -/
def KeepsServing (tiers : ℕ) (v : V) : ℕ → KeyWorld V → Prop
  | 0, w => Serves tiers v w
  | n + 1, w => Serves tiers v w ∧
      ∀ a d o, a.admitPopulation = .ok d → (∀ i q, (o i q).Exact) → FetchFails o →
        ∃ w' m, (Call.refresh a).runEach tiers o w = some (.refreshed (.ok ⟨some v, false⟩), w', m) ∧
          KeepsServing tiers v n w'

/-- **A failed refresh destroys the value it failed to replace**, whichever value it was and however
the fetch failed: the refresh itself returns the value, labelled stale, but afterwards every `get`
misses, and every further refresh whose fetch fails returns an error. -/
theorem lost_of_failed_refresh {tiers : ℕ} {a : Args} {d : PolicyDecision}
    {o : ℕ → Req V → Outcome V} {w : KeyWorld V} {v : V} (hgate : a.admitPopulation = .ok d)
    (hs : w.entry.state = .ready) (he : w.entry.isExpired w.now = false)
    (hb : Manager.hasTier tiers w.entry.tier = true) (hv : w.rungs w.entry.tier = some v)
    (hexact : ∀ n q, (o n q).Exact) (hfails : FetchFails o) :
    ∃ w' m, (Call.refresh a).runEach tiers o w = some (.refreshed (.ok ⟨some v, false⟩), w', m) ∧
      (∀ n, ¬KeepsServing tiers v n w') ∧
      (∀ a' d' o', a'.admitEncoded = .ok d' →
        (Call.get a').reply tiers o' w' = some (.read (.error .miss))) ∧
      ∀ a' d' o', a'.admitPopulation = .ok d' → FetchFails o' →
        ∃ e w'' m', (Call.refresh a').runEach tiers o' w' = some (.refreshed (.error e), w'', m') := by
  obtain ⟨w', m, hrun, hfailed, hslot⟩ := Manager.refresh_fails hgate hs he hb hv (hexact 0 _) hfails
  have hmiss : ∀ a' d' o', a'.admitEncoded = .ok d' →
      (Call.get a').reply tiers o' w' = some (.read (.error .miss)) :=
    fun a' d' o' hgate' => Manager.get_reply_of_unreadable hgate' (by simp [hfailed])
  refine ⟨w', m, hrun, ?_, hmiss, fun _ _ _ hgate' => Manager.refresh_of_failed hgate' hfailed hslot⟩
  intro n hkeeps
  have hserves : Serves tiers v w' := by
    cases n with
    | zero => exact hkeeps
    | succ n => exact hkeeps.1
  have hget := hserves (.pinned .L0 none) _ (fun _ => {}) rfl fun _ => ⟨rfl, rfl⟩
  rw [hmiss _ _ _ rfl] at hget
  cases hget

/-- Every fetch fails, and the tiers are maps. -/
def failingFetch : ℕ → Req ℕ → Outcome ℕ := fun _ _ => { fetched := .error .populationFailed }

theorem lost_of_failed_refresh_writtenAtL0 :
    ∃ w' m, (Call.refresh (.pinned .L0 none)).runEach 1 failingFetch (.writtenAtL0 none) =
        some (.refreshed (.ok ⟨some 1, false⟩), w', m) ∧
      ∀ n, ¬KeepsServing 1 1 n w' := by
  have hadmit : (Args.pinned .L0 none).admitPopulation = .ok ⟨true, .L0, .closed⟩ := rfl
  have hexact : ∀ n q, (failingFetch n q).Exact := fun _ _ => ⟨rfl, rfl⟩
  have hfails : FetchFails failingFetch := fun _ => ⟨.populationFailed, rfl⟩
  have hlive : (KeyWorld.writtenAtL0 none).entry.isExpired (KeyWorld.writtenAtL0 none).now = false := by
    decide +kernel
  have hbound : Manager.hasTier 1 (KeyWorld.writtenAtL0 none).entry.tier = true := rfl
  obtain ⟨w', m, hrun, hlost, -⟩ :=
    lost_of_failed_refresh hadmit rfl hlive hbound rfl hexact hfails
  exact ⟨w', m, hrun, hlost⟩

/-- The value is read, a refresh fails and returns it as stale, and the next `get` misses. -/
theorem writtenAtL0_lost :
    (Call.get (.pinned .L0 none)).reply 1 (fun _ => {}) (.writtenAtL0 none) = some (.read (.ok (some 1))) ∧
      ((Call.refresh (.pinned .L0 none)).runEach 1 failingFetch (.writtenAtL0 none)).map (fun s =>
          (s.1, (Call.get (.pinned .L0 none)).reply 1 (fun _ => {}) s.2.1)) =
        some (.refreshed (.ok ⟨some 1, false⟩), some (.read (.error .miss))) := by
  decide +kernel

end TheSix
