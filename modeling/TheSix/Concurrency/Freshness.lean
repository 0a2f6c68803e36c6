import TheSix.Concurrency.Expiry
import TheSix.Concurrency.SingleFlight
import TheSix.Lib.Paths

/-!
# Where the value of a `get_or_fetch` comes from

A `get_or_fetch` that fails closed is served by its own fetch, or by a rung that an observation of
the entry has named (`Supplied`). On its fast path it reads only a `Ready` entry whose TTL has not
elapsed. A waiter looks at the entry again once it is woken, and asks only that the entry is
readable: a `Stale` entry is, and one that has expired by then. So the values of a run are fresh as
long as no waiter looks at an entry like that (`fresh_of_result`).
-/

namespace TheSix

open Coroutine

variable {V : Type}

/-- An observation that a fresh value may be read by: `Ready`, and not expired. -/
def ControlSnapshot.Servable (s : ControlSnapshot) : Prop := s.state = .ready ∧ s.expired = false

instance : DecidablePred ControlSnapshot.Servable := fun _ => inferInstanceAs (Decidable (_ ∧ _))

/-- An observation that a waiter reads by, although it is not servable. -/
def ControlSnapshot.Outdated (s : ControlSnapshot) : Prop :=
  s.lastError = none ∧ (s.state = .stale ∨ s.state = .ready ∧ s.expired = true)

instance : DecidablePred ControlSnapshot.Outdated := fun _ => inferInstanceAs (Decidable (_ ∧ _))

theorem ControlSnapshot.servable_or_outdated {s : ControlSnapshot} (he : s.lastError = none)
    (hr : s.state.isReadable = true) : s.Servable ∨ s.Outdated := by
  obtain ⟨state, _, _, _, _, _, expired, _, _, _⟩ := s
  cases state with
  | ready =>
    cases expired with
    | false => exact Or.inl ⟨rfl, rfl⟩
    | true => exact Or.inr ⟨he, Or.inr ⟨rfl, rfl⟩⟩
  | stale => exact Or.inr ⟨he, Or.inl rfl⟩
  | _ => cases hr

/-- The value that an item has fetched. -/
def fetchedBy : Served V → Option V
  | ⟨_, _, _, .fetch, .ok v, _, _⟩ => some v
  | _ => none

/-- The value that an item has read, and the rung. -/
def readBy : Served V → Option (TierId × V)
  | ⟨_, _, _, .tierGet rung, .ok (some v), _, _⟩ => some (rung, v)
  | _ => none

/-- Among the items of a call, newest first, one has fetched the value, or one has read it from the
rung that a servable observation before it has named. -/
def Fresh (mine : List (Served V)) (v : V) : Prop :=
  (∃ it ∈ mine, fetchedBy it = some v) ∨
    ∃ look read s, [read, look].Sublist mine ∧ observed look = some s ∧ s.Servable ∧
      readBy read = some (s.tier, v)

/-! ## The paths that end with a value -/

namespace Manager

/-- An exchange of the manager. -/
abbrev Exchanged (V : Type) := Exchange Fn (Req V) Req.Answer

/-- The snapshot that an exchange shows its call. -/
def shows : Exchanged V → Option ControlSnapshot
  | ⟨_, .peek, s⟩ | ⟨_, .acquire _, .ok s⟩ => some s
  | _ => none

/-- Among the exchanges of a call, oldest first, one has fetched the value, or one has read it from
the rung that an observation before it has named: a servable one, or the second look of a waiter. -/
def Supplied (log : List (Exchanged V)) (v : V) : Prop :=
  (∃ l, ⟨l, .fetch, .ok v⟩ ∈ log) ∨
    ∃ look l s, [look, ⟨l, .tierGet s.tier, .ok (some v)⟩].Sublist log ∧ shows look = some s ∧
      (s.Servable ∨ look = ⟨.waitAndGet, .peek, s⟩ ∧ s.Outdated)

theorem Supplied.mono {log log' : List (Exchanged V)} {v : V} (h : Supplied log v)
    (hlog : log.Sublist log') : Supplied log' v := by
  rcases h with ⟨l, hmem⟩ | ⟨look, l, s, hsub, hlook⟩
  · exact Or.inl ⟨l, hlog.subset hmem⟩
  · exact Or.inr ⟨look, l, s, hsub.trans hlog, hlook⟩

variable {tiers : ℕ} {a : Args} {d : PolicyDecision} {g : Generation} {log : List (Exchanged V)} {v : V}

theorem waitAndGet_leads {s : ControlSnapshot} (h : (waitAndGet tiers s).Leads log (.ok v)) :
    Supplied log v := by
  simp only [waitAndGet, Prog.leads_bind] at h
  obtain ⟨front, r, rest, rfl, -, hrest⟩ := h
  cases r with
  | error e => simp at hrest
  | ok u =>
    simp only [call, noTelemetry_eq, await, Prog.req_bind, Prog.ret_bind, Prog.leads_req] at hrest
    obtain ⟨after, rest, rfl, hrest⟩ := hrest
    cases hl : after.lastError with
    | some e => simp [hl] at hrest
    | none =>
      simp only [hl, Prog.leads_ite, Prog.leads_pure, reduceCtorEq, and_false, false_or,
        Prog.leads_req] at hrest
      obtain ⟨hread, -, b, rest, rfl, hrest⟩ := hrest
      rcases b with e | _ | x
      · simp at hrest
      · simp at hrest
      · simp only [Prog.leads_pure, Except.ok.injEq] at hrest
        obtain ⟨rfl, rfl⟩ := hrest
        refine Or.inr ⟨⟨.waitAndGet, .peek, after⟩, .waitAndGet, after, ?_, rfl, ?_⟩
        · exact List.sublist_append_right front _
        · have hr : after.state.isReadable = true := by simpa using hread
          rcases ControlSnapshot.servable_or_outdated hl hr with hs | ho
          · exact Or.inl hs
          · exact Or.inr ⟨rfl, ho⟩

/-- The exchanges of a population that has fetched the value, written it to a rung, and published it
at the given generation. -/
def Published (a : Args) (g : Generation) (log : List (Exchanged V)) (v : V) : Prop :=
  ∃ rung, List.Sublist
    [⟨.populateOnce, .fetch, .ok v⟩, ⟨.populateOnce, .tierSet rung v a.ttl, .ok ()⟩,
      ⟨.populateOnce, .publish g rung a.ttl, .ok ()⟩] log

theorem Published.mono {log log' : List (Exchanged V)} {v : V} (h : Published a g log v)
    (hlog : log.Sublist log') : Published a g log' v := by
  obtain ⟨rung, hsub⟩ := h
  exact ⟨rung, hsub.trans hlog⟩

theorem Published.supplied {log : List (Exchanged V)} {v : V} (h : Published a g log v) :
    Supplied log v := by
  obtain ⟨rung, hsub⟩ := h
  exact Or.inl ⟨.populateOnce, hsub.subset List.mem_cons_self⟩

theorem populateOnce_leads (h : (populateOnce tiers a d g).Leads log (.ok v)) :
    Published a g log v := by
  simp only [populateOnce, call, noTelemetry_eq, await, Prog.req_bind, Prog.ret_bind,
    Prog.leads_req] at h
  obtain ⟨b, rest, rfl, h⟩ := h
  cases b with
  | error e => simp at h
  | ok x =>
    cases hr : nearestBoundRung tiers d.tier with
    | none => simp [hr] at h
    | some rung =>
      simp only [hr, Prog.leads_req] at h
      obtain ⟨b, rest, rfl, u, rest, rfl, h⟩ := h
      cases b with
      | error e => simp at h
      | ok u =>
        simp only [Prog.leads_req] at h
        obtain ⟨b, rest, rfl, h⟩ := h
        cases b with
        | error e => simp at h
        | ok u =>
          simp only [Prog.leads_pure, Except.ok.injEq] at h
          obtain ⟨rfl, rfl⟩ := h
          exact ⟨rung, (((List.Sublist.refl _).cons _).cons_cons _).cons_cons _⟩

theorem populateAttempts_leads {retries : ℕ}
    (h : (populateAttempts tiers a d g retries).Leads log (.ok v)) : Published a g log v := by
  induction retries generalizing log with
  | zero => exact populateOnce_leads h
  | succ retries ih =>
    simp only [populateAttempts, Prog.leads_bind] at h
    obtain ⟨front, r, rest, rfl, hfront, h⟩ := h
    cases r with
    | ok x =>
      simp only [Prog.leads_pure, Except.ok.injEq] at h
      obtain ⟨-, rfl⟩ := h
      exact (populateOnce_leads hfront).mono (List.sublist_append_left _ _)
    | error e =>
      simp only [Prog.leads_ite, Prog.leads_pure, reduceCtorEq, and_false, or_false, await,
        noTelemetry_eq, Prog.req_bind, Prog.ret_bind, Prog.leads_req] at h
      obtain ⟨-, -, rest, rfl, h⟩ := h
      exact (ih h).mono ((List.sublist_cons_self _ _).trans (List.sublist_append_right _ _))

theorem becomePopulationOwner_leads (hd : d.failMode = .closed)
    (h : (becomePopulationOwner tiers a d g).Leads log (.ok v)) : Published a g log v := by
  simp only [becomePopulationOwner, Prog.leads_bind, Prog.leads_guarded, noTelemetry_eq] at h
  obtain ⟨front, r, rest, rfl, hfront, h⟩ := h
  cases r with
  | ok x =>
    simp only [Prog.leads_pure, Except.ok.injEq] at h
    obtain ⟨-, rfl⟩ := h
    exact (populateAttempts_leads hfront).mono (List.sublist_append_left _ _)
  | error e => simp [hd, call, Prog.leads_ite] at h

theorem joinOrPopulate_leads (hd : d.failMode = .closed) {s : ControlSnapshot}
    {again : Step V (Except CacheError V)}
    (hagain : ∀ {log}, again.Leads log (.ok v) → Supplied log v)
    (h : (joinOrPopulate tiers a d s again).Leads log (.ok v)) : Supplied log v := by
  simp only [joinOrPopulate, Prog.leads_ite] at h
  rcases h with ⟨-, h⟩ | ⟨-, ⟨-, h⟩ | ⟨-, ⟨-, h⟩ | ⟨-, h⟩⟩⟩
  · exact waitAndGet_leads h
  · simp only [Prog.leads_bind] at h
    obtain ⟨front, r, rest, rfl, -, h⟩ := h
    cases r with
    | error e => simp at h
    | ok u => exact (hagain h).mono (List.sublist_append_right _ _)
  · exact waitAndGet_leads h
  · exact (becomePopulationOwner_leads hd h).supplied

/-- From an observation on: the fast path reads only by a servable one. -/
theorem fetchFrom_leads (hd : d.failMode = .closed) {s : ControlSnapshot} {look : Exchanged V}
    (hlook : shows look = some s) {again : Step V (Except CacheError V)}
    (hagain : ∀ {log}, again.Leads log (.ok v) → Supplied log v)
    (h : (fetchFrom tiers a d s again).Leads log (.ok v)) : Supplied (look :: log) v := by
  have hjoin : ∀ {log}, (joinOrPopulate tiers a d s again).Leads log (.ok v) →
      Supplied (look :: log) v := fun h =>
    (joinOrPopulate_leads hd hagain h).mono (List.sublist_cons_self _ _)
  simp only [fetchFrom, Prog.leads_ite] at h
  rcases h with ⟨hs, h⟩ | ⟨-, h⟩
  · simp only [Prog.leads_pure, reduceCtorEq, and_false, false_or, await, noTelemetry_eq,
      Prog.req_bind, Prog.ret_bind, Prog.leads_req] at h
    obtain ⟨-, b, rest, rfl, h⟩ := h
    rcases b with e | _ | x
    · simp at h
    · exact (hjoin h).mono ((List.sublist_cons_self _ _).cons_cons _)
    · simp only [Prog.leads_pure, Except.ok.injEq] at h
      obtain ⟨rfl, rfl⟩ := h
      exact Or.inr ⟨look, .getOrFetch, s, .refl _, hlook, Or.inl hs⟩
  · exact hjoin h

theorem fetchAttempts_leads (hd : d.failMode = .closed) {attempts : ℕ}
    (h : (fetchAttempts tiers a d attempts).Leads log (.ok v)) : Supplied log v := by
  induction attempts generalizing log with
  | zero => simp [fetchAttempts] at h
  | succ attempts ih =>
    simp only [fetchAttempts, call, noTelemetry_eq, Prog.req_bind, Prog.ret_bind,
      Prog.leads_req] at h
    obtain ⟨b, rest, rfl, h⟩ := h
    cases b with
    | error e => simp at h
    | ok first =>
      simp only [Prog.leads_ite] at h
      rcases h with ⟨-, h⟩ | ⟨-, h⟩
      · simp only [Prog.leads_req] at h
        obtain ⟨-, rest, rfl, b, rest, rfl, h⟩ := h
        cases b with
        | error e => simp at h
        | ok s =>
          have hs : Supplied (⟨.getOrFetch, .acquire d.tier, .ok s⟩ :: rest) v :=
            fetchFrom_leads hd rfl ih h
          exact hs.mono (List.sublist_append_right [_, _] _)
      · have hs : Supplied (⟨.getOrFetch, .acquire d.tier, .ok first⟩ :: rest) v :=
          fetchFrom_leads hd rfl ih h
        exact hs

/-- A `get_or_fetch` that fails closed is served by its own fetch, or by a rung it was shown. -/
theorem getOrFetch_leads (hclosed : (a.select .new).failMode = .closed)
    (h : (getOrFetch tiers a).Leads log (.ok v)) : Supplied log v := by
  unfold getOrFetch at h
  cases hd : a.admitPopulation with
  | error e => simp [hd] at h
  | ok d =>
    simp only [hd] at h
    exact fetchAttempts_leads (by rw [Args.eq_of_admitPopulation hd, hclosed]) h

end Manager

/-! ## Runs -/

open Manager

theorem observed_eq (it : Served V) : observed it = shows it.exchange := by
  obtain ⟨i, c, l, q, a, pre, post⟩ := it
  cases q with
  | acquire tier => cases a <;> rfl
  | _ => rfl

/-- A waiter of a `get_or_fetch` that fails closed looks at the entry again. -/
def looksAgain : Served V → Bool
  | ⟨_, .getOrFetch a, .waitAndGet, .peek, _, _, _⟩ => (a.select .new).failMode = .closed
  | _ => false

/-- The runs in which no such waiter looks at an outdated entry. -/
def wakesFresh (V : Type) : Terms V where
  good _ it := looksAgain it = true → ¬(it.pre.slot.peek it.pre.now).Outdated

instance : (wakesFresh V).Checkable where
  starts _ _ _ := inferInstanceAs (Decidable True)
  outcome _ := inferInstanceAs (Decidable True)
  drops := inferInstanceAs (Decidable True)
  good _ _ := inferInstanceAs (Decidable (_ → _))

variable {tiers : ℕ} {w : KeyWorld V} {schedule : List (Turn V)}

/-- The supply of a call, found among its items. -/
theorem fresh_of_supplied {mine : List (Served V)} {v : V}
    (h : Supplied (mine.reverse.map Item.exchange) v)
    (hmine : ∀ it ∈ mine, ∀ s, it.exchange = ⟨.waitAndGet, .peek, s⟩ → ¬s.Outdated) :
    Fresh mine v := by
  rcases h with ⟨l, hmem⟩ | ⟨look, l, s, hsub, hshows, hs⟩
  · obtain ⟨it, hit, he⟩ := List.mem_map.1 hmem
    refine Or.inl ⟨it, List.mem_reverse.1 hit, ?_⟩
    obtain ⟨i, c, l', q, a, pre, post⟩ := it
    cases he
    rfl
  · obtain ⟨items, hitems, he⟩ := List.sublist_map_iff.1 hsub
    obtain ⟨x, rest, rfl, rfl, hrest⟩ := List.map_eq_cons_iff.1 he.symm
    obtain ⟨y, rest, rfl, hy, hnil⟩ := List.map_eq_cons_iff.1 hrest
    obtain rfl := List.map_eq_nil_iff.1 hnil
    have hback : [y, x].Sublist mine := by simpa using hitems.reverse
    refine Or.inr ⟨x, y, s, hback, (observed_eq x).trans hshows, ?_, ?_⟩
    · rcases hs with hs | ⟨hx, ho⟩
      · exact hs
      · exact absurd ho (hmine x (hback.subset (by simp)) s hx)
    · obtain ⟨i, c, l', q, a, pre, post⟩ := y
      cases hy
      rfl

/-- **A `get_or_fetch` that fails closed serves fresh values** in every interleaving in which no
waiter looks at an outdated entry: what it returns it has fetched itself, or has read from the rung
named by an observation of its own, of a `Ready` entry that was not expired. -/
theorem fresh_of_result (hT : (wakesFresh V).Hold tiers w schedule) {i : ℕ} {a : Args} {v : V}
    (hclosed : (a.select .new).failMode = .closed)
    (hret : ((manager V tiers).run w schedule).tasks i =
      some ⟨.getOrFetch a, .ret (some (.fetched (.ok v)))⟩) :
    ∃ mine older, ofThread i ((manager V tiers).run w schedule).trace = mine ++ older ∧
      (∀ it ∈ mine, it.call = .getOrFetch a) ∧
      (Call.prog tiers (.getOrFetch a)).Leads (mine.reverse.map Item.exchange) (.fetched (.ok v)) ∧
      Fresh mine v := by
  obtain ⟨mine, older, hown, hcall, hpath⟩ := Machine.leads_of_result hret
  refine ⟨mine, older, hown, hcall, hpath, ?_⟩
  obtain ⟨r, hr, hrv⟩ := Prog.leads_map.1 hpath
  obtain rfl : r = .ok v := by simpa using hrv
  refine fresh_of_supplied (getOrFetch_leads hclosed hr) ?_
  intro it hit s hs
  have hmem : it ∈ ((manager V tiers).run w schedule).trace := by
    have hmem : it ∈ ofThread i ((manager V tiers).run w schedule).trace :=
      hown ▸ List.mem_append_left _ hit
    exact (List.mem_filter.1 hmem).1
  have hgood := Machine.forall_mem_trace (P := fun it => looksAgain it = true →
    ¬(it.pre.slot.peek it.pre.now).Outdated) (fun _ _ h => h.2) hT it hmem
  obtain ⟨newer, rest, htrace⟩ := List.append_of_mem hmem
  obtain ⟨⟨o, hexec⟩, -⟩ := linked_of_suffix ⟨newer, htrace.symm⟩
  have hitcall := hcall it hit
  obtain ⟨j, c, l, q, b, pre, post⟩ := it
  cases hs
  obtain rfl : c = .getOrFetch a := hitcall
  simp only [KeyWorld.exec, Option.some.injEq, Prod.mk.injEq] at hexec
  rw [← hexec.1]
  exact hgood (by simpa [looksAgain] using hclosed)

/-- A population with a TTL of five nanoseconds, and a waiter that looks at the entry again so long
after it was published. -/
def joinedFlight (pause : ℕ) : List (Turn ℕ) :=
  [.start 0 (.getOrFetch (.pinned .L0 (some 5))), .start 1 (.getOrFetch (.pinned .L0 (some 5))),
    .run 0 {}, .run 1 {}, .run 1 {}, .run 1 {},
    .run 0 fetchesSeven, .run 0 {}, .run 0 {}, .run 0 {}, .env pause,
    .run 1 {}, .run 1 {}, .run 1 {}]

theorem fresh_of_result_joinedFlight :
    (wakesFresh ℕ).Hold 1 .unwritten (joinedFlight 1) ∧
      ∃ mine older, ofThread 1 ((manager ℕ 1).run .unwritten (joinedFlight 1)).trace =
        mine ++ older ∧ Fresh mine 7 := by
  have hhold : (wakesFresh ℕ).Hold 1 .unwritten (joinedFlight 1) := by decide +kernel
  have hret : ((manager ℕ 1).run .unwritten (joinedFlight 1)).tasks 1 =
      some ⟨.getOrFetch (.pinned .L0 (some 5)), .ret (some (.fetched (.ok 7)))⟩ := rfl
  obtain ⟨mine, older, hown, -, -, hfresh⟩ := fresh_of_result hhold rfl hret
  exact ⟨hhold, mine, older, hown, hfresh⟩

/-- A waiter is served a value that has expired: it has fetched nothing, and none of its
observations was of a `Ready` entry that was not expired. -/
theorem joinedFlight_serves_expired :
    ((manager ℕ 1).run .unwritten (joinedFlight 5)).tasks 1 =
        some ⟨.getOrFetch (.pinned .L0 (some 5)), .ret (some (.fetched (.ok 7)))⟩ ∧
      ((Args.pinned .L0 (some 5)).select .new).failMode = .closed ∧
      ∀ it ∈ ofThread 1 ((manager ℕ 1).run .unwritten (joinedFlight 5)).trace,
        fetchedBy it = none ∧ ∀ s ∈ observed it, ¬s.Servable := by
  refine ⟨rfl, rfl, ?_⟩
  decide +kernel

end TheSix
