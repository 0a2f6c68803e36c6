import TheSix.Concurrency.Freshness
import TheSix.Manager.Upkeep
import TheSix.Lib.Requests

/-!
# The labels of a refresh

A `refresh_detailed` says whether the value it returns is `Fresh`. It looks at the entry, reads the rung
that a readable entry names, claims the entry, and populates it; what it read first is served when it
is not granted the claim or when the population fails. Since its population fails closed, the only way
to a value labelled `Fresh` is through its own fetch, its own write and its own publication, and an
error of the population reaches the caller only when nothing was read (`Honest`).
-/

namespace TheSix

open Coroutine Manager

variable {V : Type}

namespace Manager

/-- What the exchanges of a refresh must have been, by what it returns. -/
def Honest (a : Args) (log : List (Exchanged V)) : Except CacheError (Lookup V) → Prop
  | .ok ⟨value, true⟩ => ∃ v tier s published, value = some v ∧ s.populationOwner = true ∧
      Published a s.generation published v ∧
      List.Sublist (⟨.refreshDetailed, .acquire tier, .ok s⟩ :: published) log
  | .ok ⟨some v, false⟩ => ∃ s, (s.state = .ready ∨ s.state = .stale) ∧
      List.Sublist [⟨.refreshDetailed, .peek, s⟩, ⟨.refreshDetailed, .tierGet s.tier, .ok (some v)⟩] log
  | .ok ⟨none, false⟩ => True
  | .error _ => (∃ tier s, ⟨.refreshDetailed, .acquire tier, .ok s⟩ ∈ log) →
      ∀ rung v, ⟨.refreshDetailed, .tierGet rung, .ok (some v)⟩ ∉ log

variable {tiers : ℕ} {a : Args} {d : PolicyDecision} {log : List (Exchanged V)}

/-- What the first look of a refresh has read: it has asked at most one rung, the one that a readable
entry names. -/
theorem readCurrent_leads {before : ControlSnapshot} {current : Option V}
    (h : (readCurrent tiers before).Leads log current) :
    (∀ v, current = some v → (before.state = .ready ∨ before.state = .stale) ∧
      log = [⟨.refreshDetailed, .tierGet before.tier, .ok (some v)⟩]) ∧
    (current = none → ∀ rung v, ⟨.refreshDetailed, .tierGet rung, .ok (some v)⟩ ∉ log) ∧
    ∀ tier s, ⟨.refreshDetailed, .acquire tier, .ok s⟩ ∉ log := by
  simp only [readCurrent, Prog.leads_ite] at h
  rcases h with ⟨-, h⟩ | ⟨hread, h⟩
  · obtain ⟨rfl, rfl⟩ := Prog.leads_pure.1 h
    simp
  · rw [not_or, Bool.not_eq_false] at hread
    have hstate : before.state = .ready ∨ before.state = .stale := by
      have hr := hread.1
      cases hs : before.state <;> simp [hs, EntryState.isReadable] at hr ⊢
    simp only [await, Prog.req_bind, Prog.ret_bind, Prog.leads_req] at h
    obtain ⟨b, rest, rfl, h⟩ := h
    rcases b with e | v
    · obtain ⟨rfl, rfl⟩ := Prog.leads_pure.1 h
      simp
    · obtain ⟨rfl, rfl⟩ := Prog.leads_pure.1 h
      refine ⟨fun x hx => ⟨hstate, by rw [hx]⟩, fun hnone rung x => ?_, by simp⟩
      simp [hnone]

/-- A request that does not read a rung. -/
def NoRead (_ : Fn) : Req V → Prop
  | .tierGet _ => False
  | _ => True

theorem populateOnce_noRead (g : Generation) :
    (populateOnce tiers a d g : Step V _).Asks NoRead fun _ _ => True := by
  simp only [populateOnce, call, noTelemetry_eq, await, Prog.req_bind, Prog.ret_bind, Prog.asks_req]
  refine ⟨trivial, ?_, by simp⟩
  rintro (e | value) -
  · simp
  · cases nearestBoundRung tiers d.tier with
    | none => simp
    | some rung =>
      simp only [Prog.asks_req]
      refine ⟨trivial, ?_, by simp⟩
      rintro (e | u) -
      · exact ⟨trivial, by simp, by simp⟩
      · simp only [Prog.asks_req]
        refine ⟨trivial, fun _ _ => ⟨trivial, ?_, by simp⟩, by simp⟩
        rintro (e | u) - <;> simp

theorem populateAttempts_noRead (g : Generation) (retries : ℕ) :
    (populateAttempts tiers a d g retries : Step V _).Asks NoRead fun _ _ => True := by
  induction retries with
  | zero => exact populateOnce_noRead g
  | succ retries ih =>
    refine (populateOnce_noRead g).bind ?_
    rintro (e | value)
    · simp only [await, noTelemetry_eq, Prog.req_bind, Prog.ret_bind, Prog.asks_ite, Prog.asks_req]
      exact ⟨fun _ => ⟨trivial, fun _ _ => ih, by simp⟩, by simp⟩
    · simp

/-- A population that fails closed reads no rung. -/
theorem becomePopulationOwner_noRead (hd : d.failMode = .closed) (g : Generation) :
    (becomePopulationOwner tiers a d g : Step V _).Asks NoRead fun _ _ => True := by
  refine ((populateAttempts_noRead g 2).guarded (by simp [NoRead])).bind ?_
  rintro (e | value)
  · simp [call, noTelemetry_eq, Prog.asks_req, Prog.asks_ite, hd, NoRead]
  · simp

/-- From the claim on, nothing is read any more, and the refresh is served by its own population, by
what it has read, or fails with nothing to serve. -/
theorem revalidate_leads {current : Option V} {r : Except CacheError (Lookup V)}
    (h : (revalidate tiers a d current).Leads log r) :
    (∀ l rung v, ⟨l, .tierGet rung, .ok (some v)⟩ ∉ log) ∧
    ((∃ v, r = .ok ⟨some v, true⟩ ∧ Honest a log r) ∨ r = .ok ⟨current, false⟩ ∨
      ∃ e, r = .error e ∧
        ((∀ tier s, ⟨.refreshDetailed, .acquire tier, .ok s⟩ ∉ log) ∨ current = none)) := by
  simp only [revalidate, call, noTelemetry_eq, Prog.req_bind, Prog.ret_bind, Prog.leads_req] at h
  obtain ⟨b, rest, rfl, h⟩ := h
  cases b with
  | error e =>
    obtain ⟨rfl, rfl⟩ := Prog.leads_pure.1 h
    simp
  | ok s =>
    simp only [Prog.leads_ite] at h
    rcases h with ⟨-, h⟩ | ⟨howner, h⟩
    · obtain ⟨rfl, rfl⟩ := Prog.leads_pure.1 h
      simp
    · rw [Bool.not_eq_false] at howner
      rw [Prog.leads_bind] at h
      obtain ⟨front, populated, back, rfl, hfront, h⟩ := h
      have hfrontNoRead : ∀ l rung v, ⟨l, .tierGet rung, .ok (some v)⟩ ∉ front := by
        intro l rung v hmem
        exact (becomePopulationOwner_noRead rfl s.generation).leads hfront (fun _ _ => trivial) _ hmem
      have hback : back = [] ∧ ((∃ v, populated = .ok v ∧ r = .ok ⟨some v, true⟩) ∨
          r = .ok ⟨current, false⟩ ∨ ∃ e, r = .error e ∧ current = none) := by
        cases populated with
        | ok v =>
          obtain ⟨rfl, rfl⟩ := Prog.leads_pure.1 h
          exact ⟨rfl, Or.inl ⟨v, rfl, rfl⟩⟩
        | error e =>
          simp only [Prog.leads_ite, Prog.leads_pure] at h
          rcases h with ⟨-, rfl, rfl⟩ | ⟨hnone, rfl, rfl⟩
          · exact ⟨rfl, Or.inr (Or.inl rfl)⟩
          · exact ⟨rfl, Or.inr (Or.inr ⟨e, rfl, by simpa using hnone⟩)⟩
      obtain ⟨rfl, hback⟩ := hback
      rw [List.append_nil]
      refine ⟨fun l rung v hmem => ?_, ?_⟩
      · rcases List.mem_cons.1 hmem with heq | hmem
        · cases heq
        · exact hfrontNoRead l rung v hmem
      · rcases hback with ⟨v, rfl, rfl⟩ | rfl | ⟨e, rfl, hnone⟩
        · refine Or.inl ⟨v, rfl, v, d.tier, s, front, rfl, howner, ?_, .refl _⟩
          exact becomePopulationOwner_leads rfl hfront
        · exact Or.inr (Or.inl rfl)
        · exact Or.inr (Or.inr ⟨e, rfl, Or.inr hnone⟩)

/-- More exchanges before a refresh claims the entry change nothing about a population's label. -/
theorem Honest.mono_fresh {log log' : List (Exchanged V)} {v : V}
    (h : Honest a log (.ok ⟨some v, true⟩)) (hlog : log.Sublist log') :
    Honest a log' (.ok ⟨some v, true⟩) := by
  obtain ⟨x, tier, s, published, hx, howner, hpublished, hsub⟩ := h
  exact ⟨x, tier, s, published, hx, howner, hpublished, hsub.trans hlog⟩

/-- **The labels of a refresh are honest**, on every path of its program. -/
theorem refreshDetailed_leads {r : Except CacheError (Lookup V)}
    (h : (refreshDetailed tiers a).Leads log r) : Honest a log r := by
  unfold refreshDetailed at h
  cases hgate : a.admitPopulation with
  | error e =>
    simp only [hgate] at h
    obtain ⟨rfl, rfl⟩ := Prog.leads_pure.1 h
    simp [Honest]
  | ok decision =>
    simp only [hgate, call, noTelemetry_eq, Prog.req_bind, Prog.ret_bind, Prog.leads_req] at h
    obtain ⟨before, rest, rfl, h⟩ := h
    rw [Prog.leads_bind] at h
    obtain ⟨front, current, back, rfl, hfront, h⟩ := h
    obtain ⟨hread, hnone, hnoClaim⟩ := readCurrent_leads hfront
    -- a `Ready` entry is marked `Stale` before it is claimed
    have hclaim : ∃ mark tail, back = mark ++ tail ∧ (mark = [] ∨ ∃ b, mark =
        [⟨.refreshDetailed, .setState .stale, b⟩]) ∧
        (revalidate tiers a decision current).Leads tail r := by
      simp only [Prog.leads_ite, Prog.leads_req] at h
      rcases h with ⟨-, b, tail, rfl, h⟩ | ⟨-, h⟩
      · exact ⟨[_], tail, rfl, Or.inr ⟨b, rfl⟩, h⟩
      · exact ⟨[], back, rfl, Or.inl rfl, h⟩
    obtain ⟨mark, tail, rfl, hmark, hrest⟩ := hclaim
    obtain ⟨htail, hends⟩ := revalidate_leads hrest
    rcases hends with ⟨v, rfl, hfresh⟩ | rfl | ⟨e, rfl, he⟩
    · refine hfresh.mono_fresh ?_
      exact ((List.sublist_append_right _ _).trans (List.sublist_append_right _ _)).cons _
    · cases current with
      | none => trivial
      | some v =>
        obtain ⟨hstate, rfl⟩ := hread v rfl
        refine ⟨before, hstate, ?_⟩
        exact (List.sublist_append_left _ _).cons_cons _
    · -- a claim or a read is one of the first look, or of what follows the mark
      have hparts : ∀ x : Exchanged V, x ∈ ⟨.refreshDetailed, .peek, before⟩ :: (front ++ (mark ++ tail)) →
          (∀ b, x ≠ ⟨.refreshDetailed, .peek, b⟩) → (∀ b, x ≠ ⟨.refreshDetailed, .setState .stale, b⟩) →
          x ∈ front ∨ x ∈ tail := by
        intro x hx hpeek hset
        rcases List.mem_cons.1 hx with rfl | hx
        · exact absurd rfl (hpeek before)
        · rcases List.mem_append.1 hx with hx | hx
          · exact Or.inl hx
          · rcases List.mem_append.1 hx with hx | hx
            · rcases hmark with rfl | ⟨b, rfl⟩
              · cases hx
              · exact absurd (List.mem_singleton.1 hx) (hset b)
            · exact Or.inr hx
      rintro ⟨tier, s, hmem⟩ rung v hmem'
      have hclaimed := (hparts _ hmem (by simp) (by simp)).resolve_left (hnoClaim tier s)
      have hcurrent : current = none := he.resolve_left fun hno => hno tier s hclaimed
      rcases hparts _ hmem' (by simp) (by simp) with hx | hx
      · exact hnone hcurrent rung v hx
      · exact htail _ rung v hx

end Manager

/-- Only a refresh answers with a label. -/
theorem Call.eq_refresh_of_leads {tiers : ℕ} {c : Call V} {log : List (Exchanged V)}
    {r : Except CacheError (Lookup V)} (h : (Call.prog tiers c).Leads log (.refreshed r)) :
    ∃ a, c = .refresh a := by
  cases c with
  | refresh a => exact ⟨a, rfl⟩
  | _ =>
    obtain ⟨r', -, hr⟩ := Prog.leads_map.1 h
    cases hr

/-- **The labels of a refresh are honest** in every run, with any other calls, drops and sweeps: what a
returned refresh has exchanged, from its start to its end, is as its answer says. A `Fresh` value was
fetched by this call, written to a rung by it, and published at the generation its claim was granted. A
value that is not was read from the rung named by an entry it had observed `Ready` or `Stale`. An error
after the claim was granted means that it had read no value. -/
theorem honest_of_result {tiers : ℕ} {w : Maintained V} {schedule : List (Duty V)} {i : ℕ}
    {r : Except CacheError (Lookup V)}
    (hret : ((maintained V tiers).run w schedule).result i = some (.refreshed r)) :
    ∃ a mine older, ofThread i ((maintained V tiers).run w schedule).trace = mine ++ older ∧
      (∀ it ∈ mine, it.call = .refresh a) ∧
      (Call.prog tiers (.refresh a)).Leads (mine.reverse.map Item.exchange) (.refreshed r) ∧
      Honest a (mine.reverse.map Item.exchange) r := by
  obtain ⟨c, ht⟩ := Sys.result_eq_some hret
  obtain ⟨mine, older, hown, hcall, hpath⟩ := Machine.leads_of_result ht
  obtain ⟨a, rfl⟩ := Call.eq_refresh_of_leads hpath
  refine ⟨a, mine, older, hown, hcall, hpath, ?_⟩
  obtain ⟨r', hr, hrr⟩ := Prog.leads_map.1 hpath
  obtain rfl : r' = r := by simpa using hrr
  exact refreshDetailed_leads hr

/-- A `set`, and a refresh that runs beside a `get` and an expiry sweep. -/
def refreshedBeside : List (Duty ℕ) :=
  [.start 1 (.set (.pinned .L0 none) 1), .run 1 {}, .run 1 {}, .run 1 {}, .run 1 {}, .run 1 {},
    .run 1 {}, .start 0 (.refresh (.pinned .L0 none)), .run 0 {}, .run 0 {},
    .start 1 (.get (.pinned .L0 none)), .run 1 {}, .run 0 {}, .run 0 {}, .env .sweepExpired,
    .run 0 fetchesSeven, .run 0 {}, .run 1 {}, .run 0 {}, .run 0 {}]

theorem honest_of_result_refreshedBeside :
    ∃ a mine older,
      ofThread 0 ((maintained ℕ 1).run Maintained.unwritten refreshedBeside).trace = mine ++ older ∧
      (∀ it ∈ mine, it.call = .refresh a) ∧
      Honest a (mine.reverse.map Item.exchange) (.ok ⟨some 7, true⟩) := by
  have hret : ((maintained ℕ 1).run Maintained.unwritten refreshedBeside).result 0 =
      some (.refreshed (.ok ⟨some 7, true⟩)) := by decide +kernel
  obtain ⟨a, mine, older, hown, hcall, -, hhonest⟩ := honest_of_result hret
  exact ⟨a, mine, older, hown, hcall, hhonest⟩

end TheSix
