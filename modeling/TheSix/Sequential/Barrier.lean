import TheSix.Sequential.Stages

/-!
# Invalidation as a barrier

One client, tiers that are maps, any fail mode. `invalidate` changes the control-plane entry only
and leaves the bytes on every rung, so a value from before it comes back wherever a rung is read
without the permission of the entry. The one such place is the scan of `try_fallback_tier` behind a
population that has failed open.

A call returns nothing but values it has heard itself, from a rung or from the fetch
(`Call.returns_heard`), and while no scan meets a value from before the invalidation, every value
heard since was set or fetched since (`Fresh`).
-/

namespace TheSix

open Coroutine

variable {V : Type}

/-! ## What was brought and heard since the last invalidation -/

/-- An `invalidate` that returned `Ok`. -/
def invalidates : Served V → Bool
  | ⟨_, _, _, .invalidate, .ok _, _, _⟩ => true
  | _ => false

/-- The value an item sets or fetches. -/
def brings : Served V → Option V
  | ⟨_, .set _ v, _, .tierSet _ _ _, _, _, _⟩ => some v
  | ⟨_, .set _ v, _, .commit _ _, .ok _, _, _⟩ => some v
  | ⟨_, _, _, .fetch, .ok v, _, _⟩ => some v
  | _ => none

/-- The value an item hears from a rung or from the fetch. -/
def hears : Served V → Option V
  | ⟨_, _, _, .tierGet _, .ok v, _, _⟩ => v
  | ⟨_, _, _, .fetch, .ok v, _, _⟩ => some v
  | _ => none

/-- The values of the items after the last invalidation. -/
def sinceInvalidate (f : Served V → Option V) : List (Served V) → List V
  | [] => []
  | it :: older => if invalidates it then [] else (f it).toList ++ sinceInvalidate f older

theorem mem_sinceInvalidate_cons {f : Served V → Option V} {it : Served V}
    {older : List (Served V)} {x : V} (hit : invalidates it = false) :
    x ∈ sinceInvalidate f (it :: older) ↔ f it = some x ∨ x ∈ sinceInvalidate f older := by
  simp [sinceInvalidate, hit]

/-- The value a call returns. -/
def Reply.value : Reply V → Option V
  | .read (.ok v) => v
  | .fetched (.ok v) => some v
  | .refreshed (.ok lookup) => lookup.value
  | _ => none

/-! ## A call returns what it has heard -/

/-- The values a call has heard, after an answer. An invalidation forgets them. -/
def heard (values : List V) : (q : Req V) → q.Answer → List V
  | .tierGet _, .ok (some v) => v :: values
  | .fetch, .ok v => v :: values
  | .invalidate, _ => []
  | _, _ => values

/-- The phase of a call is the list of the values it has heard. -/
def hearing (V : Type) : Discipline (List V) Fn (Req V) Req.Answer where
  ok _ _ _ := True
  tr values _ q a values' := values' = heard values q a
  cancel := id

/-- A program that ends with `Post` on the values it has heard. -/
def Hears {R : Type} (p : Step V R) (Post : List V → R → Prop) (values : List V) : Prop :=
  p.wp (hearing V) (fun _ _ => True) Post values

section Hearing

variable {R S : Type} {values : List V}

theorem unwinds_hearing (l : Fn) (cs : List (Req V)) (values : List V) :
    (hearing V).unwinds (fun _ _ => True) l cs values := by
  induction cs generalizing values with
  | nil => trivial
  | cons c cs ih => exact ⟨trivial, fun _ _ _ => ih _⟩

theorem hears_req {l : Fn} {q : Req V} {cancel : Option (List (Req V))} {k : q.Answer → Step V R}
    {Post : List V → R → Prop} :
    Hears (.req l q cancel k) Post values ↔ ∀ a, Hears (k a) Post (heard values q a) := by
  constructor
  · intro h a
    exact h.2.1 a _ rfl
  · intro h
    refine ⟨trivial, ?_, fun cs _ => ⟨unwinds_hearing _ _ _, fun _ _ _ => unwinds_hearing _ _ _⟩⟩
    rintro a values' rfl
    exact h a

theorem hears_bind {p : Step V R} {f : R → Step V S} {Post : List V → S → Prop} :
    Hears (p >>= f) Post values ↔ Hears p (fun values r => Hears (f r) Post values) values :=
  Prog.wp_bind p f Post values

@[simp] theorem hears_pure {r : R} {Post : List V → R → Prop} :
    Hears (pure r) Post values ↔ Post values r := Iff.rfl

theorem hears_ite {P : Prop} [Decidable P] {p p' : Step V R} {Post : List V → R → Prop} :
    Hears (if P then p else p') Post values ↔
      (P → Hears p Post values) ∧ (¬P → Hears p' Post values) := Prog.wp_ite P p p' Post values

theorem hears_guarded {cleanup : List (Req V)} {p : Step V R} {Post : List V → R → Prop} :
    Hears (p.guarded cleanup) Post values ↔ Hears p Post values := by
  have hDn : (fun l values => (hearing V).unwinds (fun _ _ => True) l cleanup values) =
      fun _ _ => True := by
    funext l values
    exact eq_true (unwinds_hearing l cleanup values)
  rw [Hears, Prog.wp_guarded, hDn, Hears]

theorem Hears.mono {p : Step V R} {Post Post' : List V → R → Prop}
    (h : ∀ values r, Post values r → Post' values r) (hp : Hears p Post values) :
    Hears p Post' values := Prog.wp_mono h hp

theorem hears_of_forall {p : Step V R} {Post : List V → R → Prop}
    (h : ∀ values r, Post values r) : Hears p Post values := by
  induction p generalizing values with
  | ret r => exact h values r
  | req l q cancel k ih => exact hears_req.2 fun a => ih a

end Hearing

/-- The answer is a value that was heard, and `base` was heard as well. -/
def Said (base values : List V) (r : Except CacheError V) : Prop :=
  base ⊆ values ∧ ∀ x, r = .ok x → x ∈ values

@[simp] theorem said_error {base values : List V} {e : CacheError} :
    Said base values (.error e) ↔ base ⊆ values := by
  simp [Said]

@[simp] theorem said_ok {base values : List V} {v : V} :
    Said base values (.ok v) ↔ base ⊆ values ∧ v ∈ values := by
  simp [Said]

namespace Manager

variable {tiers : ℕ} {base values : List V}

theorem waitForPopulation_hears {snapshot : ControlSnapshot} (hb : base ⊆ values) :
    Hears (waitForPopulation snapshot) (fun values' _ => base ⊆ values') values := by
  simp only [waitForPopulation, call, await, Prog.req_bind, Prog.ret_bind, hears_req, hears_ite]
  exact fun _ _ => ⟨fun _ => hb, fun _ _ => hb⟩

theorem waitAndGet_hears {snapshot : ControlSnapshot} (hb : base ⊆ values) :
    Hears (waitAndGet tiers snapshot) (Said base) values := by
  simp only [waitAndGet, call, noTelemetry_eq, await, Prog.req_bind, Prog.ret_bind, hears_bind]
  refine (waitForPopulation_hears hb).mono ?_
  intro values' r hb'
  cases r with
  | error e => simpa using hb'
  | ok u =>
    simp only [hears_req]
    intro after
    cases after.lastError with
    | some e => simpa [heard] using hb'
    | none =>
      simp only [hears_ite, hears_req]
      refine ⟨fun _ => by simpa [heard] using hb', fun _ => ⟨fun _ => by simpa [heard] using hb', ?_⟩⟩
      rintro - (e | _ | v)
      · simpa [heard] using hb'
      · simpa [heard] using hb'
      · simpa [heard] using List.subset_cons_of_subset v hb'

theorem populateOnce_hears {a : Args} {decision : PolicyDecision} {g : Generation}
    (hb : base ⊆ values) : Hears (populateOnce tiers a decision g) (Said base) values := by
  simp only [populateOnce, call, noTelemetry_eq, await, Prog.req_bind, Prog.ret_bind, hears_req]
  rintro (e | value)
  · simpa [heard] using hb
  · have hb' : base ⊆ value :: values := List.subset_cons_of_subset value hb
    cases nearestBoundRung tiers decision.tier with
    | none => simpa [heard] using hb'
    | some rung =>
      simp only [hears_req]
      rintro (e | u) -
      · simpa [heard] using hb'
      · simp only [hears_req]
        rintro (e | u)
        · simpa [heard] using hb'
        · simpa [heard] using hb'

theorem populateAttempts_hears {a : Args} {decision : PolicyDecision} {g : Generation}
    {retries : ℕ} (hb : base ⊆ values) :
    Hears (populateAttempts tiers a decision g retries) (Said base) values := by
  induction retries generalizing values with
  | zero => exact populateOnce_hears hb
  | succ retries ih =>
    simp only [populateAttempts, hears_bind]
    refine (populateOnce_hears hb).mono ?_
    intro values' r hr
    cases r with
    | ok v => exact hr
    | error e =>
      simp only [await, noTelemetry_eq, Prog.req_bind, Prog.ret_bind, hears_ite, hears_req]
      exact ⟨fun _ _ => ih hr.1, fun _ => hr⟩

theorem scanRungs_hears {cause : CacheError} {rungs : List TierId} (hb : base ⊆ values) :
    Hears (scanRungs tiers cause rungs) (Said base) values := by
  induction rungs generalizing values with
  | nil => simpa [scanRungs] using hb
  | cons rung rungs ih =>
    simp only [scanRungs, call, noTelemetry_eq, await, Prog.req_bind, Prog.ret_bind, hears_ite,
      hears_req]
    refine ⟨fun _ => ih hb, fun _ _ => ⟨fun _ => ih hb, ?_⟩⟩
    rintro - (e | _ | v)
    · exact ih hb
    · exact ih hb
    · simpa [heard] using List.subset_cons_of_subset v hb

theorem becomePopulationOwner_hears {a : Args} {decision : PolicyDecision} {g : Generation}
    (hb : base ⊆ values) : Hears (becomePopulationOwner tiers a decision g) (Said base) values := by
  simp only [becomePopulationOwner, hears_bind, hears_guarded, noTelemetry_eq]
  refine (populateAttempts_hears hb).mono ?_
  intro values' r hr
  cases r with
  | ok v => exact hr
  | error e =>
    simp only [call, Prog.req_bind, Prog.ret_bind, hears_req, hears_ite, tryFallbackTier]
    refine fun _ => ⟨fun _ => ?_, fun _ => ⟨fun _ => scanRungs_hears hr.1, fun _ => hr⟩⟩
    simpa [heard] using hr.1

theorem joinOrPopulate_hears {a : Args} {decision : PolicyDecision} {s : ControlSnapshot}
    {again : Step V (Except CacheError V)}
    (hagain : ∀ {values}, base ⊆ values → Hears again (Said base) values) (hb : base ⊆ values) :
    Hears (joinOrPopulate tiers a decision s again) (Said base) values := by
  simp only [joinOrPopulate, hears_ite, hears_bind]
  refine ⟨fun _ => waitAndGet_hears hb, fun _ => ⟨fun _ => ?_, fun _ => ?_⟩⟩
  · refine (waitForPopulation_hears hb).mono ?_
    intro values' r hb'
    cases r with
    | error e => simpa using hb'
    | ok u => exact hagain hb'
  · exact ⟨fun _ => waitAndGet_hears hb, fun _ => becomePopulationOwner_hears hb⟩

theorem fetchFrom_hears {a : Args} {decision : PolicyDecision} {s : ControlSnapshot}
    {again : Step V (Except CacheError V)}
    (hagain : ∀ {values}, base ⊆ values → Hears again (Said base) values) (hb : base ⊆ values) :
    Hears (fetchFrom tiers a decision s again) (Said base) values := by
  simp only [fetchFrom, await, noTelemetry_eq, Prog.req_bind, Prog.ret_bind, hears_ite, hears_req]
  refine ⟨fun _ => ⟨fun _ => by simpa using hb, ?_⟩, fun _ => joinOrPopulate_hears hagain hb⟩
  rintro - (e | _ | v)
  · simpa [heard] using hb
  · exact joinOrPopulate_hears hagain hb
  · simpa [heard] using List.subset_cons_of_subset v hb

theorem fetchAttempts_hears {a : Args} {decision : PolicyDecision} {attempts : ℕ}
    (hb : base ⊆ values) : Hears (fetchAttempts tiers a decision attempts) (Said base) values := by
  induction attempts generalizing values with
  | zero => simpa [fetchAttempts] using hb
  | succ attempts ih =>
    simp only [fetchAttempts, call, noTelemetry_eq, Prog.req_bind, Prog.ret_bind, hears_req]
    rintro (e | first)
    · simpa [heard] using hb
    · simp only [hears_ite, hears_req]
      refine ⟨fun _ _ => ?_, fun _ => fetchFrom_hears ih hb⟩
      rintro (e | snapshot)
      · simpa [heard] using hb
      · exact fetchFrom_hears ih hb

theorem get_hears {a : Args} :
    Hears (Manager.get tiers a) (fun values' r => ∀ x, r = .ok (some x) → x ∈ values') values := by
  unfold Manager.get
  cases a.admitEncoded with
  | error e => simp
  | ok d =>
    simp only [call, noTelemetry_eq, await, Prog.req_bind, Prog.ret_bind, hears_req, hears_ite,
      hears_bind, hears_pure]
    refine fun s => ⟨fun _ => ⟨fun _ => by simp, ?_⟩, fun _ => ⟨fun _ => by simp, fun _ => ?_⟩⟩
    · rintro - (e | v) -
      · simp
      · simp only [hears_req, hears_ite, hears_pure]
        refine fun _ => ⟨fun _ => ?_, fun _ => by simp⟩
        cases v <;> simp [heard]
    · refine ⟨fun _ => (waitForPopulation_hears (List.nil_subset _)).mono ?_, fun _ => by simp⟩
      intro values' r _
      cases r with
      | error e => simp
      | ok u =>
        simp only [hears_req]
        intro after
        cases after.lastError with
        | some e => simp
        | none =>
          simp only [hears_ite, hears_req, hears_pure]
          refine ⟨fun _ => by simp, fun _ => ⟨fun _ => by simp, ?_⟩⟩
          rintro - (e | _ | v) <;> simp [heard]

theorem refreshDetailed_hears {a : Args} :
    Hears (refreshDetailed tiers a)
      (fun values' r => ∀ x, Reply.value (.refreshed r) = some x → x ∈ values') values := by
  have hrevalidate : ∀ {decision : PolicyDecision} {current : Option V} {values : List V},
      current.toList ⊆ values →
      Hears (revalidate tiers a decision current)
        (fun values' r => ∀ x, Reply.value (.refreshed r) = some x → x ∈ values') values := by
    intro decision current values hb
    simp only [revalidate, call, noTelemetry_eq, Prog.req_bind, Prog.ret_bind, hears_req]
    rintro (e | snapshot)
    · simp [Reply.value]
    · simp only [hears_ite, hears_bind, hears_pure]
      refine ⟨fun _ => ?_, fun _ => (becomePopulationOwner_hears hb).mono ?_⟩
      · cases current with
        | none => simp [Reply.value]
        | some v => simpa [heard, Reply.value] using hb
      · intro values' r hr
        cases r with
        | ok v => simpa [Reply.value] using hr.2
        | error e =>
          simp only [hears_ite, hears_pure]
          refine ⟨fun _ => ?_, fun _ => by simp [Reply.value]⟩
          cases current with
          | none => simp [Reply.value]
          | some v => simpa [Reply.value] using hr.1
  unfold refreshDetailed
  cases a.admitPopulation with
  | error e => simp [Reply.value]
  | ok decision =>
    simp only [call, noTelemetry_eq, Prog.req_bind, Prog.ret_bind, hears_req, hears_bind,
      readCurrent, await, hears_ite, hears_pure]
    refine fun before => ⟨fun _ => ⟨fun _ _ => hrevalidate (by simp), fun _ => hrevalidate (by simp)⟩, ?_⟩
    rintro - (e | v)
    · exact ⟨fun _ _ => hrevalidate (by simp), fun _ => hrevalidate (by simp)⟩
    · have hv : v.toList ⊆ heard values (.tierGet before.tier) (.ok v) := by
        cases v <;> simp [heard]
      exact ⟨fun _ _ => hrevalidate hv, fun _ => hrevalidate hv⟩

end Manager

/-- **A call returns only what it has heard.** -/
theorem Call.returns_heard (tiers : ℕ) (c : Call V) (values : List V) :
    Hears (c.prog tiers) (fun values' r => ∀ x, r.value = some x → x ∈ values') values := by
  have hsilent : ∀ {R : Type} {p : Step V R} {f : R → Reply V}, (∀ r, (f r).value = none) →
      Hears (f <$> p) (fun values' r => ∀ x, r.value = some x → x ∈ values') values := by
    intro R p f hf
    refine (Prog.wp_map _ _ _ _).2 (hears_of_forall ?_)
    simp [hf]
  cases c with
  | get a =>
    refine (Prog.wp_map _ _ _ _).2 (Manager.get_hears.mono ?_)
    rintro values' (e | v) hr x hx
    · cases hx
    · exact hr x (congrArg _ hx)
  | getOrFetch a =>
    refine (Prog.wp_map _ _ _ _).2 ?_
    unfold Manager.getOrFetch
    cases a.admitPopulation with
    | error e => simp [Reply.value]
    | ok decision =>
      refine (Manager.fetchAttempts_hears (List.Subset.refl values)).mono ?_
      rintro values' (e | v) hr x hx
      · cases hx
      · exact hr.2 x (by rw [Option.some.inj hx])
  | refresh a => exact (Prog.wp_map _ _ _ _).2 Manager.refreshDetailed_hears
  | «exists» a => exact hsilent fun _ => rfl
  | set a v => exact hsilent fun _ => rfl
  | invalidate a => exact hsilent fun _ => rfl
  | remove a => exact hsilent fun _ => rfl
  | promote a => exact hsilent fun _ => rfl
  | demote a => exact hsilent fun _ => rfl
  | evict => exact hsilent fun _ => rfl

/-! ## The client -/

/-- One client on thread 0, and tiers that are maps. -/
def mapClient (V : Type) : Terms V where
  starts _ i _ := i = 0
  outcome := Outcome.Exact

/-- A rung that the fail-open scan is about to read holds nothing for the key, or a value that was
set or fetched since the last invalidation. -/
def ScansBrought (s : System V) : Served V → Prop
  | ⟨_, _, .tryFallbackTier, .tierGet rung, _, _, _⟩ =>
    ∀ x ∈ s.world.rungs rung, x ∈ sinceInvalidate brings s.trace
  | _ => True

/-- The client whose scans meet nothing from before the last invalidation. -/
def barredClient (V : Type) : Terms V := { mapClient V with good := ScansBrought }

instance [DecidableEq V] (s : System V) : DecidablePred (ScansBrought s) :=
  fun ⟨_, _, l, q, _, _, _⟩ => by
    induction q using Req.casesOn
    case tierGet => induction l using Fn.casesOn <;> dsimp only [ScansBrought] <;> infer_instance
    all_goals exact .isTrue (by cases l <;> trivial)

instance : (mapClient V).Checkable where
  starts _ i _ := inferInstanceAs (Decidable (i = 0))
  outcome o := inferInstanceAs (Decidable (Outcome.Exact o))
  drops := .isTrue trivial
  good _ _ := .isTrue trivial

instance [DecidableEq V] : (barredClient V).Checkable where
  starts _ i _ := inferInstanceAs (Decidable (i = 0))
  outcome o := inferInstanceAs (Decidable (Outcome.Exact o))
  drops := .isTrue trivial
  good s it := inferInstanceAs (Decidable (ScansBrought s it))

/-- The client is alone, and what its call has heard is in the trace. -/
structure Listening (s : System V) (values : ℕ → List V) : Prop where
  client : ∀ i t, s.tasks i = some t → i = 0
  heard : ∀ x ∈ values 0, x ∈ sinceInvalidate hears s.trace

theorem heard_subset {trace : List (Served V)} (it : Served V) {values : List V}
    (h : ∀ x ∈ values, x ∈ sinceInvalidate hears trace) :
    ∀ x ∈ heard values it.req it.ans, x ∈ sinceInvalidate hears (it :: trace) := by
  obtain ⟨i, c, l, q, a, pre, post⟩ := it
  cases q with
  | invalidate => simp [heard]
  | tierGet rung => rcases a with e | _ | v <;> simp_all [heard, sinceInvalidate, invalidates, hears]
  | fetch => cases a <;> simp_all [heard, sinceInvalidate, invalidates, hears]
  | peek | acquire | setState | publish | failWithError | release | prepare | commit | abort
  | abortProvenClean | evictionCandidate | reserveEviction | removeIfAddress | tierSet | tierRemove
  | tierContains | register | notified | sleep | yieldNow | tierHealth | record =>
    simpa [heard, sinceInvalidate, invalidates, hears] using h

theorem Listening.answer {s : System V} {values : ℕ → List V} (h : Listening s values) {i : ℕ}
    {c : Call V} {l : Fn} {q : Req V} {a : q.Answer} {w : KeyWorld V}
    {rest rest' : Prog Fn (Req V) Req.Answer (Option (Reply V))} (ht : s.tasks i = some ⟨c, rest'⟩) :
    Listening (s.answer i c l q a w rest)
      (Function.update values i (TheSix.heard (values i) q a)) := by
  obtain rfl := h.client i _ ht
  refine ⟨?_, ?_⟩
  · exact (Function.forall_update_iff s.tasks fun j x => ∀ t, x = some t → j = 0).2
      ⟨fun _ _ => rfl, fun j _ => h.client j⟩
  · rw [Function.update_self, Sys.answer_trace]
    exact heard_subset ⟨0, c, l, q, a, s.world, w⟩ h.heard

/-- What a finished call returned was heard since the last invalidation. -/
theorem heard_of_returned {T : Terms V} (hstarts : ∀ s i c, T.starts s i c → i = 0) {tiers : ℕ}
    {w : KeyWorld V} {schedule : List (Turn V)} (hT : T.Hold tiers w schedule) {r : Reply V} {x : V}
    (hr : ((manager V tiers).run w schedule).result 0 = some r) (hx : r.value = some x) :
    x ∈ sinceInvalidate hears ((manager V tiers).run w schedule).trace := by
  have hkeeps : Machine.Keeps (manager V tiers) (hearing V)
      (fun values r => ∀ y, r.bind Reply.value = some y → y ∈ values) Listening
      (T.Admits tiers) := by
    refine ⟨?_, ?_, ?_, ?_, ?_⟩
    · rintro s values i c ⟨h, -⟩ ⟨hc, -⟩ -
      obtain rfl := hstarts _ _ _ hc
      refine ⟨[], ?_, ?_, by simp⟩
      · have hwp := Call.returns_heard tiers c ([] : List V)
        simpa [Hears, manager] using hwp
      · exact (Function.forall_update_iff s.tasks fun j x => ∀ t, x = some t → j = 0).2
          ⟨fun _ _ => rfl, fun j _ => h.client j⟩
    · rintro s values i c l q cancel k o a w ⟨h, -⟩ ht - - - -
      exact ⟨_, rfl, h.answer ht⟩
    · rintro s values i c l q cs k o a w ⟨h, -⟩ ht - - - -
      exact ⟨_, rfl, h.answer ht⟩
    · intro s values i c l q cs k h _ ht
      obtain rfl := h.client i _ ht
      refine ⟨?_, ?_⟩
      · exact (Function.forall_update_iff s.tasks fun j x => ∀ t, x = some t → j = 0).2
          ⟨fun _ _ => rfl, fun j _ => h.client j⟩
      · rw [Function.update_self]
        exact h.heard
    · intro s values d h _
      exact ⟨h.client, h.heard⟩
  have hinit : Listening (.initial w : System V) fun _ => [] :=
    ⟨by simp [Sys.initial], by simp⟩
  obtain ⟨values, hJ, hC⟩ := Machine.invariant hkeeps hinit hT
  obtain ⟨c, ht⟩ := Sys.result_eq_some hr
  exact hJ.heard x (hC 0 _ ht x hx)

/-! ## All runs -/

/-- The value of an item that is not an invalidation is still there after it. -/
theorem evolves_brings (trace : List (Served V)) (it : Served V) :
    Sequential.Evolves it.call (· ∈ sinceInvalidate brings trace) (· ∈ sinceInvalidate brings trace)
      (· ∈ sinceInvalidate brings (it :: trace)) (· ∈ sinceInvalidate brings (it :: trace))
      it.req it.ans := by
  have hkeeps : invalidates it = false →
      ∀ x ∈ sinceInvalidate brings trace, x ∈ sinceInvalidate brings (it :: trace) :=
    fun hit x hx => (mem_sinceInvalidate_cons hit).2 (Or.inr hx)
  obtain ⟨i, c, l, q, a, pre, post⟩ := it
  cases q with
  | commit token ttl =>
    cases a with
    | error e => exact ⟨hkeeps rfl, hkeeps rfl⟩
    | ok u =>
      refine ⟨?_, fun _ => hkeeps rfl⟩
      rintro a v rfl
      exact (mem_sinceInvalidate_cons rfl).2 (Or.inl rfl)
  | publish g tier ttl =>
    cases a with
    | error e => exact ⟨hkeeps rfl, hkeeps rfl⟩
    | ok u => exact hkeeps rfl
  | invalidate =>
    cases a with
    | error e => exact ⟨hkeeps rfl, hkeeps rfl⟩
    | ok u => trivial
  | release =>
    cases a with
    | error e => exact ⟨hkeeps rfl, hkeeps rfl⟩
    | ok u => trivial
  | fetch =>
    cases a with
    | error e => exact ⟨hkeeps rfl, hkeeps rfl⟩
    | ok v => exact ⟨hkeeps rfl, (mem_sinceInvalidate_cons rfl).2 (Or.inl (by cases c <;> rfl))⟩
  | peek | acquire | setState | failWithError | prepare | abort | abortProvenClean
  | evictionCandidate | reserveEviction | removeIfAddress | tierGet | tierSet | tierRemove
  | tierContains | register | notified | sleep | yieldNow | tierHealth | record =>
    exact ⟨hkeeps rfl, hkeeps rfl⟩

/-- The entry lets nothing read but what was brought since the last invalidation, and nothing else
was heard. -/
structure Barred (s : System V) (φ : ℕ → Phase V) : Prop where
  alone : Sequential.Alone (fun _ => True) (fun trace x => x ∈ sinceInvalidate brings trace)
    (fun trace x => x ∈ sinceInvalidate brings trace) s φ
  heard : ∀ x ∈ sinceInvalidate hears s.trace, x ∈ sinceInvalidate brings s.trace

theorem alone_upholds : Upholds (barredClient V)
    (Sequential.Alone (fun _ => True) (fun trace x => x ∈ sinceInvalidate brings trace)
      fun trace x => x ∈ sinceInvalidate brings trace) := by
  refine Sequential.Alone.upholds (fun _ _ _ h => ⟨h, trivial⟩) ?_ fun trace it _ =>
    evolves_brings trace it
  rintro s ⟨i, c, l, q, a, pre, post⟩ o - ho - hexec -
  cases q with
  | tierSet rung v ttl =>
    obtain ⟨rfl, -⟩ := KeyWorld.exec_tierSet_exact ho hexec
    trivial
  | _ => trivial

/-- A value that is heard was brought. -/
theorem Barred.brought {s : System V} {φ : ℕ → Phase V} (h : Barred s φ) {i : ℕ} {c : Call V}
    {l : Fn} {q : Req V} {o : Outcome V} {a : q.Answer} {w : KeyWorld V}
    (hserves : (barredClient V).Serves s (φ i) i c l q o a w) {x : V}
    (hx : hears ⟨i, c, l, q, a, s.world, w⟩ = some x) :
    x ∈ sinceInvalidate brings (⟨i, c, l, q, a, s.world, w⟩ :: s.trace) := by
  obtain ⟨cancel, k, hpend⟩ := hserves.pending
  obtain ⟨rfl, -⟩ := h.alone.client i _ hpend
  cases q with
  | tierGet rung =>
    obtain ⟨rfl, -⟩ := KeyWorld.exec_tierGet_exact hserves.outcome hserves.exec
    refine (mem_sinceInvalidate_cons rfl).2 (Or.inr ?_)
    rcases h.alone.fits.read hserves.allows hx with hP | rfl
    · exact hP
    · exact hserves.good x hx
  | fetch =>
    cases a with
    | error e => cases hx
    | ok v => exact (mem_sinceInvalidate_cons rfl).2 (Or.inl (by cases c <;> exact hx))
  | _ => cases hx

theorem barred_upholds : Upholds (barredClient V) Barred where
  start h hB hc hst := ⟨alone_upholds.start h.alone hB hc hst, h.heard⟩
  answer {s φ i c l q o a w} rest h hB hC hserves := by
    refine ⟨alone_upholds.answer rest h.alone hB hC hserves, ?_⟩
    rw [Sys.answer_trace]
    intro x hx
    cases hit : invalidates (⟨i, c, l, q, a, s.world, w⟩ : Served V) with
    | true => simp [sinceInvalidate, hit] at hx
    | false =>
      rcases (mem_sinceInvalidate_cons hit).1 hx with hx | hx
      · exact h.brought hserves hx
      · exact (mem_sinceInvalidate_cons hit).2 (Or.inr (h.heard x hx))
  drop rest h hd hpend hcall := ⟨alone_upholds.drop rest h.alone hd hpend hcall, h.heard⟩
  env h := ⟨alone_upholds.env h.alone, h.heard⟩

/-- A known caller of the key `k` whose policy names `L0` and fails open. -/
def Args.failingOpen : Args := { Args.pinned .L0 none with select := fun _ => ⟨true, .L0, .open⟩ }

/-- A value is set and invalidated, another one is set and a refresh fails; the `get_or_fetch` that
fails as well scans the ladder. -/
def scanAfterRefresh : List (Turn ℕ) :=
  [.start 0 (.set (.pinned .L0 none) 1),
    .run 0 {}, .run 0 {}, .run 0 {}, .run 0 {}, .run 0 {}, .run 0 {},
    .start 0 (.invalidate (.pinned .L0 none)), .run 0 {},
    .start 0 (.set (.pinned .L0 none) 2),
    .run 0 {}, .run 0 {}, .run 0 {}, .run 0 {}, .run 0 {}, .run 0 {},
    .start 0 (.refresh (.pinned .L0 none)), .run 0 {}, .run 0 {}, .run 0 {}, .run 0 {},
    .run 0 { fetched := .error .corrupted }, .run 0 {},
    .start 0 (.getOrFetch .failingOpen), .run 0 {}, .run 0 { fetched := .error .corrupted },
    .run 0 {}, .run 0 {}, .run 0 {}]

/-- A value is set and invalidated; a `get_or_fetch` that fails open scans the ladder. -/
def scanAfterInvalidate : List (Turn ℕ) :=
  [.start 0 (.set (.pinned .L0 none) 1),
    .run 0 {}, .run 0 {}, .run 0 {}, .run 0 {}, .run 0 {}, .run 0 {},
    .start 0 (.invalidate (.pinned .L0 none)), .run 0 {},
    .start 0 (.getOrFetch .failingOpen), .run 0 {}, .run 0 { fetched := .error .corrupted },
    .run 0 {}, .run 0 {}, .run 0 {}]

end TheSix
