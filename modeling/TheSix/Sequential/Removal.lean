import TheSix.Sequential.Barrier
import TheSix.Concurrency.Authority
import TheSix.Concurrency.Joining

/-!
# Removal as a barrier

One client, whose policies may fail open. `invalidate` leaves the bytes on every rung, and a scan may
bring them back. `remove` empties every bound cache rung before it releases the entry, so there is
nothing left to scan: whatever a call returns was set or fetched since the last `remove` that answered
`Ok` (`brought_since_remove`). Tiers may fail, miss and answer a failed write that was stored, and calls
may be dropped anywhere; all that is asked is that the removals of `remove` take effect, since it
ignores what they answer.

`handling` is what carries this through the programs: a call stores only its own value or one that it
has heard, on a bound cache rung, and releases the entry only when it has emptied all of them.
-/

namespace TheSix

open Coroutine

variable {V : Type}

/-! ## Since the last removal -/

/-- The last request of a `remove`, answered `Ok`. -/
def removes : Served V → Bool
  | ⟨_, _, _, .release, .ok _, _, _⟩ => true
  | _ => false

/-- The values of the items after the last removal. -/
def sinceRemove (f : Served V → Option V) : List (Served V) → List V
  | [] => []
  | it :: older => if removes it then [] else (f it).toList ++ sinceRemove f older

theorem mem_sinceRemove_cons {f : Served V → Option V} {it : Served V} {older : List (Served V)}
    {x : V} (hit : removes it = false) :
    x ∈ sinceRemove f (it :: older) ↔ f it = some x ∨ x ∈ sinceRemove f older := by
  simp [sinceRemove, hit]

/-! ## What a call has in hand -/

/-- What a call has of its own, has heard since it started, and has emptied. -/
structure Hand (V : Type) where
  own : Option V
  values : List V := []
  emptied : List TierId := []

namespace Hand

/-- A rung the manager stores on. -/
def Stores (tiers : ℕ) (rung : TierId) : Prop :=
  rung.isCacheRung = true ∧ Manager.hasTier tiers rung = true

/-- What is in hand after an answer. -/
def after (h : Hand V) : Fn → (q : Req V) → q.Answer → Hand V
  | _, .tierGet _, .ok (some v) => { h with values := v :: h.values }
  | _, .fetch, .ok v => { h with values := v :: h.values }
  | _, .tierSet _ _ _, _ => { h with emptied := [] }
  | .remove, .tierRemove rung, _ => { h with emptied := rung :: h.emptied }
  | _, .release, _ => { h with values := [] }
  | _, _, _ => h

/-- A call stores what it has in hand, and releases what it has emptied. -/
def Allows (tiers : ℕ) (h : Hand V) : Req V → Prop
  | .tierSet rung v _ => (h.own = some v ∨ v ∈ h.values) ∧ Stores tiers rung
  | .release => ∀ rung, Stores tiers rung → rung ∈ h.emptied
  | _ => True

end Hand

/-- The phase of a call is what it has in hand. -/
def handling (V : Type) (tiers : ℕ) : Discipline (Hand V) Fn (Req V) Req.Answer where
  ok h _ q := h.Allows tiers q
  tr h l q a h' := h' = h.after l q a
  cancel := id

/-- A program that keeps to its hand, and ends with `Post`. -/
def Handles {R : Type} (tiers : ℕ) (p : Step V R) (Post : Hand V → R → Prop) (h : Hand V) : Prop :=
  p.wp (handling V tiers) (fun _ _ => True) Post h

section Handling

variable {R S : Type} {tiers : ℕ} {h : Hand V} {l : Fn} {q : Req V}

theorem handles_call {k : q.Answer → Step V R} {Post : Hand V → R → Prop} :
    Handles tiers (.req l q none k) Post h ↔
      h.Allows tiers q ∧ ∀ a, Handles tiers (k a) Post (h.after l q a) := by
  constructor
  · intro hp
    exact ⟨hp.1, fun a => hp.2.1 a _ rfl⟩
  · rintro ⟨hq, hk⟩
    refine ⟨hq, ?_, fun cs hcs => by cases hcs⟩
    rintro a h' rfl
    exact hk a

theorem handles_await {k : q.Answer → Step V R} {Post : Hand V → R → Prop} :
    Handles tiers (.req l q (some []) k) Post h ↔
      h.Allows tiers q ∧ ∀ a, Handles tiers (k a) Post (h.after l q a) := by
  constructor
  · intro hp
    exact ⟨hp.1, fun a => hp.2.1 a _ rfl⟩
  · rintro ⟨hq, hk⟩
    refine ⟨hq, ?_, ?_⟩
    · rintro a h' rfl
      exact hk a
    · rintro cs ⟨⟩
      exact ⟨trivial, fun _ _ _ => trivial⟩

theorem handles_bind {p : Step V R} {f : R → Step V S} {Post : Hand V → S → Prop} :
    Handles tiers (p >>= f) Post h ↔
      Handles tiers p (fun h r => Handles tiers (f r) Post h) h :=
  Prog.wp_bind p f Post h

@[simp] theorem handles_pure {r : R} {Post : Hand V → R → Prop} :
    Handles tiers (pure r) Post h ↔ Post h r := Iff.rfl

theorem handles_ite {P : Prop} [Decidable P] {p p' : Step V R} {Post : Hand V → R → Prop} :
    Handles tiers (if P then p else p') Post h ↔
      (P → Handles tiers p Post h) ∧ (¬P → Handles tiers p' Post h) := Prog.wp_ite P p p' Post h

/-- A guard that asks for nothing the hand could forbid. -/
theorem handles_guarded {c : Req V} {p : Step V R} {Post : Hand V → R → Prop}
    (hc : ∀ h : Hand V, h.Allows tiers c) :
    Handles tiers (p.guarded [c]) Post h ↔ Handles tiers p Post h := by
  have hDn : (fun l h => (handling V tiers).unwinds (fun _ _ => True) l [c] h) =
      fun _ _ => True := by
    funext l h
    exact eq_true ⟨hc h, fun _ _ _ => trivial⟩
  rw [Handles, Prog.wp_guarded, hDn, Handles]

theorem Handles.mono {p : Step V R} {Post Post' : Hand V → R → Prop}
    (hPost : ∀ h r, Post h r → Post' h r) (hp : Handles tiers p Post h) : Handles tiers p Post' h :=
  Prog.wp_mono hPost hp

end Handling

/-- The answer was heard, and so was all of `base`. -/
def Told (base : List V) (h : Hand V) (r : Except CacheError V) : Prop :=
  base ⊆ h.values ∧ ∀ x, r = .ok x → x ∈ h.values

@[simp] theorem told_error {base : List V} {h : Hand V} {e : CacheError} :
    Told base h (.error e) ↔ base ⊆ h.values := by
  simp [Told]

@[simp] theorem told_ok {base : List V} {h : Hand V} {v : V} :
    Told base h (.ok v) ↔ base ⊆ h.values ∧ v ∈ h.values := by
  simp [Told]

namespace Manager

variable {tiers : ℕ} {base : List V} {h : Hand V}

theorem mem_cacheLadder {rung : TierId} (h : rung.isCacheRung = true) : rung ∈ cacheLadder := by
  revert h
  cases rung <;> decide

theorem waitForPopulation_handles {snapshot : ControlSnapshot} :
    Handles tiers (waitForPopulation snapshot) (fun h' _ => h' = h) h := by
  simp only [waitForPopulation, call, await, Prog.req_bind, Prog.ret_bind, handles_call, handles_ite,
    handles_await]
  exact ⟨trivial, fun _ => ⟨trivial, fun _ => ⟨fun _ => rfl, fun _ => ⟨trivial, fun _ => rfl⟩⟩⟩⟩

theorem waitAndGet_handles {snapshot : ControlSnapshot} (hb : base ⊆ h.values) :
    Handles tiers (waitAndGet tiers snapshot) (Told base) h := by
  simp only [waitAndGet, call, noTelemetry_eq, await, Prog.req_bind, Prog.ret_bind, handles_bind]
  refine waitForPopulation_handles.mono ?_
  rintro _ r rfl
  cases r with
  | error e => simpa using hb
  | ok u =>
    simp only [handles_call]
    refine ⟨trivial, fun after => ?_⟩
    cases after.lastError with
    | some e => simpa [Hand.after] using hb
    | none =>
      simp only [handles_ite, handles_await]
      refine ⟨fun _ => by simpa [Hand.after] using hb, fun _ => ⟨fun _ => by simpa [Hand.after] using hb,
        fun _ => ⟨trivial, ?_⟩⟩⟩
      rintro (e | _ | v)
      · simpa [Hand.after] using hb
      · simpa [Hand.after] using hb
      · simpa [Hand.after] using List.subset_cons_of_subset v hb

theorem populateOnce_handles {a : Args} {decision : PolicyDecision} {g : Generation}
    (hb : base ⊆ h.values) : Handles tiers (populateOnce tiers a decision g) (Told base) h := by
  simp only [populateOnce, call, noTelemetry_eq, await, Prog.req_bind, Prog.ret_bind, handles_await]
  refine ⟨trivial, ?_⟩
  rintro (e | value)
  · simpa [Hand.after] using hb
  · have hb' : base ⊆ value :: h.values := List.subset_cons_of_subset value hb
    cases hrung : nearestBoundRung tiers decision.tier with
    | none => simpa [Hand.after] using hb'
    | some rung =>
      simp only [handles_await, handles_call]
      refine ⟨⟨Or.inr List.mem_cons_self, isCacheRung_of_nearestBoundRung hrung,
        hasTier_of_nearestBoundRung hrung⟩, ?_⟩
      rintro (e | u)
      · exact ⟨trivial, fun _ => by simpa [Hand.after] using hb'⟩
      · simp only [handles_call]
        refine ⟨trivial, fun _ => ⟨trivial, ?_⟩⟩
        rintro (e | u)
        · simpa [Hand.after] using hb'
        · simpa [Hand.after] using hb'

theorem populateAttempts_handles {a : Args} {decision : PolicyDecision} {g : Generation}
    {retries : ℕ} (hb : base ⊆ h.values) :
    Handles tiers (populateAttempts tiers a decision g retries) (Told base) h := by
  induction retries generalizing h with
  | zero => exact populateOnce_handles hb
  | succ retries ih =>
    simp only [populateAttempts, handles_bind]
    refine (populateOnce_handles hb).mono ?_
    intro h' r hr
    cases r with
    | ok v => exact hr
    | error e =>
      simp only [await, noTelemetry_eq, Prog.req_bind, Prog.ret_bind, handles_ite, handles_await]
      exact ⟨fun _ => ⟨trivial, fun _ => ih hr.1⟩, fun _ => hr⟩

theorem scanRungs_handles {cause : CacheError} {rungs : List TierId} (hb : base ⊆ h.values) :
    Handles tiers (scanRungs tiers cause rungs) (Told base) h := by
  induction rungs generalizing h with
  | nil => simpa [scanRungs] using hb
  | cons rung rungs ih =>
    simp only [scanRungs, call, noTelemetry_eq, await, Prog.req_bind, Prog.ret_bind, handles_ite,
      handles_call, handles_await]
    refine ⟨fun _ => ih hb, fun _ => ⟨trivial, fun _ => ⟨fun _ => ih hb, fun _ => ⟨trivial, ?_⟩⟩⟩⟩
    rintro (e | _ | v)
    · exact ih hb
    · exact ih hb
    · simpa [Hand.after] using List.subset_cons_of_subset v hb

theorem becomePopulationOwner_handles {a : Args} {decision : PolicyDecision} {g : Generation}
    (hb : base ⊆ h.values) :
    Handles tiers (becomePopulationOwner tiers a decision g) (Told base) h := by
  simp only [becomePopulationOwner, handles_bind]
  refine (handles_guarded (c := .failWithError .cancelled) fun _ => trivial).2 ?_
  refine (populateAttempts_handles hb).mono ?_
  intro h' r hr
  cases r with
  | ok v => exact hr
  | error e =>
    simp only [call, noTelemetry_eq, Prog.req_bind, Prog.ret_bind, handles_call, handles_ite,
      tryFallbackTier]
    refine ⟨trivial, fun _ => ⟨fun _ => ?_, fun _ => ⟨fun _ => scanRungs_handles hr.1, fun _ => hr⟩⟩⟩
    simpa [Hand.after] using hr.1

theorem joinOrPopulate_handles {a : Args} {decision : PolicyDecision} {s : ControlSnapshot}
    {again : Step V (Except CacheError V)}
    (hagain : ∀ {h : Hand V}, base ⊆ h.values → Handles tiers again (Told base) h)
    (hb : base ⊆ h.values) :
    Handles tiers (joinOrPopulate tiers a decision s again) (Told base) h := by
  simp only [joinOrPopulate, handles_ite, handles_bind]
  refine ⟨fun _ => waitAndGet_handles hb, fun _ => ⟨fun _ => ?_, fun _ => ?_⟩⟩
  · refine waitForPopulation_handles.mono ?_
    rintro _ r rfl
    cases r with
    | error e => simpa using hb
    | ok u => exact hagain hb
  · exact ⟨fun _ => waitAndGet_handles hb, fun _ => becomePopulationOwner_handles hb⟩

theorem fetchFrom_handles {a : Args} {decision : PolicyDecision} {s : ControlSnapshot}
    {again : Step V (Except CacheError V)}
    (hagain : ∀ {h : Hand V}, base ⊆ h.values → Handles tiers again (Told base) h)
    (hb : base ⊆ h.values) :
    Handles tiers (fetchFrom tiers a decision s again) (Told base) h := by
  simp only [fetchFrom, await, noTelemetry_eq, Prog.req_bind, Prog.ret_bind, handles_ite,
    handles_await]
  refine ⟨fun _ => ⟨fun _ => by simpa using hb, fun _ => ⟨trivial, ?_⟩⟩,
    fun _ => joinOrPopulate_handles hagain hb⟩
  rintro (e | _ | v)
  · simpa [Hand.after] using hb
  · exact joinOrPopulate_handles hagain hb
  · simpa [Hand.after] using List.subset_cons_of_subset v hb

theorem fetchAttempts_handles {a : Args} {decision : PolicyDecision} {attempts : ℕ}
    (hb : base ⊆ h.values) :
    Handles tiers (fetchAttempts tiers a decision attempts) (Told base) h := by
  induction attempts generalizing h with
  | zero => simpa [fetchAttempts] using hb
  | succ attempts ih =>
    simp only [fetchAttempts, call, noTelemetry_eq, Prog.req_bind, Prog.ret_bind, handles_call]
    refine ⟨trivial, ?_⟩
    rintro (e | first)
    · simpa [Hand.after] using hb
    · simp only [handles_ite, handles_call]
      refine ⟨fun _ => ⟨trivial, fun _ => ⟨trivial, ?_⟩⟩, fun _ => fetchFrom_handles ih hb⟩
      rintro (e | snapshot)
      · simpa [Hand.after] using hb
      · exact fetchFrom_handles ih hb

theorem get_handles {a : Args} :
    Handles tiers (Manager.get tiers a) (fun h' r => ∀ x, r = .ok (some x) → x ∈ h'.values) h := by
  unfold Manager.get
  cases a.admitEncoded with
  | error e => simp
  | ok d =>
    simp only [call, noTelemetry_eq, await, Prog.req_bind, Prog.ret_bind, handles_call, handles_ite,
      handles_bind, handles_pure, handles_await]
    refine ⟨trivial, fun s => ⟨fun _ => ⟨fun _ => by simp, fun _ => ⟨trivial, ?_⟩⟩,
      fun _ => ⟨fun _ => ⟨trivial, fun _ => by simp⟩, fun _ => ⟨fun _ => ?_, fun _ => by simp⟩⟩⟩⟩
    · rintro (e | v)
      · exact ⟨trivial, fun _ => by simp⟩
      · simp only [handles_call, handles_ite, handles_pure]
        refine ⟨trivial, fun _ => ⟨trivial, fun _ => ⟨fun _ => ?_, fun _ => by simp⟩⟩⟩
        cases v <;> simp [Hand.after]
    · refine waitForPopulation_handles.mono ?_
      rintro _ r rfl
      cases r with
      | error e => simp
      | ok u =>
        simp only [handles_call]
        refine ⟨trivial, fun after => ?_⟩
        cases after.lastError with
        | some e => simp
        | none =>
          simp only [handles_ite, handles_call, handles_pure, handles_await]
          refine ⟨fun _ => by simp, fun _ => ⟨fun _ => by simp, fun _ => ⟨trivial, ?_⟩⟩⟩
          rintro (e | _ | v) <;> exact ⟨trivial, fun _ => by simp [Hand.after]⟩

theorem revalidate_handles {a : Args} {decision : PolicyDecision} {current : Option V}
    (hb : current.toList ⊆ h.values) :
    Handles tiers (revalidate tiers a decision current)
      (fun h' r => ∀ x, Reply.value (.refreshed r) = some x → x ∈ h'.values) h := by
  simp only [revalidate, call, noTelemetry_eq, Prog.req_bind, Prog.ret_bind, handles_call]
  refine ⟨trivial, ?_⟩
  rintro (e | snapshot)
  · simp [Reply.value]
  · simp only [handles_ite, handles_bind, handles_pure]
    refine ⟨fun _ => ?_, fun _ => (becomePopulationOwner_handles hb).mono ?_⟩
    · cases current with
      | none => simp [Reply.value]
      | some v => simpa [Hand.after, Reply.value] using hb
    · intro h' r hr
      cases r with
      | ok v => simpa [Reply.value] using hr.2
      | error e =>
        simp only [handles_ite, handles_pure]
        refine ⟨fun _ => ?_, fun _ => by simp [Reply.value]⟩
        cases current with
        | none => simp [Reply.value]
        | some v => simpa [Reply.value] using hr.1

theorem refreshDetailed_handles {a : Args} :
    Handles tiers (refreshDetailed tiers a)
      (fun h' r => ∀ x, Reply.value (.refreshed r) = some x → x ∈ h'.values) h := by
  unfold refreshDetailed
  cases a.admitPopulation with
  | error e => simp [Reply.value]
  | ok decision =>
    simp only [call, noTelemetry_eq, Prog.req_bind, Prog.ret_bind, handles_call, handles_bind,
      readCurrent, await, handles_ite, handles_pure, handles_await]
    refine ⟨trivial, fun before => ⟨fun _ => ⟨fun _ => ⟨trivial, fun _ => revalidate_handles (by simp)⟩,
      fun _ => revalidate_handles (by simp)⟩, fun _ => ⟨trivial, ?_⟩⟩⟩
    rintro (e | v)
    · exact ⟨fun _ => ⟨trivial, fun _ => revalidate_handles (by simp)⟩,
        fun _ => revalidate_handles (by simp)⟩
    · have hv : v.toList ⊆ (h.after .refreshDetailed (.tierGet before.tier) (.ok v)).values := by
        cases v <;> simp [Hand.after]
      exact ⟨fun _ => ⟨trivial, fun _ => revalidate_handles hv⟩, fun _ => revalidate_handles hv⟩

/-! ### Writing -/

theorem writeUnder_handles {a : Args} {v : V} {rung : TierId} {token : CommitToken}
    (hown : h.own = some v) (hrung : Hand.Stores tiers rung) :
    Handles tiers (writeUnder a v rung token) (fun h' _ => h'.own = some v) h := by
  simp only [writeUnder, call, noTelemetry_eq, await, Prog.req_bind, Prog.ret_bind, handles_await]
  refine ⟨⟨Or.inl hown, hrung⟩, ?_⟩
  rintro (e | u)
  · simp only [handles_call, handles_ite, handles_await, handles_pure]
    exact ⟨trivial, fun _ => ⟨fun _ => ⟨trivial, fun _ => hown⟩, fun _ => hown⟩⟩
  · simp only [handles_call]
    refine ⟨trivial, fun _ => ⟨trivial, ?_⟩⟩
    rintro (e | u)
    · simp only [handles_ite, handles_await, handles_pure]
      exact ⟨fun _ => hown, fun _ => ⟨trivial, fun _ => hown⟩⟩
    · exact hown

theorem writeAt_handles {a : Args} {v : V} {rung : TierId} {races : ℕ} (hown : h.own = some v)
    (hrung : Hand.Stores tiers rung) :
    Handles tiers (writeAt a v rung races) (fun h' _ => h'.own = some v) h := by
  induction races generalizing h with
  | zero => exact hown
  | succ races ih =>
    unfold writeAt
    simp only [call, noTelemetry_eq, Prog.req_bind, Prog.ret_bind, handles_call]
    refine ⟨trivial, ?_⟩
    rintro (e | token)
    · exact hown
    · simp only [handles_bind]
      refine (handles_guarded (c := .abort token .cancelled) fun _ => trivial).2 ?_
      refine (writeUnder_handles (h := h.after .set (.prepare rung .write) (.ok token)) hown hrung).mono ?_
      rintro h' (_ | _ | e | e) hown'
      · exact hown'
      · cases races with
        | zero =>
          simp only [handles_call, handles_pure]
          exact ⟨trivial, fun _ => hown'⟩
        | succ races =>
          refine handles_bind.2 ((handles_guarded (c := .abort token .cancelled) fun _ => trivial).2 ?_)
          simp only [await, handles_await, handles_call]
          exact ⟨trivial, fun _ => ⟨trivial, fun _ => ih hown'⟩⟩
      · simp only [handles_call, handles_pure]
        exact ⟨trivial, fun _ => hown'⟩
      · simp only [abortRefused, call, handles_bind, handles_ite, handles_call, handles_pure]
        exact ⟨fun _ => ⟨trivial, fun _ => ⟨fun _ => hown', fun _ => hown'⟩⟩,
          fun _ => ⟨trivial, fun _ => ⟨fun _ => hown', fun _ => hown'⟩⟩⟩

theorem walk_handles {a : Args} {v : V} {rungs : List TierId} {e : CacheError}
    (hown : h.own = some v) (hrungs : ∀ rung ∈ rungs, rung.isCacheRung = true) :
    Handles tiers (walk tiers a v rungs e) (fun h' _ => h'.own = some v) h := by
  induction rungs generalizing h e with
  | nil => exact hown
  | cons rung rungs ih =>
    rw [List.forall_mem_cons] at hrungs
    simp only [walk, handles_ite, handles_bind]
    refine ⟨fun _ => ih hown hrungs.2, fun hbound => ?_⟩
    refine (writeAt_handles hown ⟨hrungs.1, by simpa using hbound⟩).mono ?_
    rintro h' (r | e) hown'
    · exact hown'
    · exact ih hown' hrungs.2

theorem tryEvictAtRung_handles {rung : TierId} {attempts : ℕ} :
    Handles tiers (tryEvictAtRung rung attempts) (fun h' _ => h' = h) h := by
  induction attempts with
  | zero => rfl
  | succ attempts ih =>
    simp only [tryEvictAtRung, call, Prog.req_bind, Prog.ret_bind, handles_call]
    refine ⟨trivial, ?_⟩
    rintro (_ | address)
    · rfl
    · simp only [handles_call]
      refine ⟨trivial, ?_⟩
      rintro (_ | _)
      · exact ih
      · simp only [handles_call, handles_pure]
        exact ⟨trivial, fun _ => rfl⟩

theorem tryFreeSomewhere_handles {rungs : List TierId} {attempts : ℕ} :
    Handles tiers (tryFreeSomewhere tiers rungs attempts) (fun h' _ => h' = h) h := by
  induction rungs generalizing attempts with
  | nil => rfl
  | cons rung rungs ih =>
    simp only [tryFreeSomewhere, handles_ite, handles_bind]
    refine ⟨fun _ => ih, fun _ => tryEvictAtRung_handles.mono ?_⟩
    rintro _ ⟨_ | _, attempts⟩ rfl
    · exact ih
    · rfl

theorem setPasses_handles {a : Args} {v : V} {tier : TierId} {passes : ℕ} {e : CacheError}
    (hown : h.own = some v) : Handles tiers (setPasses tiers a v tier passes e) (fun _ _ => True) h := by
  induction passes generalizing h e with
  | zero => trivial
  | succ passes ih =>
    simp only [setPasses, handles_bind]
    refine (walk_handles hown fun rung hrung => isCacheRung_of_mem_descent hrung).mono ?_
    rintro h' (r | e) hown'
    · trivial
    · simp only [handles_ite, handles_bind]
      refine ⟨fun _ => tryFreeSomewhere_handles.mono ?_, fun _ => trivial⟩
      rintro _ (_ | _) rfl
      · trivial
      · exact ih hown'

theorem set_handles {a : Args} {v : V} (hown : h.own = some v) :
    Handles tiers (Manager.set tiers a v) (fun _ _ => True) h := by
  unfold Manager.set
  cases a.admitWrite with
  | error e => trivial
  | ok u =>
    simp only [call, noTelemetry_eq, Prog.req_bind, Prog.ret_bind, handles_call]
    refine ⟨trivial, fun snapshot => ⟨trivial, fun failures => ?_⟩⟩
    cases Args.authorize (a.select (.fromSnapshot snapshot failures)) with
    | error e => trivial
    | ok u =>
      simp only [handles_ite]
      exact ⟨fun _ => trivial, fun _ => setPasses_handles hown⟩

/-! ### Removing and moving -/

/-- The removals empty every bound rung of the list. -/
theorem removeFrom_handles {rungs : List TierId} :
    Handles tiers (removeFrom tiers rungs) (fun h' _ => h.emptied ⊆ h'.emptied ∧
      ∀ rung ∈ rungs, hasTier tiers rung = true → rung ∈ h'.emptied) h := by
  induction rungs generalizing h with
  | nil => exact ⟨List.Subset.refl _, by simp⟩
  | cons rung rungs ih =>
    simp only [removeFrom, await, Prog.req_bind, Prog.ret_bind, handles_ite, handles_await]
    refine ⟨fun hunbound => ih.mono ?_, fun _ => ⟨trivial, fun r => ih.mono ?_⟩⟩
    · rintro h' - ⟨hsub, hall⟩
      refine ⟨hsub, List.forall_mem_cons.2 ⟨fun hbound => ?_, hall⟩⟩
      rw [hunbound] at hbound
      cases hbound
    · rintro h' - ⟨hsub, hall⟩
      rw [Hand.after, List.cons_subset] at hsub
      exact ⟨hsub.2, List.forall_mem_cons.2 ⟨fun _ => hsub.1, hall⟩⟩

theorem remove_handles {a : Args} : Handles tiers (Manager.remove tiers a) (fun _ _ => True) h := by
  unfold Manager.remove
  cases a.admitKey with
  | error e => trivial
  | ok d =>
    simp only [handles_bind]
    refine removeFrom_handles.mono ?_
    rintro h' - ⟨-, hall⟩
    refine handles_call.2 ⟨fun rung hrung => hall rung ?_ hrung.2, fun _ => trivial⟩
    exact mem_cacheLadder hrung.1

theorem moveUnder_handles {a : Args} {source destination : TierId} {token : CommitToken}
    (hdest : Hand.Stores tiers destination) :
    Handles tiers (moveUnder a source destination token) (fun _ (_ : Option CacheError) => True) h := by
  simp only [moveUnder, call, noTelemetry_eq, await, Prog.req_bind, Prog.ret_bind, handles_await]
  refine ⟨trivial, ?_⟩
  rintro (e | _ | v)
  · trivial
  · trivial
  · simp only [handles_await, handles_call]
    refine ⟨⟨Or.inr List.mem_cons_self, hdest⟩, ?_⟩
    rintro (e | u)
    · exact ⟨trivial, fun _ => trivial⟩
    · simp only [handles_await, handles_call]
      refine ⟨trivial, fun _ => ⟨trivial, fun _ => ⟨trivial, fun _ => ⟨trivial, ?_⟩⟩⟩⟩
      rintro (e | u)
      · simp only [handles_await]
        exact ⟨trivial, fun _ => trivial⟩
      · trivial

theorem moveEntry_handles {a : Args} {source destination : TierId}
    (hdest : destination.isCacheRung = true) :
    Handles tiers (moveEntry tiers a source destination) (fun _ _ => True) h := by
  simp only [moveEntry, call, noTelemetry_eq, Prog.req_bind, Prog.ret_bind, handles_call]
  refine ⟨trivial, ?_⟩
  rintro (e | token)
  · trivial
  · simp only [handles_ite, handles_call, handles_bind, handles_pure]
    refine ⟨fun _ => ⟨trivial, fun _ => trivial⟩, fun hbound => ?_⟩
    refine (handles_guarded (c := .abort token .cancelled) fun _ => trivial).2 ?_
    have hstores : Hand.Stores tiers destination := ⟨hdest, by simpa using (not_or.1 hbound).2⟩
    refine (moveUnder_handles hstores).mono ?_
    rintro h' (_ | e) -
    · trivial
    · exact handles_call.2 ⟨trivial, fun _ => trivial⟩

theorem moveAlong_handles {a : Args} {f : Fn} {stays : TierId → Bool} {shift : ℕ → ℕ}
    (hsteps : Steps stays shift) :
    Handles tiers (moveAlong tiers a f stays shift) (fun _ _ => True) h := by
  simp only [moveAlong, call, noTelemetry_eq, Prog.req_bind, Prog.ret_bind, handles_call,
    handles_ite]
  refine ⟨trivial, fun s => ⟨fun _ => trivial, fun _ => ⟨fun _ => trivial, fun hstays => ?_⟩⟩⟩
  obtain ⟨-, destination, hfrom, hcache, -⟩ := hsteps s.tier (by simpa using hstays)
  rw [hfrom]
  exact moveEntry_handles hcache

end Manager

/-- Every call keeps to its hand, and returns only what it has heard. -/
theorem Call.handles (tiers : ℕ) (c : Call V) :
    Handles tiers (c.prog tiers) (fun h r => ∀ x, r.value = some x → x ∈ h.values)
      ⟨c.stores, [], []⟩ := by
  have hsilent : ∀ {R : Type} {p : Step V R} {f : R → Reply V} {h : Hand V},
      (∀ r, (f r).value = none) → Handles tiers p (fun _ _ => True) h →
      Handles tiers (f <$> p) (fun h r => ∀ x, r.value = some x → x ∈ h.values) h := by
    intro R p f h hf hp
    refine (Prog.wp_map _ _ _ _).2 (Handles.mono ?_ hp)
    simp [hf]
  cases c with
  | get a =>
    refine (Prog.wp_map _ _ _ _).2 (Manager.get_handles.mono ?_)
    rintro h (e | v) hr x hx
    · cases hx
    · exact hr x (congrArg _ hx)
  | getOrFetch a =>
    refine (Prog.wp_map _ _ _ _).2 ?_
    unfold Manager.getOrFetch
    cases a.admitPopulation with
    | error e => simp [Reply.value]
    | ok decision =>
      refine (Manager.fetchAttempts_handles (List.Subset.refl [])).mono ?_
      rintro h (e | v) hr x hx
      · cases hx
      · exact hr.2 x (by rw [Option.some.inj hx])
  | refresh a => exact (Prog.wp_map _ _ _ _).2 Manager.refreshDetailed_handles
  | «exists» a =>
    refine hsilent (fun _ => rfl) ?_
    unfold Manager.exists
    cases a.admitKey with
    | error e => trivial
    | ok d =>
      simp only [Manager.silent_eq, Manager.call, Manager.await, Prog.req_bind, Prog.ret_bind,
        handles_call, handles_ite, handles_await]
      exact ⟨trivial, fun _ => ⟨fun _ => trivial, fun _ => ⟨fun _ => trivial,
        fun _ => ⟨trivial, fun _ => trivial⟩⟩⟩⟩
  | set a v => exact hsilent (fun _ => rfl) (Manager.set_handles rfl)
  | invalidate a =>
    refine hsilent (fun _ => rfl) ?_
    unfold Manager.invalidate
    cases a.admitKey with
    | error e => trivial
    | ok d => exact handles_call.2 ⟨trivial, fun _ => trivial⟩
  | remove a => exact hsilent (fun _ => rfl) Manager.remove_handles
  | promote a =>
    refine hsilent (fun _ => rfl) ?_
    cases ha : a.admitKey with
    | error e =>
      simp only [Manager.promote, ha]
      trivial
    | ok d =>
      rw [Manager.promote_eq ha]
      exact Manager.moveAlong_handles Manager.promote_steps
  | demote a =>
    refine hsilent (fun _ => rfl) ?_
    cases ha : a.admitKey with
    | error e =>
      simp only [Manager.demote, ha]
      trivial
    | ok d =>
      rw [Manager.demote_eq ha]
      exact Manager.moveAlong_handles Manager.demote_steps
  | evict =>
    exact hsilent (fun _ => rfl) (Manager.tryFreeSomewhere_handles.mono fun _ _ _ => trivial)

/-! ## The client -/

/-- A removal that `remove` asks a rung for takes effect. -/
def EmptiesRung : Served V → Prop
  | ⟨_, _, .remove, .tierRemove rung, _, _, post⟩ => post.rungs rung = none
  | _ => True

/-- One client on thread 0, whose removals take effect. -/
def removingClient (V : Type) : Terms V where
  starts _ i _ := i = 0
  good _ := EmptiesRung

instance [DecidableEq V] : DecidablePred (EmptiesRung (V := V)) := fun ⟨_, _, l, q, _, _, _⟩ => by
  induction q using Req.casesOn
  case tierRemove => induction l using Fn.casesOn <;> dsimp only [EmptiesRung] <;> infer_instance
  all_goals exact .isTrue (by cases l <;> trivial)

instance [DecidableEq V] : (removingClient V).Checkable where
  starts _ i _ := inferInstanceAs (Decidable (i = 0))
  outcome _ := .isTrue trivial
  drops := .isTrue trivial
  good _ it := inferInstanceAs (Decidable (EmptiesRung it))

/-- The client is alone, and neither its hand nor a rung holds anything from before the last removal. -/
structure Emptied (tiers : ℕ) (s : System V) (h : ℕ → Hand V) : Prop where
  client : ∀ i t, s.tasks i = some t → i = 0 ∧ (h 0).own = t.call.stores
  values : ∀ x ∈ (h 0).values, x ∈ sinceRemove brings s.trace
  emptied : ∀ rung ∈ (h 0).emptied, s.world.rungs rung = none
  rungs : ∀ rung x, s.world.rungs rung = some x →
    Hand.Stores tiers rung ∧ x ∈ sinceRemove brings s.trace

section Emptied

variable {tiers : ℕ} {s : System V} {h : ℕ → Hand V} {c : Call V} {l : Fn} {q : Req V} {o : Outcome V}
  {a : q.Answer} {w : KeyWorld V}

/-- What a request leaves on a rung was there before, or is what it stores. -/
theorem rungs_of_exec (hexec : s.world.exec q o = some (a, w)) {rung : TierId} {x : V}
    (hx : w.rungs rung = some x) :
    s.world.rungs rung = some x ∨ ∃ ttl, q = .tierSet rung x ttl := by
  cases hq : q.touchesRungs with
  | false => exact Or.inl (by rwa [KeyWorld.exec_rungs hq hexec] at hx)
  | true =>
    cases q with
    | tierSet r v ttl =>
      have hstore : (s.world.store r (some v)).rungs rung = some x →
          s.world.rungs rung = some x ∨ ∃ ttl', (.tierSet r v ttl : Req V) = .tierSet rung x ttl' := by
        intro hx
        rw [KeyWorld.store_rungs, Function.update_apply] at hx
        split_ifs at hx with hr
        · obtain rfl := Option.some.inj hx
          exact Or.inr ⟨ttl, by rw [hr]⟩
        · exact Or.inl hx
      rcases KeyWorld.exec_tierSet hexec with ⟨-, rfl⟩ | ⟨e, -, rfl | rfl⟩
      · exact hstore hx
      · exact Or.inl hx
      · exact hstore hx
    | tierRemove r =>
      rcases KeyWorld.exec_tierRemove hexec with rfl | rfl
      · exact Or.inl hx
      · exact Or.inl (KeyWorld.rungs_of_store_none hx)
    | removeIfAddress r address =>
      rcases KeyWorld.exec_removeIfAddress hexec with rfl | ⟨-, rfl⟩
      · exact Or.inl hx
      · exact Or.inl (KeyWorld.rungs_of_store_none hx)
    | _ => cases hq

/-- A value the call has in hand was brought, once it is stored. -/
theorem Emptied.brought (hE : Emptied tiers s h) {rest : Prog Fn (Req V) Req.Answer (Option (Reply V))}
    (ht : s.tasks 0 = some ⟨c, rest⟩) {rung : TierId} {x : V} {ttl : Option ℕ}
    {a : Except CacheError Unit} (hx : (h 0).own = some x ∨ x ∈ (h 0).values) :
    x ∈ sinceRemove brings (⟨0, c, l, .tierSet rung x ttl, a, s.world, w⟩ :: s.trace) := by
  refine (mem_sinceRemove_cons rfl).2 ?_
  rcases hx with hown | hx
  · left
    obtain ⟨a', rfl⟩ := Call.eq_set_of_stores ((hE.client 0 _ ht).2.symm.trans hown)
    rfl
  · exact Or.inr (hE.values x hx)

/-- What a call has heard was brought. -/
theorem Emptied.values_after (hE : Emptied tiers s h) (hexec : s.world.exec q o = some (a, w)) :
    ∀ x ∈ ((h 0).after l q a).values,
      x ∈ sinceRemove brings (⟨0, c, l, q, a, s.world, w⟩ :: s.trace) := by
  intro x hx
  cases q with
  | tierGet rung =>
    refine (mem_sinceRemove_cons rfl).2 (Or.inr ?_)
    rcases a with e | _ | v
    · exact hE.values x hx
    · exact hE.values x hx
    · rcases List.mem_cons.1 hx with rfl | hx
      · exact (hE.rungs rung x ((KeyWorld.exec_tierGet hexec).2 x rfl)).2
      · exact hE.values x hx
  | fetch =>
    refine (mem_sinceRemove_cons rfl).2 ?_
    rcases a with e | v
    · exact Or.inr (hE.values x hx)
    · rcases List.mem_cons.1 hx with rfl | hx
      · exact Or.inl (by cases c <;> rfl)
      · exact Or.inr (hE.values x hx)
  | release => cases hx
  | tierRemove rung =>
    have hsame : ((h 0).after l (.tierRemove rung) a).values = (h 0).values := by cases l <;> rfl
    rw [hsame] at hx
    exact (mem_sinceRemove_cons rfl).2 (Or.inr (hE.values x hx))
  | peek | acquire | setState | publish | failWithError | invalidate | prepare | commit | abort
  | abortProvenClean | evictionCandidate | reserveEviction | removeIfAddress | tierSet | tierContains
  | register | notified | sleep | yieldNow | tierHealth | record =>
    exact (mem_sinceRemove_cons rfl).2 (Or.inr (hE.values x hx))

/-- What a call has emptied is empty. -/
theorem Emptied.emptied_after (hE : Emptied tiers s h)
    (hgood : EmptiesRung ⟨0, c, l, q, a, s.world, w⟩) (hexec : s.world.exec q o = some (a, w)) :
    ∀ rung ∈ ((h 0).after l q a).emptied, w.rungs rung = none := by
  intro rung hrung
  by_cases hset : ∃ r v ttl, q = .tierSet r v ttl
  · obtain ⟨r, v, ttl, rfl⟩ := hset
    cases hrung
  · have hkeep : ∀ r, s.world.rungs r = none → w.rungs r = none := by
      intro r hr
      cases hx : w.rungs r with
      | none => rfl
      | some x =>
        rcases rungs_of_exec hexec hx with hx | ⟨ttl, rfl⟩
        · rw [hr] at hx
          cases hx
        · exact absurd ⟨r, x, ttl, rfl⟩ hset
    by_cases hremove : l = .remove ∧ ∃ r, q = .tierRemove r
    · obtain ⟨rfl, r, rfl⟩ := hremove
      rcases List.mem_cons.1 hrung with rfl | hrung
      · exact hgood
      · exact hkeep rung (hE.emptied rung hrung)
    · have hsame : ((h 0).after l q a).emptied = (h 0).emptied := by
        unfold Hand.after
        split
        · rfl
        · rfl
        · exact absurd ⟨_, _, _, rfl⟩ hset
        · exact absurd ⟨rfl, _, rfl⟩ hremove
        · rfl
        · rfl
      rw [hsame] at hrung
      exact hkeep rung (hE.emptied rung hrung)

/-- What is on a rung was brought. -/
theorem Emptied.rungs_after (hE : Emptied tiers s h)
    {rest : Prog Fn (Req V) Req.Answer (Option (Reply V))} (ht : s.tasks 0 = some ⟨c, rest⟩)
    (hok : (h 0).Allows tiers q) (hexec : s.world.exec q o = some (a, w)) {rung : TierId} {x : V}
    (hx : w.rungs rung = some x) :
    Hand.Stores tiers rung ∧ x ∈ sinceRemove brings (⟨0, c, l, q, a, s.world, w⟩ :: s.trace) := by
  rcases rungs_of_exec hexec hx with hx | ⟨ttl, rfl⟩
  · obtain ⟨hstores, hsince⟩ := hE.rungs rung x hx
    refine ⟨hstores, ?_⟩
    by_cases hq : q = .release
    · subst hq
      -- nothing is left on a rung when the entry is released
      have hnone := hE.emptied rung (hok rung hstores)
      rw [hx] at hnone
      cases hnone
    · have hit : removes (⟨0, c, l, q, a, s.world, w⟩ : Served V) = false := by
        cases q with
        | release => exact absurd rfl hq
        | _ => rfl
      exact (mem_sinceRemove_cons hit).2 (Or.inr hsince)
  · exact ⟨hok.2, hE.brought ht hok.1⟩

theorem Emptied.answer (hE : Emptied tiers s h)
    {rest rest' : Prog Fn (Req V) Req.Answer (Option (Reply V))} (ht : s.tasks 0 = some ⟨c, rest'⟩)
    (hok : (h 0).Allows tiers q) (hgood : EmptiesRung ⟨0, c, l, q, a, s.world, w⟩)
    (hexec : s.world.exec q o = some (a, w)) :
    Emptied tiers (s.answer 0 c l q a w rest) (Function.update h 0 ((h 0).after l q a)) := by
  have hclient : ∀ i t, (s.answer 0 c l q a w rest).tasks i = some t →
      i = 0 ∧ (h 0).own = t.call.stores := by
    refine (Function.forall_update_iff s.tasks fun i x => ∀ t, x = some t →
      i = 0 ∧ (h 0).own = t.call.stores).2 ⟨?_, fun i _ => hE.client i⟩
    rintro t ⟨⟩
    exact ⟨rfl, (hE.client 0 _ ht).2⟩
  have hown : ((h 0).after l q a).own = (h 0).own := by
    unfold Hand.after
    split <;> rfl
  refine ⟨?_, ?_, ?_, ?_⟩
  · intro i t hi
    rw [Function.update_self, hown]
    exact hclient i t hi
  · rw [Function.update_self, Sys.answer_trace]
    exact hE.values_after hexec
  · rw [Function.update_self, Sys.answer_world]
    exact hE.emptied_after hgood hexec
  · rw [Sys.answer_trace, Sys.answer_world]
    exact fun rung x hx => hE.rungs_after ht hok hexec hx

theorem Emptied.leave (hE : Emptied tiers s h) {rest : Prog Fn (Req V) Req.Answer (Option (Reply V))}
    {h' : Hand V} (hown : h'.own = c.stores)
    (hvalues : ∀ x ∈ h'.values, x ∈ sinceRemove brings s.trace)
    (hemptied : ∀ rung ∈ h'.emptied, s.world.rungs rung = none) :
    Emptied tiers (s.leave 0 c rest) (Function.update h 0 h') := by
  refine ⟨?_, ?_, ?_, hE.rungs⟩
  · rw [Function.update_self]
    refine (Function.forall_update_iff s.tasks fun i x => ∀ t, x = some t →
      i = 0 ∧ h'.own = t.call.stores).2 ⟨?_, ?_⟩
    · rintro t ⟨⟩
      exact ⟨rfl, hown⟩
    · intro i hi t ht
      exact absurd (hE.client i t ht).1 hi
  · rwa [Function.update_self]
  · rwa [Function.update_self]

end Emptied

/-! ## All runs -/

theorem removing_keeps (V : Type) (tiers : ℕ) :
    Machine.Keeps (manager V tiers) (handling V tiers)
      (fun h r => ∀ x, r.bind Reply.value = some x → x ∈ h.values) (Emptied tiers)
      ((removingClient V).Admits tiers) := by
  refine ⟨?_, ?_, ?_, ?_, ?_⟩
  · rintro s h i c ⟨hE, -⟩ ⟨hi, -⟩ -
    obtain rfl : i = 0 := hi
    refine ⟨⟨c.stores, [], []⟩, ?_, hE.leave rfl (by simp) (by simp)⟩
    have hwp := Call.handles tiers c
    simpa [Handles, manager] using hwp
  · rintro s h i c l q cancel k o a w ⟨hE, -⟩ ht ⟨-, hgood⟩ hstep hexec hok
    obtain ⟨rfl, -⟩ := hE.client i _ ht
    exact ⟨_, rfl, hE.answer ht hok (hgood _ (Machine.answered_of_step hstep)) hexec⟩
  · rintro s h i c l q cs k o a w ⟨hE, -⟩ ht ⟨-, hgood⟩ hstep hexec hok
    obtain ⟨rfl, -⟩ := hE.client i _ ht
    exact ⟨_, rfl, hE.answer ht hok (hgood _ (Machine.answered_of_step hstep)) hexec⟩
  · rintro s h i c l q cs k hE - ht
    obtain ⟨rfl, hown⟩ := hE.client i _ ht
    exact hE.leave hown hE.values hE.emptied
  · intro s h d hE _
    exact ⟨hE.client, hE.values, hE.emptied, hE.rungs⟩

/-- A value is set and removed, and another one set and read. -/
def readAfterRemove : List (Turn ℕ) :=
  [.start 0 (.set (.pinned .L0 none) 1),
    .run 0 {}, .run 0 {}, .run 0 {}, .run 0 {}, .run 0 {}, .run 0 {},
    .start 0 (.remove (.pinned .L0 none)), .run 0 {}, .run 0 {},
    .start 0 (.set (.pinned .L0 none) 2),
    .run 0 {}, .run 0 {}, .run 0 {}, .run 0 {}, .run 0 {}, .run 0 {},
    .start 0 (.get (.pinned .L0 none)), .run 0 {}, .run 0 {}, .run 0 {}, .run 0 {}]

end TheSix
