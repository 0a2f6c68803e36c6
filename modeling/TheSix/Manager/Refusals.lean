import TheSix.Manager.System
import TheSix.Lib.Inert

/-!
# Callers that are refused

Every call passes the gates of authentication and of the policy before it touches any state. A call
that none of them lets pass (`Call.Refused`) reads at most a snapshot and the health of a rung, and
answers with the refusal.

So refused calls do not matter: a run with them, in any interleaving with the other calls, is the run
without them (`run_without_refused`).
-/

namespace TheSix

open Coroutine

variable {V : Type}

/-! ## The gates, shut -/

namespace Args

/-- What a gate refuses a call with. -/
def Refusal (a : Args) (e : CacheError) : Prop :=
  e = .unauthenticated ∨ e = .unauthorized ∨ e = .policyDenied ∨ a.keyRef = .error e

/-- The caller is unknown, or the key does not fit. -/
def Unfit (a : Args) : Prop := a.authenticated = false ∨ ∃ e, a.keyRef = .error e

/-- The policy, asked without a snapshot, does not authorize the call. -/
def Unauthorized (a : Args) : Prop := (a.select .new).authorized = false

theorem admitEncoded_refused {a : Args} (h : a.Unfit ∨ a.Unauthorized) :
    ∃ e, a.admitEncoded = .error e ∧ a.Refusal e := by
  unfold admitEncoded checkAuth resolve authorize Refusal
  rcases h with (h | ⟨e, h⟩) | h
  · cases hk : a.keyRef <;> simp [h, bind, Except.bind]
  · simp [h, bind, Except.bind]
  · rw [Unauthorized] at h
    cases hk : a.keyRef <;> cases hauth : a.authenticated <;> simp [h, bind, Except.bind]

theorem admitPopulation_refused {a : Args} (h : a.Unfit ∨ a.Unauthorized) :
    ∃ e, a.admitPopulation = .error e ∧ a.Refusal e := by
  unfold admitPopulation checkAuth resolve authorize Refusal
  rcases h with (h | ⟨e, h⟩) | h
  · simp [h, bind, Except.bind]
  · cases hauth : a.authenticated <;> simp [h, bind, Except.bind]
  · rw [Unauthorized] at h
    cases hk : a.keyRef <;> cases hauth : a.authenticated <;> simp [h, bind, Except.bind]

theorem admitKey_refused {a : Args} (h : a.Unfit ∨ a.Unauthorized) :
    ∃ e, a.admitKey = .error e ∧ a.Refusal e := by
  unfold admitKey checkAuth resolve authorize Refusal
  rcases h with (h | ⟨e, h⟩) | h
  · simp [h, bind, Except.bind]
  · cases hauth : a.authenticated <;> cases hd : (a.select .new).authorized <;>
      simp [h, bind, Except.bind, pure, Except.pure]
  · rw [Unauthorized] at h
    cases hauth : a.authenticated <;> simp [h, bind, Except.bind]

theorem admitWrite_refused {a : Args} (h : a.Unfit) : ∃ e, a.admitWrite = .error e ∧ a.Refusal e := by
  unfold admitWrite checkAuth Refusal
  rcases h with h | ⟨e, h⟩
  · simp [h, bind, Except.bind]
  · cases hauth : a.authenticated <;> simp [h, bind, Except.bind]

end Args

/-! ## Refused calls -/

/-- What a call brings along. -/
def Call.args : Call V → Option Args
  | .get a | .getOrFetch a | .exists a | .set a _ | .invalidate a | .remove a | .refresh a
  | .promote a | .demote a => some a
  | .evict => none

/-- A gate refuses the call, whatever it is shown. `set` asks the policy with a snapshot, and does not
write to the authority; the other calls ask it without one. -/
def Call.Refused : Call V → Prop
  | .set a _ =>
    a.Unfit ∨ ∀ st, (a.select st).authorized = false ∨ (a.select st).tier = authorityTier
  | .get a | .getOrFetch a | .exists a | .invalidate a | .remove a | .refresh a | .promote a
  | .demote a => a.Unfit ∨ a.Unauthorized
  | .evict => False

/-- The error of a reply. -/
def Reply.error : Reply V → Option CacheError
  | .read (.error e) | .fetched (.error e) | .found (.error e) | .done (.error e)
  | .refreshed (.error e) => some e
  | _ => none

/-- A program that only looks, and ends with a refusal. -/
def Refuses (tiers : ℕ) (a : Args) (p : Step V (Reply V)) : Prop :=
  (manager V tiers).Inert p ∧ ∀ log r, p.Leads log r → ∃ e, r.error = some e ∧ a.Refusal e

section Refuses

variable {tiers : ℕ} {a : Args}

theorem refuses_ret {r : Reply V} {e : CacheError} (hr : r.error = some e) (he : a.Refusal e) :
    Refuses tiers a (.ret r) := by
  refine ⟨trivial, ?_⟩
  intro log r' h
  obtain ⟨-, rfl⟩ := Prog.leads_ret.1 h
  exact ⟨e, hr, he⟩

theorem refuses_call {f : Fn} {q : Req V} (hq : (manager V tiers).Quiet q)
    {k : q.Answer → Step V (Reply V)} (hk : ∀ x, Refuses tiers a (k x)) :
    Refuses tiers a (Manager.call f q >>= k) := by
  refine ⟨⟨hq, fun x _ => (hk x).1, by simp⟩, ?_⟩
  intro log r h
  obtain ⟨x, rest, -, hrest⟩ := Prog.leads_req.1 h
  exact (hk x).2 rest r hrest

theorem quiet_peek : (manager V tiers).Quiet .peek := by
  intro o w x w' h
  exact (Prod.mk.inj (Option.some.inj h)).2.symm

theorem quiet_tierHealth (rung : TierId) : (manager V tiers).Quiet (.tierHealth rung) := by
  intro o w x w' h
  exact (Prod.mk.inj (Option.some.inj h)).2.symm

/-- What `set` does once it has asked the policy. -/
theorem decided_refuses {value : V} {d : PolicyDecision}
    (h : d.authorized = false ∨ d.tier = authorityTier) :
    Refuses tiers a (.done <$> (match Args.authorize d with
      | .error e => return .error e
      | .ok _ =>
        if d.tier = authorityTier then return .error .policyDenied
        else Manager.setPasses tiers a value d.tier 17 .tierUnavailable : Step V (Except CacheError Unit))) := by
  cases hd : d.authorized with
  | false =>
    have hauth : Args.authorize d = .error .unauthorized := by simp [Args.authorize, hd]
    rw [hauth]
    exact refuses_ret rfl (Or.inr (Or.inl rfl))
  | true =>
    have hauth : Args.authorize d = .ok () := by simp [Args.authorize, hd]
    have htier : d.tier = authorityTier := h.resolve_left (by simp [hd])
    rw [hauth]
    dsimp only
    rw [if_pos htier]
    exact refuses_ret rfl (Or.inr (Or.inr (Or.inl rfl)))

theorem set_refuses {value : V}
    (h : a.Unfit ∨ ∀ st, (a.select st).authorized = false ∨ (a.select st).tier = authorityTier) :
    Refuses tiers a ((Call.set a value).prog tiers) := by
  show Refuses tiers a (.done <$> Manager.set tiers a value)
  unfold Manager.set
  cases hgate : a.admitWrite with
  | error e =>
    have hrefusal : a.Refusal e := by
      unfold Args.admitWrite Args.checkAuth at hgate
      cases hk : a.keyRef <;> cases hauth : a.authenticated <;>
        simp_all [bind, Except.bind, pure, Except.pure, Args.Refusal]
    exact refuses_ret rfl hrefusal
  | ok u =>
    rcases h with h | h
    · obtain ⟨e, he, -⟩ := Args.admitWrite_refused h
      rw [he] at hgate
      cases hgate
    · exact refuses_call quiet_peek fun snapshot =>
        refuses_call (quiet_tierHealth _) fun failures => decided_refuses (h _)

/-- **A refused call only looks**, and answers with its refusal. -/
theorem Call.Refused.refuses {c : Call V} (h : c.Refused) (tiers : ℕ) :
    ∃ a, c.args = some a ∧ Refuses tiers a (c.prog tiers) := by
  cases c with
  | set a value => exact ⟨a, rfl, set_refuses h⟩
  | evict => exact h.elim
  | get a =>
    obtain ⟨e, he, hrefusal⟩ := Args.admitEncoded_refused h
    refine ⟨a, rfl, ?_⟩
    simp only [Call.prog, Manager.get, he]
    exact refuses_ret rfl hrefusal
  | getOrFetch a =>
    obtain ⟨e, he, hrefusal⟩ := Args.admitPopulation_refused h
    refine ⟨a, rfl, ?_⟩
    simp only [Call.prog, Manager.getOrFetch, he]
    exact refuses_ret rfl hrefusal
  | refresh a =>
    obtain ⟨e, he, hrefusal⟩ := Args.admitPopulation_refused h
    refine ⟨a, rfl, ?_⟩
    simp only [Call.prog, Manager.refreshDetailed, he]
    exact refuses_ret rfl hrefusal
  | «exists» a =>
    obtain ⟨e, he, hrefusal⟩ := Args.admitKey_refused h
    refine ⟨a, rfl, ?_⟩
    simp only [Call.prog, Manager.exists, he]
    exact refuses_ret rfl hrefusal
  | invalidate a =>
    obtain ⟨e, he, hrefusal⟩ := Args.admitKey_refused h
    refine ⟨a, rfl, ?_⟩
    simp only [Call.prog, Manager.invalidate, he]
    exact refuses_ret rfl hrefusal
  | remove a =>
    obtain ⟨e, he, hrefusal⟩ := Args.admitKey_refused h
    refine ⟨a, rfl, ?_⟩
    simp only [Call.prog, Manager.remove, he]
    exact refuses_ret rfl hrefusal
  | promote a =>
    obtain ⟨e, he, hrefusal⟩ := Args.admitKey_refused h
    refine ⟨a, rfl, ?_⟩
    simp only [Call.prog, Manager.promote, he]
    exact refuses_ret rfl hrefusal
  | demote a =>
    obtain ⟨e, he, hrefusal⟩ := Args.admitKey_refused h
    refine ⟨a, rfl, ?_⟩
    simp only [Call.prog, Manager.demote, he]
    exact refuses_ret rfl hrefusal

end Refuses

/-- **Refused calls do not matter.** Take any of the refused calls out of a run, under any interleaving
with drops: what is left is a run with the same world, the same requests with the same answers, and the
same replies. The refused calls have answered nothing but their refusals. -/
theorem run_without_refused (tiers : ℕ) (w : KeyWorld V) (schedule : List (Turn V)) {D : Call V → Bool}
    (hD : ∀ c, D c = true → c.Refused) :
    ∃ schedule', schedule'.Sublist schedule ∧ (∀ i c, .start i c ∈ schedule' → D c = false) ∧
      let s := (manager V tiers).run w schedule
      let s' := (manager V tiers).run w schedule'
      s'.world = s.world ∧ s'.trace = s.trace.filter (!D ·.call) ∧
        ∀ i c r, s.tasks i = some ⟨c, .ret (some r)⟩ →
          if D c then ∃ a e, c.args = some a ∧ r.error = some e ∧ a.Refusal e
          else s'.result i = some r := by
  have hinert : ∀ c, D c = true → (manager V tiers).Inert ((manager V tiers).prog c) := by
    intro c hc
    obtain ⟨a, -, hrefuses⟩ := (hD c hc).refuses tiers
    exact hrefuses.1
  obtain ⟨schedule', hsub, hstarts, h⟩ := Machine.run_without hinert w schedule
  refine ⟨schedule', hsub, hstarts, h.world, h.trace, ?_⟩
  intro i c r ht
  cases hc : D c with
  | false => exact h.result hc ht
  | true =>
    obtain ⟨mine, older, -, -, hleads⟩ := Machine.leads_of_result ht
    obtain ⟨a, hargs, hrefuses⟩ := (hD c hc).refuses tiers
    obtain ⟨e, hr, he⟩ := hrefuses.2 _ r hleads
    exact ⟨a, e, hargs, hr, he⟩

/-- The caller is unknown. -/
def Call.anonymous (c : Call V) : Bool := c.args.elim false (!·.authenticated)

theorem Call.refused_of_anonymous {c : Call V} (h : c.anonymous = true) : c.Refused := by
  cases c with
  | evict => cases h
  | set a value => exact Or.inl (Or.inl (by simpa [anonymous, args] using h))
  | get a | getOrFetch a | «exists» a | invalidate a | remove a | refresh a | promote a | demote a =>
    exact Or.inl (Or.inl (by simpa [anonymous, args] using h))

/-- A set, beside a set and a removal by nobody in particular. -/
def besideAnonymous : List (Turn ℕ) :=
  let nobody : Args := { Args.pinned .L0 none with authenticated := false }
  [.start 0 (.set (.pinned .L0 none) 1), .run 0 {}, .start 1 (.set nobody 2), .run 0 {}, .run 1 {},
    .run 0 {}, .start 2 (.remove nobody), .run 0 {}, .run 2 {}, .run 0 {}, .run 0 {}]

theorem run_without_refused_besideAnonymous :
    ((manager ℕ 1).run .unwritten besideAnonymous).world.rungs .L0 = some 1 ∧
      ∃ schedule', (∀ i c, .start i c ∈ schedule' → c.anonymous = false) ∧
        ((manager ℕ 1).run .unwritten schedule').world =
          ((manager ℕ 1).run .unwritten besideAnonymous).world := by
  obtain ⟨schedule', -, hstarts, hworld, -⟩ :=
    run_without_refused 1 .unwritten besideAnonymous (D := Call.anonymous) fun _ => Call.refused_of_anonymous
  exact ⟨by decide +kernel, schedule', hstarts, hworld⟩

end TheSix
