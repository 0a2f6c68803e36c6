import TheSix.Sequential.Calls

/-!
# Moves that are refused

`move_entry` records an intent before it looks at the rungs, and gives it up on every error with
the plain abort. That abort fails the entry, although nothing but the control plane was touched
before the destination took the write: a move that is refused makes a value unreadable that was
readable before it (`replies_unchanged_iff`).
-/

namespace TheSix

open Coroutine

variable {V : Type}

/-- An entry that a `get` would read. -/
def KeyWorld.Servable (w : KeyWorld V) : Prop :=
  w.entry.state = .ready ∧ w.entry.isExpired w.now = false

namespace Manager

variable {o : Req V → Outcome V} {w w' : KeyWorld V} {n m : ℕ}

/-- The stretch of a move under its guard commits, or leaves the recorded intent. -/
theorem moveUnder_cases {a : Args} {src dst : TierId} {token : CommitToken} {r : Option CacheError}
    (hp : w.entry.state = .prepared) (hg : w.entry.generation = token.generation)
    (h : (moveUnder a src dst token).eval (KeyWorld.serve o) (w, n) = some (r, w', m)) :
    r = none ∨ w'.entry = w.entry := by
  have hkeeps : ∀ {q : Req V} {x s s'}, q.touchesEntry = false →
      KeyWorld.serve o q s = some (x, s') → s.1.entry = w.entry → s'.1.entry = w.entry := by
    intro q x s s' hq hserve hs
    rw [KeyWorld.exec_entry hq (KeyWorld.exec_of_serve _ _ _ _ hserve), hs]
  simp only [moveUnder, call, noTelemetry_eq, await, Prog.req_bind, Prog.ret_bind,
    Prog.eval_req_eq_some] at h
  obtain ⟨read, s₁, h₁, h⟩ := h
  have he₁ := hkeeps rfl h₁ rfl
  rcases read with e | _ | value
  · simp only [Prog.eval_pure, Option.some.injEq, Prod.mk.injEq] at h
    obtain ⟨-, rfl⟩ := h
    exact Or.inr he₁
  · simp only [Prog.eval_pure, Option.some.injEq, Prod.mk.injEq] at h
    obtain ⟨-, rfl⟩ := h
    exact Or.inr he₁
  · simp only [Prog.eval_req_eq_some] at h
    obtain ⟨written, s₂, h₂, _, s₃, h₃, h⟩ := h
    have he₃ := hkeeps rfl h₃ (hkeeps rfl h₂ he₁)
    cases written with
    | error e =>
      simp only [Prog.eval_pure, Option.some.injEq, Prod.mk.injEq] at h
      obtain ⟨-, rfl⟩ := h
      exact Or.inr he₃
    | ok u =>
      simp only [Prog.eval_req_eq_some] at h
      obtain ⟨removed, s₄, h₄, _, s₅, h₅, committed, s₆, h₆, h⟩ := h
      have he₅ := hkeeps rfl h₅ (hkeeps rfl h₄ he₃)
      -- nobody has touched the entry since the intent was recorded
      rcases KeyWorld.exec_commit (KeyWorld.exec_of_serve _ _ _ _ h₆) with ⟨e, -, -, hdead, -⟩ | ⟨rfl, -⟩
      · exact absurd ⟨he₅ ▸ hg, he₅ ▸ hp⟩ hdead
      · simp only [Prog.eval_pure, Option.some.injEq, Prod.mk.injEq] at h
        exact Or.inl h.1.symm

/-- A move of an entry that exists returns `Ok`, or fails the entry. -/
theorem moveEntry_cases {tiers : ℕ} {a : Args} {src dst : TierId} {r : Except CacheError Unit}
    (hs : w.slot.isSome = true)
    (h : (moveEntry tiers a src dst).eval (KeyWorld.serve o) (w, n) = some (r, w', m)) :
    r = .ok () ∨ w'.entry.state = .failed := by
  have habort : ∀ {token : CommitToken} {e : CacheError} {x s s'}, s.1.entry.state = .prepared →
      KeyWorld.serve o (.abort token e) s = some (x, s') → s'.1.entry.state = .failed := by
    intro token e x s s' hp hserve
    rcases KeyWorld.exec_abort (KeyWorld.exec_of_serve _ _ _ _ hserve) with ⟨hne, -⟩ | ⟨-, hs'⟩
    · exact absurd hp hne
    · rw [hs', KeyWorld.putEntry_entry]
      rfl
  simp only [moveEntry, call, noTelemetry_eq, Prog.req_bind, Prog.ret_bind,
    Prog.eval_req_eq_some] at h
  obtain ⟨prepared, s₁, h₁, h⟩ := h
  rcases KeyWorld.exec_prepare (KeyWorld.exec_of_serve _ _ _ _ h₁) with
    ⟨e, -, -, hnone⟩ | ⟨rfl, hs₁⟩
  · rw [show w.slot = none from hnone] at hs
    cases hs
  have hp : s₁.1.entry.state = .prepared := by
    rw [hs₁, KeyWorld.putEntry_entry]
    rfl
  have hg : s₁.1.entry.generation = (w.entry.tokenFor dst .move).generation := by
    rw [hs₁, KeyWorld.putEntry_entry]
    rfl
  split_ifs at h
  · obtain ⟨x, s₂, h₂, h⟩ := Prog.eval_req_eq_some.1 h
    simp only [Prog.eval_pure, Option.some.injEq, Prod.mk.injEq] at h
    obtain ⟨-, rfl⟩ := h
    exact Or.inr (habort hp h₂)
  · rw [Prog.eval_bind, Prog.eval_guarded, Option.bind_eq_some_iff] at h
    obtain ⟨⟨ended, s₂, m₂⟩, h₂, h⟩ := h
    rcases moveUnder_cases hp hg h₂ with rfl | he
    · simp only [Prog.eval_pure, Option.some.injEq, Prod.mk.injEq] at h
      exact Or.inl h.1.symm
    · cases ended with
      | none =>
        simp only [Prog.eval_pure, Option.some.injEq, Prod.mk.injEq] at h
        exact Or.inl h.1.symm
      | some e =>
        obtain ⟨x, s₃, h₃, h⟩ := Prog.eval_req_eq_some.1 h
        simp only [Prog.eval_pure, Option.some.injEq, Prod.mk.injEq] at h
        obtain ⟨-, rfl⟩ := h
        exact Or.inr (habort (he ▸ hp) h₃)

theorem moveAlong_cases {tiers : ℕ} {a : Args} {f : Fn} {stays : TierId → Bool} {shift : ℕ → ℕ}
    {e : CacheError} (hsteps : Steps stays shift)
    (h : (moveAlong tiers a f stays shift).eval (KeyWorld.serve o) (w, 0) = some (.error e, w', n)) :
    (w.entry.state ≠ .ready ∧ w' = w) ∨ (w.entry.state = .ready ∧ w'.entry.state = .failed) := by
  simp only [moveAlong, call, noTelemetry_eq, Prog.req_bind, Prog.ret_bind] at h
  rw [Prog.eval_req KeyWorld.serve_peek, KeyWorld.peek_state] at h
  by_cases hr : w.entry.state = .ready
  · refine Or.inr ⟨hr, ?_⟩
    rw [if_neg (by simp [hr])] at h
    split_ifs at h with hstays
    · simp at h
    · obtain ⟨-, destination, hd, -⟩ := hsteps _ (by simpa using hstays)
      simp only [hd] at h
      rcases moveEntry_cases (KeyWorld.isSome_of_state (by simp [hr])) h with h | h
      · cases h
      · exact h
  · rw [if_pos hr] at h
    simp only [Prog.eval_pure, Option.some.injEq, Prod.mk.injEq] at h
    exact Or.inl ⟨hr, h.2.1.symm⟩

/-- A move call that fails leaves the world as it was, when it was refused or found nothing to
move, and else leaves the entry failed. -/
theorem run_of_error {tiers : ℕ} {a : Args} {c : Call V} (hc : c = .promote a ∨ c = .demote a)
    {e : CacheError} (h : c.run tiers o w = some (.done (.error e), w', n)) :
    (((∃ e, a.admitKey = .error e) ∨ w.entry.state ≠ .ready) ∧ w' = w) ∨
      ((∃ d, a.admitKey = .ok d) ∧ w.entry.state = .ready ∧ w'.entry.state = .failed) := by
  have hdone : ∀ {p : Step V (Except CacheError Unit)},
      (Reply.done <$> p : Step V (Reply V)).eval (KeyWorld.serve o) (w, 0) =
          some (.done (.error e), w', n) →
        p.eval (KeyWorld.serve o) (w, 0) = some (.error e, w', n) := by
    intro p hp
    rw [Prog.eval_map, Option.map_eq_some_iff] at hp
    obtain ⟨⟨r, s⟩, hp, hrs⟩ := hp
    obtain ⟨rfl, rfl⟩ : r = .error e ∧ s = (w', n) := by simpa using hrs
    exact hp
  cases hgate : a.admitKey with
  | error e' =>
    refine Or.inl ⟨Or.inl ⟨e', rfl⟩, ?_⟩
    rcases hc with rfl | rfl
    · have h := hdone h
      simp only [promote, hgate, Prog.eval_pure, Option.some.injEq, Prod.mk.injEq] at h
      exact h.2.1.symm
    · have h := hdone h
      simp only [demote, hgate, Prog.eval_pure, Option.some.injEq, Prod.mk.injEq] at h
      exact h.2.1.symm
  | ok d =>
    have hmoved : (w.entry.state ≠ .ready ∧ w' = w) ∨
        (w.entry.state = .ready ∧ w'.entry.state = .failed) := by
      rcases hc with rfl | rfl
      · have h := hdone h
        rw [promote_eq hgate] at h
        exact moveAlong_cases promote_steps h
      · have h := hdone h
        rw [demote_eq hgate] at h
        exact moveAlong_cases demote_steps h
    rcases hmoved with ⟨hr, rfl⟩ | ⟨hr, hf⟩
    · exact Or.inl ⟨Or.inr hr, rfl⟩
    · exact Or.inr ⟨⟨d, rfl⟩, hr, hf⟩

end Manager

/-- **A refused move is a no-op for readers exactly when it had nothing to move**: a `promote` or
`demote` that returns an error leaves the answer of every `get` as it was if and only if the gates
refused it, the entry was not `Ready`, or its TTL had elapsed. -/
theorem replies_unchanged_iff {tiers : ℕ} {a : Args} {c : Call V}
    (hc : c = .promote a ∨ c = .demote a) {o : Req V → Outcome V} {w w' : KeyWorld V} {n : ℕ}
    {e : CacheError} (h : c.run tiers o w = some (.done (.error e), w', n)) :
    (∀ a' o', (Call.get a').reply tiers o' w' = (Call.get a').reply tiers o' w) ↔
      (∃ e', a.admitKey = .error e') ∨ ¬w.Servable := by
  rcases Manager.run_of_error hc h with ⟨hnothing, rfl⟩ | ⟨⟨d, hgate⟩, hr, hf⟩
  · refine ⟨fun _ => ?_, fun _ _ _ => rfl⟩
    rcases hnothing with hrefused | hr
    · exact Or.inl hrefused
    · exact Or.inr fun hs => hr hs.1
  · have hmiss : ∀ {a' : Args} {d' o'}, a'.admitEncoded = .ok d' →
        (Call.get a').reply tiers o' w' = some (.read (.error .miss)) :=
      fun hgate' => Manager.get_reply_of_unreadable hgate' (by simp [hf])
    constructor
    · intro hsame
      refine Or.inr fun hs => ?_
      -- a reader whose rung answers notices
      have hsame := hsame (.pinned .L0 none) fun _ => {}
      have hadmit : (Args.pinned .L0 none).admitEncoded = .ok ⟨true, .L0, .closed⟩ := rfl
      rw [hmiss hadmit, Manager.get_reply_of_ready hadmit hs.1 hs.2] at hsame
      cases hb : Manager.hasTier tiers w.entry.tier <;> simp [hb, KeyWorld.read] at hsame
    · rintro (⟨e', he'⟩ | hs) a' o'
      · rw [hgate] at he'
        cases he'
      · cases hgate' : a'.admitEncoded with
        | error e' => rw [Manager.get_reply_of_refused hgate', Manager.get_reply_of_refused hgate']
        | ok d' =>
          have hexp : w.entry.isExpired w.now = true := by
            simpa [KeyWorld.Servable, hr] using hs
          rw [hmiss hgate', Manager.get_reply_of_expired hgate' hr hexp]

/-- `L1` is full. -/
def fullL1 : Req ℕ → Outcome ℕ
  | .tierSet .L1 _ _ => { error := some .capacityExhausted, effect := false }
  | _ => {}

theorem replies_unchanged_iff_fullL1 :
    ∃ w' n, (Call.demote (.pinned .L0 none)).run 2 fullL1 (.writtenAtL0 none) =
        some (.done (.error .capacityExhausted), w', n) ∧
      ((∀ a' o', (Call.get a').reply 2 o' w' = (Call.get a').reply 2 o' (.writtenAtL0 none)) ↔
        (∃ e', (Args.pinned .L0 none).admitKey = .error e') ∨ ¬(KeyWorld.writtenAtL0 none).Servable) := by
  have hreply : ((Call.demote (.pinned .L0 none)).run 2 fullL1 (.writtenAtL0 none)).map Prod.fst =
      some (.done (.error .capacityExhausted)) := by decide +kernel
  obtain ⟨⟨r, w', n⟩, hrun, rfl⟩ := Option.map_eq_some_iff.1 hreply
  exact ⟨w', n, hrun, replies_unchanged_iff (Or.inr rfl) hrun⟩

/-- The value was readable, the demotion to the full rung is refused, and the value is gone. -/
theorem fullL1_hides_value :
    (Call.get (.pinned .L0 none)).reply 2 (fun _ => {}) (.writtenAtL0 none) =
        some (.read (.ok (some 1))) ∧
      ((Call.demote (.pinned .L0 none)).run 2 fullL1 (.writtenAtL0 none)).map (fun s =>
          (s.1, (Call.get (.pinned .L0 none)).reply 2 (fun _ => {}) s.2.1)) =
        some (.done (.error .capacityExhausted), some (.read (.error .miss))) := by
  decide +kernel

end TheSix
