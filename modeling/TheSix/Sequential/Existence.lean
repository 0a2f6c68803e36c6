import TheSix.Sequential.Calls

/-!
# `exists` against `get`

Both calls look at the key's entry and then at the rung it names. `get` also asks whether the TTL of
the entry has elapsed; `exists` does not, and leaves that to the rung. A rung that keeps no deadlines
(`L5OxigraphBackend` drops the TTL of a `set`) goes on holding the value, so `exists` finds a key that
`get` reports as a miss. That is the only way for the two to differ (`exists_agrees_iff`), in whatever
state the key is.
-/

namespace TheSix

open Coroutine

variable {V : Type}

/-- The rungs are maps that answer: a rung shows its value to `get` exactly when it shows it to
`contains`. Whether it still does once a TTL has elapsed is its own affair. -/
structure MapRungs (o : Req V → Outcome V) : Prop where
  get : ∀ rung, (o (.tierGet rung)).error = none
  contains : ∀ rung, (o (.tierContains rung)).error = none
  same : ∀ rung, (o (.tierContains rung)).effect = (o (.tierGet rung)).effect

namespace KeyWorld

/-- The entry is `Ready` over a bound rung that shows a value. -/
structure Shows (tiers : ℕ) (o : Req V → Outcome V) (w : KeyWorld V) : Prop where
  ready : w.entry.state = .ready
  bound : Manager.hasTier tiers w.entry.tier = true
  shown : (o (.tierGet w.entry.tier)).effect = true
  held : (w.rungs w.entry.tier).isSome = true

theorem serve_tierContains {o : Req V → Outcome V} {w : KeyWorld V} {n : ℕ} (ho : MapRungs o)
    (rung : TierId) :
    serve o (.tierContains rung) (w, n) =
      some (.ok ((o (.tierGet rung)).effect && (w.rungs rung).isSome), w, n) := by
  simp [serve, exec, ho.contains rung, ho.same rung, Req.isFetch]

end KeyWorld

namespace Manager

variable {tiers : ℕ} {o : Req V → Outcome V} {w : KeyWorld V} {a : Args}

/-- What `exists` answers, and that it leaves the key as it is. -/
theorem exists_run (tiers : ℕ) (a : Args) (w : KeyWorld V) (ho : MapRungs o) :
    ∃ r, (Call.exists a).run tiers o w = some (r, w, 0) ∧
      (r = .found (.ok true) ↔ (∃ d, a.admitKey = .ok d) ∧ w.Shows tiers o) := by
  cases hgate : a.admitKey with
  | error e => exact ⟨.found (.error e), by simp [Call.run, Call.prog, Manager.exists, hgate], by simp⟩
  | ok d =>
    simp only [Call.run, Call.prog, Prog.eval_map, Manager.exists, hgate, call, noTelemetry_eq,
      await, Prog.req_bind, Prog.ret_bind]
    rw [Prog.eval_req KeyWorld.serve_peek]
    simp only [KeyWorld.peek_state, KeyWorld.peek_tier]
    by_cases hs : w.entry.state = .ready
    · cases hb : hasTier tiers w.entry.tier with
      | false =>
        refine ⟨.found (.ok false), by simp [hs], ?_⟩
        simp only [Reply.found.injEq, Except.ok.injEq, Bool.false_eq_true, false_iff]
        intro h
        exact absurd h.2.bound (by simp [hb])
      | true =>
        simp only [hs, ne_eq, not_true_eq_false, if_false, Bool.true_eq_false]
        rw [Prog.eval_req (KeyWorld.serve_tierContains ho _)]
        refine ⟨_, rfl, ?_⟩
        simp only [KeyWorld.peek_tier, Reply.found.injEq, Except.ok.injEq, Bool.and_eq_true]
        exact ⟨fun h => ⟨⟨d, rfl⟩, hs, hb, h.1, h.2⟩, fun h => ⟨h.2.shown, h.2.held⟩⟩
    · refine ⟨.found (.ok false), by simp [hs], ?_⟩
      simp only [Reply.found.injEq, Except.ok.injEq, Bool.false_eq_true, false_iff]
      intro h
      exact hs h.2.ready

/-- A `get` on an entry that is being worked on returns no value: nothing settles the entry while the
call runs alone, so it times out or waits. -/
theorem get_reply_of_pending {d : PolicyDecision} (hgate : a.admitEncoded = .ok d)
    (hs : w.entry.state = .inFlight ∨ w.entry.state = .prepared) (v : V) :
    (Call.get a).reply tiers o w ≠ some (.read (.ok (some v))) := by
  have hready : w.entry.state ≠ .ready := by rcases hs with hs | hs <;> simp [hs]
  have hwait : ¬ (w.entry.state ≠ .inFlight ∧ w.entry.state ≠ .prepared) := by
    rcases hs with hs | hs <;> simp [hs]
  have hnotify : (w.slot.peek w.now).notify = .entry := by
    have hslot : w.slot.isSome = true :=
      KeyWorld.isSome_of_state (by rcases hs with hs | hs <;> simp [hs])
    obtain ⟨e, he⟩ := Option.isSome_iff_exists.1 hslot
    simp [he, KeySlot.peek, ControlEntry.peek, ControlEntry.snapshotOf]
  simp only [Call.reply, Call.run, Call.prog, Prog.eval_map, Manager.get, hgate, call,
    noTelemetry_eq, Prog.req_bind, Prog.ret_bind]
  rw [Prog.eval_req KeyWorld.serve_peek]
  simp only [KeyWorld.peek_state, hready, false_and, if_false, hs, true_and]
  cases howner : (w.slot.peek w.now).populationOwner with
  | true => simp
  | false =>
    have hregister : KeyWorld.serve o (.register (w.slot.peek w.now).notify) (w, 0) =
        some (some w.notifications, w, 0) := by
      rw [hnotify]
      rfl
    simp only [if_true, waitForPopulation, call, await, Prog.req_bind, Prog.ret_bind]
    rw [Prog.eval_req hregister, Prog.eval_req KeyWorld.serve_peek, KeyWorld.peek_state,
      if_neg hwait]
    cases ht : (o (.notified (some w.notifications))).timeout with
    | true => simp [Prog.eval, KeyWorld.serve, KeyWorld.exec, ht]
    | false => simp [Prog.eval, KeyWorld.serve, KeyWorld.exec, ht]

/-- `get` returns a value exactly when it is admitted, the rung of the entry shows one, and the TTL of
the entry has not elapsed. -/
theorem get_reply_eq_some_iff (ho : MapRungs o) :
    (∃ v, (Call.get a).reply tiers o w = some (.read (.ok (some v)))) ↔
      (∃ d, a.admitEncoded = .ok d) ∧ w.Shows tiers o ∧ w.entry.isExpired w.now = false := by
  cases hgate : a.admitEncoded with
  | error e => simp [get_reply_of_refused hgate]
  | ok d =>
    by_cases hs : w.entry.state = .ready
    · cases he : w.entry.isExpired w.now with
      | true => simp [get_reply_of_expired hgate hs he]
      | false =>
        rw [get_reply_of_ready hgate hs he]
        cases hb : hasTier tiers w.entry.tier with
        | false =>
          have hno : ¬ w.Shows tiers o := fun h => absurd h.bound (by simp [hb])
          simp [hno]
        | true =>
          have hshows : w.Shows tiers o ↔ ∃ v, w.read o w.entry.tier = .ok (some v) := by
            simp only [KeyWorld.read, ho.get]
            constructor
            · rintro ⟨-, -, hshown, hheld⟩
              obtain ⟨v, hv⟩ := Option.isSome_iff_exists.1 hheld
              exact ⟨v, by simp [hshown, hv]⟩
            · rintro ⟨v, hv⟩
              rw [Except.ok.injEq] at hv
              split_ifs at hv with hshown
              exact ⟨hs, hb, hshown, by simp [hv]⟩
          simp [hshows]
    · have hno : ¬ w.Shows tiers o := fun h => hs h.ready
      simp only [hno, false_and, and_false, iff_false, not_exists]
      intro v
      by_cases hp : w.entry.state = .inFlight ∨ w.entry.state = .prepared
      · exact get_reply_of_pending hgate hp v
      · rw [not_or] at hp
        rw [get_reply_of_unreadable hgate ⟨hs, hp⟩]
        simp

end Manager

/-- **`exists` agrees with `get`, except over an elapsed TTL that the rung does not keep.** In every
state of a key, with rungs that are maps and answer, and for calls that are let through or refused
alike: `exists` leaves the key as it is, and answers `true` exactly when the `get` that follows returns
a value, unless the entry is `Ready` with its TTL elapsed over a bound rung that still shows a value. -/
theorem exists_agrees_iff {tiers : ℕ} {a b : Args} {o : Req V → Outcome V} {w : KeyWorld V}
    (ho : MapRungs o) (hgates : (∃ d, a.admitKey = .ok d) ↔ ∃ d, b.admitEncoded = .ok d) :
    ∃ r, (Call.exists a).run tiers o w = some (r, w, 0) ∧
      ((r = .found (.ok true) ↔
          ∃ v, (Call.get b).reply tiers o w = some (.read (.ok (some v)))) ↔
        ¬ ((∃ d, a.admitKey = .ok d) ∧ w.Shows tiers o ∧ w.entry.isExpired w.now = true)) := by
  obtain ⟨r, hrun, hfound⟩ := Manager.exists_run tiers a w ho
  refine ⟨r, hrun, ?_⟩
  rw [hfound, Manager.get_reply_eq_some_iff ho, ← hgates]
  cases w.entry.isExpired w.now with
  | true => simp
  | false => simp

/-- A `set` to `L5` with a TTL of 5, and 100 ticks after it. -/
def setAndWait : List (Turn ℕ) :=
  [.start 0 (.set (.pinned .L5 (some 5)) 1), .run 0 {}, .run 0 {}, .run 0 {}, .run 0 {}, .run 0 {},
    .run 0 {}, .env 100]

theorem exists_agrees_iff_setAndWait :
    ∃ r, (Call.exists (.pinned .L5 none)).run 6 (fun _ => {})
        ((manager ℕ 6).run .unwritten setAndWait).world =
          some (r, ((manager ℕ 6).run .unwritten setAndWait).world, 0) ∧
      ((r = .found (.ok true) ↔ ∃ v, (Call.get (.pinned .L5 none)).reply 6 (fun _ => {})
          ((manager ℕ 6).run .unwritten setAndWait).world = some (.read (.ok (some v)))) ↔
        ¬ ((∃ d, (Args.pinned .L5 none).admitKey = .ok d) ∧
          ((manager ℕ 6).run .unwritten setAndWait).world.Shows 6 (fun _ => {}) ∧
          ((manager ℕ 6).run .unwritten setAndWait).world.entry.isExpired
            ((manager ℕ 6).run .unwritten setAndWait).world.now = true)) :=
  exists_agrees_iff ⟨fun _ => rfl, fun _ => rfl, fun _ => rfl⟩ ⟨fun _ => ⟨_, rfl⟩, fun _ => ⟨_, rfl⟩⟩

/-- The rung ignores TTLs. The key that `exists` reports is one that `get` then misses. -/
theorem setAndWait_exists_but_misses :
    ((manager ℕ 6).run .unwritten
        (setAndWait ++ [.start 0 (.exists (.pinned .L5 none)), .run 0 {}, .run 0 {}])).result 0 =
      some (.found (.ok true)) ∧
    ((manager ℕ 6).run .unwritten
        (setAndWait ++ [.start 0 (.exists (.pinned .L5 none)), .run 0 {}, .run 0 {},
          .start 0 (.get (.pinned .L5 none)), .run 0 {}, .run 0 {}])).result 0 =
      some (.read (.error .miss)) := by
  decide +kernel

end TheSix
