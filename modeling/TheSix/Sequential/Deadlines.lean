import TheSix.Sequential.Stages
import TheSix.Sequential.Calls

/-!
# Moves and the deadline of an entry

The deadline of an entry is kept as the time of its last commit and a TTL. A move commits, so it
stores both again: the time of the move, and the TTL of whoever moves. `movers D` are the moves
that stay within the deadline `D`; however many of them follow one another, the entry is expired
from `D` on, and every `get` misses (`miss_of_moved`).
-/

namespace TheSix

open Coroutine

variable {V : Type}

namespace ControlEntry

/-- The entry expires, and not after `D`. -/
structure DueBy (e : ControlEntry) (D : ℕ) : Prop where
  armed : e.populationTimestamp ≠ 0
  limited : e.expirationNanos ≠ 0
  due : e.populationTimestamp + e.expirationNanos ≤ D

theorem DueBy.isExpired {e : ControlEntry} {D now : ℕ} (h : e.DueBy D) (hnow : D ≤ now) :
    e.isExpired now = true := by
  have hdue := h.due
  simp only [ControlEntry.isExpired, ttl, nanosToInstant, if_neg h.armed, if_neg h.limited,
    decide_eq_true_eq]
  omega

/-- What is known of an entry that a commit leaves. -/
theorem dueBy_committed {e : ControlEntry} {token : CommitToken} {ttl : Option ℕ} {now D : ℕ}
    (hnow : now ≠ 0) (httl : ttlNanos ttl ≠ 0) (hD : instantToNanos now + ttlNanos ttl ≤ D) :
    (e.committed token ttl now).DueBy D := by
  refine ⟨?_, httl, hD⟩
  simp only [committed, instantToNanos]
  omega

end ControlEntry

/-- A commit that a move makes stores a deadline of at most `D`. -/
def CommitsWithin (D : ℕ) : Served V → Prop
  | ⟨_, _, _, .commit _ ttl, _, pre, _⟩ =>
    ControlEntry.ttlNanos ttl ≠ 0 ∧
      ControlEntry.instantToNanos pre.now + ControlEntry.ttlNanos ttl ≤ D
  | _ => True

/-- The calls that neither write a value nor drop it. -/
def Call.Leaves : Call V → Prop
  | .promote _ | .demote _ | .get _ | .exists _ => True
  | _ => False

/-- One client that moves the entry and reads it. -/
def movers (V : Type) : Terms V where
  starts _ i c := i = 0 ∧ c.Leaves

/-- One client whose moves store no deadline after `D`. -/
def moversBy (V : Type) (D : ℕ) : Terms V := { movers V with good := fun _ => CommitsWithin D }

instance (D : ℕ) : DecidablePred (CommitsWithin D : Served V → Prop) := fun ⟨_, _, _, q, _, _, _⟩ => by
  induction q using Req.casesOn <;> dsimp only [CommitsWithin] <;> infer_instance

instance : DecidablePred (Call.Leaves (V := V)) := fun c => by
  induction c using Call.casesOn <;> dsimp only [Call.Leaves] <;> infer_instance

instance : (movers V).Checkable where
  starts _ i c := inferInstanceAs (Decidable (i = 0 ∧ c.Leaves))
  outcome _ := .isTrue trivial
  drops := .isTrue trivial
  good _ _ := .isTrue trivial

instance (D : ℕ) : (moversBy V D).Checkable where
  starts _ i c := inferInstanceAs (Decidable (i = 0 ∧ c.Leaves))
  outcome _ := .isTrue trivial
  drops := .isTrue trivial
  good _ it := inferInstanceAs (Decidable (CommitsWithin D it))

/-- The stages of a call that claims no population. -/
@[simp] def Stage.Unclaimed : Stage V → Prop
  | .refused _ _ | .marked | .missed _ | .populating _ _ _ | .filled _ _ _ _ | .failed => False
  | _ => True

theorem Stage.Unclaimed.next {φ : Phase V} {l : Fn} {q : Req V} {a : q.Answer}
    (h : φ.stage.Unclaimed) (hc : φ.call.Leaves) (hok : φ.allows l q) :
    (Phase.next φ.stage l q a).Unclaimed := by
  obtain ⟨c, st⟩ := φ
  cases q with
  | peek =>
    rcases hok with hst | ⟨s, v, hst⟩ | hst <;> obtain rfl := hst <;> simp only [Phase.next]
    · trivial
    · split <;> trivial
    · trivial
  | acquire tier => cases c <;> first | exact hc.elim | exact hok.1.elim
  | setState state =>
    rcases hok.2 with ⟨s, hst, -⟩ | ⟨s, hst, -⟩ <;> obtain rfl := hst
    · cases l <;> trivial
    · exact h.elim
  | publish g tier ttl =>
    obtain ⟨claimed, v, rfl⟩ := hok
    exact h.elim
  | failWithError e =>
    rcases hok with hst | ⟨s, hst, -⟩ | ⟨s, hst, -⟩
    · cases st <;> first | exact h.elim | cases hst
    · obtain rfl := hst
      exact h.elim
    · obtain rfl := hst
      exact h.elim
  | prepare rung kind =>
    cases kind with
    | write =>
      obtain ⟨⟨a', v, rfl⟩, -⟩ := hok
      exact hc.elim
    | move =>
      obtain ⟨-, s, rfl, -⟩ := hok
      cases a <;> trivial
  | commit token ttl =>
    rcases hok with ⟨rung, lost, hst⟩ | ⟨s, dst, v, hst⟩ <;> obtain rfl := hst <;>
      cases a <;> simp only [Phase.next] <;> first | trivial | (split <;> trivial)
  | abort token e =>
    rcases hok with hst | ⟨rung, lost, hst⟩ | ⟨rung, e', hst⟩ | ⟨s, dst, hst⟩ <;> obtain rfl := hst <;>
      trivial
  | tierGet rung =>
    rcases hok with ⟨s, hst, -⟩ | ⟨b, s, hst, -⟩ | hst | ⟨hst, -⟩ | ⟨t, s, dst, hst, -⟩ <;>
      obtain rfl := hst
    · cases a <;> simp only [Phase.next] <;> split <;> trivial
    · exact h.elim
    · trivial
    · exact h.elim
    · rcases a with e | _ | v <;> trivial
  | tierSet rung v ttl =>
    rcases hok with ⟨b, g, hst⟩ | ⟨t, n, a', hst, -⟩ | ⟨t, s, hst⟩ <;> obtain rfl := hst
    · exact h.elim
    · cases a <;> trivial
    · cases a <;> trivial
  | tierRemove rung =>
    rcases hok with ⟨hst, -⟩ | ⟨t, hst⟩ | ⟨t, s, dst, v, hst, -⟩ | ⟨t, hst⟩ <;> obtain rfl := hst <;>
      trivial
  | fetch =>
    rcases hok.2 with ⟨b, g, v, hst⟩ | ⟨s, hst, -⟩ | ⟨s, hst, -⟩ <;> obtain rfl := hst <;>
      exact h.elim
  | abortProvenClean | register => trivial
  | invalidate | release | evictionCandidate | reserveEviction | removeIfAddress | tierContains
  | notified | sleep | yieldNow | tierHealth | record => exact h

/-- A request of these calls leaves the deadline, or commits within it. -/
theorem dueBy_exec {φ : Phase V} {l : Fn} {q : Req V} {o : Outcome V} {w w' : KeyWorld V}
    {a : q.Answer} {i : ℕ} {D : ℕ} (h : w.entry.DueBy D) (hnow : w.now ≠ 0)
    (hst : φ.stage.Unclaimed) (hc : φ.call.Leaves) (hok : φ.allows l q)
    (hgood : CommitsWithin D ⟨i, φ.call, l, q, a, w, w'⟩) (hexec : w.exec q o = some (a, w')) :
    w'.entry.DueBy D := by
  cases q with
  | acquire tier =>
    have hpop := hok.1
    cases hcall : φ.call <;> rw [hcall] at hc hpop <;> first | exact hc.elim | exact hpop.elim
  | setState state =>
    rcases KeyWorld.exec_setState hexec with ⟨rfl, -⟩ | rfl
    · exact h
    · exact ⟨h.armed, h.limited, h.due⟩
  | publish g tier ttl =>
    obtain ⟨claimed, v, hfilled⟩ := hok
    rw [hfilled] at hst
    exact hst.elim
  | failWithError e =>
    rcases hok with hpop | ⟨s, hs, -⟩ | ⟨s, hs, -⟩
    · cases hs : φ.stage <;> rw [hs] at hst hpop <;> first | exact hst.elim | cases hpop
    · rw [hs] at hst
      exact hst.elim
    · rw [hs] at hst
      exact hst.elim
  | invalidate =>
    obtain ⟨-, a', hcall⟩ := hok
    rw [hcall] at hc
    exact hc.elim
  | release =>
    obtain ⟨-, a', hcall⟩ := hok
    rw [hcall] at hc
    exact hc.elim
  | prepare rung kind =>
    rcases KeyWorld.exec_prepare hexec with ⟨e, -, rfl, -⟩ | ⟨-, rfl⟩
    · exact h
    · exact ⟨h.armed, h.limited, h.due⟩
  | commit token ttl =>
    rcases KeyWorld.exec_commit hexec with ⟨e, -, rfl, -, -⟩ | ⟨-, -, -, rfl⟩
    · exact h
    · exact ControlEntry.dueBy_committed hnow hgood.1 hgood.2
  | abort token e =>
    rcases KeyWorld.exec_abort hexec with ⟨-, rfl⟩ | ⟨-, rfl⟩
    · exact h
    · exact ⟨h.armed, h.limited, h.due⟩
  | abortProvenClean token e =>
    rcases KeyWorld.exec_abortProvenClean hexec with ⟨-, rfl⟩ | ⟨-, rfl⟩
    · exact h
    · exact ⟨h.armed, h.limited, h.due⟩
  | reserveEviction address =>
    rcases KeyWorld.exec_reserveEviction hexec with ⟨rfl, -⟩ | ⟨-, -, rfl⟩
    · exact h
    · exact ⟨h.armed, h.limited, h.due⟩
  | peek | evictionCandidate | removeIfAddress | tierGet | tierSet | tierRemove | tierContains
  | fetch | register | notified | sleep | yieldNow | tierHealth | record =>
    rw [KeyWorld.exec_entry rfl hexec]
    exact h

/-- The client is alone, its call claims nothing, and the entry expires by `D`. -/
structure Moved (D : ℕ) (s : System V) (φ : ℕ → Phase V) : Prop where
  alone : Sequential.Alone Call.Leaves (fun _ _ => True) (fun _ _ => True) s φ
  unclaimed : (φ 0).stage.Unclaimed
  started : s.world.now ≠ 0
  due : s.world.entry.DueBy D

theorem evolves_true (c : Call V) (q : Req V) (a : q.Answer) :
    Sequential.Evolves c (fun _ => True) (fun _ => True) (fun _ => True) (fun _ => True) q a := by
  cases q <;> first | exact ⟨fun _ h => h, fun _ h => h⟩ | (cases a <;> simp [Sequential.Evolves])

theorem moved_alone_upholds (D : ℕ) : Upholds (moversBy V D)
    (Sequential.Alone Call.Leaves (fun _ _ => True) fun _ _ => True) := by
  refine Sequential.Alone.upholds (fun _ _ _ h => h) ?_ fun _ it _ =>
    evolves_true it.call it.req it.ans
  intro s it o hleaves _ _ _ hstores
  cases hc : it.call <;> rw [hc] at hleaves hstores <;>
    first | exact hleaves.elim | exact absurd rfl hstores

theorem moved_upholds (D : ℕ) : Upholds (moversBy V D) (Moved D) where
  start {s φ i c rest} h hB hc hst := by
    refine ⟨(moved_alone_upholds D).start h.alone hB hc hst, ?_, h.started, h.due⟩
    rw [hc.1, Function.update_self]
    trivial
  answer {s φ i c l q o a w} rest h hB hC hserves := by
    obtain ⟨cancel, k, hpend⟩ := hserves.pending
    obtain ⟨rfl, hleaves⟩ := h.alone.client i _ hpend
    obtain rfl := hserves.call
    refine ⟨(moved_alone_upholds D).answer rest h.alone hB hC hserves, ?_, ?_, ?_⟩
    · rw [Function.update_self]
      exact h.unclaimed.next hleaves hserves.allows
    · rw [Sys.answer_world, KeyWorld.exec_now hserves.exec]
      exact h.started
    · exact dueBy_exec h.due h.started h.unclaimed hleaves hserves.allows hserves.good hserves.exec
  drop {s φ i c l q cancel k} rest h hd hpend hcall := by
    obtain ⟨rfl, -⟩ := h.alone.client i _ hpend
    refine ⟨(moved_alone_upholds D).drop rest h.alone hd hpend hcall, ?_, h.started, h.due⟩
    rw [Function.update_self]
    have hst := h.unclaimed
    cases hs : (φ 0).stage <;> rw [hs] at hst <;> first | exact hst.elim | trivial
  env {s φ d} h := by
    refine ⟨(moved_alone_upholds D).env h.alone, h.unclaimed, ?_, h.due⟩
    have := h.started
    simp only [KeyWorld.tick]
    omega

/-- **Moves within the deadline never extend it.** An entry committed at `t` with TTL `d` is not
readable from `t + d` on, whatever moves it, as long as every move that commits stores a TTL and
`now` plus that TTL stays within `t + d`. -/
theorem miss_of_moved {tiers : ℕ} {w : KeyWorld V} {e : ControlEntry} {token : CommitToken} {t d : ℕ}
    (hslot : w.slot = some (e.committed token (some d) t)) (ht : t ≠ 0) (hd : d % 2 ^ 64 ≠ 0)
    (hnow : t ≤ w.now) {schedule : List (Turn V)}
    (hT : (moversBy V (t + d)).Hold tiers w schedule)
    (hidle : ((manager V tiers).run w schedule).Idle 0)
    (hlate : t + d ≤ ((manager V tiers).run w schedule).world.now) {a : Args} {p : PolicyDecision}
    (hgate : a.admitEncoded = .ok p) (o : Req V → Outcome V) :
    (Call.get a).reply tiers o ((manager V tiers).run w schedule).world =
      some (.read (.error .miss)) := by
  have hentry : w.entry = e.committed token (some d) t := KeyWorld.entry_of_slot hslot
  have hbase : Sequential.Base w.entry w.rungs fun _ => True := by
    rw [hentry]
    exact ⟨⟨by simp, by simp, by simp, by simp⟩, fun _ _ _ => trivial⟩
  have hdue : w.entry.DueBy (t + d) := by
    rw [hentry]
    refine ControlEntry.dueBy_committed ht hd ?_
    simp only [ControlEntry.instantToNanos, ControlEntry.ttlNanos, Option.elim_some]
    have := Nat.mod_le d (2 ^ 64)
    omega
  have hinit : Moved (t + d) (.initial w) fun _ => (⟨.evict, .idle⟩ : Phase V) :=
    ⟨.initial hbase, trivial, show w.now ≠ 0 by omega, hdue⟩
  obtain ⟨φ, hr⟩ := (moved_upholds (t + d)).run hinit (fun _ => rfl) hT
  have hrest := (hr.inv.alone.fits.base (hr.conforming.settled hr.belongs hidle)).rest
  by_cases hready : ((manager V tiers).run w schedule).world.entry.state = .ready
  · exact Manager.get_reply_of_expired hgate hready (hr.inv.due.isExpired hlate)
  · exact Manager.get_reply_of_unreadable hgate ⟨hready, hrest.notInFlight, hrest.notPrepared⟩

/-- A demotion at time 3 with the given TTL, and 100 ticks after it. The entry was committed at time
1 with a TTL of 10. -/
def demoteAndWait (ttl : Option ℕ) : List (Turn ℕ) :=
  [.env 2, .start 0 (.demote (.pinned .L0 ttl)), .run 0 {}, .run 0 {}, .run 0 {}, .run 0 {},
    .run 0 {}, .run 0 {}, .run 0 {}, .run 0 {}, .env 100]

theorem miss_of_moved_demoteAndWait :
    (moversBy ℕ 11).Hold 2 (.writtenAtL0 (some 10)) (demoteAndWait (some 8)) ∧
      (Call.get (.pinned .L0 none)).reply 2 (fun _ => {})
          ((manager ℕ 2).run (.writtenAtL0 (some 10)) (demoteAndWait (some 8))).world =
        some (.read (.error .miss)) := by
  have hhold : (moversBy ℕ 11).Hold 2 (.writtenAtL0 (some 10)) (demoteAndWait (some 8)) := by decide +kernel
  have hidle : ((manager ℕ 2).run (.writtenAtL0 (some 10)) (demoteAndWait (some 8))).Idle 0 :=
    Sys.isIdle_iff.1 (by decide +kernel)
  exact ⟨hhold, miss_of_moved (t := 1) (d := 10) rfl (by decide) (by decide) (by decide +kernel) hhold
    hidle (by decide +kernel) rfl _⟩

/-- A demotion without a TTL, as the governor makes it, and the entry is read long after its
deadline. -/
theorem demoteAndWait_outlives_deadline :
    (movers ℕ).Hold 2 (.writtenAtL0 (some 10)) (demoteAndWait none) ∧
      1 + 10 ≤ ((manager ℕ 2).run (.writtenAtL0 (some 10)) (demoteAndWait none)).world.now ∧
      (Call.get (.pinned .L0 none)).reply 2 (fun _ => {})
          ((manager ℕ 2).run (.writtenAtL0 (some 10)) (demoteAndWait none)).world =
        some (.read (.ok (some 1))) := by
  decide +kernel

end TheSix
