import TheSix.Control.Steps
import TheSix.Lib.Run

/-!
# Lifetimes of entries

`commit` and `publish` arm an entry: they store the time to live, as a 64-bit count with `0` for
none, and the instant. Until another call works on the key, an entry that was armed reports expired
from the end of its time to live on (`expired_of_armed`); a time to live of zero clears it.
-/

namespace TheSix

/-- The call has armed its entry with a time to live. -/
def EntryOp.Arms (d : ℕ) : (op : EntryOp) → op.Answer → Prop
  | .publish _ _ _ ttl, r => ttl = some d ∧ r = .ok ()
  | .commit _ ttl, r => ttl = some d ∧ r = .ok ()
  | _, _ => False

/-- The call does not work on the entry of the address, except that it may demote it to `Stale`. -/
def TableOp.Spares (a : KeyAddress) : TableOp → Prop
  | .entry op => op.address ≠ a
  | .staleIntents _ _ | .sweepExpired _ => True

namespace ControlEntry

/-- The entry was armed with `d` at `now`. -/
structure Armed (d now : ℕ) (e : ControlEntry) : Prop where
  expirationNanos : e.expirationNanos = d % 2 ^ 64
  populationTimestamp : e.populationTimestamp = instantToNanos now

theorem Armed.sweepExpired {e : ControlEntry} {d now : ℕ} (h : e.Armed d now) (u : ℕ) :
    (e.sweepExpired u).2.Armed d now := by
  unfold ControlEntry.sweepExpired
  split_ifs <;> exact ⟨h.1, h.2⟩

/-- While the time to live fits 64 bits and the clock has left zero, expiry is exact. -/
theorem Armed.isExpired {e : ControlEntry} {d now : ℕ} (h : e.Armed d now) (hd : d < 2 ^ 64)
    (hpos : 0 < now) (hnow : now < 2 ^ 64) (u : ℕ) :
    e.isExpired u = decide (0 < d ∧ d ≤ u - now) := by
  have hpopulated : nanosToInstant e.populationTimestamp = some now := by
    rw [h.populationTimestamp, nanosToInstant, instantToNanos, if_neg (by omega),
      Nat.min_eq_left (by omega)]
  unfold ControlEntry.isExpired ttl
  rw [hpopulated, h.expirationNanos, Nat.mod_eq_of_lt hd]
  by_cases hzero : d = 0
  · simp [hzero]
  · simp [hzero, Nat.pos_of_ne_zero hzero]

end ControlEntry

namespace Cachelito

variable {t : Cachelito}

/-- The entry of an address was armed. -/
def ArmedAt (t : Cachelito) (a : KeyAddress) (d now : ℕ) : Prop :=
  ∃ e, t.slots a = some e ∧ e.Armed d now

theorem ArmedAt.of_withEntry {a : KeyAddress} {d now : ℕ} {r : Except CacheError Unit × Cachelito}
    {f : ControlEntry → Except CacheError Unit × ControlEntry} {missing : CacheError}
    (h : t.Refines a r ((t.slots a).withEntry (.error missing) f)) (hok : r.1 = .ok ())
    (hf : ∀ e, (f e).1 = .ok () → (f e).2.Armed d now) : r.2.ArmedAt a d now := by
  have hanswer := h.answer
  rw [hok] at hanswer
  cases he : t.slots a with
  | none =>
    rw [he] at hanswer
    cases hanswer
  | some e =>
    rw [he] at hanswer
    refine ⟨(f e).2, ?_, hf e hanswer.symm⟩
    rw [h.slots, Function.update_self, he]
    rfl

/-- A `commit` or `publish` that succeeds arms the entry. -/
theorem WellFormed.armedAt (h : t.WellFormed) {op : EntryOp} {d now : ℕ}
    (harms : op.Arms d (t.call now op).1) : (t.call now op).2.ArmedAt op.address d now := by
  cases op with
  | publish a g tier ttl =>
    obtain ⟨rfl, hok⟩ := harms
    refine ArmedAt.of_withEntry (h.call now (.publish a g tier (some d))) hok fun e he => ?_
    unfold ControlEntry.publish at he ⊢
    split_ifs at he ⊢ with hstale
    exact ⟨rfl, rfl⟩
  | commit token ttl =>
    obtain ⟨rfl, hok⟩ := harms
    refine ArmedAt.of_withEntry (h.call now (.commit token (some d))) hok fun e he => ?_
    unfold ControlEntry.commit at he ⊢
    split_ifs at he ⊢ with hstale
    exact ⟨rfl, rfl⟩
  | _ => exact harms.elim

/-- Calls on other keys, and the sweep, leave it armed. -/
theorem WellFormed.armedAt_step (h : t.WellFormed) {a : KeyAddress} {d now : ℕ}
    (harmed : t.ArmedAt a d now) {x : ℕ × TableOp} (hx : x.2.Spares a) :
    (t.step x).ArmedAt a d now := by
  obtain ⟨e, he, hed⟩ := harmed
  obtain ⟨u, op⟩ := x
  cases op with
  | entry op =>
    refine ⟨e, ?_, hed⟩
    change (t.call u op).2.slots a = some e
    rw [(h.call u op).slots, Function.update_of_ne (Ne.symm hx), he]
  | staleIntents i cutoff => exact ⟨e, he, hed⟩
  | sweepExpired i =>
    change (t.sweepExpiredIn i u).2.ArmedAt a d now
    unfold ArmedAt
    rw [(h.sweepExpiredIn i u).2.1]
    dsimp only
    split_ifs
    · exact ⟨_, by rw [he]; rfl, hed.sweepExpired u⟩
    · exact ⟨e, he, hed⟩

theorem peek_of_slots {a : KeyAddress} {e : ControlEntry} (he : t.slots a = some e) (u : ℕ) :
    t.peek a u = e.peek u := by
  have hfound : (t.shard a).findEntry a = some e := he
  rw [Cachelito.peek, hfound]

/-- **A time to live means what it says.** An entry that was armed with `d` at `now` reports expired
at `u` when `d` has passed since, whatever is called on other keys in the meantime; a time to live
of zero is none. -/
theorem expired_of_armed (h : t.WellFormed) {op : EntryOp} {d now : ℕ}
    (harms : op.Arms d (t.call now op).1) (hd : d < 2 ^ 64) (hpos : 0 < now) (hnow : now < 2 ^ 64)
    {history : List (ℕ × TableOp)} (hspares : ∀ x ∈ history, x.2.Spares op.address) (u : ℕ) :
    ((history.foldl step (t.call now op).2).peek op.address u).expired =
      decide (0 < d ∧ d ≤ u - now) := by
  have hrun : (history.foldl step (t.call now op).2).WellFormed ∧
      (history.foldl step (t.call now op).2).ArmedAt op.address d now := by
    refine List.foldlRecOn (motive := fun t' => t'.WellFormed ∧ t'.ArmedAt op.address d now)
      history step ⟨(h.call now op).wellFormed, h.armedAt harms⟩ ?_
    intro t' ht x hx
    exact ⟨ht.1.step x, ht.1.armedAt_step ht.2 (hspares x hx)⟩
  obtain ⟨-, e, he, hed⟩ := hrun
  rw [peek_of_slots he]
  exact hed.isExpired hd hpos hnow u

/-- A table with one entry, on which a write was prepared. -/
def withWrite : Cachelito :=
  ((sized 1 1).prepare ((sized 1 1).addressOf []) none .L0 .write 1).2

/-- What the `prepare` has handed out. -/
def writeToken : CommitToken where
  address := (sized 1 1).addressOf []
  generation := 0
  kind := .write
  targetTier := 0

theorem wellFormed_withWrite : withWrite.WellFormed :=
  ((wellFormed_sized 1 1 .default).call 1 (.prepare _ none .L0 .write)).wellFormed

theorem arms_withWrite : (EntryOp.commit writeToken (some 10)).Arms 10
    (withWrite.call 5 (.commit writeToken (some 10))).1 :=
  ⟨rfl, by decide +kernel⟩

/-- A write that was committed at `5`, to live for ten nanoseconds, with a scan in between. -/
theorem expired_of_armed_ten :
    (([(6, .staleIntents 0 6)].foldl step
      (withWrite.call 5 (.commit writeToken (some 10))).2).peek writeToken.address 15).expired =
      decide (0 < 10 ∧ 10 ≤ 15 - 5) :=
  expired_of_armed wellFormed_withWrite arms_withWrite (by decide) (by decide) (by decide)
    (by simp [TableOp.Spares]) 15

/-- A write that was committed at `5`, to live for no time at all, does not expire. -/
theorem expired_zero : (withWrite.call 5 (.commit writeToken (some 0))).1 = .ok () ∧ ¬ ∀ u ≥ 5,
    (((withWrite.call 5 (.commit writeToken (some 0))).2.peek writeToken.address u).expired = true ↔
      u - 5 ≥ 0) := by
  refine ⟨by decide +kernel, fun h => ?_⟩
  have hfive := (h 5 le_rfl).2 (Nat.zero_le _)
  revert hfive
  decide +kernel

end Cachelito

end TheSix
