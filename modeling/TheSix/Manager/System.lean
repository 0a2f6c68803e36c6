import TheSix.Manager.Programs

/-!
# Calls on one key, running together

Any number of threads, each making calls on one key one after another, against the key's share of
the two planes. Every control-plane method and every tier call is one atomic step. `Call.evict` is
what a write on another key does to this one when the ladder is full.
-/

namespace TheSix

open Coroutine

/-- A call on the key. -/
inductive Call (V : Type)
  | get (a : Args)
  | getOrFetch (a : Args)
  | exists (a : Args)
  | set (a : Args) (value : V)
  | invalidate (a : Args)
  | remove (a : Args)
  | refresh (a : Args)
  | promote (a : Args)
  | demote (a : Args)
  | evict

instance {V : Type} (c : Call V) : Decidable (∃ a, c = .getOrFetch a) :=
  match c with
  | .getOrFetch a => .isTrue ⟨a, rfl⟩
  | .get _ | .exists _ | .set _ _ | .invalidate _ | .remove _ | .refresh _ | .promote _ | .demote _
  | .evict => .isFalse (by simp)

instance {V : Type} (c : Call V) : Decidable (∃ a v, c = .set a v) :=
  match c with
  | .set a v => .isTrue ⟨a, v, rfl⟩
  | .get _ | .exists _ | .getOrFetch _ | .invalidate _ | .remove _ | .refresh _ | .promote _
  | .demote _ | .evict => .isFalse (by simp)

/-- What a call answers. -/
inductive Reply (V : Type)
  | read (r : Except CacheError (Option V))
  | fetched (r : Except CacheError V)
  | found (r : Except CacheError Bool)
  | done (r : Except CacheError Unit)
  | refreshed (r : Except CacheError (Manager.Lookup V))
  | freed (r : Bool)
  deriving DecidableEq

variable {V : Type}

/-- The value a call stores. -/
def Call.stores : Call V → Option V
  | .set _ v => some v
  | _ => none

theorem Call.eq_set_of_stores {c : Call V} {x : V} (h : c.stores = some x) :
    ∃ a, c = .set a x := by
  cases c <;> simp_all [Call.stores]

/-- The program of a call, on a manager with `tiers` bound rungs. -/
def Call.prog {ι : Type} {α : ι → Type} [S : Manager.Recording V ι α] (tiers : ℕ) :
    Call V → Prog Fn ι α (Reply V)
  | .get a => .read <$> Manager.get tiers a
  | .getOrFetch a => .fetched <$> Manager.getOrFetch tiers a
  | .exists a => .found <$> Manager.silent (Manager.exists tiers a)
  | .set a value => .done <$> Manager.set tiers a value
  | .invalidate a => .done <$> Manager.silent (Manager.invalidate a)
  | .remove a => .done <$> Manager.silent (Manager.remove tiers a)
  | .refresh a => .refreshed <$> Manager.refreshDetailed tiers a
  | .promote a => .done <$> Manager.promote tiers a
  | .demote a => .done <$> Manager.demote tiers a
  | .evict =>
    .freed <$> Manager.silent
      (Manager.tryFreeSomewhere tiers cacheLadder Manager.maxEvictionAttempts)

/-- The manager at work on one key. The environment lets time pass. -/
def manager (V : Type) (tiers : ℕ) :
    Machine (Call V) Fn (Req V) Req.Answer (Reply V) (KeyWorld V) (Outcome V) ℕ where
  prog := Call.prog tiers
  exec := KeyWorld.exec
  env := KeyWorld.tick

/-- A state of the manager at work on one key. -/
abbrev System (V : Type) := Sys (Call V) Fn (Req V) Req.Answer (Reply V) (KeyWorld V)

/-- An answered request of the manager. -/
abbrev Served (V : Type) := Item (Call V) Fn (Req V) Req.Answer (KeyWorld V)

/-- A step of a schedule. -/
abbrev Turn (V : Type) := Event (Call V) (Outcome V) ℕ

/-- A task of the manager. -/
abbrev Running (V : Type) := Task (Call V) Fn (Req V) Req.Answer (Reply V)

end TheSix
