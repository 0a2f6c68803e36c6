import TheSix.Sequential.Stages
import TheSix.Sequential.Calls

/-!
# One client, failing tiers

A single client makes any calls on a key, one after another, and any of them may be dropped at an
await point. The tiers may fail in every way their contract allows: a failed write may have stored
its value, unless its error says that nothing was stored; a removal may or may not take effect; a
read may fail or miss. The policy fails closed.

What is served is the value that was committed or published last, and has not been invalidated or
removed since (`latest`), and between two calls the entry is at rest. Each stage of the protocol
has its own part of the invariant (`Fits`): a call that holds an intent knows what an abort would
restore, and a population that has not claimed the entry leaves it `Ready` over a rung it may have
overwritten, until it is published or fails the entry.
-/

namespace TheSix

open Coroutine

variable {V : Type}

/-! ## What was stored last -/

/-- The value of an answered fetch. -/
def fetchedValue : Served V → Option V
  | ⟨_, _, _, .fetch, .ok v, _, _⟩ => some v
  | _ => none

/-- The value the last fetch has brought. -/
def lastFetched (trace : List (Served V)) : Option V := trace.findSome? fetchedValue

/-- What an item makes the latest value of the key, if it decides about that: the value of a `set`
that is committed, the value fetched before a publication, nothing after `invalidate` and
`remove`. -/
def decides (older : List (Served V)) : Served V → Option (Option V)
  | ⟨_, c, _, .commit _ _, .ok _, _, _⟩ => c.stores.map some
  | ⟨_, _, _, .publish _ _ _, .ok _, _, _⟩ => some (lastFetched older)
  | ⟨_, _, _, .invalidate, .ok _, _, _⟩ => some none
  | ⟨_, _, _, .release, .ok _, _, _⟩ => some none
  | _ => none

/-- The value that was committed or published last and not invalidated or removed since. -/
def latest : List (Served V) → Option V
  | [] => none
  | it :: older => (decides older it).getD (latest older)

/-! ## The client -/

/-- One client on thread 0, whose policy fails closed. -/
def oneClient (V : Type) : Terms V where
  starts _ i c := i = 0 ∧ ¬c.FailsOpen
  good _ := HonestTier

instance [DecidableEq V] : (oneClient V).Checkable where
  starts _ i c := inferInstanceAs (Decidable (i = 0 ∧ ¬c.FailsOpen))
  outcome _ := .isTrue trivial
  drops := .isTrue trivial
  good _ it := inferInstanceAs (Decidable (HonestTier it))

namespace Sequential

/-- The latest value changes as the stages expect. -/
theorem evolves_latest (trace : List (Served V)) (it : Served V) :
    Evolves it.call (fun x => latest trace = some x) (fun x => lastFetched trace = some x)
      (fun x => latest (it :: trace) = some x) (fun x => lastFetched (it :: trace) = some x)
      it.req it.ans := by
  obtain ⟨i, c, l, q, a, pre, post⟩ := it
  cases q with
  | commit token ttl =>
    cases a with
    | error e => exact ⟨fun _ hx => hx, fun _ hx => hx⟩
    | ok u =>
      refine ⟨?_, fun hc x hx => by simpa [latest, decides, hc] using hx⟩
      rintro a v rfl
      rfl
  | publish g tier ttl =>
    cases a with
    | error e => exact ⟨fun _ hx => hx, fun _ hx => hx⟩
    | ok u => exact fun _ hx => hx
  | invalidate =>
    cases a with
    | error e => exact ⟨fun _ hx => hx, fun _ hx => hx⟩
    | ok u => trivial
  | release =>
    cases a with
    | error e => exact ⟨fun _ hx => hx, fun _ hx => hx⟩
    | ok u => trivial
  | fetch =>
    cases a with
    | error e => exact ⟨fun _ hx => hx, fun _ hx => hx⟩
    | ok v => exact ⟨fun _ hx => hx, rfl⟩
  | peek | acquire | setState | failWithError | prepare | abort | abortProvenClean
  | evictionCandidate | reserveEviction | removeIfAddress | tierGet | tierSet | tierRemove
  | tierContains | register | notified | sleep | yieldNow | tierHealth | record =>
    exact ⟨fun _ hx => hx, fun _ hx => hx⟩

/-- What holds wherever a client of failing tiers leads. -/
theorem reached_latest {tiers : ℕ} {address : KeyAddress} {schedule : List (Turn V)}
    (hT : (oneClient V).Hold tiers (.empty address) schedule) :
    ∃ φ, Reached (Alone (fun c => ¬c.FailsOpen) (fun trace x => latest trace = some x)
      fun trace x => lastFetched trace = some x)
      ((manager V tiers).run (.empty address) schedule) φ :=
  (Alone.upholds (fun _ _ _ h => h) (fun _ _ _ _ _ hgood _ _ => hgood)
    (fun trace it _ => evolves_latest trace it)).run (.initial (base_empty address _))
    (fun _ => rfl) hT

end Sequential

/-- A `set` of `v` that its first bound rung accepts, with room for the key's entry. -/
structure Accepts (tiers : ℕ) (a : Args) (v : V) (o : Req V → Outcome V) (w : KeyWorld V) : Prop where
  admitted : a.admitWrite = .ok ()
  authorized : (a.select (Manager.shownTo w)).authorized = true
  rung : ∃ rung, Manager.firstRung tiers a w = some rung ∧
    ((o (.prepare rung .write)).room = true ∨ w.slot.isSome = true) ∧
    (o (.tierSet rung v a.ttl)).error = none

/-- A `set` commits, the next one finds every rung full and fails cleanly, and a `get` follows. -/
def fullLadder : List (Turn ℕ) :=
  [.start 0 (.set (.pinned .L1 none) 1),
    .run 0 {}, .run 0 {}, .run 0 {}, .run 0 {}, .run 0 {}, .run 0 {},
    .start 0 (.set (.pinned .L1 none) 2), .run 0 {}, .run 0 {},
    .run 0 {}, .run 0 { error := some .capacityExhausted, effect := false }, .run 0 {}, .run 0 {},
    .run 0 {}, .run 0 { error := some .capacityExhausted, effect := false }, .run 0 {}, .run 0 {},
    .run 0 {}, .run 0 {},
    .start 0 (.get (.pinned .L1 none)), .run 0 {}, .run 0 {}, .run 0 {}, .run 0 {}]

end TheSix
