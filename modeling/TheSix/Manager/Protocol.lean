import TheSix.Manager.System

/-!
# The protocol every call follows

What one thread does on the key, seen from outside, is a walk through the stages of `Stage`: it
observes the entry, claims it and populates it, or records an intent, writes a rung and commits.
`Phase.ok` says which requests a stage allows and `Phase.next` where an answer leads, so that a
property of all interleavings needs to look at one step of each kind only, and never at the
programs. `Call.conforms` is the link: every call keeps to the protocol on every path, and from
every await point it is dropped at.
-/

namespace TheSix

open Coroutine

variable {V : Type}

/-- Where a call stands. -/
inductive Stage (V : Type)
  /-- Nothing is held, and nothing observed matters any more. -/
  | idle
  /-- The entry was observed as `s`. -/
  | seen (s : ControlSnapshot)
  /-- `get` has read `v` from the rung that `s` names. -/
  | got (s : ControlSnapshot) (v : Option V)
  /-- `get` has found the entry `Ready` again after reading `v`. -/
  | checked (v : Option V)
  /-- `acquire` declined and showed `s`; `again` after an expired entry was marked stale. -/
  | refused (again : Bool) (s : ControlSnapshot)
  /-- An expired entry was marked stale, and will be claimed next. -/
  | marked
  /-- The rung of the `Ready` snapshot `s` held nothing. -/
  | missed (s : ControlSnapshot)
  /-- A population for generation `g`, with a claim or without one, and what it has `fetched`. -/
  | populating (claimed : Bool) (g : Generation) (fetched : Option V)
  /-- The population has stored the fetched `v` on `rung`. -/
  | filled (claimed : Bool) (g : Generation) (rung : TierId) (v : V)
  /-- The population was published, or a rung has served its call. -/
  | served (v : V)
  /-- A population gave up, and may scan the ladder. -/
  | failed
  /-- Waiting for somebody else's work, or reading what it left. -/
  | waiting
  /-- An intent to write `rung` is recorded, after `lost` lost races. -/
  | writing (token : CommitToken) (rung : TierId) (lost : ℕ)
  /-- The rung took the write. -/
  | wrote (token : CommitToken) (rung : TierId) (lost : ℕ)
  /-- The rung refused the write. -/
  | unwritten (token : CommitToken) (rung : TierId) (e : CacheError)
  /-- The commit was refused because the generation or the state had moved on. -/
  | beaten (token : CommitToken) (rung : TierId) (lost : ℕ)
  /-- The write begins again, after `lost` lost races. -/
  | retrying (lost : ℕ)
  /-- An intent to move the value of `s` to `dst` is recorded. -/
  | moving (token : CommitToken) (s : ControlSnapshot) (dst : TierId)
  /-- The move has read `v` from its source. -/
  | carrying (token : CommitToken) (s : ControlSnapshot) (dst : TierId) (v : V)
  /-- The move has written `v` to its destination. -/
  | copied (token : CommitToken) (s : ControlSnapshot) (dst : TierId) (v : V)
  /-- The move has asked its source to drop the value. -/
  | cleared (token : CommitToken) (s : ControlSnapshot) (dst : TierId) (v : V)
  /-- The commit was refused, and what was stored at `dst` is taken back. -/
  | backing (token : CommitToken) (dst : TierId)
  /-- The intent is about to be aborted. -/
  | undoing (token : CommitToken)
  /-- The write or the move was committed. -/
  | committed

namespace Stage

/-- The token of the intent a call holds. -/
@[simp] def token : Stage V → Option CommitToken
  | writing t _ _ | wrote t _ _ | unwritten t _ _ | beaten t _ _ | moving t _ _ | carrying t _ _ _
  | copied t _ _ _ | cleared t _ _ _ | backing t _ | undoing t => some t
  | _ => none

/-- Where a call stands once it is dropped: its guard gives up the intent it holds. -/
@[simp] def cancel : Stage V → Stage V
  | writing t _ _ | wrote t _ _ | unwritten t _ _ | beaten t _ _ | moving t _ _ | carrying t _ _ _
  | copied t _ _ _ | cleared t _ _ _ | backing t _ | undoing t => .undoing t
  | st => st

theorem cancel_of_none {st : Stage V} (h : st.token = none) : st.cancel = st := by
  cases st <;> first | rfl | cases h

theorem cancel_of_some {st : Stage V} {t : CommitToken} (h : st.token = some t) :
    st.cancel = .undoing t := by
  cases st <;> first | cases h; rfl | cases h

theorem cancel_token (st : Stage V) : st.cancel.token = st.token := by
  cases st <;> rfl

/-- The call populates. -/
@[simp] def isPopulating : Stage V → Bool
  | populating _ _ _ | filled _ _ _ _ => true
  | _ => false

/-- The call is inside `become_population_owner`. -/
@[simp] def Inside : Stage V → Prop
  | populating _ _ _ | filled _ _ _ _ | missed _ | failed => True
  | refused again s => again = true ∧ s.state = .ready ∧ s.expired = true
  | _ => False

/-- Nothing is left to release. -/
@[simp] def Settled (st : Stage V) : Prop := st.token = none ∧ st.isPopulating = false

end Stage

/-- The functions `become_population_owner` runs through. -/
@[simp] def Fn.ofPopulation : Fn → Bool
  | .becomePopulationOwner | .populateOnce | .tryFallbackTier => true
  | _ => false

/-- The calls that claim a population. -/
def Call.Populates : Call V → Prop
  | .getOrFetch _ | .refresh _ => True
  | _ => False

/-- The calls that read a rung by the snapshot they took. -/
def Call.Reads : Call V → Prop
  | .get _ | .refresh _ => True
  | _ => False

/-- The calls that move the value. -/
def Call.Moves : Call V → Prop
  | .promote _ | .demote _ => True
  | _ => False

/-- The calls that may evict the key. -/
def Call.Evicts : Call V → Prop
  | .set _ _ | .evict => True
  | _ => False

theorem Call.not_reads_of_moves {c : Call V} (h : c.Moves) : ¬c.Reads := by
  cases c <;> first | exact h.elim | exact id

theorem Call.not_evicts_of_moves {c : Call V} (h : c.Moves) : ¬c.Evicts := by
  cases c <;> first | exact h.elim | exact id

/-- A call whose policy lets it fall back to any rung. -/
def Call.FailsOpen : Call V → Prop
  | .getOrFetch a => (a.select .new).failMode = .open
  | _ => False

instance : DecidablePred (Call.FailsOpen (V := V)) := fun c => by
  induction c using Call.casesOn <;> dsimp only [Call.FailsOpen] <;> infer_instance

/-- A call and where it stands. -/
structure Phase (V : Type) where
  call : Call V
  stage : Stage V

namespace Phase

/-- The requests a stage allows, and from which function. -/
def allows (φ : Phase V) (l : Fn) : Req V → Prop
  | .peek => φ.stage = .idle ∨ (∃ s v, φ.stage = .got s v) ∨ φ.stage = .waiting
  | .acquire _ =>
    φ.call.Populates ∧ (φ.stage = .idle ∨ (∃ s, φ.stage = .seen s) ∨ φ.stage = .marked)
  | .setState state =>
    state = .stale ∧
      ((∃ s, φ.stage = .seen s ∧ s.state = .ready ∧ φ.call.Reads) ∨
        ∃ s, φ.stage = .refused false s ∧ s.state = .ready ∧ s.expired = true)
  | .publish g rung _ => ∃ claimed v, φ.stage = .filled claimed g rung v
  | .failWithError _ =>
    φ.stage.isPopulating = true ∨ (∃ s, φ.stage = .missed s ∧ s.state = .ready) ∨
      ∃ s, φ.stage = .refused true s ∧ s.state = .ready ∧ s.expired = true
  | .invalidate => φ.stage = .idle ∧ ∃ a, φ.call = .invalidate a
  | .release => φ.stage = .idle ∧ ∃ a, φ.call = .remove a
  | .prepare rung kind =>
    match kind with
    | .write =>
      (∃ a v, φ.call = .set a v) ∧
        (φ.stage = .idle ∨ (∃ s, φ.stage = .seen s) ∨ ∃ lost, φ.stage = .retrying lost)
    | .move => φ.call.Moves ∧ ∃ s, φ.stage = .seen s ∧ s.state = .ready ∧ s.tier ≠ rung
  | .commit token _ =>
    (∃ rung lost, φ.stage = .wrote token rung lost) ∨ ∃ s dst v, φ.stage = .cleared token s dst v
  | .abort token _ =>
    φ.stage = .undoing token ∨ (∃ rung lost, φ.stage = .beaten token rung lost) ∨
      (∃ rung e, φ.stage = .unwritten token rung e) ∨
      -- a rung of the move is not bound
      ∃ s dst, φ.stage = .moving token s dst
  | .abortProvenClean token e =>
    ∃ rung, φ.stage = .unwritten token rung e ∧ Manager.writeProvablyStoredNothing e = true
  | .evictionCandidate _ | .reserveEviction _ | .removeIfAddress _ _ =>
    φ.call.Evicts ∧ (φ.stage = .idle ∨ ∃ s, φ.stage = .seen s)
  | .tierGet rung =>
    (∃ s, φ.stage = .seen s ∧ s.state.isReadable = true ∧ (l = .get → s.state = .ready) ∧
        rung = s.tier ∧ φ.call.Reads) ∨
      (∃ again s, φ.stage = .refused again s ∧ s.state = .ready ∧ s.expired = false ∧
        rung = s.tier ∧ l = .getOrFetch) ∨
      φ.stage = .waiting ∨ (φ.stage = .failed ∧ l = .tryFallbackTier ∧ φ.call.FailsOpen) ∨
      ∃ token s dst, φ.stage = .moving token s dst ∧ rung = s.tier
  | .tierSet rung value _ =>
    (∃ claimed g, φ.stage = .populating claimed g (some value)) ∨
      (∃ token lost a, φ.stage = .writing token rung lost ∧ φ.call = .set a value) ∨
      ∃ token s, φ.stage = .carrying token s rung value
  | .tierRemove rung =>
    (φ.stage = .idle ∧ ∃ a, φ.call = .remove a) ∨
      (∃ token, φ.stage = .unwritten token rung .writeIndeterminate) ∨
      (∃ token s dst v, φ.stage = .copied token s dst v ∧ rung = s.tier) ∨
      ∃ token, φ.stage = .backing token rung
  | .tierContains rung => ∃ s, φ.stage = .seen s ∧ s.state = .ready ∧ rung = s.tier
  | .fetch =>
    l = .populateOnce ∧
      ((∃ claimed g v, φ.stage = .populating claimed g v) ∨
        (∃ s, φ.stage = .missed s ∧ s.state = .ready) ∨
        ∃ s, φ.stage = .refused true s ∧ s.state = .ready ∧ s.expired = true)
  | .register _ =>
    (∃ s, φ.stage = .seen s ∧ (s.state = .inFlight ∨ s.state = .prepared) ∧
        s.populationOwner = false ∧ φ.call.Reads) ∨
      ∃ again s, φ.stage = .refused again s ∧ (s.state = .inFlight ∨ s.state = .prepared)
  | .notified _ => φ.stage = .waiting
  | .sleep => ∃ claimed g v, φ.stage = .populating claimed g v
  | .yieldNow => ∃ token rung lost, φ.stage = .beaten token rung lost
  | .tierHealth _ =>
    (∃ s, φ.stage = .seen s) ∨ (φ.stage = .failed ∧ l = .tryFallbackTier ∧ φ.call.FailsOpen)
  | .record _ _ =>
    φ.stage ≠ .failed ∧ φ.stage ≠ .marked ∧ ∀ token s dst, φ.stage ≠ .moving token s dst

/-- A request that the stage allows, from inside `become_population_owner` only when the call is
there. -/
def ok (φ : Phase V) (l : Fn) (q : Req V) : Prop :=
  φ.allows l q ∧ (l.ofPopulation = true → φ.stage.Inside)

/-- What every world guarantees about an answer: `acquire` grants exactly on the states it
claims. -/
def Possible : (q : Req V) → q.Answer → Prop
  | .acquire _, .ok s =>
    (s.populationOwner = true ∧ s.state = .inFlight) ∨
      (s.populationOwner = false ∧ s.state.isClaimable = false)
  | _, _ => True

/-- Where an answer leads. -/
def next (st : Stage V) (l : Fn) : (q : Req V) → q.Answer → Stage V
  | .peek, s =>
    match st with
    | .idle => .seen s
    | .got _ v => if s.state = .ready then .checked v else .idle
    | st => st
  | .acquire _, a =>
    match a with
    | .error _ => .idle
    | .ok s =>
      if s.populationOwner then .populating true s.generation none
      else .refused (match st with | .marked => true | _ => false) s
  | .setState _, _ =>
    match st, l with
    | .refused _ _, _ => .marked
    | .seen _, .get => .idle
    | st, _ => st
  | .publish _ _ _, a =>
    match a, st with
    | .ok _, .filled _ _ _ v => .served v
    | .error _, .filled claimed g _ v => .populating claimed g (some v)
    | _, st => st
  | .failWithError _, _ => .failed
  | .prepare rung kind, a =>
    match a, kind, st with
    | .error _, _, _ => .idle
    | .ok token, .write, .retrying lost => .writing token rung lost
    | .ok token, .write, _ => .writing token rung 0
    | .ok token, .move, .seen s => .moving token s rung
    | .ok token, .move, _ => .undoing token
  | .commit _ _, a =>
    match a with
    | .ok _ => .committed
    | .error e =>
      match st with
      | .wrote token rung lost =>
        if e = .staleGeneration then .beaten token rung lost else .backing token rung
      | .cleared token _ dst _ => .backing token dst
      | st => st
  | .abort _ _, _ =>
    match st with
    | .beaten _ _ lost => .retrying (lost + 1)
    | _ => .idle
  | .abortProvenClean _ _, _ => .idle
  | .tierGet _, a =>
    match st, a with
    | .seen s, .ok v => if l = .get then .got s v else .seen s
    | .seen s, .error _ => if l = .get then .idle else .seen s
    | .refused _ s, .ok none => .missed s
    | .refused _ _, .ok (some v) => .served v
    | .refused _ _, .error _ => .idle
    | .moving token s dst, .ok (some v) => .carrying token s dst v
    | .moving token _ _, _ => .undoing token
    | st, _ => st
  | .tierSet rung v _, a =>
    match st, a with
    | .populating claimed g _, .ok _ => .filled claimed g rung v
    | .writing token rung lost, .ok _ => .wrote token rung lost
    | .writing token rung _, .error e => .unwritten token rung e
    | .carrying token s dst v, .ok _ => .copied token s dst v
    | .carrying token _ _ _, .error _ => .undoing token
    | st, _ => st
  | .tierRemove _, _ =>
    match st with
    | .copied token s dst v => .cleared token s dst v
    | .backing token _ => .undoing token
    | st => st
  | .fetch, a =>
    match st with
    | .missed s | .refused _ s => .populating false s.generation a.toOption
    | .populating claimed g _ => .populating claimed g a.toOption
    | st => st
  | .register _, _ => .waiting
  | _, _ => st

theorem next_prepare_token (st : Stage V) (l : Fn) (rung : TierId) (kind : IntentKind)
    (token : CommitToken) : (next st l (.prepare rung kind) (.ok token)).token = some token := by
  cases kind <;> cases st <;> rfl

/-- How a call may end. A value that is served was checked, or waited for; a write that has begun
was committed, or has lost every race. -/
@[simp] def Final (φ : Phase V) (r : Option (Reply V)) : Prop :=
  φ.stage.Settled ∧
    (∀ x, r = some (.read (.ok (some x))) →
      φ.stage = .checked (some x) ∨ φ.stage = .waiting) ∧
    (∀ x, r = some (.fetched (.ok x)) →
      φ.stage = .served x ∨ φ.stage = .waiting ∨ (φ.stage = .failed ∧ φ.call.FailsOpen)) ∧
    ∀ a v, φ.call = .set a v → r ≠ none →
      (r = some (.done (.ok ())) ↔ φ.stage = .committed) ∧
        ∀ lost, φ.stage = .retrying lost → lost = Manager.maxCommitAttempts

end Phase

/-- The protocol of the manager's calls. -/
def protocol (V : Type) : Discipline (Phase V) Fn (Req V) Req.Answer where
  ok := Phase.ok
  tr φ l q a φ' := Phase.Possible q a ∧ φ' = ⟨φ.call, Phase.next φ.stage l q a⟩
  cancel φ := ⟨φ.call, φ.stage.cancel⟩

namespace Phase

variable {R : Type} {c : Call V} {st : Stage V} {Dn : Fn → Phase V → Prop}

theorem wp_req (l : Fn) (q : Req V) (k : q.Answer → Step V R) (Post : Phase V → R → Prop) :
    (Prog.req l q none k).wp (protocol V) Dn Post ⟨c, st⟩ ↔
      ok ⟨c, st⟩ l q ∧
        ∀ a, Possible q a → (k a).wp (protocol V) Dn Post ⟨c, next st l q a⟩ := by
  simp only [Prog.wp_req, protocol, reduceCtorEq, false_implies, implies_true, and_true]
  refine and_congr_right fun _ => forall_congr' fun a => ?_
  constructor
  · intro h ha
    exact h _ ⟨ha, rfl⟩
  · rintro h φ' ⟨ha, rfl⟩
    exact h ha

theorem wp_susp (l : Fn) (q : Req V) (k : q.Answer → Step V R) (Post : Phase V → R → Prop) :
    (Prog.req l q (some []) k).wp (protocol V) Dn Post ⟨c, st⟩ ↔
      ok ⟨c, st⟩ l q ∧ Dn l ⟨c, st.cancel⟩ ∧
        ∀ a, Possible q a → (k a).wp (protocol V) Dn Post ⟨c, next st l q a⟩ ∧
          Dn l ⟨c, (next st l q a).cancel⟩ := by
  simp only [Prog.wp_req, protocol]
  refine and_congr_right fun _ => ?_
  constructor
  · rintro ⟨h, hd⟩
    obtain ⟨hd0, hd1⟩ := hd [] rfl
    exact ⟨hd0, fun a ha => ⟨h a _ ⟨ha, rfl⟩, hd1 a _ ⟨ha, rfl⟩⟩⟩
  · rintro ⟨hd, h⟩
    refine ⟨?_, ?_⟩
    · rintro a φ' ⟨ha, rfl⟩
      exact (h a ha).1
    · rintro cs ⟨⟩
      refine ⟨hd, ?_⟩
      rintro a φ' ⟨ha, rfl⟩
      exact (h a ha).2

end Phase

namespace Manager

open Phase

variable {c : Call V} {Dn : Fn → Phase V → Prop}

/-! ## Waiting and reading -/

theorem waitForPopulation_wp {st : Stage V} {snapshot : ControlSnapshot}
    (hok : ok ⟨c, st⟩ .waitForPopulation (.register snapshot.notify))
    (hDn : ∀ l, Dn l ⟨c, .waiting⟩) :
    (waitForPopulation snapshot).wp (protocol V) Dn (fun φ _ => φ = ⟨c, .waiting⟩) ⟨c, st⟩ := by
  simp only [waitForPopulation, call, await, Prog.req_bind, Prog.ret_bind, wp_req]
  refine ⟨hok, fun epoch _ => ⟨by simp [ok, allows, next], fun now _ => ?_⟩⟩
  simp [wp_susp, ok, allows, next, hDn]

theorem waitAndGet_wp {tiers : ℕ} {st : Stage V} {snapshot : ControlSnapshot}
    (hok : ok ⟨c, st⟩ .waitForPopulation (.register snapshot.notify))
    (hDn : ∀ l, Dn l ⟨c, .waiting⟩) :
    (waitAndGet tiers snapshot).wp (protocol V) Dn (fun φ _ => φ = ⟨c, .waiting⟩) ⟨c, st⟩ := by
  simp only [waitAndGet, call, noTelemetry_eq, await, Prog.req_bind, Prog.ret_bind, Prog.wp_bind]
  refine Prog.wp_mono ?_ (waitForPopulation_wp hok hDn)
  rintro φ r rfl
  cases r with
  | error e => simp
  | ok u =>
    simp only [wp_req]
    refine ⟨by simp [ok, allows], fun after _ => ?_⟩
    cases after.lastError with
    | some e => simp [next]
    | none =>
      simp only [Prog.wp_ite, Prog.wp_pure, wp_susp]
      refine ⟨fun _ => by simp [next], fun _ => ⟨fun _ => by simp [next], fun _ => ?_⟩⟩
      refine ⟨by simp [ok, allows, next], by simp [next, hDn], fun a _ => ⟨?_, by simp [next, hDn]⟩⟩
      rcases a with e | _ | v <;> simp [next]

theorem get_wp (tiers : ℕ) (a : Args) :
    (Manager.get tiers a).wp (protocol V) (fun _ φ => Final φ none)
      (fun φ r => Final φ (some (.read r))) ⟨.get a, .idle⟩ := by
  unfold Manager.get
  cases a.admitEncoded with
  | error e => simp
  | ok d =>
    simp only [call, noTelemetry_eq, await, Prog.req_bind, Prog.ret_bind, wp_req, Prog.wp_ite,
      wp_susp, Prog.wp_pure, Prog.wp_bind]
    refine ⟨by simp [ok, allows], fun s _ => ⟨fun hs => ?_, fun _ => ⟨fun hs => ?_, fun _ => ?_⟩⟩⟩
    · -- the fast path: read the rung, then look at the entry again
      refine ⟨fun _ => by simp [next], fun _ => ?_⟩
      refine ⟨by simp [ok, allows, next, hs.1, EntryState.isReadable, Call.Reads], by simp [next],
        fun a _ => ?_⟩
      rcases a with e | v
      · simp [next, ok, allows]
      · simp only [wp_req, Prog.wp_ite, Prog.wp_pure]
        refine ⟨⟨by simp [ok, allows, next], fun _ _ => ?_⟩, by simp [next]⟩
        refine ⟨by simp [ok, allows, next], fun after _ => ⟨fun h => ?_, fun h => ?_⟩⟩
        · cases v <;> simp [next, h]
        · simp [next, h]
    · exact ⟨by simp [ok, allows, next, hs, Call.Reads], by simp [next]⟩
    · refine ⟨fun hw => ?_, fun _ => by simp [next]⟩
      -- the wait arm
      refine Prog.wp_mono ?_ (waitForPopulation_wp (by simp [ok, allows, next, hw.1, hw.2, Call.Reads])
        (by simp))
      rintro φ r rfl
      cases r with
      | error e => simp
      | ok u =>
        simp only [wp_req]
        refine ⟨by simp [ok, allows], fun after _ => ?_⟩
        cases after.lastError with
        | some e => simp [next]
        | none =>
          simp only [Prog.wp_ite, Prog.wp_pure, wp_susp, wp_req]
          refine ⟨fun _ => by simp [next], fun _ => ⟨fun _ => by simp [next], fun _ => ?_⟩⟩
          simp [ok, allows, next]

theorem exists_wp (tiers : ℕ) (a : Args) :
    (Manager.exists tiers a).wp (protocol V) (fun _ φ => Final φ none)
      (fun φ r => Final φ (some (.found r))) ⟨.exists a, .idle⟩ := by
  unfold Manager.exists
  cases a.admitKey with
  | error e => simp
  | ok d =>
    simp only [call, await, Prog.req_bind, Prog.ret_bind, wp_req, Prog.wp_ite, wp_susp,
      Prog.wp_pure]
    refine ⟨by simp [ok, allows], fun s _ => ⟨fun _ => by simp [next], fun hs => ?_⟩⟩
    refine ⟨fun _ => by simp [next], fun _ => ?_⟩
    simp only [not_not] at hs
    simp [ok, allows, next, hs]

/-! ## Populating -/

/-- The stages in which a call enters `become_population_owner` for a generation. -/
def Entering (g : Generation) (st : Stage V) : Prop :=
  (∃ claimed v, st = .populating claimed g v) ∨
    (∃ s, st = .missed s ∧ s.state = .ready ∧ s.generation = g) ∨
    ∃ s, st = .refused true s ∧ s.state = .ready ∧ s.expired = true ∧ s.generation = g

/-- The stages of a population, from before its first fetch to its publication. -/
def Owning (g : Generation) (st : Stage V) : Prop :=
  Entering g st ∨ ∃ claimed rung v, st = .filled claimed g rung v

theorem ok_fetch_of_entering {g : Generation} {st : Stage V} (h : Entering g st) :
    ok ⟨c, st⟩ .populateOnce .fetch := by
  rcases h with ⟨b, v, rfl⟩ | ⟨s, rfl, hs, -⟩ | ⟨s, rfl, hs, he, -⟩
  · simp [ok, allows]
  · simp [ok, allows, hs]
  · simp [ok, allows, hs, he]

theorem ok_fail_of_owning {g : Generation} {st : Stage V} (h : Owning g st) (l : Fn)
    (e : CacheError) : ok ⟨c, st⟩ l (.failWithError e) := by
  rcases h with (⟨b, v, rfl⟩ | ⟨s, rfl, hs, -⟩ | ⟨s, rfl, hs, he, -⟩) | ⟨b, rung, v, rfl⟩
  · simp [ok, allows]
  · simp [ok, allows, hs]
  · simp [ok, allows, hs, he]
  · simp [ok, allows]

theorem token_of_entering {g : Generation} {st : Stage V} (h : Entering g st) : st.token = none := by
  rcases h with ⟨b, v, rfl⟩ | ⟨s, rfl, -⟩ | ⟨s, rfl, -⟩ <;> rfl

theorem next_fetch_of_entering {g : Generation} {st : Stage V} (h : Entering g st)
    (r : Except CacheError V) :
    ∃ claimed, next st .populateOnce .fetch r = .populating claimed g r.toOption := by
  rcases h with ⟨b, v, rfl⟩ | ⟨s, rfl, -, rfl⟩ | ⟨s, rfl, -, -, rfl⟩ <;> simp [next]

/-- How an attempt ends: published, or back where it began. -/
def Attempted (c : Call V) (g : Generation) (φ : Phase V) : Except CacheError V → Prop
  | .ok v => φ = ⟨c, .served v⟩
  | .error _ => ∃ claimed v, φ = ⟨c, .populating claimed g v⟩

theorem populateOnce_wp {tiers : ℕ} {a : Args} {decision : PolicyDecision} {g : Generation}
    {st : Stage V} (h : Entering g st) (hDn : ∀ l st, Owning g st → Dn l ⟨c, st⟩) :
    (populateOnce tiers a decision g).wp (protocol V) Dn (Attempted c g) ⟨c, st⟩ := by
  have hpop : ∀ l b v, Dn l ⟨c, .populating b g v⟩ :=
    fun l b v => hDn l _ (Or.inl (Or.inl ⟨b, v, rfl⟩))
  simp only [populateOnce, call, noTelemetry_eq, await, Prog.req_bind, Prog.ret_bind, wp_susp]
  refine ⟨ok_fetch_of_entering h, ?_, fun r _ => ?_⟩
  · rw [Stage.cancel_of_none (token_of_entering h)]
    exact hDn _ _ (Or.inl h)
  obtain ⟨b, hb⟩ := next_fetch_of_entering h r
  rw [hb]
  refine ⟨?_, hpop _ b _⟩
  cases r with
  | error e => simp [Attempted]
  | ok value =>
    cases nearestBoundRung tiers decision.tier with
    | none => simp [Attempted]
    | some rung =>
      simp only [wp_susp, wp_req]
      refine ⟨by simp [ok, allows, Except.toOption], hpop _ b _, fun result _ => ?_⟩
      cases result with
      | error e =>
        exact ⟨⟨by simp [ok, allows, next], fun _ _ => by simp [next, Attempted]⟩, hpop _ b _⟩
      | ok u =>
        refine ⟨⟨by simp [ok, allows, next], fun _ _ => ?_⟩, hDn _ _ (Or.inr ⟨b, rung, value, rfl⟩)⟩
        simp only [wp_req]
        refine ⟨by simp [ok, allows, next], fun p _ => ?_⟩
        cases p <;> simp [next, Attempted]

theorem populateAttempts_wp {tiers : ℕ} {a : Args} {decision : PolicyDecision} {g : Generation}
    {retries : ℕ} {st : Stage V} (h : Entering g st)
    (hDn : ∀ l st, Owning g st → Dn l ⟨c, st⟩) :
    (populateAttempts tiers a decision g retries).wp (protocol V) Dn (Attempted c g) ⟨c, st⟩ := by
  induction retries generalizing st with
  | zero => exact populateOnce_wp h hDn
  | succ retries ih =>
    simp only [populateAttempts, Prog.wp_bind]
    refine Prog.wp_mono ?_ (populateOnce_wp h hDn)
    intro φ r hr
    cases r with
    | ok v => simpa using hr
    | error e =>
      obtain ⟨b, v, rfl⟩ := hr
      simp only [await, noTelemetry_eq, Prog.req_bind, Prog.ret_bind, Prog.wp_ite, wp_susp,
        Prog.wp_pure]
      refine ⟨fun _ => ?_, fun _ => ⟨b, v, rfl⟩⟩
      have hpop : ∀ l, Dn l ⟨c, .populating b g v⟩ :=
        fun l => hDn l _ (Or.inl (Or.inl ⟨b, v, rfl⟩))
      exact ⟨by simp [ok, allows], hpop _, fun _ _ => ⟨ih (Or.inl ⟨b, v, rfl⟩), hpop _⟩⟩

theorem scanRungs_wp {tiers : ℕ} {cause : CacheError} {rungs : List TierId} (hopen : c.FailsOpen)
    (hDn : ∀ l, Dn l ⟨c, .failed⟩) :
    (scanRungs tiers cause rungs).wp (protocol V) Dn (fun φ _ => φ = ⟨c, .failed⟩)
      ⟨c, .failed⟩ := by
  induction rungs with
  | nil => simp [scanRungs]
  | cons rung rungs ih =>
    simp only [scanRungs, call, noTelemetry_eq, await, Prog.req_bind, Prog.ret_bind, Prog.wp_ite,
      wp_req, wp_susp]
    refine ⟨fun _ => ih, fun _ => ⟨by simp [ok, allows, hopen], fun n _ => ⟨fun _ => ih, fun _ => ?_⟩⟩⟩
    refine ⟨by simp [ok, allows, next, hopen], hDn _, fun r _ => ⟨?_, hDn _⟩⟩
    rcases r with e | _ | v
    · exact ih
    · exact ih
    · simp [next]

/-- How a population ends: published, or failed, with a value only from an open fallback. -/
def Owned (c : Call V) (φ : Phase V) (r : Except CacheError V) : Prop :=
  (∃ v, r = .ok v ∧ φ = ⟨c, .served v⟩) ∨ (φ = ⟨c, .failed⟩ ∧ (c.FailsOpen ∨ ∃ e, r = .error e))

theorem becomePopulationOwner_wp {tiers : ℕ} {a : Args} {decision : PolicyDecision}
    {g : Generation} {st : Stage V} (h : Entering g st)
    (hopen : decision.failMode = .open → c.FailsOpen) (hDn : ∀ l, Dn l ⟨c, .failed⟩) :
    (becomePopulationOwner tiers a decision g).wp (protocol V) Dn (Owned c) ⟨c, st⟩ := by
  simp only [becomePopulationOwner, Prog.wp_bind, Prog.wp_guarded, noTelemetry_eq]
  refine Prog.wp_mono ?_ (populateAttempts_wp h fun l st hst => ?_)
  · intro φ r hr
    cases r with
    | ok v => exact Or.inl ⟨v, rfl, hr⟩
    | error e =>
      obtain ⟨b, v, rfl⟩ := hr
      simp only [call, Prog.req_bind, Prog.ret_bind, Prog.wp_ite, wp_req, Prog.wp_pure,
        tryFallbackTier]
      have hfail : ∀ e, Owned c ⟨c, .failed⟩ (.error e) := fun e => Or.inr ⟨rfl, Or.inr ⟨e, rfl⟩⟩
      refine ⟨by simp [ok, allows], fun _ _ => ⟨fun _ => hfail _, fun _ => ⟨fun ho => ?_, fun _ => ?_⟩⟩⟩
      · exact Prog.wp_mono (fun _ _ h => Or.inr ⟨h, Or.inl (hopen ho)⟩) (scanRungs_wp (hopen ho) hDn)
      · exact hfail _
  · -- a dropped population fails the entry
    refine ⟨ok_fail_of_owning hst l .cancelled, ?_⟩
    rintro a φ' ⟨-, rfl⟩
    exact hDn l

/-- A call ends with nothing left to release. -/
def Ends (c : Call V) (φ : Phase V) : Prop := φ.call = c ∧ φ.stage.Settled

/-- How `get_or_fetch` ends. -/
def Fetched (c : Call V) (φ : Phase V) (r : Except CacheError V) : Prop :=
  Ends c φ ∧ ∀ x, r = .ok x →
    φ.stage = .served x ∨ φ.stage = .waiting ∨ (φ.stage = .failed ∧ c.FailsOpen)

theorem fetched_of_owned {φ : Phase V} {r : Except CacheError V} (h : Owned c φ r) :
    Fetched c φ r := by
  rcases h with ⟨v, rfl, rfl⟩ | ⟨rfl, ho | ⟨e, rfl⟩⟩
  · simp [Fetched, Ends]
  · simp [Fetched, Ends, ho]
  · simp [Fetched, Ends]

theorem joinOrPopulate_wp {tiers : ℕ} {a : Args} {decision : PolicyDecision}
    {s : ControlSnapshot} {again : Step V (Except CacheError V)} {st : Stage V}
    (hst : (s.populationOwner = true ∧ s.state = .inFlight ∧ st = .populating true s.generation none) ∨
      (s.populationOwner = false ∧ (∃ b, st = .refused b s ∧
        (s.state = .inFlight ∨ s.state = .prepared ∨ b = true ∧ s.state = .ready ∧ s.expired = true)) ∨
      s.populationOwner = false ∧ s.state = .ready ∧ st = .missed s))
    (hopen : decision.failMode = .open → c.FailsOpen)
    (hDn : ∀ l st, st.Settled → Dn l ⟨c, st⟩) :
    (joinOrPopulate tiers a decision s again).wp (protocol V) Dn (Fetched c) ⟨c, st⟩ := by
  have hwait : ∀ l, Dn l ⟨c, .waiting⟩ := fun l => hDn l _ (by simp)
  have hfail : ∀ l, Dn l ⟨c, .failed⟩ := fun l => hDn l _ (by simp)
  have howner : ∀ (st : Stage V), Entering s.generation st →
      (becomePopulationOwner tiers a decision s.generation).wp (protocol V) Dn (Fetched c) ⟨c, st⟩ :=
    fun st hst =>
      Prog.wp_mono (fun _ _ => fetched_of_owned) (becomePopulationOwner_wp hst hopen hfail)
  simp only [joinOrPopulate, Prog.wp_ite]
  rcases hst with ⟨ho, hs, rfl⟩ | ⟨ho, b, rfl, hs⟩ | ⟨ho, hs, rfl⟩
  · simp only [ho, hs]
    simpa using howner _ (Or.inl ⟨true, none, rfl⟩)
  · -- a refused claim joins, except behind an entry that expired again
    have hjoin (hs : s.state = .inFlight ∨ s.state = .prepared) :
        (waitAndGet tiers s).wp (protocol V) Dn (Fetched c) ⟨c, .refused b s⟩ :=
      Prog.wp_mono (by rintro _ _ rfl; simp [Fetched, Ends])
        (waitAndGet_wp ⟨Or.inr ⟨b, s, rfl, hs⟩, (by simp)⟩ hwait)
    rcases hs with hs | hs | ⟨rfl, hs, he⟩
    · simpa [ho, hs] using hjoin (Or.inl hs)
    · simpa [ho, hs] using hjoin (Or.inr hs)
    · simpa [ho, hs] using howner _ (Or.inr (Or.inr ⟨s, rfl, hs, he, rfl⟩))
  · simpa [ho, hs] using howner _ (Or.inr (Or.inl ⟨s, rfl, hs, rfl⟩))

/-- The stage an `acquire` leads to, by its answer. -/
def Acquired (b : Bool) (s : ControlSnapshot) (st : Stage V) : Prop :=
  (s.populationOwner = true ∧ s.state = .inFlight ∧ st = .populating true s.generation none) ∨
    (s.populationOwner = false ∧ s.state.isClaimable = false ∧ st = .refused b s)

theorem acquired_of_possible (st : Stage V) (f : Fn) {tier : TierId} {s : ControlSnapshot}
    {b : Bool} (h : Possible (V := V) (.acquire tier) (.ok s))
    (hb : (match st with | .marked => true | _ => false) = b) :
    Acquired b s (next st f (.acquire tier) (.ok s)) := by
  rcases h with ⟨ho, hs⟩ | ⟨ho, hs⟩
  · exact Or.inl ⟨ho, hs, by simp [next, ho]⟩
  · refine Or.inr ⟨ho, hs, ?_⟩
    subst hb
    cases st <;> simp [next, ho]

theorem fetchFrom_wp {tiers : ℕ} {a : Args} {decision : PolicyDecision} {s : ControlSnapshot}
    {again : Step V (Except CacheError V)} {st : Stage V} {b : Bool} (hst : Acquired b s st)
    (hb : b = false → ¬(s.state = .ready ∧ s.expired = true))
    (hopen : decision.failMode = .open → c.FailsOpen)
    (hDn : ∀ l st, st.Settled → Dn l ⟨c, st⟩) :
    (fetchFrom tiers a decision s again).wp (protocol V) Dn (Fetched c) ⟨c, st⟩ := by
  simp only [fetchFrom, await, noTelemetry_eq, Prog.req_bind, Prog.ret_bind, Prog.wp_ite,
    Prog.wp_pure]
  rcases hst with ⟨ho, hs, rfl⟩ | ⟨ho, hs, rfl⟩
  · refine ⟨fun h => by simp [hs] at h, fun _ => ?_⟩
    exact joinOrPopulate_wp (Or.inl ⟨ho, hs, rfl⟩) hopen hDn
  · refine ⟨fun hr => ⟨fun _ => ?_, fun _ => ?_⟩, fun hr => ?_⟩
    · simp [Fetched, Ends]
    · simp only [wp_susp]
      refine ⟨by simp [ok, allows, hr.1, hr.2], hDn _ _ (by simp), fun r _ => ?_⟩
      rcases r with e | _ | v
      · exact ⟨by simp [Fetched, Ends, next], hDn _ _ (by simp [next])⟩
      · exact ⟨joinOrPopulate_wp (Or.inr (Or.inr ⟨ho, hr.1, rfl⟩)) hopen hDn,
          hDn _ _ (by simp [next])⟩
      · exact ⟨by simp [Fetched, Ends, next], hDn _ _ (by simp [next])⟩
    · refine joinOrPopulate_wp (Or.inr (Or.inl ⟨ho, b, rfl, ?_⟩)) hopen hDn
      cases h : s.state with
      | ready =>
        have he : s.expired = true := by simpa [h] using hr
        have hbt : b = true := by
          by_contra hf
          exact hb (by simpa using hf) ⟨h, he⟩
        simp [hbt, he]
      | inFlight => simp
      | prepared => simp
      | absent => simp [h, EntryState.isClaimable] at hs
      | stale => simp [h, EntryState.isClaimable] at hs
      | failed => simp [h, EntryState.isClaimable] at hs

theorem fetchAttempts_wp {tiers : ℕ} {a : Args} {decision : PolicyDecision} {attempts : ℕ}
    (hc : c.Populates)
    (hopen : decision.failMode = .open → c.FailsOpen)
    (hDn : ∀ l st, st.Settled → Dn l ⟨c, st⟩) :
    (fetchAttempts tiers a decision attempts).wp (protocol V) Dn (Fetched c) ⟨c, .idle⟩ := by
  cases attempts with
  | zero => simp [fetchAttempts, Fetched, Ends]
  | succ attempts =>
    simp only [fetchAttempts, call, noTelemetry_eq, Prog.req_bind, Prog.ret_bind, wp_req]
    refine ⟨by simp [ok, allows, hc], fun r hr => ?_⟩
    cases r with
    | error e => simp [Fetched, Ends, next]
    | ok first =>
      have hacq := acquired_of_possible .idle .getOrFetch hr rfl
      simp only [Prog.wp_ite, wp_req]
      refine ⟨fun he => ?_, fun he => fetchFrom_wp hacq (fun _ => he) hopen hDn⟩
      -- an expired entry was refused: mark it stale and claim again
      rcases hacq with ⟨-, hs, -⟩ | ⟨-, -, hst⟩
      · simp [hs] at he
      · rw [hst]
        refine ⟨by simp [ok, allows, he.1, he.2], fun _ _ => ⟨by simp [ok, allows, next, hc], fun r hr => ?_⟩⟩
        cases r with
        | error e => simp [Fetched, Ends, next]
        | ok snapshot =>
          exact fetchFrom_wp (acquired_of_possible .marked _ hr rfl) (by simp) hopen hDn

theorem getOrFetch_wp (tiers : ℕ) (a : Args) :
    (getOrFetch tiers a).wp (protocol V) (fun _ φ => Final φ none)
      (fun φ r => Final φ (some (.fetched r))) ⟨.getOrFetch a, .idle⟩ := by
  unfold getOrFetch
  cases hd : a.admitPopulation with
  | error e => simp
  | ok decision =>
    have hopen : decision.failMode = .open → (Call.getOrFetch a : Call V).FailsOpen := by
      rw [Args.eq_of_admitPopulation hd]
      exact id
    refine Prog.wp_mono ?_ (fetchAttempts_wp trivial hopen fun l st hst => ?_)
    · rintro ⟨c, st⟩ r ⟨⟨rfl, hst⟩, hr⟩
      exact ⟨hst, (by simp), fun x hx => hr x (by simpa using hx), (by simp)⟩
    · exact ⟨hst, (by simp), (by simp), (by simp)⟩

theorem readCurrent_wp {tiers : ℕ} {s : ControlSnapshot} (hc : c.Reads)
    (hDn : ∀ l, Dn l ⟨c, .seen s⟩) :
    (readCurrent tiers s).wp (protocol V) Dn (fun φ _ => φ = ⟨c, .seen s⟩) ⟨c, .seen s⟩ := by
  simp only [readCurrent, await, Prog.req_bind, Prog.ret_bind, Prog.wp_ite, Prog.wp_pure, wp_susp]
  refine ⟨fun _ => trivial, fun h => ⟨by simpa [ok, allows, hc] using fun h' => h (Or.inl h'), hDn _, ?_⟩⟩
  intro r _
  cases r <;> exact ⟨rfl, hDn _⟩

theorem revalidate_wp {tiers : ℕ} {a : Args} {decision : PolicyDecision} {current : Option V}
    {s : ControlSnapshot} (hc : c.Populates)
    (hDn : ∀ l st, st.Settled → Dn l ⟨c, st⟩) :
    (revalidate tiers a decision current).wp (protocol V) Dn (fun φ _ => Ends c φ)
      ⟨c, .seen s⟩ := by
  simp only [revalidate, call, noTelemetry_eq, Prog.req_bind, Prog.ret_bind, wp_req]
  refine ⟨by simp [ok, allows, hc], fun r hr => ?_⟩
  cases r with
  | error e => simp [Ends, next]
  | ok snapshot =>
    have hacq := acquired_of_possible (.seen s) .refreshDetailed hr rfl
    simp only [Prog.wp_ite, Prog.wp_pure, Prog.wp_bind]
    rcases hacq with ⟨ho, -, hst⟩ | ⟨ho, -, hst⟩
    · simp only [hst, ho]
      refine ⟨by simp, fun _ => ?_⟩
      refine Prog.wp_mono ?_ (becomePopulationOwner_wp (Or.inl ⟨true, none, rfl⟩) (by simp)
        fun l => hDn l _ (by simp))
      rintro φ r (⟨v, rfl, rfl⟩ | ⟨rfl, -⟩)
      · simp [Ends]
      · cases r <;> simp [Ends]
    · simp [hst, ho, Ends]

theorem refreshDetailed_wp (tiers : ℕ) (a : Args) :
    (refreshDetailed tiers a).wp (protocol V) (fun _ φ => Final φ none)
      (fun φ r => Final φ (some (.refreshed r))) ⟨.refresh a, .idle⟩ := by
  have hend : ∀ (φ : Phase V) r, Ends (.refresh a) φ → Final φ (some (.refreshed r)) := by
    rintro ⟨c, st⟩ r ⟨rfl, hst⟩
    simpa using hst
  have hDn : ∀ (l : Fn) (st : Stage V), st.Settled → Final ⟨.refresh a, st⟩ none :=
    fun l st hst => by simpa using hst
  unfold refreshDetailed
  cases a.admitPopulation with
  | error e => simp
  | ok decision =>
    simp only [call, noTelemetry_eq, Prog.req_bind, Prog.ret_bind, wp_req, Prog.wp_bind]
    refine ⟨by simp [ok, allows], fun s _ => ?_⟩
    refine Prog.wp_mono ?_ (readCurrent_wp trivial (by simp))
    rintro φ current rfl
    simp only [Prog.wp_ite, wp_req]
    refine ⟨fun hs => ⟨by simp [ok, allows, hs.1, Call.Reads], fun _ _ => ?_⟩, fun _ => ?_⟩
    · exact Prog.wp_mono hend (revalidate_wp trivial hDn)
    · exact Prog.wp_mono hend (revalidate_wp trivial hDn)

/-! ## Writing -/

/-- Where a write may begin: nothing is held. -/
def Begins (st : Stage V) : Prop := st = .idle ∨ ∃ s, st = .seen s

theorem writeUnder_wp {a : Args} {value : V} {rung : TierId} {token : CommitToken} {lost : ℕ}
    {a' : Args} (hDn : Dn .set ⟨.set a' value, .undoing token⟩) :
    (writeUnder a value rung token).wp (protocol V) Dn
      (fun φ r => φ.call = .set a' value ∧ match r with
        | .committed => φ.stage = .committed
        | .lostRace => φ.stage = .beaten token rung lost
        | .uncommitted _ => φ.stage = .undoing token
        | .refused e => φ.stage = .unwritten token rung e)
      ⟨.set a' value, .writing token rung lost⟩ := by
  simp only [writeUnder, call, noTelemetry_eq, await, Prog.req_bind, Prog.ret_bind, wp_susp, wp_req]
  refine ⟨by simp [ok, allows], hDn, fun r _ => ?_⟩
  cases r with
  | error e =>
    refine ⟨⟨by simp [ok, allows, next], fun _ _ => ?_⟩, hDn⟩
    simp only [Prog.wp_ite, wp_susp, Prog.wp_pure]
    refine ⟨fun he => ?_, fun _ => by simp [next]⟩
    exact ⟨by simp [ok, allows, next, he], hDn, fun _ _ => ⟨by simp [next], hDn⟩⟩
  | ok u =>
    refine ⟨⟨by simp [ok, allows, next], fun _ _ => ?_⟩, hDn⟩
    simp only [wp_req]
    refine ⟨by simp [ok, allows, next], fun r _ => ?_⟩
    cases r with
    | ok u => simp [next]
    | error e =>
      simp only [Prog.wp_ite, wp_susp, Prog.wp_pure]
      refine ⟨fun he => by simp [next, he], fun he => ?_⟩
      exact ⟨by simp [ok, allows, next, he], by simpa [next, he] using hDn,
        fun _ _ => ⟨by simp [next, he], by simpa [next, he] using hDn⟩⟩

/-- Where a write may begin after so many lost races. -/
def Tries (lost : ℕ) (st : Stage V) : Prop := (lost = 0 ∧ Begins st) ∨ st = .retrying lost

/-- How a write may end: committed, beaten every time, or at a rung that refuses it. -/
def Written (φ : Phase V) : RungEnd → Prop
  | .finished r => φ.stage.Settled ∧ (r = .ok () ↔ φ.stage = .committed) ∧
      ∀ lost, φ.stage = .retrying lost → lost = maxCommitAttempts
  | .nextRung _ => Begins φ.stage

theorem writeAt_wp {a : Args} {value : V} {rung : TierId} {races lost : ℕ} {a' : Args}
    {st : Stage V} (hst : Tries lost st) (hn : lost + races = maxCommitAttempts)
    (hDn : ∀ l, Dn l ⟨.set a' value, .idle⟩) :
    (writeAt a value rung races).wp (protocol V) Dn
      (fun φ r => φ.call = .set a' value ∧ Written φ r) ⟨.set a' value, st⟩ := by
  -- the guard aborts the intent wherever the stretch is dropped
  have hguard : ∀ token, (protocol V).unwinds Dn .set [.abort token .cancelled]
      ⟨.set a' value, .undoing token⟩ := by
    intro token
    refine ⟨⟨Or.inl rfl, (by simp)⟩, ?_⟩
    rintro r φ' ⟨-, rfl⟩
    exact hDn .set
  induction races generalizing st lost with
  | zero =>
    rcases hst with ⟨rfl, -⟩ | rfl
    · cases hn
    · simpa [writeAt, Written] using hn
  | succ races ih =>
    rw [writeAt]
    simp only [call, noTelemetry_eq, Prog.req_bind, Prog.ret_bind, wp_req]
    have hnext : ok ⟨.set a' value, st⟩ .set (.prepare rung .write) ∧
        ∀ token, next st .set (.prepare rung .write) (.ok token) = .writing token rung lost := by
      rcases hst with ⟨rfl, rfl | ⟨s, rfl⟩⟩ | rfl <;> simp [ok, allows, next]
    refine ⟨hnext.1, fun r _ => ?_⟩
    cases r with
    | error e => simp [next, Written]
    | ok token =>
      rw [hnext.2]
      simp only [Prog.wp_bind, Prog.wp_guarded]
      refine Prog.wp_mono ?_ (writeUnder_wp (hguard token))
      rintro ⟨c, st⟩ r ⟨rfl, hr⟩
      cases r with
      | committed =>
        obtain rfl := hr
        simp [Written]
      | lostRace =>
        obtain rfl := hr
        cases races with
        | zero => simpa [wp_req, ok, allows, next, Written] using fun _ _ => hn
        | succ races =>
          simp only [await, Prog.wp_bind, Prog.wp_guarded, wp_susp, wp_req, Prog.wp_ret]
          refine ⟨by simp [ok, allows], hguard token, fun _ _ => ⟨?_, hguard token⟩⟩
          exact ⟨by simp [ok, allows, next], fun _ _ => ih (Or.inr rfl) (by omega)⟩
      | uncommitted e =>
        obtain rfl := hr
        simp [wp_req, ok, allows, next, Written]
      | refused e =>
        obtain rfl := hr
        simp only [abortRefused, call, Prog.wp_bind, Prog.wp_ite, wp_req, Prog.wp_pure, Prog.wp_ret]
        refine ⟨fun he => ⟨by simp [ok, allows, he], fun _ _ => ?_⟩,
          fun _ => ⟨by simp [ok, allows], fun _ _ => ?_⟩⟩
        · simp [next, Written, Begins]
        · simp [next, Written, Begins]

theorem walk_wp {tiers : ℕ} {a : Args} {value : V} {rungs : List TierId} {e : CacheError}
    {a' : Args} {st : Stage V} (hst : Begins st) (hDn : ∀ l, Dn l ⟨.set a' value, .idle⟩) :
    (walk tiers a value rungs e).wp (protocol V) Dn
      (fun φ r => φ.call = .set a' value ∧ Written φ r) ⟨.set a' value, st⟩ := by
  induction rungs generalizing st e with
  | nil => simpa [walk, Written] using hst
  | cons rung rungs ih =>
    simp only [walk, Prog.wp_ite, Prog.wp_bind]
    refine ⟨fun _ => ih hst, fun _ => Prog.wp_mono ?_ (writeAt_wp (Or.inl ⟨rfl, hst⟩) (Nat.zero_add _) hDn)⟩
    rintro ⟨c, st⟩ r ⟨rfl, hr⟩
    cases r with
    | finished r => exact ⟨rfl, hr⟩
    | nextRung e => exact ih hr

/-- Eviction touches no stage. -/
theorem tryEvictAtRung_wp {rung : TierId} {attempts : ℕ} {st : Stage V} (hc : c.Evicts)
    (hst : Begins st) :
    (tryEvictAtRung rung attempts).wp (protocol V) Dn (fun φ _ => φ = ⟨c, st⟩) ⟨c, st⟩ := by
  induction attempts with
  | zero => simp [tryEvictAtRung]
  | succ attempts ih =>
    simp only [tryEvictAtRung, call, Prog.req_bind, Prog.ret_bind, wp_req]
    refine ⟨⟨⟨hc, hst⟩, (by simp)⟩, fun candidate _ => ?_⟩
    cases candidate with
    | none => simp [next]
    | some address =>
      simp only [wp_req]
      refine ⟨⟨⟨hc, hst⟩, (by simp)⟩, fun reserved _ => ?_⟩
      cases reserved with
      | true =>
        simp only [wp_req]
        exact ⟨⟨⟨hc, hst⟩, (by simp)⟩, fun _ _ => rfl⟩
      | false => exact ih

theorem tryFreeSomewhere_wp {tiers : ℕ} {rungs : List TierId} {attempts : ℕ} {st : Stage V}
    (hc : c.Evicts) (hst : Begins st) :
    (tryFreeSomewhere tiers rungs attempts).wp (protocol V) Dn (fun φ _ => φ = ⟨c, st⟩)
      ⟨c, st⟩ := by
  induction rungs generalizing attempts with
  | nil => simp [tryFreeSomewhere]
  | cons rung rungs ih =>
    simp only [tryFreeSomewhere, Prog.wp_ite, Prog.wp_bind]
    refine ⟨fun _ => ih, fun _ => Prog.wp_mono ?_ (tryEvictAtRung_wp hc hst)⟩
    rintro φ ⟨freed, left⟩ rfl
    cases freed with
    | true => simp
    | false => exact ih

theorem setPasses_wp {tiers : ℕ} {a : Args} {value : V} {tier : TierId} {passes : ℕ}
    {e : CacheError} {a' : Args} {st : Stage V} (hst : Begins st)
    (hDn : ∀ l, Dn l ⟨.set a' value, .idle⟩) :
    (setPasses tiers a value tier passes e).wp (protocol V) Dn
      (fun φ r => φ.call = .set a' value ∧ Written φ (.finished r)) ⟨.set a' value, st⟩ := by
  have hsettled : ∀ (st : Stage V) e, Begins st →
      Written ⟨.set a' value, st⟩ (.finished (.error e)) := by
    rintro st e (rfl | ⟨s, rfl⟩) <;> simp [Written]
  induction passes generalizing st e with
  | zero => simpa [setPasses] using hsettled st _ hst
  | succ passes ih =>
    simp only [setPasses, Prog.wp_bind]
    refine Prog.wp_mono ?_ (walk_wp hst hDn)
    rintro ⟨c, st⟩ r ⟨rfl, hr⟩
    cases r with
    | finished r => exact ⟨rfl, hr⟩
    | nextRung e =>
      simp only [Prog.wp_ite, Prog.wp_bind, Prog.wp_pure]
      refine ⟨fun _ => Prog.wp_mono ?_ (tryFreeSomewhere_wp trivial hr), fun _ => ?_⟩
      · rintro φ freed rfl
        cases freed with
        | true => exact ih hr
        | false => exact ⟨rfl, hsettled st _ hr⟩
      · exact ⟨trivial, hsettled st _ hr⟩

theorem set_wp (tiers : ℕ) (a : Args) (value : V) :
    (set tiers a value).wp (protocol V) (fun _ φ => Final φ none)
      (fun φ r => Final φ (some (.done r))) ⟨.set a value, .idle⟩ := by
  unfold set
  cases a.admitWrite with
  | error e => simp
  | ok u =>
    simp only [call, noTelemetry_eq, Prog.req_bind, Prog.ret_bind, wp_req]
    refine ⟨by simp [ok, allows], fun s _ => ⟨by simp [ok, allows, next], fun failures _ => ?_⟩⟩
    cases Args.authorize (a.select (.fromSnapshot s failures)) with
    | error e => simp [next]
    | ok u =>
      simp only [Prog.wp_ite, Prog.wp_pure]
      refine ⟨fun _ => by simp [next], fun _ => ?_⟩
      refine Prog.wp_mono ?_ (setPasses_wp (Or.inr ⟨s, rfl⟩) (by simp))
      rintro ⟨c, st⟩ r ⟨rfl, hst, hr, hlost⟩
      exact ⟨hst, (by simp), (by simp), fun _ _ _ _ => ⟨by simpa using hr, hlost⟩⟩

theorem invalidate_wp (a : Args) :
    (invalidate a).wp (protocol V) (fun _ φ => Final φ none)
      (fun φ r => Final φ (some (.done r))) ⟨.invalidate a, .idle⟩ := by
  unfold invalidate
  cases a.admitKey with
  | error e => simp
  | ok d => simp [call, wp_req, ok, allows, next]

theorem removeFrom_wp {tiers : ℕ} {rungs : List TierId} {a : Args}
    (hDn : ∀ l, Dn l ⟨.remove a, .idle⟩) :
    (removeFrom tiers rungs).wp (protocol V) Dn (fun φ _ => φ = ⟨.remove a, .idle⟩)
      ⟨.remove a, .idle⟩ := by
  induction rungs with
  | nil => simp [removeFrom]
  | cons rung rungs ih =>
    simp only [removeFrom, await, Prog.req_bind, Prog.ret_bind, Prog.wp_ite, wp_susp]
    exact ⟨fun _ => ih, fun _ => ⟨by simp [ok, allows], hDn _, fun _ _ => ⟨ih, hDn _⟩⟩⟩

theorem remove_wp (tiers : ℕ) (a : Args) :
    (remove tiers a).wp (protocol V) (fun _ φ => Final φ none)
      (fun φ r => Final φ (some (.done r))) ⟨.remove a, .idle⟩ := by
  unfold remove
  cases a.admitKey with
  | error e => simp
  | ok d =>
    simp only [Prog.wp_bind]
    refine Prog.wp_mono ?_ (removeFrom_wp (by simp))
    rintro φ r rfl
    simp [call, wp_req, ok, allows, next]

/-! ## Moving -/

theorem moveUnder_wp {a : Args} {s : ControlSnapshot} {dst : TierId} {token : CommitToken}
    (hDn : Dn .moveEntry ⟨c, .undoing token⟩) :
    (moveUnder a s.tier dst token).wp (protocol V) Dn
      (fun φ r => φ.call = c ∧ match r with
        | none => φ.stage = .committed
        | some _ => φ.stage = .undoing token)
      ⟨c, .moving token s dst⟩ := by
  simp only [moveUnder, call, noTelemetry_eq, await, Prog.req_bind, Prog.ret_bind, wp_susp]
  refine ⟨by simp [ok, allows], hDn, fun r _ => ?_⟩
  rcases r with e | _ | v
  · exact ⟨by simp [next], hDn⟩
  · exact ⟨by simp [next], hDn⟩
  · refine ⟨?_, hDn⟩
    simp only [wp_susp, wp_req]
    refine ⟨by simp [ok, allows, next], hDn, fun r _ => ?_⟩
    cases r with
    | error e => exact ⟨by simp [ok, allows, next], hDn⟩
    | ok u =>
      refine ⟨⟨by simp [ok, allows, next], fun _ _ => ?_⟩, hDn⟩
      simp only [wp_susp, wp_req]
      refine ⟨by simp [ok, allows, next], hDn, fun r _ => ⟨⟨by simp [ok, allows, next], fun _ _ => ?_⟩, hDn⟩⟩
      refine ⟨by simp [ok, allows, next], fun r _ => ?_⟩
      cases r with
      | ok u => simp [next]
      | error e =>
        simp only [wp_susp]
        exact ⟨by simp [ok, allows, next], hDn, fun _ _ => ⟨by simp [next], hDn⟩⟩

theorem moveEntry_wp {tiers : ℕ} {a : Args} {s : ControlSnapshot} {dst : TierId}
    (hc : c.Moves) (hs : s.state = .ready) (hne : s.tier ≠ dst) (hDn : ∀ l, Dn l ⟨c, .idle⟩) :
    (moveEntry tiers a s.tier dst).wp (protocol V) Dn (fun φ _ => Ends c φ) ⟨c, .seen s⟩ := by
  have hguard : ∀ token, (protocol V).unwinds Dn .moveEntry [.abort token .cancelled]
      ⟨c, .undoing token⟩ := by
    intro token
    refine ⟨⟨Or.inl rfl, (by simp)⟩, ?_⟩
    rintro r φ' ⟨-, rfl⟩
    exact hDn .moveEntry
  simp only [moveEntry, call, noTelemetry_eq, Prog.req_bind, Prog.ret_bind, wp_req]
  refine ⟨by simp [ok, allows, hc, hs, hne], fun r _ => ?_⟩
  cases r with
  | error e => simp [Ends, next]
  | ok token =>
    simp only [Prog.wp_ite, Prog.wp_bind, Prog.wp_guarded, wp_req, Prog.wp_pure]
    refine ⟨fun _ => ⟨by simp [ok, allows, next], fun _ _ => by simp [Ends, next]⟩, fun _ => ?_⟩
    refine Prog.wp_mono ?_ (moveUnder_wp (hguard token))
    rintro ⟨c, st⟩ r ⟨rfl, hr⟩
    cases r with
    | none =>
      obtain rfl := hr
      simp [Ends]
    | some e =>
      obtain rfl := hr
      simp [wp_req, ok, allows, next, Ends]

theorem moveAlong_wp {tiers : ℕ} {a : Args} {f : Fn} {stays : TierId → Bool} {shift : ℕ → ℕ}
    (hsteps : Steps stays shift) (hc : c.Moves) (hf : f.ofPopulation = false) :
    (moveAlong tiers a f stays shift).wp (protocol V) (fun _ φ => Final φ none)
      (fun φ r => Final φ (some (.done r))) ⟨c, .idle⟩ := by
  have hset : ∀ a v, c ≠ .set a v := by
    rintro a v rfl
    exact hc
  simp only [moveAlong, call, noTelemetry_eq, Prog.req_bind, Prog.ret_bind, wp_req, Prog.wp_ite,
    Prog.wp_pure]
  refine ⟨⟨by simp [allows], by simp only [hf, Bool.false_eq_true, false_implies]⟩, fun s _ => ?_⟩
  refine ⟨fun _ => by simp [next, hset], fun hs => ?_⟩
  refine ⟨fun _ => by simp [next, hset], fun ht => ?_⟩
  obtain ⟨-, dst, hd, -, hne⟩ := hsteps s.tier (by simpa using ht)
  rw [hd]
  refine Prog.wp_mono ?_ (moveEntry_wp hc (by simpa using hs) hne.symm (by simp [hset]))
  rintro ⟨c, st⟩ r ⟨rfl, hst⟩
  simpa [hset] using hst

theorem promote_wp (tiers : ℕ) (a : Args) :
    (promote tiers a).wp (protocol V) (fun _ φ => Final φ none)
      (fun φ r => Final φ (some (.done r))) ⟨.promote a, .idle⟩ := by
  cases h : a.admitKey with
  | error e => simp [promote, h]
  | ok d =>
    rw [promote_eq h]
    exact moveAlong_wp promote_steps trivial rfl

theorem demote_wp (tiers : ℕ) (a : Args) :
    (demote tiers a).wp (protocol V) (fun _ φ => Final φ none)
      (fun φ r => Final φ (some (.done r))) ⟨.demote a, .idle⟩ := by
  cases h : a.admitKey with
  | error e => simp [demote, h]
  | ok d =>
    rw [demote_eq h]
    exact moveAlong_wp demote_steps trivial rfl

end Manager

/-- **Every call keeps to the protocol**, and ends with nothing left to release, on every path and
wherever it is dropped. -/
theorem Call.conforms (tiers : ℕ) (c : Call V) :
    (c.prog tiers).wp (protocol V) (fun _ φ => Phase.Final φ none)
      (fun φ r => Phase.Final φ (some r)) ⟨c, .idle⟩ := by
  cases c with
  | get a => exact (Prog.wp_map _ _ _ _).2 (Manager.get_wp tiers a)
  | getOrFetch a => exact (Prog.wp_map _ _ _ _).2 (Manager.getOrFetch_wp tiers a)
  | «exists» a => exact (Prog.wp_map _ _ _ _).2 (Manager.exists_wp tiers a)
  | set a value => exact (Prog.wp_map _ _ _ _).2 (Manager.set_wp tiers a value)
  | invalidate a => exact (Prog.wp_map _ _ _ _).2 (Manager.invalidate_wp a)
  | remove a => exact (Prog.wp_map _ _ _ _).2 (Manager.remove_wp tiers a)
  | refresh a => exact (Prog.wp_map _ _ _ _).2 (Manager.refreshDetailed_wp tiers a)
  | promote a => exact (Prog.wp_map _ _ _ _).2 (Manager.promote_wp tiers a)
  | demote a => exact (Prog.wp_map _ _ _ _).2 (Manager.demote_wp tiers a)
  | evict =>
    refine (Prog.wp_map _ _ _ _).2 (Prog.wp_mono ?_ (Manager.tryFreeSomewhere_wp trivial (Or.inl rfl)))
    rintro φ r rfl
    simp

end TheSix
