import TheSix.Planes.World
import TheSix.Sequential.Barrier
import TheSix.Lib.Tagged
import TheSix.Tier.Provenance

/-!
# Tenants on shared planes

Any number of clients of any tenants call the manager at once, each under its own context and with its
own key, on one control plane and one ladder. A request of a call reaches the planes under the key
that the call has framed with its tenant. `tenants` is that machine. A tier call may fail or time out,
and may then have taken effect all the same; the environment lets time pass, sweeps expired entries,
and settles intents that recovery has collected, at any address.

Every value that a call stores was brought by it, or read under its key, and every value it returns
was heard under its key (`Attends`). So what the rungs hold for a key came with the key, and no tenant
is handed another's value (`value_of_same_tenant_and_key`).
-/

namespace TheSix

open Coroutine

/-! ## The machine -/

/-- The operations of a client; `set` brings a value. -/
inductive ClientOp (V : Type)
  | get
  | getOrFetch
  | exists
  | set (value : V)
  | invalidate
  | remove
  | refresh
  | promote
  | demote
  deriving DecidableEq

/-- A call of a client: under its context, with its key, and with what the policy will answer. -/
structure Asked (K V : Type) where
  ctx : CacheContext
  key : K
  op : ClientOp V
  select : CacheOperation → K → CacheState → PolicyDecision

namespace Asked

variable {K V : Type} [Key K]

/-- The call on the framed key. -/
def call (c : Asked K V) : Call V :=
  match c.op with
  | .get => .get (.of c.select .get c.key c.ctx)
  | .getOrFetch => .getOrFetch (.of c.select .get c.key c.ctx)
  | .exists => .exists (.of c.select .exists c.key c.ctx)
  | .set value => .set (.of c.select .set c.key c.ctx) value
  | .invalidate => .invalidate (.of c.select .invalidate c.key c.ctx)
  | .remove => .remove (.of c.select .remove c.key c.ctx)
  | .refresh => .refresh (.of c.select .refresh c.key c.ctx)
  | .promote => .promote (.of c.select .promote c.key c.ctx)
  | .demote => .demote (.of c.select .demote c.key c.ctx)

/-- The framed key, when there is one. -/
def keyRef (c : Asked K V) : Except CacheError KeyRef := encodeKey c.key c.ctx

theorem key_call {c : Asked K V} {k : KeyRef} (h : c.keyRef = .ok k) : c.call.key = k := by
  obtain ⟨ctx, key, op, select⟩ := c
  have hk : encodeKey key ctx = .ok k := h
  cases op <;> simp [call, Call.key, Args.of, hk, Except.toOption]

end Asked

/-- What a tier call answers that fails. -/
def Req.failed {V : Type} : (q : Req V) → CacheError → Option q.Answer
  | .tierGet _, e => some (.error e)
  | .tierSet _ _ _, e => some (.error e)
  | .tierRemove _, e => some (.error e)
  | .tierContains _, e => some (.error e)
  | _, _ => none

/-- A move of the environment on the planes. -/
inductive Chore
  | tick (d : ℕ)
  | sweepExpired (a : KeyAddress)
  | abortIntent (a : KeyAddress)
  | releaseClaim (a : KeyAddress)

namespace Planes

variable {T V : Type}

/-- A request on the key, whose tier call may fail, with its effect or without. -/
def attempt [CacheTier T V] (key : KeyRef) (q : Req V) (o : Outcome V) (P : Planes T) :
    Option (q.Answer × Planes T) :=
  match o.error.bind q.failed with
  | some answer => some (answer, if o.effect then ((exec key q o P).elim P (·.2)) else P)
  | none => exec key q o P

/-- What the environment does to the planes. -/
def chore : Chore → Planes T → Planes T
  | .tick d, P => P.tick d
  | .sweepExpired a, P => P.putSlot a ((P.slots a).sweepExpired P.now).2
  | .abortIntent a, P => P.putSlot a ((P.slots a).abortIntentByAddress .uncommittedIntent).2
  | .releaseClaim a, P => P.putSlot a (P.slots a).releasePopulationClaim.2

end Planes

/-- The manager at work for many clients. -/
def tenants (K V T : Type) [Key K] [CacheTier T V] (tiers : ℕ) :
    Machine (Asked K V) Fn (KeyRef × Req V) (fun q => q.2.Answer) (Reply V) (Planes T) (Outcome V)
      Chore where
  prog c := (c.call.prog tiers).tagged c.call.key
  exec q o P := Planes.attempt q.1 q.2 o P
  env := Planes.chore

/-- A request that was answered for a client. -/
abbrev Handed (K V T : Type) :=
  Item (Asked K V) Fn (KeyRef × Req V) (fun q => q.2.Answer) (Planes T)

/-! ## What a request does to the rungs -/

/-- The value a request stores. -/
def Req.brings {V : Type} : Req V → Option V
  | .tierSet _ v _ => some v
  | _ => none

section Rungs

variable {T V : Type} [CacheTier T V] [OnlyStored T V] {U : Set KeyRef} {came : KeyRef → V → Prop}
  {key : KeyRef} {q : Req V} {o : Outcome V} {P P' : Planes T}

theorem holds_putRung {rung : TierId} {t : T} (h : ∀ r, OnlyStored.Holds U came (P.rungs r))
    (ht : OnlyStored.Holds U came t) (r : TierId) :
    OnlyStored.Holds U came ((P.putRung rung t).rungs r) := by
  simp only [Planes.putRung, Function.update_apply]
  split_ifs
  · exact ht
  · exact h r

theorem holds_exec {a : q.Answer} (hk : key ∈ U) (hq : ∀ v ∈ q.brings, came key v)
    (h : ∀ r, OnlyStored.Holds U came (P.rungs r)) (he : P.exec key q o = some (a, P')) (r : TierId) :
    OnlyStored.Holds U came (P'.rungs r) := by
  cases q with
  | tierGet rung =>
    obtain ⟨-, rfl⟩ := Prod.mk.inj (Option.some.inj he)
    exact holds_putRung h (OnlyStored.get P.now hk (h rung)) r
  | tierSet rung v ttl =>
    obtain ⟨-, rfl⟩ := Prod.mk.inj (Option.some.inj he)
    exact holds_putRung h (OnlyStored.set ttl P.now hk (hq v rfl) (h rung)) r
  | tierRemove rung =>
    obtain ⟨-, rfl⟩ := Prod.mk.inj (Option.some.inj he)
    exact holds_putRung h (OnlyStored.remove P.now hk (h rung)) r
  | evictionCandidate rung =>
    obtain ⟨-, rfl⟩ := Prod.mk.inj (Option.some.inj he)
    exact holds_putRung h (OnlyStored.evictionCandidate P.now P.shardCursor (h rung)) r
  | removeIfAddress rung address =>
    obtain ⟨-, rfl⟩ := Prod.mk.inj (Option.some.inj he)
    exact holds_putRung h (OnlyStored.removeIfAddress address (h rung)) r
  | register notify =>
    cases notify with
    | entry =>
      obtain ⟨-, rfl⟩ := Prod.mk.inj (Option.some.inj he)
      exact h r
    | detached =>
      obtain ⟨-, rfl⟩ := Prod.mk.inj (Option.some.inj he)
      exact h r
  | notified epoch =>
    simp only [Planes.exec] at he
    split_ifs at he
    all_goals
      obtain ⟨-, rfl⟩ := Prod.mk.inj (Option.some.inj he)
      exact h r
  | record rung result =>
    obtain ⟨-, rfl⟩ := Prod.mk.inj (Option.some.inj he)
    unfold Planes.recordOutcome
    split
    all_goals exact h r
  | _ =>
    obtain ⟨-, rfl⟩ := Prod.mk.inj (Option.some.inj he)
    exact h r

/-- **A request stores what it brings, and nothing else**, also when its tier call fails. -/
theorem holds_attempt {a : q.Answer} (hk : key ∈ U) (hq : ∀ v ∈ q.brings, came key v)
    (h : ∀ r, OnlyStored.Holds U came (P.rungs r)) (he : P.attempt key q o = some (a, P'))
    (r : TierId) : OnlyStored.Holds U came (P'.rungs r) := by
  unfold Planes.attempt at he
  split at he
  · obtain ⟨-, rfl⟩ := Prod.mk.inj (Option.some.inj he)
    split_ifs
    · cases hx : P.exec key q o with
      | none => exact h r
      | some x => exact holds_exec hk hq h hx r
    · exact h r
  · exact holds_exec hk hq h he r

/-- What a rung answers came with the key. -/
theorem came_of_attempt {rung : TierId} {v : V} (hU : Set.InjOn KeyFingerprint.of U) (hk : key ∈ U)
    (h : ∀ r, OnlyStored.Holds U came (P.rungs r))
    (he : P.attempt key (.tierGet rung) o = some (.ok (some v), P')) : came key v := by
  unfold Planes.attempt at he
  split at he
  · rename_i answer hfailed
    obtain ⟨e, -, hanswer⟩ := Option.bind_eq_some_iff.1 hfailed
    obtain ⟨hok, -⟩ := Prod.mk.inj (Option.some.inj he)
    cases Option.some.inj hanswer
    cases hok
  · obtain ⟨hok, -⟩ := Prod.mk.inj (Option.some.inj he)
    exact OnlyStored.returns hU hk (h rung) hok

theorem holds_chore (h : ∀ r, OnlyStored.Holds U came (P.rungs r)) (e : Chore) (r : TierId) :
    OnlyStored.Holds U came ((Planes.chore e P).rungs r) := by
  cases e <;> exact h r

end Rungs

/-- What the planes guarantee about the answers of `Phase.Possible`. -/
theorem possible_of_attempt {T V : Type} [CacheTier T V] {key : KeyRef} {q : Req V} {o : Outcome V}
    {P P' : Planes T} {a : q.Answer} (he : P.attempt key q o = some (a, P')) :
    Phase.Possible q a := by
  cases q with
  | acquire tier =>
    -- the entry answers as it does in a world of its own
    let w : KeyWorld V := { KeyWorld.empty (P.address key) with
      now := P.now, slot := P.slots (P.address key) }
    have hnone : o.error.bind (Req.failed (.acquire tier : Req V)) = none := by
      cases o.error <;> rfl
    rw [Planes.attempt, hnone] at he
    obtain ⟨rfl, -⟩ := Prod.mk.inj (Option.some.inj he)
    exact KeyWorld.possible_of_exec (w := w) (q := .acquire tier) (o := o) rfl
  | _ => trivial

/-! ## Where values come from -/

/-- The value an answer gives a call. -/
def Req.gives {V : Type} : (q : Req V) → q.Answer → Option V
  | .tierGet _, .ok v => v
  | .fetch, .ok v => some v
  | _, _ => none

/-- The value a call carries towards a rung. -/
def Stage.carries {V : Type} : Stage V → Option V
  | .populating _ _ v => v
  | .filled _ _ _ v => some v
  | .carrying _ _ _ v => some v
  | _ => none

theorem Stage.carries_cancel {V : Type} {st : Stage V} {v : V} (h : st.cancel.carries = some v) :
    st.carries = some v := by
  cases st <;> first | exact h | cases h

/-- What is carried after an answer was carried before, or sent, or given. -/
theorem Phase.carries_next {V : Type} {st : Stage V} {l : Fn} {q : Req V} {a : q.Answer} {v : V}
    (h : (Phase.next st l q a).carries = some v) :
    st.carries = some v ∨ q.brings = some v ∨ q.gives a = some v := by
  cases q with
  | commit token ttl =>
    cases a with
    | ok u => cases h
    | error e =>
      cases st with
      | wrote token rung lost =>
        simp only [next] at h
        split_ifs at h <;> cases h
      | cleared token snapshot dst x => cases h
      | _ => exact Or.inl h
  | peek | acquire | setState | publish | prepare | abort | tierRemove =>
    simp only [next] at h
    split at h
    all_goals first
      | exact Or.inl h
      | cases h
      | (split at h; all_goals first | exact Or.inl h | cases h)
  | failWithError | abortProvenClean | register => cases h
  | tierGet rung =>
    simp only [next] at h
    split at h
    all_goals first
      | exact Or.inl h
      | exact Or.inr (Or.inr h)
      | cases h
      | (split at h; all_goals exact Or.inl h)
  | tierSet rung value ttl =>
    simp only [next] at h
    split at h
    all_goals first
      | exact Or.inl h
      | exact Or.inr (Or.inl h)
      | cases h
  | fetch =>
    have ha : ∀ {x : Option V}, x = a.toOption → x = some v → Req.gives .fetch a = some v := by
      rintro x rfl hx
      cases a with
      | error e => cases hx
      | ok y => exact hx
    simp only [next] at h
    split at h
    · exact Or.inr (Or.inr (ha rfl h))
    · exact Or.inr (Or.inr (ha rfl h))
    · exact Or.inr (Or.inr (ha rfl h))
    · exact Or.inl h
  | _ => exact Or.inl h

theorem mem_heard {V : Type} {values : List V} {q : Req V} {a : q.Answer} {v : V}
    (h : v ∈ heard values q a) : v ∈ values ∨ q.gives a = some v := by
  unfold heard at h
  split at h
  · rcases List.mem_cons.1 h with rfl | h
    · exact Or.inr rfl
    · exact Or.inl h
  · rcases List.mem_cons.1 h with rfl | h
    · exact Or.inr rfl
    · exact Or.inl h
  · cases h
  · exact Or.inl h

section Provenance

variable {K T V : Type} [Key K]

/-- The value an item has fetched. -/
def fetches : Handed K V T → Option V
  | ⟨_, _, _, (_, .fetch), .ok v, _, _⟩ => some v
  | _ => none

/-- A value that came with a framed key: by a `set` of it that has begun, or by a fetch. -/
def Came (trace : List (Handed K V T)) (k : KeyRef) (v : V) : Prop :=
  ∃ it ∈ trace, it.call.keyRef = .ok k ∧ (it.call.op = .set v ∨ fetches it = some v)

theorem Came.cons {trace : List (Handed K V T)} {k : KeyRef} {v : V} (h : Came trace k v)
    (it : Handed K V T) : Came (it :: trace) k v := by
  obtain ⟨x, hx, hkey, hv⟩ := h
  exact ⟨x, List.mem_cons_of_mem _ hx, hkey, hv⟩

/-- A call speaks about its key, keeps to the protocol, and returns what it has heard. -/
def speaking (V : Type) :
    Discipline (KeyRef × (Phase V × List V)) Fn (KeyRef × Req V) (fun q => q.2.Answer) :=
  ((protocol V).prod (hearing V)).tagged KeyRef

/-- What a call returns is among what it has heard. -/
def ReturnsHeard (φ : KeyRef × (Phase V × List V)) (r : Option (Reply V)) : Prop :=
  ∀ reply ∈ r, ∀ x, reply.value = some x → x ∈ φ.2.2

/-- A call whose key is refused makes no request. -/
theorem Asked.prog_refused {c : Asked K V} {e : CacheError} (h : c.keyRef = .error e) (tiers : ℕ) :
    ∃ r, c.call.prog tiers = .ret r := by
  obtain ⟨ctx, key, op, select⟩ := c
  have hk : encodeKey key ctx = .error e := h
  have hrefused : ∀ op, (Args.of select op key ctx).keyRef = .error e := fun _ => hk
  cases op with
  | get =>
    obtain ⟨⟨e', he⟩, -, -, -⟩ := Args.refused (hrefused .get)
    exact ⟨.read (.error e'), by simp only [call, Call.prog, Manager.get, he]; rfl⟩
  | getOrFetch =>
    obtain ⟨-, ⟨e', he⟩, -, -⟩ := Args.refused (hrefused .get)
    exact ⟨.fetched (.error e'), by simp only [call, Call.prog, Manager.getOrFetch, he]; rfl⟩
  | «exists» =>
    obtain ⟨-, -, -, ⟨e', he⟩⟩ := Args.refused (hrefused .exists)
    exact ⟨.found (.error e'), by simp only [call, Call.prog, Manager.exists, he]; rfl⟩
  | set value =>
    obtain ⟨-, -, ⟨e', he⟩, -⟩ := Args.refused (hrefused .set)
    exact ⟨.done (.error e'), by simp only [call, Call.prog, Manager.set, he]; rfl⟩
  | invalidate =>
    obtain ⟨-, -, -, ⟨e', he⟩⟩ := Args.refused (hrefused .invalidate)
    exact ⟨.done (.error e'), by simp only [call, Call.prog, Manager.invalidate, he]; rfl⟩
  | remove =>
    obtain ⟨-, -, -, ⟨e', he⟩⟩ := Args.refused (hrefused .remove)
    exact ⟨.done (.error e'), by simp only [call, Call.prog, Manager.remove, he]; rfl⟩
  | refresh =>
    obtain ⟨-, ⟨e', he⟩, -, -⟩ := Args.refused (hrefused .refresh)
    exact ⟨.refreshed (.error e'), by simp only [call, Call.prog, Manager.refreshDetailed, he]; rfl⟩
  | promote =>
    obtain ⟨-, -, -, ⟨e', he⟩⟩ := Args.refused (hrefused .promote)
    exact ⟨.done (.error e'), by simp only [call, Call.prog, Manager.promote, he]; rfl⟩
  | demote =>
    obtain ⟨-, -, -, ⟨e', he⟩⟩ := Args.refused (hrefused .demote)
    exact ⟨.done (.error e'), by simp only [call, Call.prog, Manager.demote, he]; rfl⟩

theorem Asked.speaks (tiers : ℕ) (c : Asked K V) :
    ((c.call.prog tiers).tagged c.call.key).wp (speaking V) (fun _ φ => ReturnsHeard φ none)
      (fun φ r => ReturnsHeard φ (some r)) (c.call.key, ⟨c.call, .idle⟩, []) := by
  refine Prog.wp_tagged (Prog.wp_weaken ?_ ?_
    (Prog.wp_prod (c.call.conforms tiers) (c.call.returns_heard tiers [])))
  · intro l φ _ reply hreply
    cases hreply
  · rintro φ r ⟨-, hheard⟩ reply hreply x hx
    obtain rfl : r = reply := Option.some.inj hreply
    exact hheard x hx

/-- What is known of a call at work: everything it carries and everything it has heard came with its
key. -/
structure Attends (U : Set KeyRef) (trace : List (Handed K V T))
    (t : Task (Asked K V) Fn (KeyRef × Req V) (fun q => q.2.Answer) (Reply V))
    (φ : KeyRef × (Phase V × List V)) : Prop where
  key : φ.1 = t.call.call.key
  call : φ.2.1.call = t.call.call
  carried : ∀ v, φ.2.1.stage.carries = some v → Came trace φ.1 v
  heard : ∀ v ∈ φ.2.2, Came trace φ.1 v
  admitted : ((∃ r, t.rest = .ret r) ∧ φ.2.2 = []) ∨ (t.call.keyRef = .ok φ.1 ∧ φ.1 ∈ U)

/-- A state of the shared planes. -/
abbrev Shared (K V T : Type) :=
  Sys (Asked K V) Fn (KeyRef × Req V) (fun q => q.2.Answer) (Reply V) (Planes T)

variable [CacheTier T V] [OnlyStored T V]

/-- Everything on the rungs came with its key, and so did everything the calls have in hand. -/
structure Apart (U : Set KeyRef) (s : Shared K V T) (φ : ℕ → KeyRef × (Phase V × List V)) : Prop where
  rungs : ∀ r, OnlyStored.Holds U (Came s.trace) (s.world.rungs r)
  attends : ∀ i t, s.tasks i = some t → Attends U s.trace t (φ i)

variable {U : Set KeyRef} {s : Shared K V T} {φ : ℕ → KeyRef × (Phase V × List V)} {i : ℕ}
  {c : Asked K V} {l : Fn} {q : KeyRef × Req V}

omit [CacheTier T V] [OnlyStored T V] in
/-- What a call sends came with its key, once it is sent. -/
theorem Attends.brings {cancel : Option (List (KeyRef × Req V))}
    {k : q.2.Answer → Prog Fn (KeyRef × Req V) (fun q => q.2.Answer) (Option (Reply V))}
    {trace : List (Handed K V T)} {ψ : KeyRef × (Phase V × List V)}
    (h : Attends U trace ⟨c, .req l q cancel k⟩ ψ) (hok : (speaking V).ok ψ l q) (a : q.2.Answer)
    (P P' : Planes T) {v : V} (hv : q.2.brings = some v) :
    Came (⟨i, c, l, q, a, P, P'⟩ :: trace) ψ.1 v := by
  obtain ⟨rung, value, ttl, hq⟩ : ∃ rung value ttl, q.2 = .tierSet rung value ttl := by
    cases hq : q.2 <;> simp_all [Req.brings]
  obtain ⟨hkeyref, -⟩ := h.admitted.resolve_left (by simp)
  obtain ⟨-, hallows, -⟩ := hok
  rw [hq] at hv hallows
  obtain rfl : value = v := Option.some.inj hv
  rcases hallows.1 with ⟨claimed, g, hst⟩ | ⟨token, lost, args, -, hcall⟩ | ⟨token, snapshot, hst⟩
  · exact (h.carried value (by rw [hst]; rfl)).cons _
  · refine ⟨_, List.mem_cons_self, hkeyref, Or.inl ?_⟩
    have hset : c.call = .set args value := h.call.symm.trans hcall
    unfold Asked.call at hset
    split at hset
    all_goals cases hset
    assumption
  · exact (h.carried value (by rw [hst]; rfl)).cons _

/-- What a call is given came with its key. -/
theorem Apart.gives (h : Apart U s φ) (hU : Set.InjOn KeyFingerprint.of U)
    {cancel : Option (List (KeyRef × Req V))}
    {k : q.2.Answer → Prog Fn (KeyRef × Req V) (fun q => q.2.Answer) (Option (Reply V))}
    (ht : s.tasks i = some ⟨c, .req l q cancel k⟩) {o : Outcome V} {a : q.2.Answer} {w : Planes T}
    (hexec : Planes.attempt q.1 q.2 o s.world = some (a, w)) (hq : q.1 = (φ i).1) {v : V}
    (hv : q.2.gives a = some v) :
    Came (⟨i, c, l, q, a, s.world, w⟩ :: s.trace) (φ i).1 v := by
  obtain ⟨hkeyref, hk⟩ := (h.attends i _ ht).admitted.resolve_left (by simp)
  obtain ⟨key, q⟩ := q
  obtain rfl : key = (φ i).1 := hq
  cases q with
  | tierGet rung =>
    cases a with
    | error e => cases hv
    | ok x =>
      obtain rfl : x = some v := hv
      exact (came_of_attempt hU hk h.rungs hexec).cons _
  | fetch =>
    cases a with
    | error e => cases hv
    | ok x => exact ⟨_, List.mem_cons_self, hkeyref, Or.inr hv⟩
  | _ => cases hv

theorem Apart.answer (h : Apart U s φ) (hU : Set.InjOn KeyFingerprint.of U)
    {cancel : Option (List (KeyRef × Req V))}
    {k : q.2.Answer → Prog Fn (KeyRef × Req V) (fun q => q.2.Answer) (Option (Reply V))}
    (ht : s.tasks i = some ⟨c, .req l q cancel k⟩) {o : Outcome V} {a : q.2.Answer} {w : Planes T}
    (hexec : Planes.attempt q.1 q.2 o s.world = some (a, w)) (hok : (speaking V).ok (φ i) l q)
    {rest : Prog Fn (KeyRef × Req V) (fun q => q.2.Answer) (Option (Reply V))} {st : Stage V}
    (hst : ∀ v, st.carries = some v → (Phase.next (φ i).2.1.stage l q.2 a).carries = some v) :
    Apart U (s.answer i c l q a w rest)
      (Function.update φ i ((φ i).1, ⟨(φ i).2.1.call, st⟩, heard (φ i).2.2 q.2 a)) := by
  have hown := h.attends i _ ht
  have hadmitted := hown.admitted.resolve_left (by simp)
  have hq : q.1 = (φ i).1 := hok.1
  have hmono : ∀ key v, Came s.trace key v → Came (⟨i, c, l, q, a, s.world, w⟩ :: s.trace) key v :=
    fun key v hv => hv.cons _
  have hbrings : ∀ v, q.2.brings = some v →
      Came (⟨i, c, l, q, a, s.world, w⟩ :: s.trace) (φ i).1 v :=
    fun v hv => hown.brings hok a s.world w hv
  have hgives : ∀ v, q.2.gives a = some v →
      Came (⟨i, c, l, q, a, s.world, w⟩ :: s.trace) (φ i).1 v := fun v hv => h.gives hU ht hexec hq hv
  refine ⟨?_, fun j t hj => ?_⟩
  · refine holds_attempt (by rw [hq]; exact hadmitted.2) ?_
      (fun r => OnlyStored.mono hmono (h.rungs r)) hexec
    intro v hv
    rw [hq]
    exact hbrings v hv
  · rw [Sys.answer_tasks, Function.update_apply] at hj
    by_cases hij : j = i
    · subst hij
      rw [if_pos rfl, Option.some.injEq] at hj
      subst hj
      rw [Function.update_self]
      refine ⟨hown.key, hown.call, fun v hv => ?_, fun v hv => ?_, Or.inr hadmitted⟩
      · rcases Phase.carries_next (hst v hv) with hv | hv | hv
        · exact hmono _ v (hown.carried v hv)
        · exact hbrings v hv
        · exact hgives v hv
      · rcases mem_heard hv with hv | hv
        · exact hmono _ v (hown.heard v hv)
        · exact hgives v hv
    · rw [if_neg hij] at hj
      rw [Function.update_of_ne hij]
      obtain ⟨hkey, hcall, hcarried, hheard, hadm⟩ := h.attends j t hj
      exact ⟨hkey, hcall, fun v hv => hmono _ v (hcarried v hv),
        fun v hv => hmono _ v (hheard v hv), hadm⟩

/-- A thread that is put at another program. -/
theorem Apart.leave (h : Apart U s φ) {rest : Prog Fn (KeyRef × Req V) (fun q => q.2.Answer)
      (Option (Reply V))} {ψ : KeyRef × (Phase V × List V)}
    (hown : Attends U s.trace ⟨c, rest⟩ ψ) :
    Apart U (s.leave i c rest) (Function.update φ i ψ) := by
  refine ⟨h.rungs, fun j t hj => ?_⟩
  rw [Sys.leave_tasks, Function.update_apply] at hj
  by_cases hij : j = i
  · subst hij
    rw [if_pos rfl, Option.some.injEq] at hj
    subst hj
    rw [Function.update_self]
    exact hown
  · rw [if_neg hij] at hj
    rw [Function.update_of_ne hij]
    exact h.attends j t hj

/-- A step starts only calls on keys in use. -/
def OnKeys (U : Set KeyRef) (_ : Shared K V T) (ev : Event (Asked K V) (Outcome V) Chore) : Prop :=
  ∀ i c, ev = .start i c → ∀ k, c.keyRef = .ok k → k ∈ U

/-- **Every step keeps the keys apart.** -/
theorem apart_keeps (hU : Set.InjOn KeyFingerprint.of U) (tiers : ℕ) :
    Machine.Keeps (tenants K V T tiers) (speaking V) ReturnsHeard (Apart U) (OnKeys U) where
  start s φ i c hsafe hadm _ := by
    refine ⟨_, Asked.speaks tiers c, hsafe.1.leave ⟨rfl, rfl, by simp [Stage.carries], by simp, ?_⟩⟩
    cases hk : c.keyRef with
    | error e =>
      obtain ⟨r, hr⟩ := Asked.prog_refused hk tiers
      refine Or.inl ⟨⟨some r, ?_⟩, rfl⟩
      have hprog : (tenants K V T tiers).prog c = .ret r := by
        change (c.call.prog tiers).tagged c.call.key = .ret r
        rw [hr]
        rfl
      rw [hprog]
      rfl
    | ok k =>
      rw [Asked.key_call hk]
      exact Or.inr ⟨rfl, hadm i c rfl k hk⟩
  answer s φ i c l q cancel k o a w hsafe ht _ _ hexec hok :=
    ⟨((φ i).1, ⟨(φ i).2.1.call, Phase.next (φ i).2.1.stage l q.2 a⟩, heard (φ i).2.2 q.2 a),
      ⟨rfl, ⟨possible_of_attempt hexec, rfl⟩, rfl⟩, hsafe.1.answer hU ht hexec hok fun _ hv => hv⟩
  answerUnseen s φ i c l q cs k o a w hsafe ht _ _ hexec hok :=
    ⟨((φ i).1, ⟨(φ i).2.1.call, Phase.next (φ i).2.1.stage l q.2 a⟩, heard (φ i).2.2 q.2 a),
      ⟨rfl, ⟨possible_of_attempt hexec, rfl⟩, rfl⟩,
      hsafe.1.answer hU ht hexec hok fun _ hv => Stage.carries_cancel hv⟩
  drop s φ i c l q cs k h _ ht := by
    have hown := h.attends i _ ht
    refine h.leave ⟨hown.key, hown.call, fun v hv => hown.carried v (Stage.carries_cancel hv),
      hown.heard, Or.inr (hown.admitted.resolve_left (by simp))⟩
  env s φ e h _ := ⟨fun r => holds_chore h.rungs e r, h.attends⟩

end Provenance

/-- A rung before anything is stored: an in-memory one as it is built, or one of another kind that
holds nothing. -/
def StartsEmpty {T V : Type} [IntegrityCheck V] [CacheTier T V] [OnlyStored T V] (U : Set KeyRef) :
    StubTier V ⊕ T → Prop
  | .inl t => t.Unused
  | .inr t => OnlyStored.Holds U (fun _ _ => False) t

theorem StartsEmpty.holds {T V : Type} [IntegrityCheck V] [CacheTier T V] [OnlyStored T V]
    {U : Set KeyRef} {t : StubTier V ⊕ T} (h : StartsEmpty U t) (came : KeyRef → V → Prop) :
    OnlyStored.Holds U came t := by
  cases t with
  | inl t => exact StubTier.Unused.holds h
  | inr t => exact OnlyStored.mono (T := T) (fun _ _ hno => hno.elim) h

/-- The framed keys of the calls of a schedule. -/
def keysInUse {K V : Type} [Key K] (schedule : List (Event (Asked K V) (Outcome V) Chore)) :
    Set KeyRef := {k | ∃ i c, .start i c ∈ schedule ∧ c.keyRef = .ok k}

/-- **Tenant and key provenance.** Any clients of any tenants, any policies and contexts, any
placement of the control plane and of each rung, any tiers beside the in-memory ones that return for
a key only what was stored for it, tier calls that fail with their effect or without, and evictions,
moves, fallbacks, drops, sweeps and recoveries in any order: a value that a call has returned was
brought by a `set`, or by a fetch, of a call of the same tenant on the same key. The fingerprints of
the framed keys in use are distinct, and so are the encodings of the keys. -/
theorem value_of_same_tenant_and_key {K T V : Type} [Key K] [IntegrityCheck V] [CacheTier T V]
    [OnlyStored T V] {tiers : ℕ} {placement : Placement} {rungs : TierId → StubTier V ⊕ T}
    {schedule : List (Event (Asked K V) (Outcome V) Chore)}
    (hencode : ∀ (key key' : K) (bytes : List UInt8), Key.encode key maxKeySize = .ok bytes →
      Key.encode key' maxKeySize = .ok bytes → key = key')
    (hfingerprints : Set.InjOn KeyFingerprint.of (keysInUse schedule))
    (hempty : ∀ r, StartsEmpty (keysInUse schedule) (rungs r)) {i : ℕ} {c : Asked K V} {r : Reply V}
    {v : V}
    (hret : ((tenants K V (StubTier V ⊕ T) tiers).run (.empty placement rungs) schedule).tasks i =
      some ⟨c, .ret (some r)⟩) (hv : r.value = some v) :
    ∃ it ∈ ((tenants K V (StubTier V ⊕ T) tiers).run (.empty placement rungs) schedule).trace,
      it.call.ctx.tenant = c.ctx.tenant ∧ it.call.key = c.key ∧
        (it.call.op = .set v ∨ fetches it = some v) := by
  have hinit : Apart (keysInUse schedule) (.initial (.empty placement rungs) :
      Shared K V (StubTier V ⊕ T)) fun _ => ([], ⟨⟨.evict, .idle⟩, []⟩) :=
    ⟨fun r => (hempty r).holds _, by rintro i t ⟨⟩⟩
  have halong : Run.Along (tenants K V (StubTier V ⊕ T) tiers).step (OnKeys (keysInUse schedule))
      (.initial (.empty placement rungs)) schedule := by
    refine Run.along_of_forall_mem fun s ev hev i c hstart k hk => ⟨i, c, ?_, hk⟩
    rw [← hstart]
    exact hev
  obtain ⟨φ, hapart, hconforms⟩ := Machine.invariant (apart_keeps hfingerprints tiers) hinit halong
  have hown := hapart.attends i _ hret
  have hheard : v ∈ (φ i).2.2 := hconforms i _ hret r rfl v hv
  have hkeyref : c.keyRef = .ok (φ i).1 := by
    rcases hown.admitted with ⟨-, hnone⟩ | ⟨hkeyref, -⟩
    · rw [hnone] at hheard
      cases hheard
    · exact hkeyref
  obtain ⟨it, hit, hitkey, hcame⟩ := hown.heard v hheard
  obtain ⟨htenant, bytes, hbytes, hbytes'⟩ := encodeKey_inj hitkey hkeyref
  exact ⟨it, hit, htenant, hencode _ _ _ hbytes hbytes', hcame⟩

/-- A known client of a tenant, on the key `k`. -/
def clientOf (tenant : List UInt8) (op : ClientOp (List UInt8)) : Asked (List UInt8) (List UInt8) where
  ctx := ⟨"client", tenant, none⟩
  key := [107]
  op := op
  select _ _ _ := ⟨true, .L0, .closed⟩

/-- Two tenants write the same key on a rung where all keys collide, side by side, and one of them
reads it. -/
def sameKeyTwice : List (Event (Asked (List UInt8) (List UInt8)) (Outcome (List UInt8)) Chore) :=
  [.start 0 (clientOf [97] (.set [1])), .start 1 (clientOf [98] (.set [2])), .run 0 {}, .run 1 {},
    .run 0 {}, .run 1 {}, .run 0 {}, .run 1 {}, .run 0 {}, .run 1 {}, .run 0 {}, .run 1 {},
    .run 0 {}, .run 1 {}, .start 2 (clientOf [97] .get), .run 2 {}, .run 2 {}, .run 2 {}, .run 2 {}]

theorem value_of_same_tenant_and_key_sameKeyTwice :
    ∃ it ∈ ((tenants (List UInt8) (List UInt8)
        (StubTier (List UInt8) ⊕ FixedTierStub (List UInt8)) 1).run
        (.empty .allToZero fun _ => .inl (.fixed FixedTierStub.pairRung)) sameKeyTwice).trace,
      it.call.ctx.tenant = [97] ∧ it.call.key = [107] ∧
        (it.call.op = .set [1] ∨ fetches it = some [1]) := by
  have hresult : ((tenants (List UInt8) (List UInt8)
      (StubTier (List UInt8) ⊕ FixedTierStub (List UInt8)) 1).run
      (.empty .allToZero fun _ => .inl (.fixed FixedTierStub.pairRung)) sameKeyTwice).result 2 =
        some (.read (.ok (some [1]))) := by decide +kernel
  obtain ⟨c, ht⟩ := Sys.result_eq_some hresult
  obtain rfl : c = clientOf [97] .get := by
    simpa [sameKeyTwice] using Machine.started_of_task ht
  have hkeys : ∀ k ∈ keysInUse sameKeyTwice, k = [97, 0, 107] ∨ k = [98, 0, 107] := by
    rintro k ⟨i, c, hstart, hk⟩
    have hcall : c = clientOf [97] (.set [1]) ∨ c = clientOf [98] (.set [2]) ∨
        c = clientOf [97] .get := by
      simp only [sameKeyTwice, List.mem_cons, Event.start.injEq, reduceCtorEq, List.not_mem_nil] at hstart
      tauto
    rcases hcall with rfl | rfl | rfl
    · exact Or.inl (Except.ok.inj hk).symm
    · exact Or.inr (Except.ok.inj hk).symm
    · exact Or.inl (Except.ok.inj hk).symm
  refine value_of_same_tenant_and_key ?_ ?_ ?_ ht rfl
  · intro key key' bytes h h'
    simp only [Key.encode] at h h'
    split_ifs at h h'
    exact (Except.ok.inj h).trans (Except.ok.inj h').symm
  · intro k hk k' hk' hfingerprint
    rcases hkeys k hk with rfl | rfl <;> rcases hkeys k' hk' with rfl | rfl
    · rfl
    · exact absurd hfingerprint (by decide +kernel)
    · exact absurd hfingerprint (by decide +kernel)
    · rfl
  · exact fun _ => .fixed (n := 2) (p := .allToZero) rfl

end TheSix
