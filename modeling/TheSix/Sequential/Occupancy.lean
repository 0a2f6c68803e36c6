import TheSix.Control.Cells
import TheSix.Lib.Bytes
import TheSix.Manager.Failures
import TheSix.Planes.World

/-!
# The cells of the control plane

One client calls the manager on any keys, one call after another. The control plane is the table
itself; what the rungs, the fetch and the clock answer is arbitrary.

A `set` or a `get_or_fetch` takes a cell for a key that has none, and no call gives one back:
`remove` and `invalidate` leave the entry where it is. So such a call on a new key runs out exactly
when every cell of the shard is taken, whether the keys that took them are described any more or not
(`runsOut_iff`), and a client that removes every key after use runs out all the same
(`removed_keys_run_out`).
-/

namespace TheSix

open Coroutine Manager

variable {V : Type}

/-! ## The world of a client -/

/-- The control plane, the clock, and how often anything else was asked. -/
structure Desk where
  table : Cachelito
  now : ℕ
  asked : ℕ := 0

/-- What everything but the control plane answers. -/
abbrev Outside (V : Type) := ℕ → (q : Req V) → q.Answer

namespace Desk

/-- The effect of a control-plane method. -/
def onTable {β : Type} (w : Desk) (r : β × Cachelito) : Option (β × Desk) :=
  some (r.1, { w with table := r.2 })

/-- The atomic effect of a request of a call on the key of an address. -/
def exec (a : KeyAddress) (o : Outside V) : (q : Req V) → Desk → Option (q.Answer × Desk)
  | .peek, w => some (w.table.peek a w.now, w)
  | .acquire tier, w => w.onTable (w.table.acquire a tier w.now)
  | .setState state, w => w.onTable (w.table.setState a state)
  | .publish g tier ttl, w => w.onTable (w.table.publish a g tier ttl w.now)
  | .failWithError e, w => w.onTable (w.table.failWithError a e)
  | .invalidate, w => w.onTable (w.table.invalidate a)
  | .release, w => w.onTable (w.table.release a)
  | .prepare tier kind, w => w.onTable (w.table.prepare a none tier kind w.now)
  | .commit token ttl, w => w.onTable (w.table.commit token ttl w.now)
  | .abort token e, w => w.onTable (w.table.abort token e)
  | .abortProvenClean token e, w => w.onTable (w.table.abortProvenClean token e)
  | .reserveEviction b, w => w.onTable (w.table.reserveEviction b)
  | q, w => some (o w.asked q, { w with asked := w.asked + 1 })

theorem exec_isSome (a : KeyAddress) (o : Outside V) (q : Req V) (w : Desk) :
    (exec a o q w).isSome = true := by
  cases q <;> rfl

/-- A request makes at most one call of the table, and creates only the entry of its own key. -/
theorem exec_table {a : KeyAddress} {o : Outside V} {q : Req V} {w w' : Desk} {x : q.Answer}
    (h : exec a o q w = some (x, w')) : w'.table = w.table ∨
      ∃ op : EntryOp, (op.Creates → op.address = a) ∧ w'.table = (w.table.call w.now op).2 := by
  cases q with
  | acquire tier => cases h; exact .inr ⟨.acquire a tier, fun _ => rfl, rfl⟩
  | setState state => cases h; exact .inr ⟨.setState a state, fun _ => rfl, rfl⟩
  | publish g tier ttl => cases h; exact .inr ⟨.publish a g tier ttl, fun _ => rfl, rfl⟩
  | failWithError e => cases h; exact .inr ⟨.failWithError a e, fun _ => rfl, rfl⟩
  | invalidate => cases h; exact .inr ⟨.invalidate a, fun _ => rfl, rfl⟩
  | release => cases h; exact .inr ⟨.release a, fun _ => rfl, rfl⟩
  | prepare tier kind => cases h; exact .inr ⟨.prepare a none tier kind, fun _ => rfl, rfl⟩
  | commit token ttl => cases h; exact .inr ⟨.commit token ttl, nofun, rfl⟩
  | abort token e => cases h; exact .inr ⟨.abort token e, nofun, rfl⟩
  | abortProvenClean token e => cases h; exact .inr ⟨.abortProvenClean token e, nofun, rfl⟩
  | reserveEviction b => cases h; exact .inr ⟨.reserveEviction b, nofun, rfl⟩
  | _ => cases h; exact .inl rfl

end Desk

/-! ## What the world answers -/

/-- What lies outside the control plane does not answer `ConfigurationError`. -/
def Outside.Quiet (o : Outside V) : Prop := ∀ n q, SoundAnswer q (o n q)

theorem ControlEntry.lastError_peek (e : ControlEntry) (now : ℕ) :
    (e.peek now).lastError ≠ some .configurationError := by
  change ControlEntry.decodeError e.lastError ≠ _
  unfold ControlEntry.decodeError
  split <;> simp

/-- The control plane and what lies outside it are sound while the key can be described. -/
theorem Desk.sound_exec {a : KeyAddress} {o : Outside V} (ho : o.Quiet) {q : Req V} {w w' : Desk}
    {x : q.Answer} (hw : w.table.WellFormed ∧ w.table.Roomy a) (h : exec a o q w = some (x, w')) :
    SoundAnswer q x ∧ w'.table.WellFormed ∧ w'.table.Roomy a := by
  obtain ⟨hwf, hroom⟩ := hw
  have hkeeps : w'.table.WellFormed ∧ w'.table.Roomy a := by
    rcases exec_table h with hsame | ⟨op, hop, hcall⟩
    · rw [hsame]
      exact ⟨hwf, hroom⟩
    · rw [hcall]
      exact ⟨(hwf.call w.now op).wellFormed, hwf.roomy_call hroom w.now hop⟩
  refine ⟨?_, hkeeps⟩
  -- a creating call that says so finds no entry and no cell
  have hcreates : ∀ (op : EntryOp) r, op.Creates → op.address = a →
      (w.table.call w.now op).1 = r → op.fails r ≠ true := by
    rintro op r hc hop rfl hfails
    have hfull := ((hwf.callsAsMap w.now op).fails hc).1 hfails
    rw [hop] at hfull
    exact Cachelito.not_roomy.2 hfull hroom
  cases q with
  | peek =>
    cases h
    change (w.table.peek a w.now).lastError ≠ _
    cases hs : w.table.slots a with
    | none =>
      have hfound : (w.table.shard a).findEntry a = none := hs
      rw [Cachelito.peek, hfound]
      nofun
    | some e =>
      have hfound : (w.table.shard a).findEntry a = some e := hs
      rw [Cachelito.peek, hfound]
      exact e.lastError_peek w.now
  | acquire tier =>
    cases h
    exact fun herror => hcreates (.acquire a tier) _ trivial rfl herror rfl
  | prepare tier kind =>
    cases h
    exact fun herror => hcreates (.prepare a none tier kind) _ trivial rfl herror rfl
  | setState state =>
    cases h
    exact fun herror => hcreates (.setState a state) _ trivial rfl herror rfl
  | publish g tier ttl =>
    cases h
    show (w.table.publish a g tier ttl w.now).1 ≠ .error .configurationError
    refine Cachelito.withEntry_ne (by simp) (fun e => ?_) a
    unfold ControlEntry.publish
    split_ifs <;> simp
  | commit token ttl =>
    cases h
    show (w.table.commit token ttl w.now).1 ≠ .error .configurationError
    refine Cachelito.withEntry_ne (by simp) (fun e => ?_) token.address
    unfold ControlEntry.commit
    split_ifs <;> simp
  | failWithError e =>
    cases h
    show (w.table.failWithError a e).1 ≠ .error .configurationError
    exact Cachelito.withEntry_ne (by simp) (by simp) a
  | invalidate =>
    cases h
    show (w.table.invalidate a).1 ≠ .error .configurationError
    exact Cachelito.withEntry_ne (by simp) (by simp) a
  | release =>
    cases h
    show (w.table.release a).1 ≠ .error .configurationError
    exact Cachelito.withEntry_ne (by simp) (by simp) a
  | abort token e =>
    cases h
    show (w.table.abort token e).1 ≠ .error .configurationError
    exact Cachelito.withEntry_ne (by simp) (by simp) token.address
  | abortProvenClean token e =>
    cases h
    show (w.table.abortProvenClean token e).1 ≠ .error .configurationError
    exact Cachelito.withEntry_ne (by simp) (by simp) token.address
  | evictionCandidate | reserveEviction | removeIfAddress | register | sleep | yieldNow | tierHealth
  | record => trivial
  | _ => cases h; exact ho w.asked _

/-! ## A shard that is full -/

namespace Manager

variable {a : KeyAddress} {o : Outside V} {w : Desk}

theorem exec_acquire_full (h : w.table.WellFormed) (hs : w.table.slots a = none)
    (hfull : w.table.Full a) (tier : TierId) :
    Desk.exec a o (.acquire tier) w = some (.error .configurationError, w) := by
  have hsame : w.table.acquire a tier w.now = (.error .configurationError, w.table) :=
    h.withOrCreate_of_full hs hfull _ _
  simp only [Desk.exec, Desk.onTable, hsame]

theorem exec_prepare_full (h : w.table.WellFormed) (hs : w.table.slots a = none)
    (hfull : w.table.Full a) (tier : TierId) (kind : IntentKind) :
    Desk.exec a o (.prepare tier kind) w = some (.error .configurationError, w) := by
  have hsame : w.table.prepare a none tier kind w.now = (.error .configurationError, w.table) :=
    h.withOrCreate_of_full hs hfull _ _
  simp only [Desk.exec, Desk.onTable, hsame]

theorem getOrFetch_eval_full (h : w.table.WellFormed) (hs : w.table.slots a = none)
    (hfull : w.table.Full a) (tiers : ℕ) {args : Args} {d : PolicyDecision}
    (ha : args.admitPopulation = .ok d) :
    (getOrFetch tiers args : Step V (Except CacheError V)).eval (Desk.exec a o) w =
      some (.error .configurationError, w) := by
  simp only [getOrFetch, ha, fetchAttempts, call, noTelemetry_eq, Prog.req_bind, Prog.ret_bind,
    Prog.eval_req (exec_acquire_full h hs hfull d.tier)]
  rfl

theorem walk_eval_full (h : w.table.WellFormed) (hs : w.table.slots a = none)
    (hfull : w.table.Full a) (tiers : ℕ) (args : Args) (value : V) {rungs : List TierId}
    (hbound : ∃ rung ∈ rungs, hasTier tiers rung = true) (e : CacheError) :
    (walk tiers args value rungs e).eval (Desk.exec a o) w =
      some (.finished (.error .configurationError), w) := by
  induction rungs with
  | nil => simp at hbound
  | cons rung rungs ih =>
    rw [walk]
    split_ifs with hrung
    · refine ih ?_
      simpa [hrung] using hbound
    · have hwrite : (writeAt args value rung maxCommitAttempts).eval (Desk.exec a o) w =
          some (.finished (.error .configurationError), w) := by
        rw [maxCommitAttempts, writeAt]
        simp only [call, noTelemetry_eq, Prog.req_bind, Prog.ret_bind,
          Prog.eval_req (exec_prepare_full h hs hfull rung .write)]
        rfl
      simp only [Prog.eval_bind, hwrite]
      rfl

theorem hasTier_descent {tiers : ℕ} (hbound : 0 < tiers) {tier : TierId}
    (htier : tier ≠ authorityTier) : ∃ rung ∈ descent tier, hasTier tiers rung = true := by
  refine ⟨.L0, ?_, decide_eq_true hbound⟩
  cases tier with
  | L6 => exact absurd rfl htier
  | _ => decide

theorem set_eval_full (h : w.table.WellFormed) (hs : w.table.slots a = none)
    (hfull : w.table.Full a) {tiers : ℕ} (hbound : 0 < tiers) {args : Args}
    (ha : args.admitWrite = .ok ())
    (hselect : ∀ s, (args.select s).authorized = true ∧ (args.select s).tier ≠ authorityTier)
    (value : V) : ∃ w', (set tiers args value).eval (Desk.exec a o) w =
      some (.error .configurationError, w') := by
  rw [set, ha]
  simp only [call, noTelemetry_eq, Prog.req_bind, Prog.ret_bind]
  -- the snapshot, and what is known of the health of its rung
  have hpeek : Desk.exec a o .peek w = some (w.table.peek a w.now, w) := rfl
  rw [Prog.eval_req hpeek]
  have hhealth : Desk.exec a o (.tierHealth (w.table.peek a w.now).tier) w =
      some (o w.asked (.tierHealth (w.table.peek a w.now).tier),
        { w with asked := w.asked + 1 }) := rfl
  rw [Prog.eval_req hhealth]
  obtain ⟨hauthorized, htier⟩ := hselect (.fromSnapshot (w.table.peek a w.now)
    (o w.asked (.tierHealth (w.table.peek a w.now).tier)))
  simp only [Args.authorize, hauthorized, if_true, if_neg htier]
  refine ⟨{ w with asked := w.asked + 1 }, ?_⟩
  have hwalk := @walk_eval_full V a o { w with asked := w.asked + 1 } h hs hfull tiers args value _
    (hasTier_descent hbound htier) .tierUnavailable
  simp only [setPasses, Prog.eval_bind, hwalk]
  rfl

end Manager

/-! ## The client -/

/-- A call of the client, some time after its last one, and what it is answered by everything but
the control plane. -/
structure Visit (V : Type) where
  wait : ℕ := 0
  outside : Outside V
  call : Call V

/-- A call on the table alone. -/
def Visit.run (tiers : ℕ) (placement : Placement) (x : Visit V) (w : Desk) :
    Option (Reply V × Desk) :=
  (x.call.prog tiers).eval (Desk.exec (.of x.call.key placement) x.outside)
    { w with now := w.now + x.wait }

theorem Visit.run_isSome (tiers : ℕ) (placement : Placement) (x : Visit V) (w : Desk) :
    ∃ r w', x.run tiers placement w = some (r, w') :=
  Prog.eval_isSome (Desk.exec_isSome _ _) _ _

/-- The calls of a client, one after another: the answers, and the state they leave. -/
def Desk.visits (tiers : ℕ) (placement : Placement) :
    List (Visit V) → Desk → Option (List (Reply V) × Desk)
  | [], w => some ([], w)
  | x :: xs, w => (x.run tiers placement w).bind fun rw =>
      (visits tiers placement xs rw.2).map fun rest => (rw.1 :: rest.1, rest.2)

/-- A `set` or a `get_or_fetch` that passes its gates, and finds a rung to write to. -/
def Call.Admitted (tiers : ℕ) : Call V → Prop
  | .set a _ => a.admitWrite = .ok () ∧ 0 < tiers ∧
      ∀ s, (a.select s).authorized = true ∧ (a.select s).tier ≠ authorityTier
  | .getOrFetch a => ∃ d, a.admitPopulation = .ok d
  | _ => False

/-- The call has failed with `ConfigurationError`. -/
def Reply.RunsOut : Reply V → Prop
  | .fetched r => r = .error .configurationError
  | .done r => r = .error .configurationError
  | _ => False

/-- A call runs out exactly when its key has no entry and its shard no cell. -/
theorem Visit.fails_iff_full {tiers : ℕ} {placement : Placement} {x : Visit V} {w w' : Desk}
    {r : Reply V} (h : w.table.WellFormed) (hquiet : x.outside.Quiet)
    (hadmitted : x.call.Admitted tiers) (hrun : x.run tiers placement w = some (r, w')) :
    r.RunsOut ↔ w.table.slots (.of x.call.key placement) = none ∧
      w.table.Full (.of x.call.key placement) := by
  constructor
  · intro hruns
    by_contra hroomy
    rw [← Cachelito.not_roomy, not_not] at hroomy
    have hyields : (x.call.prog tiers).Yields SoundAnswer fun r => ¬ r.RunsOut := by
      cases hcall : x.call with
      | set args value =>
        rw [hcall] at hadmitted
        rw [Call.prog, Prog.yields_map]
        exact set_yields tiers hadmitted.1 value
      | getOrFetch args =>
        rw [hcall] at hadmitted
        obtain ⟨d, hd⟩ := hadmitted
        rw [Call.prog, Prog.yields_map]
        exact getOrFetch_yields tiers hd
      | _ => rw [hcall] at hadmitted; exact hadmitted.elim
    have hstart : ({ w with now := w.now + x.wait } : Desk).table.WellFormed ∧
        ({ w with now := w.now + x.wait } : Desk).table.Roomy (.of x.call.key placement) :=
      ⟨h, hroomy⟩
    have hgood : ∀ (q : Req V) (w₁ : Desk) (y : q.Answer) (w₂ : Desk), (w₁.table.WellFormed ∧
        w₁.table.Roomy (.of x.call.key placement)) →
        Desk.exec (.of x.call.key placement) x.outside q w₁ = some (y, w₂) →
        SoundAnswer q y ∧ w₂.table.WellFormed ∧ w₂.table.Roomy (.of x.call.key placement) :=
      fun _ _ _ _ hw hexec => Desk.sound_exec hquiet hw hexec
    exact (Prog.eval_of_yields (J := fun w : Desk => w.table.WellFormed ∧
      w.table.Roomy (.of x.call.key placement)) hgood hyields hstart hrun).1 hruns
  · rintro ⟨hs, hfull⟩
    unfold run at hrun
    generalize KeyAddress.of x.call.key placement = a at hs hfull hrun
    cases hcall : x.call with
    | set args value =>
      rw [hcall] at hadmitted hrun
      obtain ⟨hwrite, hbound, hselect⟩ := hadmitted
      obtain ⟨w₁, heval⟩ := @set_eval_full V a x.outside { w with now := w.now + x.wait } h hs hfull
        tiers hbound args hwrite hselect value
      simp only [Call.prog, Prog.eval_map, heval, Option.map_some, Option.some.injEq,
        Prod.mk.injEq] at hrun
      exact hrun.1 ▸ rfl
    | getOrFetch args =>
      rw [hcall] at hadmitted hrun
      obtain ⟨d, hd⟩ := hadmitted
      have heval := @getOrFetch_eval_full V a x.outside { w with now := w.now + x.wait } h hs hfull
        tiers args d hd
      simp only [Call.prog, Prog.eval_map, heval, Option.map_some, Option.some.injEq,
        Prod.mk.injEq] at hrun
      exact hrun.1 ▸ rfl
    | _ => rw [hcall] at hadmitted; exact hadmitted.elim

/-- What every call of the table keeps, a call of the manager keeps. -/
theorem Desk.eval_keeps {J : Cachelito → Prop}
    (hcall : ∀ {t : Cachelito} (now : ℕ) (op : EntryOp), J t → J (t.call now op).2)
    {a : KeyAddress} {o : Outside V} {R : Type} {p : Step V R} {w w' : Desk} {r : R}
    (h : J w.table) (hrun : p.eval (Desk.exec a o) w = some (r, w')) : J w'.table := by
  refine Prog.eval_keeps (J := fun w : Desk => J w.table) (fun {w₁ w₂ q y} hw hexec => ?_) h hrun
  rcases exec_table hexec with hsame | ⟨op, -, hop⟩
  · rw [hsame]
    exact hw
  · rw [hop]
    exact hcall w₁.now op hw

/-- A key that has an entry keeps one. -/
theorem Desk.slots_eval {a b : KeyAddress} {o : Outside V} {R : Type} {p : Step V R} {w w' : Desk}
    {r : R} (h : w.table.WellFormed ∧ w.table.slots b ≠ none)
    (hrun : p.eval (Desk.exec a o) w = some (r, w')) :
    w'.table.WellFormed ∧ w'.table.slots b ≠ none := by
  apply Desk.eval_keeps (J := fun t => t.WellFormed ∧ t.slots b ≠ none) (fun now op ht => ?_) h hrun
  exact ⟨(ht.1.call now op).wellFormed, ht.1.slots_kept now op ht.2⟩

theorem Desk.visits_keeps {J : Cachelito → Prop}
    (hcall : ∀ {t : Cachelito} (now : ℕ) (op : EntryOp), J t → J (t.call now op).2)
    {tiers : ℕ} {placement : Placement} {history : List (Visit V)} {w w' : Desk}
    {rs : List (Reply V)} (h : J w.table)
    (hrun : Desk.visits tiers placement history w = some (rs, w')) : J w'.table := by
  induction history generalizing w rs with
  | nil =>
    cases hrun
    exact h
  | cons x history ih =>
    simp only [visits, Option.bind_eq_some_iff, Option.map_eq_some_iff] at hrun
    obtain ⟨⟨r, w₁⟩, hx, ⟨rest, w₂⟩, hrest, hend⟩ := hrun
    cases hend
    have hw₁ : J w₁.table := eval_keeps hcall (by exact h) hx
    exact ih hw₁ hrest

theorem Desk.wellFormed_visits {tiers : ℕ} {placement : Placement} {history : List (Visit V)}
    {w w' : Desk} {rs : List (Reply V)} (h : w.table.WellFormed)
    (hrun : Desk.visits tiers placement history w = some (rs, w')) : w'.table.WellFormed :=
  visits_keeps (fun now op ht => (ht.call now op).wellFormed) h hrun

/-- A caller of a key whose policy names `L0`. -/
def Args.at (key : KeyRef) : Args where
  authenticated := true
  keyRef := .ok key
  ttl := none
  select _ := ⟨true, .L0, .closed⟩

/-- Rungs that take every write and hold nothing. -/
def emptyHanded : Outside ℕ
  | _, .peek => .neverWritten
  | _, .acquire _ => .ok .neverWritten
  | _, .prepare _ _ => .error .timeout
  | _, .tierGet _ => .ok none
  | _, .tierContains _ => .ok false
  | _, .fetch => .ok 0
  | _, .setState _ | _, .publish _ _ _ | _, .failWithError _ | _, .invalidate | _, .release
  | _, .commit _ _ | _, .abort _ _ | _, .abortProvenClean _ _ | _, .tierSet _ _ _
  | _, .tierRemove _ | _, .notified _ => .ok ()
  | _, .evictionCandidate _ => none
  | _, .reserveEviction _ | _, .removeIfAddress _ _ => false
  | _, .register _ => none
  | _, .tierHealth _ => (0 : ℕ)
  | _, .sleep | _, .yieldNow | _, .record _ _ => ()

theorem quiet_emptyHanded : emptyHanded.Quiet := by
  intro n q
  cases q <;> first | trivial | nofun

theorem admitted_set_at (key : KeyRef) : (Call.set (.at key) 7 : Call ℕ).Admitted 1 :=
  ⟨rfl, Nat.one_pos, fun _ => ⟨rfl, nofun⟩⟩

/-- **The control plane runs out exactly when a shard has no cell left.** After any history of calls
on any keys, a `set` or a `get_or_fetch` fails with `ConfigurationError` when its key has no entry
and every cell of its shard is taken, by a key that is described or by one that was removed, and
never otherwise. -/
theorem runsOut_iff {shardCount tiers : ℕ} {placement : Placement} {start : ℕ}
    {history : List (Visit V)} {rs : List (Reply V)} {w w' : Desk}
    (hhistory : Desk.visits tiers placement history
      ⟨(Cachelito.withShards shardCount).withPlacement placement, start, 0⟩ = some (rs, w))
    {x : Visit V} (hquiet : x.outside.Quiet) (hadmitted : x.call.Admitted tiers) {r : Reply V}
    (hrun : x.run tiers placement w = some (r, w')) :
    r.RunsOut ↔ w.table.slots (.of x.call.key placement) = none ∧
      w.table.Full (.of x.call.key placement) :=
  Visit.fails_iff_full (Desk.wellFormed_visits (Cachelito.wellFormed_sized _ _ placement) hhistory)
    hquiet hadmitted hrun

/-- Two keys that are set and then removed. -/
def setAndRemoved : List (Visit ℕ) :=
  [⟨0, emptyHanded, .set (.at [0, 107]) 7⟩, ⟨1, emptyHanded, .remove (.at [0, 107])⟩,
    ⟨1, emptyHanded, .set (.at [0, 108]) 7⟩, ⟨1, emptyHanded, .remove (.at [0, 108])⟩]

/-- The removed keys keep their cells, and there is one left for a third key. -/
theorem runsOut_iff_setAndRemoved : ∃ rs w r w',
    Desk.visits 1 .default setAndRemoved ⟨(Cachelito.withShards 1).withPlacement .default, 1, 0⟩ =
      some (rs, w) ∧ rs = List.replicate 4 (.done (.ok ())) ∧
    w.table.slots (.of [0, 107] .default) ≠ none ∧ w.table.slots (.of [0, 108] .default) ≠ none ∧
    (⟨1, emptyHanded, .set (.at [0, 109]) 7⟩ : Visit ℕ).run 1 .default w = some (r, w') ∧
    ¬ r.RunsOut := by
  have hleft : (Desk.visits 1 .default setAndRemoved
      ⟨(Cachelito.withShards 1).withPlacement .default, 1, 0⟩).map (fun s => (s.1,
        (s.2.table.slots (.of [0, 107] .default)).isSome,
        (s.2.table.slots (.of [0, 108] .default)).isSome,
        decide (s.2.table.Full (.of [0, 109] .default)))) =
      some (List.replicate 4 (.done (.ok ())), true, true, false) := by
    decide +kernel
  obtain ⟨⟨rs, w⟩, hhistory, hleft⟩ := Option.map_eq_some_iff.1 hleft
  simp only [Prod.mk.injEq, decide_eq_false_iff_not, Option.isSome_iff_ne_none] at hleft
  obtain ⟨rfl, hfirst, hsecond, hroom⟩ := hleft
  obtain ⟨r, w', hrun⟩ := Visit.run_isSome 1 .default ⟨1, emptyHanded, .set (.at [0, 109]) 7⟩ w
  refine ⟨_, w, r, w', hhistory, rfl, hfirst, hsecond, hrun, fun hruns => ?_⟩
  exact hroom ((runsOut_iff hhistory quiet_emptyHanded (admitted_set_at [0, 109]) hrun).1 hruns).2

/-! ## A client that removes every key -/

/-- A client sets the keys one after another, and removes each at once; all removals succeed. -/
inductive Used : List KeyRef → Desk → Prop
  | new : Used [] ⟨(Cachelito.withShards 1).withPlacement .default, 1, 0⟩
  | next {keys : List KeyRef} {key : KeyRef} {w w₁ w₂ : Desk} {r : Reply ℕ} (h : Used keys w)
      (hset : (⟨0, emptyHanded, .set (.at key) 7⟩ : Visit ℕ).run 1 .default w = some (r, w₁))
      (hremove : (⟨0, emptyHanded, .remove (.at key)⟩ : Visit ℕ).run 1 .default w₁ =
        some (.done (.ok ()), w₂)) : Used (key :: keys) w₂

namespace Used

variable {keys : List KeyRef} {w : Desk}

/-- The table of the client is well formed, and has one shard of 1024 cells. -/
theorem table (h : Used keys w) :
    w.table.WellFormed ∧ w.table.shards.length = 1 ∧ w.table.Sized 1024 := by
  have hcall : ∀ {t : Cachelito} (now : ℕ) (op : EntryOp),
      (t.WellFormed ∧ t.shards.length = 1 ∧ t.Sized 1024) →
      (t.call now op).2.WellFormed ∧ (t.call now op).2.shards.length = 1 ∧
        (t.call now op).2.Sized 1024 := by
    rintro t now op ⟨hwf, hone, hsized⟩
    have hr := hwf.call now op
    refine ⟨hr.wellFormed, ?_, hsized.of_shape hr.shape⟩
    have hlength := congrArg List.length hr.shape
    rw [List.length_map, List.length_map] at hlength
    rw [hlength, hone]
  induction h with
  | new =>
    refine ⟨Cachelito.wellFormed_sized _ _ _, rfl, ?_⟩
    intro s hs
    rw [List.eq_of_mem_replicate hs]
    exact List.length_replicate
  | next h hset hremove ih =>
    have hafter : _ ∧ _ ∧ _ := Desk.eval_keeps (J := fun t => t.WellFormed ∧
      t.shards.length = 1 ∧ t.Sized 1024) hcall ih hset
    exact Desk.eval_keeps (J := fun t => t.WellFormed ∧ t.shards.length = 1 ∧ t.Sized 1024) hcall
      hafter hremove

/-- A `set` that does not run out leaves an entry. -/
theorem slots_set {key : KeyRef} {w w' : Desk} {r : Reply ℕ} (h : w.table.WellFormed)
    (hrun : (⟨0, emptyHanded, .set (.at key) 7⟩ : Visit ℕ).run 1 .default w = some (r, w'))
    (hruns : ¬ r.RunsOut) : w'.table.slots (.of key .default) ≠ none := by
  have hroomy : w.table.Roomy (.of key .default) := by
    by_contra hfull
    exact hruns ((Visit.fails_iff_full h quiet_emptyHanded (admitted_set_at key) hrun).2
      (Cachelito.not_roomy.1 hfull))
  -- the call reads the entry and the health of its rung, and prepares a write at `L0`
  have hset : (Manager.set 1 (.at key) 7 : Step ℕ _) = .req .set .peek none fun s =>
      .req .set (.tierHealth s.tier) none fun _ =>
        setPasses 1 (.at key) 7 .L0 17 .tierUnavailable := rfl
  change (Reply.done <$> Manager.set 1 (.at key) 7).eval (Desk.exec (.of key .default) emptyHanded)
    { w with now := w.now + 0 } = some (r, w') at hrun
  rw [Prog.eval_map, Option.map_eq_some_iff, hset] at hrun
  obtain ⟨⟨_, w₁⟩, hrun, hend⟩ := hrun
  cases hend
  obtain ⟨_, w₂, hpeek, hrun⟩ := Prog.eval_req_eq_some.1 hrun
  cases hpeek
  obtain ⟨_, w₃, hhealth, hrun⟩ := Prog.eval_req_eq_some.1 hrun
  cases hhealth
  rw [setPasses, Prog.eval_bind, Option.bind_eq_some_iff] at hrun
  obtain ⟨⟨rungEnd, w₄⟩, hwalk, hpasses⟩ := hrun
  rw [descent, walk, if_neg (by decide), Prog.eval_bind, Option.bind_eq_some_iff] at hwalk
  obtain ⟨⟨writeEnd, w₅⟩, hwrite, hwalk⟩ := hwalk
  rw [maxCommitAttempts, writeAt] at hwrite
  simp only [call, noTelemetry_eq, Prog.req_bind, Prog.ret_bind] at hwrite
  obtain ⟨token, w₆, hprepare, hwrite⟩ := Prog.eval_req_eq_some.1 hwrite
  have hcreated : w₆.table.WellFormed ∧ w₆.table.slots (.of key .default) ≠ none := by
    cases hprepare
    have hcreates : (EntryOp.prepare (.of key .default) none .L0 .write).Creates := trivial
    have hcalled := (h.call (w.now + 0) (.prepare (.of key .default) none .L0 .write)).wellFormed
    exact ⟨hcalled, h.slots_created hcreates hroomy (w.now + 0)⟩
  have hwalked := Desk.slots_eval (Desk.slots_eval hcreated hwrite) hwalk
  exact (Desk.slots_eval hwalked hpasses).2

/-- `remove` succeeds whatever the rungs answer. -/
theorem remove_ok (key : KeyRef) (w : Desk) : ∃ w',
    (⟨0, emptyHanded, .remove (.at key)⟩ : Visit ℕ).run 1 .default w =
      some (.done (.ok ()), w') := by
  have hk : (Call.remove (.at key) : Call ℕ).prog 1 =
      .req .remove (.tierRemove .L0) (some []) fun _ =>
        .req .remove .release none fun r => .ret (.done r) := rfl
  have hok : ∀ t : Cachelito, (t.release (.of key .default)).1 = .ok () := by
    intro t
    by_contra hne
    exact Cachelito.withEntry_ne (x := (t.release (.of key .default)).1) (Ne.symm hne)
      (fun _ => Ne.symm hne) (.of key .default) rfl
  change ∃ w', ((Call.remove (.at key) : Call ℕ).prog 1).eval
    (Desk.exec (.of key .default) emptyHanded) { w with now := w.now + 0 } =
      some (.done (.ok ()), w')
  have htier : Desk.exec (.of key .default) emptyHanded (.tierRemove .L0)
      { w with now := w.now + 0 } =
        some (.ok (), { w with now := w.now + 0, asked := w.asked + 1 }) := rfl
  have hrelease : Desk.exec (.of key .default) emptyHanded .release
      { w with now := w.now + 0, asked := w.asked + 1 } = some (.ok (),
        { w with
          now := w.now + 0
          asked := w.asked + 1
          table := (w.table.release (.of key .default)).2 }) :=
    congrArg some (Prod.ext (hok w.table) rfl)
  rw [hk, Prog.eval_req htier, Prog.eval_req hrelease]
  exact ⟨_, rfl⟩

/-- While no `set` of a new key runs out, every key that was used has an entry. -/
theorem exists_of_nodup (hnever : ∀ {keys key w r w'}, Used keys w → key ∉ keys →
      (⟨0, emptyHanded, .set (.at key) 7⟩ : Visit ℕ).run 1 .default w = some (r, w') →
      ¬ r.RunsOut) (keys : List KeyRef) (hkeys : keys.Nodup) :
    ∃ w, Used keys w ∧ ∀ key ∈ keys, w.table.slots (.of key .default) ≠ none := by
  induction keys with
  | nil => exact ⟨_, .new, by simp⟩
  | cons key keys ih =>
    obtain ⟨hkey, hkeys⟩ := List.nodup_cons.1 hkeys
    obtain ⟨w, hused, hslots⟩ := ih hkeys
    obtain ⟨r, w₁, hset⟩ := Visit.run_isSome 1 .default ⟨0, emptyHanded, .set (.at key) 7⟩ w
    obtain ⟨w₂, hremove⟩ := remove_ok key w₁
    refine ⟨w₂, .next hused hset hremove, ?_⟩
    have hwf : w.table.WellFormed := hused.table.1
    have hwf₁ : w₁.table.WellFormed :=
      Desk.eval_keeps (J := Cachelito.WellFormed) (fun now op ht => (ht.call now op).wellFormed)
        hwf hset
    intro key' hkey'
    have hafter : w₁.table.slots (.of key' .default) ≠ none := by
      rcases List.mem_cons.1 hkey' with rfl | hkey'
      · exact slots_set hwf hset (hnever hused hkey hset)
      · exact (Desk.slots_eval (by exact ⟨hwf, hslots key' hkey'⟩) hset).2
    exact (Desk.slots_eval (by exact ⟨hwf₁, hafter⟩) hremove).2

/-- A `set` of a new key runs out once the shard is full. -/
theorem runs_out (h : Used keys w) {key : KeyRef}
    (hslot : w.table.slots (.of key .default) = none) (hfull : w.table.Full (.of key .default)) :
    ∃ r w', (⟨0, emptyHanded, .set (.at key) 7⟩ : Visit ℕ).run 1 .default w = some (r, w') ∧
      r.RunsOut := by
  obtain ⟨r, w', hset⟩ := Visit.run_isSome 1 .default ⟨0, emptyHanded, .set (.at key) 7⟩ w
  have hruns := Visit.fails_iff_full h.table.1 quiet_emptyHanded (admitted_set_at key) hset
  exact ⟨r, w', hset, hruns.2 ⟨hslot, hfull⟩⟩

end Used

/-- Keys of two bytes, more than a shard has cells. -/
def numbered (i : ℕ) : KeyRef := [UInt8.ofNat (i / 256), UInt8.ofNat (i % 256)]

/-- Their addresses differ: the first bytes leave the hash in states that differ above the byte
that comes next. -/
theorem numbered_address_injOn {i j : ℕ} (hi : i ≤ 1024) (hj : j ≤ 1024)
    (h : KeyAddress.of (numbered i) .default = KeyAddress.of (numbered j) .default) : i = j := by
  have hhash : fnv1a (numbered i) fnvOffsetA = fnv1a (numbered j) fnvOffsetA :=
    congrArg KeyAddress.placement h
  -- the state after the first byte, and its bits above a byte
  have hlow : ∀ b : UInt8, b.toUInt64 >>> 8 = 0 := by
    intro b
    rw [← UInt64.toNat_inj]
    have hb := b.toNat_lt
    simp only [UInt64.toNat_shiftRight, UInt8.toNat_toUInt64]
    exact Nat.shiftRight_eq_zero _ _ (by simpa using hb)
  have hhigh : ∀ (s : UInt64) (b : UInt8), (s ^^^ b.toUInt64) >>> 8 = s >>> 8 := by
    intro s b
    rw [UInt64.shiftRight_xor, hlow, UInt64.xor_zero]
  have hfirst : ∀ c d : ℕ, c ≤ 4 → d ≤ 4 →
      ((fnvOffsetA ^^^ (UInt8.ofNat c).toUInt64) * fnvPrime) >>> 8 =
        ((fnvOffsetA ^^^ (UInt8.ofNat d).toUInt64) * fnvPrime) >>> 8 → c = d := by
    intro c d hc hd
    interval_cases c <;> interval_cases d <;> decide
  simp only [fnv1a, numbered, List.foldl_cons, List.foldl_nil] at hhash
  have hstate := Bytes.mul_injective fnvPrime_inverse hhash
  have hc : i / 256 = j / 256 := by
    refine hfirst _ _ (by omega) (by omega) ?_
    rw [← hhigh _ (UInt8.ofNat (i % 256)), hstate, hhigh]
  rw [hc, UInt64.xor_right_inj, UInt8.toUInt64_inj] at hstate
  have hb : i % 256 = j % 256 := by
    have := congrArg UInt8.toNat hstate
    rw [UInt8.toNat_ofNat', UInt8.toNat_ofNat'] at this
    omega
  omega

/-- **A client that removes every key runs out.** It has used some keys, each of them set and then
removed, and a `set` of a new key fails. -/
theorem removed_keys_run_out : ∃ keys key w r w', Used keys w ∧ key ∉ keys ∧
    (⟨0, emptyHanded, .set (.at key) 7⟩ : Visit ℕ).run 1 .default w = some (r, w') ∧
    r.RunsOut := by
  by_contra hnone
  have hnever : ∀ {keys key w r w'}, Used keys w → key ∉ keys →
      (⟨0, emptyHanded, .set (.at key) 7⟩ : Visit ℕ).run 1 .default w = some (r, w') →
      ¬ r.RunsOut :=
    fun hused hkey hrun hruns => hnone ⟨_, _, _, _, _, hused, hkey, hrun, hruns⟩
  have hnumbered : ∀ i ≤ 1024, ∀ j ≤ 1024, numbered i = numbered j → i = j :=
    fun i hi j hj hij => numbered_address_injOn hi hj (by rw [hij])
  have hnodup : ((List.range 1024).map numbered).Nodup := by
    refine List.Nodup.map_on (fun i hi j hj hij => ?_) List.nodup_range
    exact hnumbered i (List.mem_range.1 hi).le j (List.mem_range.1 hj).le hij
  obtain ⟨w, hused, hslots⟩ := Used.exists_of_nodup hnever _ hnodup
  obtain ⟨hwf, hone, hsized⟩ := hused.table
  have hinj : Function.Injective fun i : Fin 1024 => KeyAddress.of (numbered i) .default := by
    intro i j hij
    exact Fin.ext (numbered_address_injOn i.2.le j.2.le hij)
  obtain ⟨hfull, hmissing⟩ := hwf.full_of_slots hone hsized hinj
    (fun i => hslots _ (List.mem_map_of_mem (List.mem_range.2 i.2)))
    (.of (numbered 1024) .default)
  have hnew : numbered 1024 ∉ (List.range 1024).map numbered := by
    intro hmem
    obtain ⟨i, hi, heq⟩ := List.mem_map.1 hmem
    have := hnumbered i (List.mem_range.1 hi).le 1024 le_rfl heq
    rw [this] at hi
    simp at hi
  have hslot : w.table.slots (.of (numbered 1024) .default) = none := by
    refine hmissing fun i heq => ?_
    have := numbered_address_injOn i.2.le le_rfl heq
    omega
  obtain ⟨r, w', hset, hruns⟩ := hused.runs_out hslot hfull
  exact hnever hused hnew hset hruns

end TheSix
