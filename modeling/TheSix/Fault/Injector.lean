import TheSix.Fault.Plan

/-!
# What a fault plan makes of the operations

`FaultyTier::next_fault` of the test harness consumes a plan operation by operation. A fault with an
amount and a deliverable class is a schedule: it is put back at the head of the queue while its grace
window is open, and fires when the window is spent. The ledger counts what has fired.

A plan is a script. Whatever the operations, the faults that fire on those of one kind are the ones
armed for it, in order, and the ledger has each of them (`run_script`). The window is one for the whole
plan: the first schedule that is met opens it, with its own amount, and the schedules after it are
spared no operation of their own (`run_grace`).
-/

namespace TheSix

/-! ## The ledger -/

namespace FaultLedger

/-- `FaultLedger::index`. -/
def index : FaultClass → Fin 12
  | .latency => 0
  | .timeout => 1
  | .hang => 2
  | .readFailure => 3
  | .writeFailure => 4
  | .metadataFailure => 5
  | .corruption => 6
  | .disconnect => 7
  | .capacityExhaustion => 8
  | .failureAfterN => 9
  | .cancellation => 10
  | .partialWrite => 11

theorem index_injective : Function.Injective index := by
  intro c c' h
  cases c <;> cases c' <;> first | rfl | cases h

end FaultLedger

/-- `FaultLedger`. -/
structure FaultLedger where
  counts : Fin 12 → ℕ
  ops : ℕ

namespace FaultLedger

/-- `FaultLedger::new`. -/
def new : FaultLedger := ⟨fun _ => 0, 0⟩

/-- `FaultLedger::record`. -/
def record (l : FaultLedger) (c : FaultClass) : FaultLedger :=
  { l with counts := Function.update l.counts (index c) (l.counts (index c) + 1) }

/-- `FaultLedger::fired`. -/
def fired (l : FaultLedger) (c : FaultClass) : ℕ := l.counts (index c)

/-- `FaultLedger::observe_op`. -/
def observeOp (l : FaultLedger) : FaultLedger := { l with ops := l.ops + 1 }

/-- `FaultLedger::never_fired`. -/
def neverFired (l : FaultLedger) (armed : List FaultClass) : List String :=
  (armed.filter (l.fired · = 0)).map FaultClass.asStr

theorem fired_record (l : FaultLedger) (c c' : FaultClass) :
    (l.record c).fired c' = l.fired c' + if c = c' then 1 else 0 := by
  simp only [record, fired, Function.update_apply, index_injective.eq_iff, eq_comm (a := c')]
  split_ifs with h
  · rw [h]
  · rfl

end FaultLedger

/-! ## The plan at work -/

/-- The part of `FaultyTier` that `next_fault` reads and writes. -/
structure Injector where
  plan : FaultPlan
  ledger : FaultLedger
  remainingOk : ℕ
  windowArmed : Bool

/-- The fault is a schedule: it spares some operations before it fires. -/
def ArmedFault.scheduled (f : ArmedFault) : Bool := 0 < f.amount && f.fault.isScheduledFailure

namespace Injector

/-- `FaultyTier::wrap` and `with_plan`. -/
def withPlan (plan : FaultPlan) : Injector := ⟨plan, .new, 0, false⟩

/-- `FaultyTier::arm`. -/
def arm (t : Injector) (plan : FaultPlan) : Injector :=
  { t with plan := plan, remainingOk := 0, windowArmed := false }

/-- `FaultyTier::next_fault`. -/
def nextFault (t : Injector) (op : OpKind) : Option (FaultClass × ℕ) × Injector :=
  let t := { t with ledger := t.ledger.observeOp }
  match t.plan.takeFor op with
  | none => (none, t)
  | some (armed, plan) =>
    let t := { t with plan := plan }
    if armed.scheduled = true ∧ t.windowArmed = false then
      (none, { t with
        windowArmed := true, remainingOk := armed.amount - 1, plan := plan.rearm armed })
    else if armed.scheduled = true ∧ 0 < t.remainingOk then
      (none, { t with remainingOk := t.remainingOk - 1, plan := plan.rearm armed })
    else
      (some (armed.fault, armed.amount), { t with ledger := t.ledger.record armed.fault })

/-- What an operation has met: the fault that was first for it, and whether that fired. -/
structure Met where
  op : OpKind
  armed : Option ArmedFault
  fired : Bool
  deriving DecidableEq

/-- What an operation meets. -/
def meet (t : Injector) (op : OpKind) : Met :=
  ⟨op, (t.plan.takeFor op).map (·.1), (t.nextFault op).1.isSome⟩

/-- Operations one after another: what they have met, oldest first, and the injector they leave. -/
def run (t : Injector) : List OpKind → List Met × Injector
  | [] => ([], t)
  | op :: ops => (t.meet op :: ((t.nextFault op).2.run ops).1, ((t.nextFault op).2.run ops).2)

/-- The faults that have fired. -/
def hits (log : List Met) : List ArmedFault :=
  log.filterMap fun m => if m.fired then m.armed else none

/-- The schedules that have spared an operation, once for each. -/
def spared (log : List Met) : List ArmedFault :=
  log.filterMap fun m => if m.fired then none else m.armed

/-! ### One operation -/

section Step

variable {t : Injector} {op : OpKind} {f : ArmedFault} {plan : FaultPlan}

/-- **What one operation does**: nothing is armed for it, or a schedule spares it, or a fault fires. -/
theorem nextFault_cases (t : Injector) (op : OpKind) :
    (t.plan.takeFor op = none ∧
      t.nextFault op = (none, { t with ledger := t.ledger.observeOp })) ∨
    ∃ f plan, t.plan.takeFor op = some (f, plan) ∧
      ((f.scheduled = true ∧ (t.windowArmed = true → 0 < t.remainingOk) ∧
        t.nextFault op = (none, { t with
          ledger := t.ledger.observeOp
          plan := plan.rearm f
          windowArmed := true
          remainingOk := (if t.windowArmed then t.remainingOk else f.amount) - 1 })) ∨
      ((f.scheduled = true → t.windowArmed = true ∧ t.remainingOk = 0) ∧
        t.nextFault op = (some (f.fault, f.amount), { t with
          ledger := t.ledger.observeOp.record f.fault
          plan := plan }))) := by
  cases htake : t.plan.takeFor op with
  | none => exact Or.inl ⟨rfl, by simp only [nextFault, htake]⟩
  | some fp =>
    obtain ⟨f, plan⟩ := fp
    refine Or.inr ⟨f, plan, rfl, ?_⟩
    by_cases hopens : f.scheduled = true ∧ t.windowArmed = false
    · refine Or.inl ⟨hopens.1, by simp [hopens.2], ?_⟩
      simp only [nextFault, htake, hopens, if_true, and_self]
      simp
    · by_cases hgoes : f.scheduled = true ∧ 0 < t.remainingOk
      · have hopen : t.windowArmed = true := by simpa [hgoes.1] using hopens
        refine Or.inl ⟨hgoes.1, fun _ => hgoes.2, ?_⟩
        simp only [nextFault, htake, hgoes, hopen, and_self, if_true, true_and]
        simp
      · refine Or.inr ⟨?_, by simp only [nextFault, htake, if_neg hopens, if_neg hgoes]⟩
        intro hf
        refine ⟨by simpa [hf] using hopens, ?_⟩
        have hzero : ¬0 < t.remainingOk := fun h => hgoes ⟨hf, h⟩
        omega

/-- A latency fires on the first operation that nothing else is armed for, whatever the window: its
amount is a time, and spares no operation. -/
theorem nextFault_pushLatencyMs (t : Injector) (ms : ℕ) (h : t.plan.armedFor op = []) :
    ({ t with plan := t.plan.pushLatencyMs op ms }.nextFault op).1 = some (.latency, ms) := by
  have hnone : ∀ f ∈ t.plan.queue, ¬decide (f.op = op) = true := List.filter_eq_nil_iff.1 h
  have htake : (t.plan.pushLatencyMs op ms).takeFor op = some (⟨op, .latency, ms⟩, t.plan) := by
    have hfind : t.plan.queue.find? (·.op = op) = none := List.find?_eq_none.2 hnone
    have herase : (t.plan.pushLatencyMs op ms).queue.eraseP (·.op = op) = t.plan.queue := by
      rw [FaultPlan.pushLatencyMs, List.eraseP_append_right _ hnone]
      simp
    rw [FaultPlan.takeFor, herase, FaultPlan.pushLatencyMs, List.find?_append, hfind]
    simp
  simp [nextFault, htake, ArmedFault.scheduled, FaultClass.isScheduledFailure]

theorem op_of_takeFor (h : t.plan.takeFor op = some (f, plan)) : f.op = op := by
  obtain ⟨g, hg, heq⟩ := Option.map_eq_some_iff.1 h
  obtain ⟨rfl, -⟩ := Prod.mk.inj heq
  simpa using List.find?_some hg

/-- Taking a fault and putting it back changes no order but that between operations of other kinds. -/
theorem armedFor_takeFor (h : t.plan.takeFor op = some (f, plan)) (k : OpKind) :
    t.plan.armedFor k = if k = op then f :: plan.armedFor k else plan.armedFor k := by
  obtain ⟨g, hg, heq⟩ := Option.map_eq_some_iff.1 h
  obtain ⟨rfl, rfl⟩ := Prod.mk.inj heq
  obtain ⟨hop, before, after, hqueue, hbefore⟩ := List.find?_eq_some_iff_append.1 hg
  have hop' : g.op = op := by simpa using hop
  have hbefore' : ∀ b ∈ before, ¬b.op = op := by simpa using hbefore
  have herase : t.plan.queue.eraseP (·.op = op) = before ++ after := by
    rw [hqueue, List.eraseP_append_right _ (by simpa using hbefore'),
      List.eraseP_cons_of_pos (by simpa using hop')]
  show t.plan.queue.filter _ = if k = op then g :: List.filter _ _ else List.filter _ _
  rw [herase, hqueue, List.filter_append, List.filter_append]
  by_cases hk : k = op
  · subst hk
    have hnone : before.filter (fun b => decide (b.op = k)) = [] := by
      simpa [List.filter_eq_nil_iff] using hbefore'
    rw [if_pos rfl, hnone, List.nil_append, List.filter_cons_of_pos (by simpa using hop'),
      List.nil_append]
  · rw [if_neg hk, List.filter_cons_of_neg]
    simpa [hop'] using Ne.symm hk

theorem armedFor_rearm (plan : FaultPlan) (f : ArmedFault) (k : OpKind) :
    (plan.rearm f).armedFor k = if f.op = k then f :: plan.armedFor k else plan.armedFor k := by
  simp only [FaultPlan.armedFor, FaultPlan.rearm, List.filter_cons, decide_eq_true_eq]

end Step

theorem hits_cons (m : Met) (log : List Met) : hits (m :: log) = hits [m] ++ hits log :=
  List.filterMap_append (l := [m])

theorem spared_cons (m : Met) (log : List Met) : spared (m :: log) = spared [m] ++ spared log :=
  List.filterMap_append (l := [m])

/-- What one operation adds to what has fired and to what was spared, and the injector it leaves. -/
theorem meet_cases (t : Injector) (op : OpKind) :
    (t.plan.takeFor op = none ∧ hits [t.meet op] = [] ∧ spared [t.meet op] = [] ∧
      (t.nextFault op).2 = { t with ledger := t.ledger.observeOp }) ∨
    ∃ f plan, t.plan.takeFor op = some (f, plan) ∧
      ((f.scheduled = true ∧ (t.windowArmed = true → 0 < t.remainingOk) ∧
        hits [t.meet op] = [] ∧ spared [t.meet op] = [f] ∧
        (t.nextFault op).2 = { t with
          ledger := t.ledger.observeOp
          plan := plan.rearm f
          windowArmed := true
          remainingOk := (if t.windowArmed then t.remainingOk else f.amount) - 1 }) ∨
      ((f.scheduled = true → t.windowArmed = true ∧ t.remainingOk = 0) ∧
        hits [t.meet op] = [f] ∧ spared [t.meet op] = [] ∧
        (t.nextFault op).2 = { t with
          ledger := t.ledger.observeOp.record f.fault
          plan := plan })) := by
  obtain ⟨htake, hnext⟩ | ⟨f, plan, htake, ⟨hscheduled, hleft, hnext⟩ | ⟨hspent, hnext⟩⟩ :=
    t.nextFault_cases op
  · exact Or.inl ⟨htake, by simp [hits, meet, hnext], by simp [spared, meet, htake], by rw [hnext]⟩
  · exact Or.inr ⟨f, plan, htake, Or.inl ⟨hscheduled, hleft, by simp [hits, meet, hnext],
      by simp [spared, meet, htake, hnext], by rw [hnext]⟩⟩
  · exact Or.inr ⟨f, plan, htake, Or.inr ⟨hspent, by simp [hits, meet, htake, hnext],
      by simp [spared, meet, hnext], by rw [hnext]⟩⟩

/-- What fires on an operation was the first fault armed for it, and what spares it stays first. -/
theorem hits_meet (t : Injector) (op k : OpKind) :
    (hits [t.meet op]).filter (·.op = k) ++ (t.nextFault op).2.plan.armedFor k = t.plan.armedFor k := by
  obtain ⟨-, hhits, -, hnext⟩ | ⟨f, plan, htake, ⟨-, -, hhits, -, hnext⟩ | ⟨-, hhits, -, hnext⟩⟩ :=
    t.meet_cases op
  · rw [hhits, hnext]
    rfl
  · rw [hhits, hnext, armedFor_takeFor htake]
    simp only [armedFor_rearm, op_of_takeFor htake, eq_comm (a := k)]
    rfl
  · rw [hhits, hnext, armedFor_takeFor htake]
    by_cases hk : k = op
    · simp [op_of_takeFor htake, hk]
    · simp [op_of_takeFor htake, hk, Ne.symm hk]

/-- The ledger counts what fires on an operation. -/
theorem fired_nextFault (t : Injector) (op : OpKind) (c : FaultClass) :
    (t.nextFault op).2.ledger.fired c =
      t.ledger.fired c + (hits [t.meet op]).countP (·.fault = c) := by
  obtain ⟨-, hhits, -, hnext⟩ | ⟨f, plan, -, ⟨-, -, hhits, -, hnext⟩ | ⟨-, hhits, -, hnext⟩⟩ :=
    t.meet_cases op
  · rw [hhits, hnext]
    rfl
  · rw [hhits, hnext]
    rfl
  · rw [hhits, hnext, FaultLedger.fired_record, List.countP_singleton]
    simp [FaultLedger.fired, FaultLedger.observeOp]

theorem ops_nextFault (t : Injector) (op : OpKind) :
    (t.nextFault op).2.ledger.ops = t.ledger.ops + 1 := by
  obtain ⟨-, -, -, hnext⟩ | ⟨f, plan, -, ⟨-, -, -, -, hnext⟩ | ⟨-, -, -, hnext⟩⟩ := t.meet_cases op <;>
    rw [hnext] <;> rfl

/-! ### Every run -/

theorem hits_run (t : Injector) (ops : List OpKind) (k : OpKind) :
    (hits (t.run ops).1).filter (·.op = k) ++ (t.run ops).2.plan.armedFor k = t.plan.armedFor k := by
  induction ops generalizing t with
  | nil => rfl
  | cons op ops ih =>
    rw [run, hits_cons, List.filter_append, List.append_assoc, ih, hits_meet]

theorem fired_run (t : Injector) (ops : List OpKind) (c : FaultClass) :
    (t.run ops).2.ledger.fired c = t.ledger.fired c + (hits (t.run ops).1).countP (·.fault = c) := by
  induction ops generalizing t with
  | nil => rfl
  | cons op ops ih =>
    rw [run, hits_cons, List.countP_append, ih, fired_nextFault, Nat.add_assoc]

theorem ops_run (t : Injector) (ops : List OpKind) :
    (t.run ops).2.ledger.ops = t.ledger.ops + ops.length := by
  induction ops generalizing t with
  | nil => rfl
  | cons op ops ih => rw [run, ih, ops_nextFault, List.length_cons, Nat.add_assoc, Nat.add_comm 1]

/-- **A plan is a script**: whatever the operations, the faults that fire on those of one kind are the
first ones armed for it, in order, and the others are still armed. The ledger has each fault that has
fired, each operation, and no class that has not. -/
theorem run_script (t : Injector) (ops : List OpKind) :
    (∀ k, (hits (t.run ops).1).filter (·.op = k) ++ (t.run ops).2.plan.armedFor k =
      t.plan.armedFor k) ∧
    (∀ c, (t.run ops).2.ledger.fired c =
      t.ledger.fired c + (hits (t.run ops).1).countP (·.fault = c)) ∧
    (t.run ops).2.ledger.ops = t.ledger.ops + ops.length ∧
    ∀ armed, (t.run ops).2.ledger.neverFired armed = (armed.filter fun c =>
      t.ledger.fired c = 0 ∧ ∀ f ∈ hits (t.run ops).1, f.fault ≠ c).map FaultClass.asStr := by
  refine ⟨hits_run t ops, fired_run t ops, ops_run t ops, ?_⟩
  intro armed
  rw [FaultLedger.neverFired]
  congr 2
  funext c
  rw [fired_run, decide_eq_decide, Nat.add_eq_zero_iff, List.countP_eq_zero]
  simp only [decide_eq_true_eq, ne_eq]

/-! ### The grace window -/

/-- An open window spares as many operations as it has left, and then no more. -/
theorem run_open {t : Injector} (hopen : t.windowArmed = true) (ops : List OpKind) :
    (spared (t.run ops).1).length ≤ t.remainingOk ∧
      ((∃ f ∈ hits (t.run ops).1, f.scheduled = true) →
        (spared (t.run ops).1).length = t.remainingOk) := by
  induction ops generalizing t with
  | nil => simp [run, spared, hits]
  | cons op ops ih =>
    rw [run, hits_cons, spared_cons, List.length_append]
    obtain ⟨-, hhits, hspared, hnext⟩ | ⟨f, plan, -, ⟨-, hleft, hhits, hspared, hnext⟩ |
      ⟨hspent, hhits, hspared, hnext⟩⟩ := t.meet_cases op
    · -- nothing is armed for the operation
      rw [hhits, hspared, hnext, List.nil_append, List.length_nil, Nat.zero_add]
      exact ih hopen
    · -- the window spares it
      have hpos := hleft hopen
      have hrest : (t.nextFault op).2.remainingOk = t.remainingOk - 1 := by rw [hnext, hopen]; rfl
      have hstays : (t.nextFault op).2.windowArmed = true := by rw [hnext]
      obtain ⟨hle, heq⟩ := ih hstays
      rw [hrest] at hle heq
      rw [hhits, hspared, List.nil_append, List.length_singleton]
      refine ⟨by omega, ?_⟩
      intro hfired
      have hlen := heq hfired
      omega
    · -- a fault fires
      have hrest : (t.nextFault op).2.remainingOk = t.remainingOk := by rw [hnext]
      have hstays : (t.nextFault op).2.windowArmed = true := by rw [hnext]; exact hopen
      obtain ⟨hle, heq⟩ := ih hstays
      rw [hrest] at hle heq
      rw [hhits, hspared, List.length_nil, Nat.zero_add]
      refine ⟨hle, ?_⟩
      rintro ⟨g, hg, hscheduled⟩
      rcases List.mem_cons.1 hg with rfl | hg
      · have hzero := (hspent hscheduled).2
        omega
      · exact heq ⟨g, hg, hscheduled⟩

/-- A closed window is opened by the first schedule that is met. -/
theorem run_closed {t : Injector} (hclosed : t.windowArmed = false) (ops : List OpKind) :
    match spared (t.run ops).1 with
    | [] => ∀ f ∈ hits (t.run ops).1, f.scheduled = false
    | f :: rest => rest.length + 1 ≤ f.amount ∧
        ((∃ g ∈ hits (t.run ops).1, g.scheduled = true) → rest.length + 1 = f.amount) := by
  induction ops generalizing t with
  | nil => simp [run, spared, hits]
  | cons op ops ih =>
    rw [run, hits_cons, spared_cons]
    obtain ⟨-, hhits, hspared, hnext⟩ | ⟨f, plan, -, ⟨hscheduled, -, hhits, hspared, hnext⟩ |
      ⟨hspent, hhits, hspared, hnext⟩⟩ := t.meet_cases op
    · rw [hhits, hspared, hnext]
      exact ih hclosed
    · -- the schedule opens the window, with its own amount
      have hpos : 0 < f.amount := by
        rw [ArmedFault.scheduled, Bool.and_eq_true, decide_eq_true_eq] at hscheduled
        exact hscheduled.1
      have hrest : (t.nextFault op).2.remainingOk = f.amount - 1 := by rw [hnext, hclosed]; rfl
      have hstays : (t.nextFault op).2.windowArmed = true := by rw [hnext]
      obtain ⟨hle, heq⟩ := run_open hstays ops
      rw [hrest] at hle heq
      rw [hhits, hspared]
      show (spared ((t.nextFault op).2.run ops).1).length + 1 ≤ f.amount ∧ _
      refine ⟨by omega, ?_⟩
      intro hfired
      have hlen := heq hfired
      show (spared ((t.nextFault op).2.run ops).1).length + 1 = f.amount
      omega
    · -- what fires is no schedule
      have hplain : f.scheduled = false := by
        cases hf : f.scheduled with
        | false => rfl
        | true => exact absurd (hspent hf).1 (by rw [hclosed]; decide)
      have hstays : (t.nextFault op).2.windowArmed = false := by rw [hnext]; exact hclosed
      have hih := ih hstays
      rw [hhits, hspared]
      simp only [List.nil_append, List.singleton_append, List.mem_cons, exists_eq_or_imp,
        forall_eq_or_imp, hplain, Bool.false_eq_true, false_or, true_and]
      exact hih

/-- **The grace window is the plan's, not the fault's**: after a plan is armed, the first schedule that
is met spares its amount of operations, its own and those of the schedules after it together. No
schedule fires before the window is spent, and none spares an operation afterwards. -/
theorem run_grace (t : Injector) (plan : FaultPlan) (ops : List OpKind) :
    match spared ((t.arm plan).run ops).1 with
    | [] => ∀ f ∈ hits ((t.arm plan).run ops).1, f.scheduled = false
    | f :: rest => rest.length + 1 ≤ f.amount ∧
        ((∃ g ∈ hits ((t.arm plan).run ops).1, g.scheduled = true) → rest.length + 1 = f.amount) :=
  run_closed rfl ops

/-! ### Plans without schedules -/

theorem armedFor_of_takeFor_none {t : Injector} {op : OpKind} (h : t.plan.takeFor op = none) :
    t.plan.armedFor op = [] := by
  rw [FaultPlan.takeFor, Option.map_eq_none_iff, List.find?_eq_none] at h
  exact List.filter_eq_nil_iff.2 h

theorem mem_of_takeFor {t : Injector} {op : OpKind} {f : ArmedFault} {plan : FaultPlan}
    (h : t.plan.takeFor op = some (f, plan)) :
    f ∈ t.plan.queue ∧ ∀ g ∈ plan.queue, g ∈ t.plan.queue := by
  obtain ⟨g, hg, heq⟩ := Option.map_eq_some_iff.1 h
  obtain ⟨rfl, rfl⟩ := Prod.mk.inj heq
  exact ⟨List.mem_of_find?_eq_some hg, fun _ hmem => List.mem_of_mem_eraseP hmem⟩

/-- Without schedules nothing is spared, and each operation of a kind fires the next fault armed for
it. -/
theorem run_of_plain {t : Injector} (hplain : ∀ f ∈ t.plan.queue, f.scheduled = false)
    (ops : List OpKind) :
    spared (t.run ops).1 = [] ∧
      ∀ k, (hits (t.run ops).1).filter (·.op = k) = (t.plan.armedFor k).take (ops.count k) := by
  induction ops generalizing t with
  | nil => exact ⟨rfl, fun _ => rfl⟩
  | cons op ops ih =>
    rw [run, hits_cons, spared_cons]
    obtain ⟨htake, hhits, hspared, hnext⟩ | ⟨f, plan, htake, ⟨hscheduled, -, -⟩ |
      ⟨-, hhits, hspared, hnext⟩⟩ := t.meet_cases op
    · rw [hhits, hspared, hnext, List.nil_append, List.nil_append]
      obtain ⟨hnone, htaken⟩ := @ih { t with ledger := t.ledger.observeOp } hplain
      refine ⟨hnone, ?_⟩
      intro k
      rw [htaken k]
      by_cases hk : op = k
      · rw [← hk]
        simp [armedFor_of_takeFor_none htake]
      · rw [List.count_cons_of_ne hk]
    · rw [hplain f (mem_of_takeFor htake).1] at hscheduled
      cases hscheduled
    · have hrest : ∀ g ∈ (t.nextFault op).2.plan.queue, g.scheduled = false := by
        rw [hnext]
        exact fun g hg => hplain g ((mem_of_takeFor htake).2 g hg)
      obtain ⟨hnone, htaken⟩ := ih hrest
      rw [hhits, hspared, List.nil_append]
      refine ⟨hnone, ?_⟩
      intro k
      rw [List.filter_append, htaken k, hnext, armedFor_takeFor htake]
      by_cases hk : op = k
      · simp [op_of_takeFor htake, hk]
      · simp [op_of_takeFor htake, hk, Ne.symm hk]

theorem plain_of_generated {f : ArmedFault} (h : FaultPlan.Generated f) : f.scheduled = false := by
  by_cases hlatency : f.fault = .latency
  · simp [ArmedFault.scheduled, hlatency, FaultClass.isScheduledFailure]
  · by_cases hafter : f.fault = .failureAfterN
    · simp [ArmedFault.scheduled, hafter, FaultClass.isScheduledFailure]
    · simp [ArmedFault.scheduled, h.amount hlatency hafter]

/-- **A generated plan fires at once**: its faults spare nothing, each operation fires the next one
armed for its kind, and no operation gets a fault that does not apply to it. A longer plan of the seed
replays the shorter one. -/
theorem run_fromSeed (t : Injector) (seed : UInt64) (len : ℕ) (ops : List OpKind) :
    let log := fun n => ((t.arm (.fromSeed seed n)).run ops).1
    spared (log len) = [] ∧
      (∀ k, (hits (log len)).filter (·.op = k) =
        ((FaultPlan.fromSeed seed len).armedFor k).take (ops.count k)) ∧
      (∀ f ∈ hits (log len), f.fault.appliesTo f.op = true) ∧
      ∀ n ≤ len, ∀ k, (hits (log n)).filter (·.op = k) <+: (hits (log len)).filter (·.op = k) := by
  have hruns := fun n => @run_of_plain (t.arm (.fromSeed seed n))
    (fun f hf => plain_of_generated ((FaultPlan.fromSeed_armed seed n).2.1 f hf)) ops
  have hhits : ∀ n k, (hits ((t.arm (.fromSeed seed n)).run ops).1).filter (·.op = k) =
      ((FaultPlan.fromSeed seed n).armedFor k).take (ops.count k) := fun n => (hruns n).2
  refine ⟨(hruns len).1, hhits len, ?_, ?_⟩
  · intro f hf
    have hmem : f ∈ (hits ((t.arm (.fromSeed seed len)).run ops).1).filter (·.op = f.op) :=
      List.mem_filter.2 ⟨hf, by simp⟩
    rw [hhits len f.op] at hmem
    have harmed := (List.mem_filter.1 (List.mem_of_mem_take hmem)).1
    exact ((FaultPlan.fromSeed_armed seed len).2.1 f harmed).applies
  · intro n hn k
    show List.filter _ _ <+: List.filter _ _
    rw [hhits n k, hhits len k]
    apply List.IsPrefix.take
    rw [FaultPlan.armedFor, FaultPlan.armedFor, ← (FaultPlan.fromSeed_armed seed len).2.2 n hn]
    exact (List.take_prefix _ _).filter _

/-- Two schedules for `set`: the first spares two operations, the second none. -/
example : hits ((withPlan ((FaultPlan.new.pushAfterN .set .writeFailure 2).pushAfterN .set
    .capacityExhaustion 5)).run (List.replicate 4 .set)).1 =
    [⟨.set, .writeFailure, 2⟩, ⟨.set, .capacityExhaustion, 5⟩] := by decide

end Injector

end TheSix
