import TheSix.Basic
import TheSix.Lib.Bytes
import TheSix.Lib.Xorshift

/-!
# Faults, and the plans that arm them

`fault.rs`: the operations and classes of faults, the generator that seeds a schedule, and the queue
of armed faults.

The generator is xorshift64*. Its step and its output are injective in the state, so two seeds give
streams that differ at every draw (`nextU64_after_eq_iff`), and zero, which a xorshift cannot leave, is
never reached. Plans that are generated from a seed arm only faults that can fire, and a longer plan
starts with the shorter one (`fromSeed_armed`).
-/

namespace TheSix

/-- `OpKind`. -/
inductive OpKind
  | get
  | set
  | remove
  | contains
  deriving DecidableEq, Repr

/-- `OpKind::ALL`. -/
def OpKind.all : List OpKind := [.get, .set, .remove, .contains]

/-- `FaultClass`. -/
inductive FaultClass
  | latency
  | timeout
  | hang
  | readFailure
  | writeFailure
  | metadataFailure
  | corruption
  | disconnect
  | capacityExhaustion
  | failureAfterN
  | cancellation
  | partialWrite
  deriving DecidableEq, Repr

namespace FaultClass

/-- `FaultClass::ALL`. -/
def all : List FaultClass :=
  [.latency, .timeout, .hang, .readFailure, .writeFailure, .metadataFailure, .corruption, .disconnect,
    .capacityExhaustion, .failureAfterN, .cancellation, .partialWrite]

/-- `FaultClass::as_str`. -/
def asStr : FaultClass → String
  | latency => "latency"
  | timeout => "timeout"
  | hang => "hang"
  | readFailure => "read_failure"
  | writeFailure => "write_failure"
  | metadataFailure => "metadata_failure"
  | corruption => "corruption"
  | disconnect => "disconnect"
  | capacityExhaustion => "capacity_exhaustion"
  | failureAfterN => "failure_after_n_operations"
  | cancellation => "cancellation"
  | partialWrite => "partial_write"

/-- `FaultClass::is_scheduled_failure`. -/
def isScheduledFailure : FaultClass → Bool
  | timeout | readFailure | writeFailure | metadataFailure | corruption | disconnect
  | capacityExhaustion | cancellation => true
  | latency | hang | failureAfterN | partialWrite => false

/-- `FaultClass::applies_to`. -/
def appliesTo (c : FaultClass) (op : OpKind) : Bool :=
  match c with
  | latency | hang | disconnect | cancellation | failureAfterN => true
  | timeout | readFailure | corruption => op = .get || op = .contains
  | writeFailure | capacityExhaustion | partialWrite => op = .set || op = .remove
  | metadataFailure => op = .get || op = .set

end FaultClass

/-! ## The generator -/

/-- `DeterministicRng`. -/
structure DeterministicRng where
  state : UInt64
  deriving DecidableEq

namespace DeterministicRng

/-- What a zero seed is mapped to. -/
def zeroSeed : UInt64 := 0x9E3779B97F4A7C15

/-- `DeterministicRng::new`. -/
def new (seed : UInt64) : DeterministicRng := ⟨if seed = 0 then zeroSeed else seed⟩

/-- `DeterministicRng::next_u64`. -/
def nextU64 (r : DeterministicRng) : UInt64 × DeterministicRng :=
  let x := r.state
  let x := x ^^^ (x >>> 12)
  let x := x ^^^ (x <<< 25)
  let x := x ^^^ (x >>> 27)
  (x * 0x2545F4914F6CDD1D, ⟨x⟩)

/-- `DeterministicRng::below`. -/
def below (r : DeterministicRng) (len : ℕ) : ℕ × DeterministicRng :=
  ((r.nextU64.1 % len.toUInt64).toNat, r.nextU64.2)

theorem below_lt (r : DeterministicRng) {len : ℕ} (hpos : 0 < len) (hlt : len < 2 ^ 64) :
    (r.below len).1 < len := by
  show (r.nextU64.1 % UInt64.ofNat len).toNat < len
  rw [UInt64.toNat_mod, UInt64.toNat_ofNat_of_lt' hlt]
  exact Nat.mod_lt _ hpos

theorem nextU64_snd_injective : Function.Injective fun r : DeterministicRng => r.nextU64.2 := by
  intro r r' h
  have hstate := congrArg state h
  have hthird := Xorshift.shiftRight_injective (c := 27) (by decide) hstate
  have hsecond := Xorshift.shiftLeft_injective (c := 25) (by decide) hthird
  have hfirst := Xorshift.shiftRight_injective (c := 12) (by decide) hsecond
  exact congrArg DeterministicRng.mk hfirst

theorem nextU64_fst_injective : Function.Injective fun r : DeterministicRng => r.nextU64.1 := by
  intro r r' h
  -- the multiplier is odd
  have hstate := @Bytes.mul_injective 0x2545F4914F6CDD1D 0x59071d96d81ecd35 rfl _ _ h
  exact nextU64_snd_injective (congrArg DeterministicRng.mk hstate)

/-- The generator after some draws. -/
def after (r : DeterministicRng) : ℕ → DeterministicRng
  | 0 => r
  | n + 1 => (r.after n).nextU64.2

theorem after_injective (n : ℕ) : Function.Injective fun r : DeterministicRng => r.after n := by
  induction n with
  | zero => exact fun _ _ h => h
  | succ n ih => exact fun _ _ h => ih (nextU64_snd_injective h)

theorem state_new_ne_zero (seed : UInt64) : (new seed).state ≠ 0 := by
  unfold new zeroSeed
  split
  · decide
  · assumption

theorem state_after_ne_zero {r : DeterministicRng} (h : r.state ≠ 0) (n : ℕ) : (r.after n).state ≠ 0 := by
  induction n with
  | zero => exact h
  | succ n ih =>
    intro hzero
    have hstuck : (⟨0⟩ : DeterministicRng).nextU64.2 = ⟨0⟩ := rfl
    have heq : (r.after n).nextU64.2 = (⟨0⟩ : DeterministicRng).nextU64.2 := by
      rw [hstuck]
      exact congrArg DeterministicRng.mk hzero
    exact ih (congrArg state (nextU64_snd_injective heq))

theorem new_eq_iff {a b : UInt64} :
    new a = new b ↔ a = b ∨ a = 0 ∧ b = zeroSeed ∨ a = zeroSeed ∧ b = 0 := by
  have hzero : zeroSeed ≠ 0 := by decide
  simp only [new, mk.injEq]
  split_ifs with ha hb hb
  · simp [ha, hb]
  · simp only [ha, true_and, hzero.symm, false_and, or_false]
    constructor
    · intro h
      exact Or.inr h.symm
    · rintro (rfl | h)
      · exact absurd rfl hb
      · exact h.symm
  · simp only [hb, ha, false_and, false_or, and_true]
  · simp only [ha, hb, false_and, and_false, or_false]

/-- **No two seeds share a draw**: the streams of two seeds differ at every draw, unless the seeds are
the same, zero counting as the constant it is mapped to. And no seed locks the generator. -/
theorem nextU64_after_eq_iff (a b : UInt64) (n : ℕ) :
    (((new a).after n).nextU64.1 = ((new b).after n).nextU64.1 ↔
      a = b ∨ a = 0 ∧ b = zeroSeed ∨ a = zeroSeed ∧ b = 0) ∧ ((new a).after n).state ≠ 0 := by
  refine ⟨?_, state_after_ne_zero (state_new_ne_zero a) n⟩
  rw [← new_eq_iff]
  constructor
  · intro h
    exact after_injective n (nextU64_fst_injective h)
  · intro h
    rw [h]

/-- An element of a list, as `xs[rng.below(xs.len())]`. -/
def pick {α : Type} (r : DeterministicRng) (xs : List α) (hpos : 0 < xs.length)
    (hlt : xs.length < 2 ^ 64) : α × DeterministicRng :=
  (xs.get ⟨(r.below xs.length).1, r.below_lt hpos hlt⟩, (r.below xs.length).2)

theorem pick_mem {α : Type} (r : DeterministicRng) (xs : List α) (hpos : 0 < xs.length)
    (hlt : xs.length < 2 ^ 64) : (r.pick xs hpos hlt).1 ∈ xs := List.get_mem _ _

end DeterministicRng

/-! ## Plans -/

/-- `ArmedFault`. -/
structure ArmedFault where
  op : OpKind
  fault : FaultClass
  amount : ℕ
  deriving DecidableEq

/-- `FaultPlan`: the armed faults, the next one first. -/
structure FaultPlan where
  seed : UInt64
  queue : List ArmedFault
  deriving DecidableEq

/-- The operations a class can apply to. -/
def FaultClass.candidates (c : FaultClass) : List OpKind := OpKind.all.filter (c.appliesTo ·)

theorem FaultClass.candidates_pos (c : FaultClass) : 0 < c.candidates.length := by
  cases c <;> decide

theorem FaultClass.candidates_lt (c : FaultClass) : c.candidates.length < 2 ^ 64 := by
  cases c <;> decide

namespace FaultPlan

/-- `FaultPlan::new`. -/
def new : FaultPlan := ⟨0, []⟩

/-- The amount `from_seed` arms a class with. -/
def amountOf (c : FaultClass) (rng : DeterministicRng) : ℕ × DeterministicRng :=
  match c with
  | .latency => (1 + (rng.below 50).1, (rng.below 50).2)
  | .failureAfterN => rng.below 3
  | _ => (0, rng)

/-- The operation and the amount `from_seed` arms a class with. -/
def armWith (fault : FaultClass) (rng : DeterministicRng) : ArmedFault × DeterministicRng :=
  let op := rng.pick fault.candidates fault.candidates_pos fault.candidates_lt
  let amount := amountOf fault op.2
  (⟨op.1, fault, amount.1⟩, amount.2)

/-- One turn of the loop of `from_seed`. -/
def arm (rng : DeterministicRng) : ArmedFault × DeterministicRng :=
  let fault := rng.pick FaultClass.all (by decide) (by decide)
  armWith fault.1 fault.2

/-- The loop of `from_seed`. -/
def armAll (rng : DeterministicRng) : ℕ → List ArmedFault
  | 0 => []
  | len + 1 => (arm rng).1 :: armAll (arm rng).2 len

/-- `FaultPlan::from_seed`. -/
def fromSeed (seed : UInt64) (len : ℕ) : FaultPlan := ⟨seed, armAll (.new seed) len⟩

/-- `FaultPlan::push`. -/
def push (p : FaultPlan) (op : OpKind) (fault : FaultClass) : FaultPlan :=
  { p with queue := p.queue ++ [⟨op, fault, 0⟩] }

/-- `FaultPlan::push_latency_ms`. -/
def pushLatencyMs (p : FaultPlan) (op : OpKind) (ms : ℕ) : FaultPlan :=
  { p with queue := p.queue ++ [⟨op, .latency, ms⟩] }

/-- `FaultPlan::push_after_n`. -/
def pushAfterN (p : FaultPlan) (op : OpKind) (fault : FaultClass) (n : ℕ) : FaultPlan :=
  { p with queue := p.queue ++ [⟨op, fault, n⟩] }

/-- `FaultPlan::rearm`. -/
def rearm (p : FaultPlan) (fault : ArmedFault) : FaultPlan := { p with queue := fault :: p.queue }

/-- `FaultPlan::take_for`. -/
def takeFor (p : FaultPlan) (op : OpKind) : Option (ArmedFault × FaultPlan) :=
  (p.queue.find? (·.op = op)).map fun f => (f, { p with queue := p.queue.eraseP (·.op = op) })

/-- The faults armed for an operation, the next one first. -/
def armedFor (p : FaultPlan) (op : OpKind) : List ArmedFault := p.queue.filter (·.op = op)

/-- What `from_seed` arms. -/
structure Generated (f : ArmedFault) : Prop where
  applies : f.fault.appliesTo f.op = true
  latency : f.fault = .latency → 1 ≤ f.amount ∧ f.amount ≤ 50
  afterN : f.fault = .failureAfterN → f.amount < 3
  amount : f.fault ≠ .latency → f.fault ≠ .failureAfterN → f.amount = 0

theorem appliesTo_pick (c : FaultClass) (rng : DeterministicRng) :
    c.appliesTo (rng.pick c.candidates c.candidates_pos c.candidates_lt).1 = true := by
  have hmem := rng.pick_mem c.candidates c.candidates_pos c.candidates_lt
  exact (List.mem_filter.1 hmem).2

theorem amountOf_latency (rng : DeterministicRng) :
    (amountOf .latency rng).1 = 1 + (rng.below 50).1 := by
  rw [amountOf]

theorem amountOf_failureAfterN (rng : DeterministicRng) :
    (amountOf .failureAfterN rng).1 = (rng.below 3).1 := by
  rw [amountOf]

theorem amountOf_of_ne {c : FaultClass} (h : c ≠ .latency) (h' : c ≠ .failureAfterN)
    (rng : DeterministicRng) : (amountOf c rng).1 = 0 := by
  rw [amountOf]
  · exact h
  · exact h'

theorem generated_armWith (c : FaultClass) (rng : DeterministicRng) : Generated (armWith c rng).1 := by
  have hlatency := fun rng => @DeterministicRng.below_lt rng 50 (by decide) (by decide)
  have hafter := fun rng => @DeterministicRng.below_lt rng 3 (by decide) (by decide)
  refine ⟨appliesTo_pick c rng, ?_, ?_, ?_⟩
  · rintro (rfl : c = .latency)
    simp only [armWith, amountOf_latency]
    have hlt := hlatency (rng.pick _ FaultClass.latency.candidates_pos FaultClass.latency.candidates_lt).2
    omega
  · rintro (rfl : c = .failureAfterN)
    rw [armWith, amountOf_failureAfterN]
    exact hafter _
  · intro (h : c ≠ .latency) (h' : c ≠ .failureAfterN)
    rw [armWith, amountOf_of_ne h h']

theorem generated_arm (rng : DeterministicRng) : Generated (arm rng).1 := generated_armWith _ _

theorem generated_armAll (rng : DeterministicRng) (len : ℕ) : ∀ f ∈ armAll rng len, Generated f := by
  induction len generalizing rng with
  | zero => simp [armAll]
  | succ len ih => exact List.forall_mem_cons.2 ⟨generated_arm rng, ih _⟩

theorem length_armAll (rng : DeterministicRng) (len : ℕ) : (armAll rng len).length = len := by
  induction len generalizing rng with
  | zero => rfl
  | succ len ih => exact congrArg (· + 1) (ih _)

theorem take_armAll (rng : DeterministicRng) {n len : ℕ} (h : n ≤ len) :
    (armAll rng len).take n = armAll rng n := by
  induction len generalizing rng n with
  | zero =>
    obtain rfl : n = 0 := Nat.le_zero.1 h
    rfl
  | succ len ih =>
    cases n with
    | zero => rfl
    | succ n => exact congrArg ((arm rng).1 :: ·) (ih _ (Nat.le_of_succ_le_succ h))

/-- **Generated plans arm what can fire**, and a longer plan of a seed starts with the shorter one. -/
theorem fromSeed_armed (seed : UInt64) (len : ℕ) :
    (fromSeed seed len).queue.length = len ∧ (∀ f ∈ (fromSeed seed len).queue, Generated f) ∧
      ∀ n ≤ len, (fromSeed seed len).queue.take n = (fromSeed seed n).queue :=
  ⟨length_armAll _ _, generated_armAll _ _, fun _ h => take_armAll _ h⟩

end FaultPlan

end TheSix
