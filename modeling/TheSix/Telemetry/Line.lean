import TheSix.Lib.Text
import TheSix.Telemetry.Records

/-!
# The line of a record

`Display` of `OperationRecord`, the one line a record is logged as. The line keeps what the record
holds: the whole of it, and its latency to the microsecond (`OperationRecord.display_eq_iff`). No
field holds a space, and each has its own text for each of its values.
-/

namespace TheSix

open Text

/-! ## The names -/

/-- `Operation::name`. -/
def Operation.name : Operation → String
  | .get => "get"
  | .getOrFetch => "get_or_fetch"
  | .set => "set"
  | .invalidate => "invalidate"
  | .remove => "remove"
  | .exists => "exists"
  | .refresh => "refresh"
  | .promote => "promote"
  | .demote => "demote"
  | .recover => "recover"

def Operation.all : List Operation :=
  [.get, .getOrFetch, .set, .invalidate, .remove, .exists, .refresh, .promote, .demote, .recover]

/-- `Outcome::name`. -/
def RecordedOutcome.name : RecordedOutcome → String
  | .served => "served"
  | .miss => "miss"
  | .populated => "populated"
  | .fellBack => "fell_back"
  | .denied => "denied"
  | .failed => "failed"
  | .cancelled => "cancelled"

def RecordedOutcome.all : List RecordedOutcome :=
  [.served, .miss, .populated, .fellBack, .denied, .failed, .cancelled]

/-- `Display` of `TierId`. -/
def TierId.display : TierId → String
  | .L0 => "L0"
  | .L1 => "L1"
  | .L2 => "L2"
  | .L3 => "L3"
  | .L4 => "L4"
  | .L5 => "L5"
  | .L6 => "L6"

/-- `Display` of `BackendKind`. -/
def BackendKind.display : BackendKind → String
  | .inMemory => "in-memory"
  | .inMemoryFallback => "in-memory-fallback"
  | .moka => "moka"
  | .redis => "redis"
  | .sled => "sled"
  | .rocksDb => "rocksdb"
  | .postgres => "postgres"
  | .neo4j => "neo4j"
  | .helix => "helix"
  | .oxigraph => "oxigraph"
  | .origin => "origin"
  | .test => "test"
  | .unavailable => "unavailable"

def BackendKind.all : List BackendKind :=
  [.inMemory, .inMemoryFallback, .moka, .redis, .sled, .rocksDb, .postgres, .neo4j, .helix,
    .oxigraph, .origin, .test, .unavailable]

/-- `ContinuityState::name`. -/
def ContinuityState.name : ContinuityState → String
  | .healthy => "healthy"
  | .degraded => "degraded"
  | .unavailable => "unavailable"
  | .recovering => "recovering"
  | .reconciling => "reconciling"

/-- `ContinuityState::ALL`. -/
def ContinuityState.all : List ContinuityState :=
  [.healthy, .degraded, .unavailable, .recovering, .reconciling]

/-- `Debug` of `CacheError`: the names of its variants. -/
def CacheError.debug : CacheError → String
  | .unauthenticated => "Unauthenticated"
  | .unauthorized => "Unauthorized"
  | .tierUnavailable => "TierUnavailable"
  | .writeIndeterminate => "WriteIndeterminate"
  | .policyDenied => "PolicyDenied"
  | .miss => "Miss"
  | .populationFailed => "PopulationFailed"
  | .timeout => "Timeout"
  | .cancelled => "Cancelled"
  | .staleGeneration => "StaleGeneration"
  | .writeContended => "WriteContended"
  | .serializationFailed => "SerializationFailed"
  | .configurationError => "ConfigurationError"
  | .capacityExhausted => "CapacityExhausted"
  | .corrupted => "Corrupted"
  | .uncommittedIntent => "UncommittedIntent"

def CacheError.all : List CacheError :=
  [.unauthenticated, .unauthorized, .tierUnavailable, .writeIndeterminate, .policyDenied, .miss,
    .populationFailed, .timeout, .cancelled, .staleGeneration, .writeContended,
    .serializationFailed, .configurationError, .capacityExhausted, .corrupted, .uncommittedIntent]

/-- `Display` of `KeyIdentity`: digest and length, never the key. -/
def KeyIdentity.display (k : KeyIdentity) : String :=
  "k" ++ hex 16 k.digest.toNat ++ "/" ++ Nat.repr k.len.toNat

theorem Operation.word : Word ' ' Operation.name :=
  .ofNames Operation.all (fun o => by cases o <;> decide) (by decide) (by decide)

theorem RecordedOutcome.word : Word ' ' RecordedOutcome.name :=
  .ofNames RecordedOutcome.all (fun o => by cases o <;> decide) (by decide) (by decide)

theorem TierId.word : Word ' ' TierId.display :=
  .ofNames TierId.all TierId.mem_all (by decide) (by decide)

theorem BackendKind.word : Word ' ' BackendKind.display :=
  .ofNames BackendKind.all (fun b => by cases b <;> decide) (by decide) (by decide)

theorem ContinuityState.word : Word ' ' ContinuityState.name :=
  .ofNames ContinuityState.all (fun s => by cases s <;> decide) (by decide) (by decide)

theorem CacheError.word : Word ' ' CacheError.debug :=
  .ofNames CacheError.all (fun e => by cases e <;> decide) (by decide) (by decide)

/-- The digest has all its sixteen digits, and the slash ends it. -/
theorem KeyIdentity.word : Word ' ' KeyIdentity.display := by
  have hdigest : ∀ sep : Char, (∀ d < 16, sep ≠ Nat.digitChar d) → sep ∉ "k".toList →
      Word sep fun digest : UInt64 => "k" ++ hex 16 digest.toNat :=
    fun sep hdigit hk =>
      (word_hex (fun _ _ => UInt64.toNat_inj.mp) UInt64.toNat_lt hdigit).label hk
  have hlen : ∀ sep : Char, sep.isDigit = false → Word sep fun len : UInt16 => Nat.repr len.toNat :=
    fun sep hsep => (word_decimal hsep).comp fun _ _ => UInt16.toNat_inj.mp
  have hpair := (hdigest ' ' (by decide) (by decide)).pair
    (hdigest '/' (by decide) (by decide)).free (hlen ' ' (by decide)) (hlen '/' (by decide)).free
    (by decide)
  exact hpair.comp (f := fun k : KeyIdentity => (k.digest, k.len)) fun k k' h => by
    obtain ⟨hd, hl⟩ := Prod.mk.inj h
    cases k
    cases k'
    simp_all

namespace Telemetry.OperationRecord

/-- The fields of the line, in its order. -/
def fields (r : OperationRecord) (latency : ℕ) : List String :=
  ["op=" ++ r.operation.name,
    "key=" ++ r.key.display,
    "src=" ++ debugOption (fun t => quoted t.display) r.sourceTier,
    "dst=" ++ debugOption (fun t => quoted t.display) r.destinationTier,
    "backend=" ++ debugOption (fun b => quoted b.display) r.backend,
    "gen=" ++ r.generation.elim "-" fun g => Nat.repr g.toNat,
    "latency_us=" ++ Nat.repr (latency / 1000),
    "outcome=" ++ r.outcome.name,
    "fallback=" ++ toString r.fallback,
    "failure=" ++ debugOption CacheError.debug r.failureClass,
    "recovery=" ++ debugOption (fun s => quoted s.name) r.recoveryState]

/-- `Display` of `OperationRecord`. Its latency is in nanoseconds. -/
def display (r : OperationRecord) (latency : ℕ) : String := " ".intercalate (r.fields latency)

theorem word_tier : Word ' ' (debugOption fun t => quoted (TierId.display t)) :=
  (TierId.word.quoted (by decide)).debugOption (by decide)

theorem word_backend : Word ' ' (debugOption fun b => quoted (BackendKind.display b)) :=
  (BackendKind.word.quoted (by decide)).debugOption (by decide)

theorem word_state : Word ' ' (debugOption fun s => quoted (ContinuityState.name s)) :=
  (ContinuityState.word.quoted (by decide)).debugOption (by decide)

theorem word_failure : Word ' ' (debugOption CacheError.debug) :=
  CacheError.word.debugOption (by decide)

theorem word_generation :
    Word ' ' fun g : Option Generation => g.elim "-" fun g => Nat.repr g.toNat := by
  have hdecimal : Word ' ' fun g : Generation => Nat.repr g.toNat :=
    (word_decimal (by decide)).comp fun _ _ => UInt64.toNat_inj.mp
  refine hdecimal.option (by decide) fun g heq => ?_
  -- a dash is no digit
  have hdecimal' : Word '-' Nat.repr := word_decimal (by decide)
  exact hdecimal'.free g.toNat (by simp [heq])

theorem word_fallback : Word ' ' fun b : Bool => toString b :=
  .ofNames [false, true] (by decide) (by decide) (by decide)

theorem not_mem_fields (r : OperationRecord) (latency : ℕ) :
    ∀ s ∈ r.fields latency, ' ' ∉ s.toList := by
  simp only [fields, List.forall_mem_cons, List.not_mem_nil, false_implies, implies_true, and_true]
  exact ⟨(Operation.word.label (by decide)).free _, (KeyIdentity.word.label (by decide)).free _,
    (word_tier.label (by decide)).free _, (word_tier.label (by decide)).free _,
    (word_backend.label (by decide)).free _, (word_generation.label (by decide)).free _,
    ((word_decimal (by decide)).label (by decide)).free _,
    (RecordedOutcome.word.label (by decide)).free _, (word_fallback.label (by decide)).free _,
    (word_failure.label (by decide)).free _, (word_state.label (by decide)).free _⟩

/-- **A line is enough to reconstruct its record.** Two records have the same line exactly when
they agree in every field, and in their latencies to the microsecond. -/
theorem display_eq_iff (r r' : OperationRecord) (latency latency' : ℕ) :
    r.display latency = r'.display latency' ↔ r = r' ∧ latency / 1000 = latency' / 1000 := by
  have hspace : " " = String.singleton ' ' := rfl
  rw [display, display, hspace, line_inj (by simp [fields]) (by simp [fields])
    (not_mem_fields r latency) (not_mem_fields r' latency')]
  constructor
  · intro h
    simp only [fields, List.cons.injEq, String.append_right_inj, and_true] at h
    obtain ⟨hop, hkey, hsource, hdestination, hbackend, hgen, hlatency, houtcome, hfallback,
      hfailure, hstate⟩ := h
    refine ⟨?_, repr_injective hlatency⟩
    have hbase : r.toOperationRecord = r'.toOperationRecord := by
      rw [TheSix.OperationRecord.mk.injEq]
      exact ⟨Operation.word.injective hop, KeyIdentity.word.injective hkey,
        RecordedOutcome.word.injective houtcome⟩
    rw [OperationRecord.mk.injEq]
    exact ⟨hbase, word_tier.injective hsource, word_tier.injective hdestination,
      word_backend.injective hbackend, word_generation.injective hgen,
      word_fallback.injective hfallback, word_failure.injective hfailure,
      word_state.injective hstate⟩
  · rintro ⟨rfl, hlatency⟩
    rw [fields, fields, hlatency]

/-- The line of a removal that took effect on `L2`, of the empty key, in one and a half
microseconds. -/
example : (controlRecord .remove [] .L2 .served).display 1500 =
    "op=remove key=kcbf29ce484222325/0 src=Some(\"L2\") dst=None backend=None gen=- " ++
      "latency_us=1 outcome=served fallback=false failure=None recovery=None" := by
  decide +kernel

end Telemetry.OperationRecord

end TheSix
