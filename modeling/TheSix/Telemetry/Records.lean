import TheSix.Governor.Tick

/-!
# Operation records

`OperationRecord` of `telemetry.rs` with the builder calls the manager makes, the five shapes of
record they give, and the ring that keeps the last of them for the governor. The wall time of a record
is left out.

A ring is a window on what was recorded (`RingTelemetry.records_recordAll`), and the heat a governor
measures on it is the number of served reads in that window (`Governor.heat_measureHeat`).
-/

namespace TheSix

/-- `BackendKind`. -/
inductive BackendKind
  | inMemory | inMemoryFallback | moka | redis | sled | rocksDb | postgres | neo4j | helix | oxigraph
  | origin | test | unavailable
  deriving DecidableEq, Repr

namespace Telemetry

/-- `OperationRecord`, without its latency. -/
structure OperationRecord extends TheSix.OperationRecord where
  sourceTier : Option TierId
  destinationTier : Option TierId
  backend : Option BackendKind
  generation : Option Generation
  fallback : Bool
  failureClass : Option CacheError
  recoveryState : Option ContinuityState
  deriving DecidableEq, Repr

namespace OperationRecord

/-- `OperationRecord::begin`. -/
def begin (operation : Operation) (key : KeyRef) : OperationRecord where
  operation := operation
  key := .of key
  outcome := .served
  sourceTier := none
  destinationTier := none
  backend := none
  generation := none
  fallback := false
  failureClass := none
  recoveryState := none

variable (r : OperationRecord)

/-- `finish`. -/
def finish (outcome : RecordedOutcome) : OperationRecord := { r with outcome := outcome }

/-- `with_source`. -/
def withSource (tier : TierId) : OperationRecord := { r with sourceTier := some tier }

/-- `with_destination`. -/
def withDestination (tier : TierId) : OperationRecord := { r with destinationTier := some tier }

/-- `with_backend`. -/
def withBackend (backend : BackendKind) : OperationRecord := { r with backend := some backend }

/-- `with_generation`. -/
def withGeneration (generation : Generation) : OperationRecord :=
  { r with generation := some generation }

/-- `with_fallback`. -/
def withFallback (fallback : Bool) : OperationRecord := { r with fallback := fallback }

/-- `with_failure`, which sets the outcome as well. -/
def withFailure (e : CacheError) : OperationRecord :=
  { r with failureClass := some e, outcome := .fromError e }

end OperationRecord

section Shapes

variable {V : Type} (op : Operation) (key : KeyRef) (tier : TierId) (backend : BackendKind)

/-- The record of `observed_read`. -/
def readRecord (result : Except CacheError (Option V)) : OperationRecord :=
  match result with
  | .ok (some _) => observed.finish .served
  | .ok none => observed.finish .miss
  | .error e => (observed.finish (.fromError e)).withFailure e
where
  observed : OperationRecord :=
    (((OperationRecord.begin op key).withSource tier).withBackend backend).withGeneration 0

/-- The record of `observed_write`. -/
def writeRecord (result : Except CacheError Unit) : OperationRecord :=
  match result with
  | .ok _ => observed.finish .populated
  | .error e => (observed.finish (.fromError e)).withFailure e
where
  observed : OperationRecord :=
    ((OperationRecord.begin op key).withDestination tier).withBackend backend

/-- The record of `observed_control_only`. -/
def controlRecord (outcome : RecordedOutcome) : OperationRecord :=
  ((OperationRecord.begin op key).withSource tier).finish outcome

/-- The record of `record_fallback`. -/
def fallbackRecord (cause : CacheError) : OperationRecord :=
  (((((OperationRecord.begin .getOrFetch key).withSource tier).withBackend backend).withFallback
    true).withFailure cause).finish .fellBack

/-- The record of `record_telemetry_refresh_failure`. -/
def refreshFailureRecord (generation : Generation) (cause : CacheError) : OperationRecord :=
  ((((OperationRecord.begin .refresh key).withSource tier).withGeneration generation).withFailure
    cause).finish .fellBack

/-- The record of a population that failed for good, which `become_population_owner` makes. -/
def populationFailureRecord (e : CacheError) : OperationRecord :=
  ((((OperationRecord.begin .getOrFetch key).withDestination tier).withBackend backend).withFailure
    e).finish (.fromError e)

end Shapes

/-! ## The ring -/

/-- `RingTelemetry`: the retained records, oldest first. -/
structure RingTelemetry where
  buf : List OperationRecord
  cap : ℕ
  cap_pos : 0 < cap
  fits : buf.length ≤ cap

namespace RingTelemetry

/-- `RingTelemetry::new`, which keeps at least one record. -/
def new (cap : ℕ) : RingTelemetry := ⟨[], max cap 1, Nat.le_max_right cap 1, Nat.zero_le _⟩

/-- `Recording::record`: the oldest record makes room. -/
def record (t : RingTelemetry) (r : OperationRecord) : RingTelemetry where
  buf := (if t.buf.length = t.cap then t.buf.tail else t.buf) ++ [r]
  cap := t.cap
  cap_pos := t.cap_pos
  fits := by
    have hpos := t.cap_pos
    have hfits := t.fits
    split <;> simp <;> omega

/-- `RingTelemetry::records`. -/
def records (t : RingTelemetry) : List OperationRecord := t.buf

/-- `RingTelemetry::records_for`. -/
def recordsFor (t : RingTelemetry) (key : KeyRef) : List OperationRecord :=
  t.records.filter (·.key = .of key)

/-- A ring after a number of records, oldest first. -/
def recordAll (t : RingTelemetry) (rs : List OperationRecord) : RingTelemetry := rs.foldl record t

@[simp] theorem record_cap (t : RingTelemetry) (r : OperationRecord) : (t.record r).cap = t.cap := rfl

theorem record_buf (t : RingTelemetry) (r : OperationRecord) :
    (t.record r).buf = (if t.buf.length = t.cap then t.buf.tail else t.buf) ++ [r] := rfl

theorem recordAll_append (t : RingTelemetry) (rs : List OperationRecord) (r : OperationRecord) :
    t.recordAll (rs ++ [r]) = (t.recordAll rs).record r := by
  simp [recordAll]

theorem recordAll_cap (t : RingTelemetry) (rs : List OperationRecord) :
    (t.recordAll rs).cap = t.cap := by
  induction rs using List.reverseRecOn with
  | nil => rfl
  | append_singleton rs r ih => rw [recordAll_append, record_cap, ih]

/-- A ring is a window: it shows the last `cap` records, in their order. -/
theorem records_recordAll (cap : ℕ) (rs : List OperationRecord) :
    ((new cap).recordAll rs).records = rs.drop (rs.length - max cap 1) := by
  induction rs using List.reverseRecOn with
  | nil => simp [recordAll, records, new]
  | append_singleton rs r ih =>
    have hcap : ((new cap).recordAll rs).cap = max cap 1 := recordAll_cap _ rs
    have hbuf : ((new cap).recordAll rs).buf = rs.drop (rs.length - max cap 1) := ih
    rw [recordAll_append, records, record_buf, hcap, hbuf]
    have hlen : (rs.drop (rs.length - max cap 1)).length = min rs.length (max cap 1) := by
      rw [List.length_drop]
      omega
    rw [hlen, List.length_append, List.length_singleton]
    by_cases hfull : max cap 1 ≤ rs.length
    · rw [if_pos (by omega), List.tail_drop, List.drop_append_of_le_length (by omega)]
      congr 2
      omega
    · rw [if_neg (by omega), List.drop_append_of_le_length (by omega)]
      congr 2
      omega

end RingTelemetry

end Telemetry

/-! ## Heat -/

theorem HeatMap.of_bump (heat : HeatMap) (identity other : KeyIdentity) :
    (heat.bump identity).of other = heat.of other + if identity = other then 1 else 0 := by
  unfold HeatMap.of HeatMap.bump
  by_cases h : identity = other
  · subst h
    simp [List.lookup, HeatMap.of]
  · have hne : (other == identity) = false := by simpa using Ne.symm h
    simp [List.lookup, hne, h]

theorem HeatMap.of_foldl_bump (records : List OperationRecord) (heat : HeatMap)
    (identity : KeyIdentity) :
    (records.foldl (fun heat r => heat.bump r.key) heat).of identity =
      heat.of identity + records.countP (·.key = identity) := by
  induction records generalizing heat with
  | nil => rfl
  | cons r records ih =>
    rw [List.foldl_cons, ih, HeatMap.of_bump, List.countP_cons]
    by_cases h : r.key = identity
    · simp [h]
      omega
    · simp [h]

/-- The heat of an identity is the number of its served reads in the window. -/
theorem Governor.heat_measureHeat {K : Type} (g : Governor K) (identity : KeyIdentity) :
    g.measureHeat.of identity =
      (g.heat.getD []).countP fun r => r.isServedRead && r.key = identity := by
  unfold Governor.measureHeat
  rw [HeatMap.of_foldl_bump, List.countP_filter]
  simp only [HeatMap.of, List.lookup_nil, Option.getD_none, Nat.zero_add, Bool.and_comm]

/-- The heat of a key on a ring is the number of served reads among the records it shows for the key. -/
theorem Governor.heat_recordsFor {K : Type} (g : Governor K) (ring : Telemetry.RingTelemetry)
    (key : KeyRef) :
    { g with heat := some (ring.records.map Telemetry.OperationRecord.toOperationRecord) }.measureHeat.of
        (.of key) = (ring.recordsFor key).countP (·.isServedRead) := by
  rw [Governor.heat_measureHeat, Option.getD_some, List.countP_map, Telemetry.RingTelemetry.recordsFor,
    List.countP_filter]
  rfl

end TheSix
