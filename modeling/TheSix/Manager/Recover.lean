import TheSix.Control.Steps
import TheSix.Manager.Upkeep
import TheSix.Lib.Paths
import TheSix.Lib.Trace

/-!
# Recovery sweeps on the table

`recover_older_than` as a program on the whole table: it reads the clock, collects the old intents
shard by shard, and then settles them one by one, by address. Any number of sweeps run together on
one control plane (`recovery`); nothing else does, and time passes.

`Recovers` sums up what the paths of a sweep look like: every intent that it was shown it has
settled, and its report counts its own effects.
-/

namespace TheSix

open Coroutine

/-- `RecoveryReport`. -/
structure RecoveryReport where
  recovered : ℕ := 0
  failed : ℕ := 0
  needsReconciliation : ℕ := 0
  releasedForReconciliation : ℕ := 0
  deriving DecidableEq, Repr

/-- The requests of a sweep. -/
inductive SweepReq
  | cutoff (age : ℕ)
  | staleIntents (shard cutoff : ℕ)
  | abortIntentByAddress (a : KeyAddress)
  | releasePopulationClaim (a : KeyAddress)
  deriving DecidableEq

/-- The type of a request's answer. -/
@[reducible] def SweepReq.Answer : SweepReq → Type
  | .cutoff _ => ℕ
  | .staleIntents _ _ => List (KeyAddress × CommitIntent)
  | .abortIntentByAddress _ | .releasePopulationClaim _ => Except CacheError Bool

/-- A program of a sweep. -/
abbrev SweepStep (R : Type) := Prog Unit SweepReq SweepReq.Answer R

namespace Manager

/-- A request of a sweep; a sweep is not dropped. -/
def ask (q : SweepReq) : SweepStep q.Answer := .req () q none .ret

/-- The shards of `Cachelito::stale_intents` that are left. -/
def staleIntents (cutoff : ℕ) : List ℕ → SweepStep (List (KeyAddress × CommitIntent))
  | [] => return []
  | shard :: shards => do
    let found ← ask (.staleIntents shard cutoff)
    let more ← staleIntents cutoff shards
    return found ++ more

/-- The intents of `recover_older_than` that are left. -/
def settle : List (KeyAddress × CommitIntent) → RecoveryReport → SweepStep RecoveryReport
  | [], report => return report
  | (a, intent) :: rest, report =>
    match intent.kind with
    | .write => do
      match ← ask (.abortIntentByAddress a) with
      | .ok true => settle rest { report with recovered := report.recovered + 1 }
      | .ok false => settle rest report
      | .error _ => settle rest { report with failed := report.failed + 1 }
    | .move => do
      let report := { report with needsReconciliation := report.needsReconciliation + 1 }
      match ← ask (.releasePopulationClaim a) with
      | .ok true =>
        settle rest
          { report with releasedForReconciliation := report.releasedForReconciliation + 1 }
      | .ok false => settle rest report
      | .error _ => settle rest { report with failed := report.failed + 1 }

/-- `CacheManager::recover_older_than`, on a control plane of so many shards. -/
def recoverOlderThan (shards age : ℕ) : SweepStep RecoveryReport := do
  let cutoff ← ask (.cutoff age)
  let collected ← staleIntents cutoff (List.range shards)
  settle collected {}

end Manager

/-- A control plane and its clock. -/
structure Plane where
  table : Cachelito
  now : ℕ

namespace Plane

/-- The atomic effect of a request of a sweep. A shard is never poisoned, so no call fails. -/
def exec : (q : SweepReq) → Unit → Plane → Option (q.Answer × Plane)
  | .cutoff age, _, w => some (cutoff age (ControlEntry.instantToNanos w.now), w)
  | .staleIntents shard cutoff, _, w => some (w.table.staleIntentsIn shard cutoff, w)
  | .abortIntentByAddress a, _, w =>
    some (.ok (w.table.abortIntentByAddress a .uncommittedIntent).1,
      { w with table := (w.table.abortIntentByAddress a .uncommittedIntent).2 })
  | .releasePopulationClaim a, _, w =>
    some (.ok (w.table.releasePopulationClaim a).1,
      { w with table := (w.table.releasePopulationClaim a).2 })

/-- Time passes. -/
def tick (d : ℕ) (w : Plane) : Plane := { w with now := w.now + d }

end Plane

/-- The scan of a shard finds the intents of its entries that are old enough. -/
theorem Cachelito.WellFormed.mem_staleIntentsIn {t : Cachelito} (h : t.WellFormed)
    {i cutoff : ℕ} {a : KeyAddress} {intent : CommitIntent} :
    (a, intent) ∈ t.staleIntentsIn i cutoff ↔ t.shardFor a = i ∧ intent.startedNanos ≤ cutoff ∧
      ∃ e, t.slots a = some e ∧ e.intent = some intent := by
  have hmem : ∀ s : Shard, (a, intent) ∈ s.staleIntents cutoff ↔ intent.startedNanos ≤ cutoff ∧
      ∃ j e, s.entryAt j = some e ∧ e.address = a ∧ e.intent = some intent := by
    intro s
    simp only [Shard.staleIntents, List.mem_filterMap, Option.bind_eq_some_iff,
      Option.ite_none_right_eq_some, Option.some.injEq, Prod.mk.injEq]
    constructor
    · rintro ⟨_, hc, e, rfl, intent', hi, hle, rfl, rfl⟩
      obtain ⟨j, hj⟩ := List.getElem?_of_mem hc
      exact ⟨hle, j, e, OpenTable.entryAt_eq_some.2 hj, rfl, hi⟩
    · rintro ⟨hle, j, e, he, rfl, hi⟩
      exact ⟨some e, List.mem_of_getElem? (OpenTable.entryAt_eq_some.1 he), e, rfl, intent, hi, hle,
        rfl, rfl⟩
  constructor
  · intro hin
    cases hs : t.shards[i]? with
    | none => simp [Cachelito.staleIntentsIn, hs] at hin
    | some s =>
      simp only [Cachelito.staleIntentsIn, hs, Option.elim_some, hmem] at hin
      obtain ⟨hle, j, e, he, rfl, hi⟩ := hin
      have hhome : t.shardFor e.address = i := h.homed i s hs j e he
      have hshard : t.shard e.address = s := by
        have := t.getElem?_shardFor e.address
        rw [hhome, hs, Option.some.injEq] at this
        exact this.symm
      refine ⟨hhome, hle, e, ?_, hi⟩
      rw [Cachelito.slots, hshard]
      exact (Shard.findEntry_eq_some_iff (h.probed s (List.mem_of_getElem? hs))).2 ⟨j, he, rfl⟩
  · rintro ⟨rfl, hle, e, he, hi⟩
    obtain ⟨j, hj, ha⟩ := (Shard.findEntry_eq_some_iff (h.shard a)).1 he
    simp only [Cachelito.staleIntentsIn, t.getElem?_shardFor a, Option.elim_some, hmem]
    exact ⟨hle, j, e, hj, ha, hi⟩

/-- Nobody is in the middle of a commit on the entry of an address. -/
def Cachelito.SettledAt (t : Cachelito) (a : KeyAddress) : Prop :=
  ∀ e, t.slots a = some e → e.state ≠ .prepared

/-- Any number of recovery sweeps on a control plane of so many shards; a call names its age. -/
def recovery (shards : ℕ) :
    Machine ℕ Unit SweepReq SweepReq.Answer RecoveryReport Plane Unit ℕ where
  prog := Manager.recoverOlderThan shards
  exec := Plane.exec
  env := Plane.tick

/-- A state of the sweeps. -/
abbrev Sweeping := Sys ℕ Unit SweepReq SweepReq.Answer RecoveryReport Plane

/-- An answered request of a sweep. -/
abbrev Swept := Item ℕ Unit SweepReq SweepReq.Answer Plane

/-! ## The paths of a sweep -/

/-- An exchange of a sweep. -/
abbrev SweepTalk := Exchange Unit SweepReq SweepReq.Answer

/-- The address whose intent an exchange has aborted. -/
def recoveredBy : SweepTalk → Option KeyAddress
  | ⟨_, .abortIntentByAddress a, .ok true⟩ => some a
  | _ => none

/-- The address whose claim an exchange has released. -/
def releasedBy : SweepTalk → Option KeyAddress
  | ⟨_, .releasePopulationClaim a, .ok true⟩ => some a
  | _ => none

/-- The exchange was answered with an error. -/
def sweepFailed : SweepTalk → Bool
  | ⟨_, .abortIntentByAddress _, .error _⟩ | ⟨_, .releasePopulationClaim _, .error _⟩ => true
  | _ => false

/-- The address and the kind of the intent that an exchange settles. -/
def settledBy : SweepTalk → Option (KeyAddress × IntentKind)
  | ⟨_, .abortIntentByAddress a, _⟩ => some (a, .write)
  | ⟨_, .releasePopulationClaim a, _⟩ => some (a, .move)
  | _ => none

/-- What an exchange log adds to a report. -/
structure Adds (report r : RecoveryReport) (log : List SweepTalk) : Prop where
  recovered : r.recovered = report.recovered + (log.filterMap recoveredBy).length
  failed : r.failed = report.failed + log.countP sweepFailed
  released : r.releasedForReconciliation =
    report.releasedForReconciliation + (log.filterMap releasedBy).length

/-- What one exchange adds to a report. -/
theorem Adds.cons {report report' r : RecoveryReport} {x : SweepTalk} {log : List SweepTalk}
    (h : Adds report' r log)
    (hrecovered : report'.recovered = report.recovered + (recoveredBy x).toList.length)
    (hfailed : report'.failed = report.failed + if sweepFailed x then 1 else 0)
    (hreleased : report'.releasedForReconciliation =
      report.releasedForReconciliation + (releasedBy x).toList.length) :
    Adds report r (x :: log) := by
  obtain ⟨h₁, h₂, h₃⟩ := h
  refine ⟨?_, ?_, ?_⟩
  · rw [h₁, hrecovered, List.filterMap_cons]
    cases recoveredBy x with
    | none => rfl
    | some a =>
      simp only [Option.toList_some, List.length_cons, List.length_nil]
      omega
  · rw [h₂, hfailed, List.countP_cons]
    omega
  · rw [h₃, hreleased, List.filterMap_cons]
    cases releasedBy x with
    | none => rfl
    | some a =>
      simp only [Option.toList_some, List.length_cons, List.length_nil]
      omega

/-- Exchanges that add nothing may come first. -/
theorem Adds.append {report r : RecoveryReport} {log more : List SweepTalk}
    (hlog : ∀ report, Adds report report log) (hmore : Adds report r more) :
    Adds report r (log ++ more) := by
  obtain ⟨h₁, h₂, h₃⟩ := hlog report
  obtain ⟨h₁', h₂', h₃'⟩ := hmore
  refine ⟨?_, ?_, ?_⟩
  · rw [List.filterMap_append, List.length_append]
    omega
  · rw [List.countP_append]
    omega
  · rw [List.filterMap_append, List.length_append]
    omega

/-- What a sweep has done when it returns a report. -/
structure Recovers (shards age : ℕ) (log : List SweepTalk) (r : RecoveryReport) : Prop where
  /-- It has scanned every shard by the cutoff it has read, and settled what it was shown there. -/
  scanned : ∃ c, ⟨(), .cutoff age, c⟩ ∈ log ∧ ∀ shard < shards, ∃ found,
    ⟨(), .staleIntents shard c, found⟩ ∈ log ∧ ∀ a intent, (a, intent) ∈ found →
      ∃ x ∈ log, settledBy x = some (a, intent.kind)
  /-- The report counts its own effects. -/
  counted : Adds {} r log

namespace Manager

theorem staleIntents_leads {c : ℕ} {shards : List ℕ} {log : List SweepTalk}
    {collected : List (KeyAddress × CommitIntent)}
    (h : (staleIntents c shards).Leads log collected) :
    (∀ shard ∈ shards, ∃ found, ⟨(), .staleIntents shard c, found⟩ ∈ log ∧ found ⊆ collected) ∧
      ∀ report, Adds report report log := by
  induction shards generalizing log collected with
  | nil =>
    simp only [staleIntents, Prog.leads_pure] at h
    obtain ⟨rfl, -⟩ := h
    exact ⟨by simp, fun report => ⟨rfl, rfl, rfl⟩⟩
  | cons shard shards ih =>
    simp only [staleIntents, ask, Prog.req_bind, Prog.ret_bind, Prog.leads_req,
      Prog.leads_bind, Prog.leads_pure] at h
    obtain ⟨found, _, rfl, front, more, rest, rfl, hfront, rfl, rfl⟩ := h
    obtain ⟨hscan, hadds⟩ := ih hfront
    rw [List.append_nil]
    refine ⟨?_, fun report => ?_⟩
    · intro x hx
      rcases List.mem_cons.1 hx with rfl | hx
      · exact ⟨found, List.mem_cons_self, List.subset_append_left _ _⟩
      · obtain ⟨found', hmem, hsub⟩ := hscan x hx
        exact ⟨found', List.mem_cons_of_mem _ hmem, List.subset_append_of_subset_right _ hsub⟩
    · obtain ⟨h₁, h₂, h₃⟩ := hadds report
      exact ⟨by simpa [recoveredBy] using h₁, by simpa [sweepFailed] using h₂,
        by simpa [releasedBy] using h₃⟩

theorem settle_leads {collected : List (KeyAddress × CommitIntent)} {report r : RecoveryReport}
    {log : List SweepTalk} (h : (settle collected report).Leads log r) :
    (∀ a intent, (a, intent) ∈ collected → ∃ x ∈ log, settledBy x = some (a, intent.kind)) ∧
      Adds report r log := by
  induction collected generalizing log report with
  | nil =>
    simp only [settle, Prog.leads_pure] at h
    obtain ⟨rfl, rfl⟩ := h
    exact ⟨by simp, rfl, rfl, rfl⟩
  | cons pair collected ih =>
    obtain ⟨a, intent⟩ := pair
    have hmem : ∀ {x : SweepTalk} {rest : List SweepTalk}, settledBy x = some (a, intent.kind) →
        (∀ a intent, (a, intent) ∈ collected → ∃ x ∈ rest, settledBy x = some (a, intent.kind)) →
        ∀ b intent', (b, intent') ∈ (a, intent) :: collected →
          ∃ y ∈ x :: rest, settledBy y = some (b, intent'.kind) := by
      intro x rest hx hrest b intent' hb
      rcases List.mem_cons.1 hb with hb | hb
      · cases hb
        exact ⟨x, List.mem_cons_self, hx⟩
      · obtain ⟨y, hy, hyb⟩ := hrest b intent' hb
        exact ⟨y, List.mem_cons_of_mem x hy, hyb⟩
    cases hk : intent.kind with
    | write =>
      simp only [settle, hk, ask, Prog.req_bind, Prog.ret_bind, Prog.leads_req] at h
      obtain ⟨b, rest, rfl, h⟩ := h
      have hsettled : settledBy ⟨(), .abortIntentByAddress a, b⟩ = some (a, intent.kind) := by
        rw [hk]
        rfl
      rcases b with e | _ | _
      · obtain ⟨hall, hadds⟩ := ih h
        exact ⟨hmem hsettled hall, hadds.cons rfl rfl rfl⟩
      · obtain ⟨hall, hadds⟩ := ih h
        exact ⟨hmem hsettled hall, hadds.cons rfl rfl rfl⟩
      · obtain ⟨hall, hadds⟩ := ih h
        exact ⟨hmem hsettled hall, hadds.cons rfl rfl rfl⟩
    | move =>
      simp only [settle, hk, ask, Prog.req_bind, Prog.ret_bind, Prog.leads_req] at h
      obtain ⟨b, rest, rfl, h⟩ := h
      have hsettled : settledBy ⟨(), .releasePopulationClaim a, b⟩ = some (a, intent.kind) := by
        rw [hk]
        rfl
      rcases b with e | _ | _
      · obtain ⟨hall, hadds⟩ := ih h
        exact ⟨hmem hsettled hall, hadds.cons rfl rfl rfl⟩
      · obtain ⟨hall, hadds⟩ := ih h
        exact ⟨hmem hsettled hall, hadds.cons rfl rfl rfl⟩
      · obtain ⟨hall, hadds⟩ := ih h
        exact ⟨hmem hsettled hall, hadds.cons rfl rfl rfl⟩

theorem recoverOlderThan_leads {shards age : ℕ} {log : List SweepTalk} {r : RecoveryReport}
    (h : (recoverOlderThan shards age).Leads log r) : Recovers shards age log r := by
  simp only [recoverOlderThan, ask, Prog.req_bind, Prog.ret_bind, Prog.leads_req,
    Prog.leads_bind] at h
  obtain ⟨c, _, rfl, front, collected, rest, rfl, hscan, hsettle⟩ := h
  obtain ⟨hfound, hnothing⟩ := staleIntents_leads hscan
  obtain ⟨hall, hadds⟩ := settle_leads hsettle
  refine ⟨⟨c, List.mem_cons_self, fun shard hshard => ?_⟩, ?_⟩
  · obtain ⟨found, hmem, hsub⟩ := hfound shard (List.mem_range.2 hshard)
    refine ⟨found, List.mem_cons_of_mem _ (List.mem_append_left _ hmem), fun a intent ha => ?_⟩
    obtain ⟨x, hx, hxa⟩ := hall a intent (hsub ha)
    exact ⟨x, List.mem_cons_of_mem _ (List.mem_append_right _ hx), hxa⟩
  · exact (Adds.append hnothing hadds).cons rfl rfl rfl

end Manager

end TheSix
