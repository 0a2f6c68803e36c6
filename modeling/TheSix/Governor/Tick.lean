import TheSix.Governor.Census
import TheSix.Tier.HotRung
import TheSix.Manager.Recover

/-!
# The tick

`Governor::tick` of `governor/mod.rs`: observe the ladder, plan, and act on the plan. What a tick
does not decide itself is handed in: what the manager shows (`ManagerView`), and how the actions
turn out in the order they are tried (`TickAnswers`). A tick keeps its report and a record of what it
has asked for.
-/

namespace TheSix

/-! ## Observing -/

/-- What a governor reads of an `OperationRecord`. -/
structure OperationRecord where
  operation : Operation
  key : KeyIdentity
  outcome : RecordedOutcome
  deriving DecidableEq, Repr

/-- `FAILURE_THRESHOLD`. -/
def failureThreshold : ℕ := 5

/-- `INTENT_RECOVERY_AGE`, in nanoseconds. -/
def intentRecoveryAge : ℕ := 5 * 10 ^ 9

/-- What a manager shows to its governor. -/
structure ManagerView where
  stats : PlaneStats
  /-- The bound tiers from `L0` on, each with the capacity that it tracks. -/
  tiers : List (Option ℕ)
  consecutiveFailures : TierId → ℕ
  peek : KeyRef → Except CacheError ControlSnapshot

namespace ManagerView

variable (m : ManagerView)

/-- `CacheManager::has_tier`. -/
def hasTier (t : TierId) : Bool := t.asUsize < m.tiers.length

/-- `CacheManager::continuity_of`. -/
def continuityOf (t : TierId) : ContinuityState :=
  if !m.hasTier t then .unavailable
  else if m.consecutiveFailures t = 0 then .healthy
  else if failureThreshold ≤ m.consecutiveFailures t then .unavailable
  else .degraded

/-- A rung the planner wants rebound. -/
def Failed (t : TierId) : Prop := m.continuityOf t = .degraded ∨ m.continuityOf t = .unavailable

instance : DecidablePred m.Failed := fun _ => inferInstanceAs (Decidable (_ ∨ _))

end ManagerView

/-- `Governor`. The rebinder is a closure: what it answers is part of the `TickAnswers`. -/
structure Governor (K : Type) where
  settings : GovernorSettings
  census : Option (List (CensusKey K)) := none
  heat : Option (List OperationRecord) := none
  hotRungs : List TierArc := []
  rebinder : Bool := false

/-- One more served read of an identity: `*heat.entry(record.key).or_insert(0) += 1`. -/
def HeatMap.bump (heat : HeatMap) (identity : KeyIdentity) : HeatMap :=
  (identity, heat.of identity + 1) :: heat

/-- Whether a record counts as a served read. -/
def OperationRecord.isServedRead (r : OperationRecord) : Bool :=
  r.outcome = .served &&
    (r.operation = .get || r.operation = .getOrFetch || r.operation = .refresh)

namespace Governor

variable {K : Type} (g : Governor K)

/-- `Governor::observe`. A key that the control plane does not know is taken as absent. -/
def observe (m : ManagerView) : Observation where
  stats := m.stats
  rungCapacity t := m.tiers[t.asUsize]?.join
  rungState := m.continuityOf
  census := (g.census.getD []).mapIdx fun i entry =>
    match m.peek entry.framed with
    | .ok s => ⟨i, entry.identity, s.tier, s.state⟩
    | .error _ => ⟨i, entry.identity, .L0, .absent⟩

/-- `Governor::measure_heat`. -/
def measureHeat : HeatMap :=
  ((g.heat.getD []).filter OperationRecord.isServedRead).foldl (fun heat r => heat.bump r.key) []

/-- `Governor::plan`. -/
def plan (m : ManagerView) : GovernorPlan := planTick (g.observe m) g.measureHeat g.settings

end Governor

/-! ## Acting on a plan -/

/-- `GovernorReport`. -/
structure GovernorReport where
  plan : GovernorPlan := {}
  recoveredIntents : ℕ := 0
  needsReconciliation : ℕ := 0
  expiredDemoted : ℕ := 0
  rebindsDone : ℕ := 0
  rebindFailures : ℕ := 0
  rebindingNotConfigured : Bool := false
  promoted : ℕ := 0
  demoted : ℕ := 0
  moveFailures : ℕ := 0
  deriving DecidableEq, Repr

/-- A move asked of the manager. -/
inductive Move (K : Type)
  | demote (key : K)
  | promote (key : K)
  deriving DecidableEq, Repr

/-- How the actions of a tick turn out. Rebinds and moves are numbered in the order of trial. -/
structure TickAnswers where
  recoverOlderThan : ℕ → RecoveryReport := fun _ => {}
  sweepExpired : ℕ := 0
  /-- The tier a rebinder hands out, with what it has allocated for it. -/
  rebind : ℕ → TierId → Except CacheError (Option (List TierObject × TierArc)) :=
    fun _ _ => .ok none
  move : ℕ → Except CacheError Unit := fun _ => .ok ()

/-- A tick under way: its report, the allocations, the rungs its rebinder was called for, and the
moves it has asked for. -/
structure Tick (K : Type) where
  report : GovernorReport
  heap : TierHeap
  rebinds : List TierId := []
  moves : List (Move K) := []

namespace Governor

variable {K : Type} (g : Governor K) (answers : TickAnswers)

/-- One rebind: the rebinder is called, and its tier swapped in. -/
def rebindOne (rung : TierId) (hot : TierArc) (t : Tick K) : Tick K :=
  let t' := { t with rebinds := t.rebinds ++ [rung] }
  match answers.rebind t.rebinds.length rung with
  | .ok (some (made, replacement)) =>
    match HotRungTier.hotSwap (t.heap ++ made) hot replacement with
    | (.ok _, heap) =>
      { t' with heap, report := { t.report with rebindsDone := t.report.rebindsDone + 1 } }
    | (.error _, heap) =>
      { t' with heap, report := { t.report with rebindFailures := t.report.rebindFailures + 1 } }
  | .ok none => { t' with report := { t.report with rebindingNotConfigured := true } }
  | .error _ =>
    { t' with report := { t.report with rebindFailures := t.report.rebindFailures + 1 } }

/-- The rebind leg. A rung that no hot rung serves is passed over. -/
def rebindLeg : List TierId → Tick K → Tick K
  | [], t => t
  | rung :: rest, t =>
    match g.hotRungs.find? fun h => HotRungTier.rung t.heap h = some rung with
    | none => rebindLeg rest t
    | some hot => rebindLeg rest (rebindOne answers rung hot t)

/-- The demote leg, with the budget that it leaves. -/
def demoteLeg (entries : List (CensusKey K)) : List ℕ → ℕ → Tick K → ℕ × Tick K
  | [], budget, t => (budget, t)
  | idx :: rest, budget, t =>
    if budget = 0 then (budget, t)
    else
      match entries[idx]? with
      | none => demoteLeg entries rest budget t
      | some entry =>
        let t' := { t with moves := t.moves ++ [Move.demote entry.key] }
        match answers.move t.moves.length with
        | .ok () =>
          demoteLeg entries rest (budget - 1)
            { t' with report := { t.report with demoted := t.report.demoted + 1 } }
        -- the colder rung is full: the leg stops, and keeps this move's budget
        | .error .capacityExhausted =>
          (budget, { t' with report :=
            { t.report with moveFailures := t.report.moveFailures + 1 } })
        | .error _ =>
          demoteLeg entries rest (budget - 1)
            { t' with report := { t.report with moveFailures := t.report.moveFailures + 1 } }

/-- The promote leg. A failed promotion costs no budget. -/
def promoteLeg (entries : List (CensusKey K)) : List ℕ → ℕ → Tick K → Tick K
  | [], _, t => t
  | idx :: rest, budget, t =>
    if budget = 0 then t
    else
      match entries[idx]? with
      | none => promoteLeg entries rest budget t
      | some entry =>
        let t' := { t with moves := t.moves ++ [Move.promote entry.key] }
        match answers.move t.moves.length with
        | .ok () =>
          promoteLeg entries rest (budget - 1)
            { t' with report := { t.report with promoted := t.report.promoted + 1 } }
        | .error _ =>
          promoteLeg entries rest budget
            { t' with report := { t.report with moveFailures := t.report.moveFailures + 1 } }

/-- The two sweeps. -/
def sweeps (plan : GovernorPlan) (report : GovernorReport) : GovernorReport :=
  let report :=
    if plan.recoverySweep then
      let r := answers.recoverOlderThan (g.settings.recoverAfter.getD intentRecoveryAge)
      { report with
        recoveredIntents := r.recovered
        needsReconciliation := r.needsReconciliation }
    else report
  if plan.expireSweep then { report with expiredDemoted := answers.sweepExpired } else report

/-- The rebinds of a plan, when a rebinder is configured. -/
def rebinds (plan : GovernorPlan) (t : Tick K) : Tick K :=
  if g.rebinder then g.rebindLeg answers plan.rebind t
  else { t with report := { t.report with
    rebindingNotConfigured := t.report.rebindingNotConfigured || !plan.rebind.isEmpty } }

/-- `Governor::apply_plan`. -/
def applyPlan (plan : GovernorPlan) (heap : TierHeap) : Tick K :=
  if !g.settings.mode.executesMaintenance then { report := { plan }, heap }
  else
    let t := g.rebinds answers plan { report := g.sweeps answers plan { plan }, heap }
    if !g.settings.mode.executesMoves then t
    else
      match g.census with
      | none => t
      | some entries =>
        let (budget, t) := demoteLeg answers entries plan.demote g.settings.maxMovesPerTick t
        promoteLeg answers entries plan.promote budget t

/-- `Governor::tick`. -/
def tick (m : ManagerView) (heap : TierHeap) : Tick K :=
  if g.settings.mode.executesMaintenance then g.applyPlan answers (g.plan m) heap
  else { report := { plan := g.plan m }, heap }

end Governor

/-! ## How many moves a tick tries -/

/-- Whether the moves of a tick fit into its budget, told from the answers: `d` and `p` are the
numbers of demotions and promotions in the plan that name a key of the census. -/
def MovesFit (budget d p : ℕ) (move : ℕ → Except CacheError Unit) : Prop :=
  ((∀ k < min budget d, move k ≠ .error .capacityExhausted) ∧
    (p + min budget d ≤ budget ∨ ∀ k, min budget d ≤ k → k < budget → move k = .ok ())) ∨
  ∃ k < min budget d, move k = .error .capacityExhausted ∧
    (∀ j < k, move j ≠ .error .capacityExhausted) ∧ p + (k + 1) ≤ budget

theorem MovesFit.iff_of_none {budget d p : ℕ} {move : ℕ → Except CacheError Unit}
    (h : ∀ k < min budget d, move k ≠ .error .capacityExhausted) :
    MovesFit budget d p move ↔
      p + min budget d ≤ budget ∨ ∀ k, min budget d ≤ k → k < budget → move k = .ok () := by
  constructor
  · rintro (⟨-, hfit⟩ | ⟨k, hk, hfull, -⟩)
    · exact hfit
    · exact absurd hfull (h k hk)
  · exact fun hfit => .inl ⟨h, hfit⟩

theorem MovesFit.iff_of_first {budget d p k : ℕ} {move : ℕ → Except CacheError Unit}
    (hk : k < min budget d) (hfull : move k = .error .capacityExhausted)
    (hbefore : ∀ j < k, move j ≠ .error .capacityExhausted) :
    MovesFit budget d p move ↔ p + (k + 1) ≤ budget := by
  constructor
  · rintro (⟨hnone, -⟩ | ⟨j, hj, hfull', hbefore', hfit⟩)
    · exact absurd hfull (hnone k hk)
    · -- both are the first
      obtain rfl : j = k := by
        by_contra hne
        rcases Nat.lt_or_gt_of_ne hne with hlt | hlt
        · exact hbefore j hlt hfull'
        · exact hbefore' k hlt hfull
      exact hfit
  · exact fun hfit => .inr ⟨k, hk, hfull, hbefore, hfit⟩

namespace Governor

variable {K : Type} {g : Governor K} {answers : TickAnswers} {entries : List (CensusKey K)}

theorem rebindOne_moves (rung : TierId) (hot : TierArc) (t : Tick K) :
    (rebindOne answers rung hot t).moves = t.moves := by
  unfold rebindOne
  split
  · split <;> rfl
  · rfl
  · rfl

theorem rebindLeg_moves (rungs : List TierId) (t : Tick K) :
    (g.rebindLeg answers rungs t).moves = t.moves := by
  induction rungs generalizing t with
  | nil => rfl
  | cons rung rest ih =>
    unfold rebindLeg
    split
    · exact ih t
    · rw [ih, rebindOne_moves]

theorem rebinds_moves (plan : GovernorPlan) (t : Tick K) :
    (g.rebinds answers plan t).moves = t.moves := by
  unfold rebinds
  split_ifs
  · exact rebindLeg_moves plan.rebind t
  · rfl

/-- The positions that name a key of the census. -/
def named (entries : List (CensusKey K)) (idxs : List ℕ) : ℕ :=
  idxs.countP (· < entries.length)

theorem named_cons_of_none {idx : ℕ} (h : entries[idx]? = none) (rest : List ℕ) :
    named entries (idx :: rest) = named entries rest := by
  rw [List.getElem?_eq_none_iff] at h
  simp [named, h]

theorem named_cons_of_some {idx : ℕ} {entry : CensusKey K} (h : entries[idx]? = some entry)
    (rest : List ℕ) : named entries (idx :: rest) = named entries rest + 1 := by
  have hlt := (List.getElem?_eq_some_iff.mp h).1
  simp [named, hlt]

/-- A demotion that does not find the colder rung full costs one of the budget. -/
theorem demoteLeg_goesOn {idx : ℕ} {entry : CensusKey K} (hentry : entries[idx]? = some entry)
    (rest : List ℕ) (budget : ℕ) {t : Tick K}
    (hanswer : answers.move t.moves.length ≠ .error .capacityExhausted) :
    ∃ report, demoteLeg answers entries (idx :: rest) (budget + 1) t =
      demoteLeg answers entries rest budget
        { t with report, moves := t.moves ++ [.demote entry.key] } := by
  simp only [demoteLeg, hentry, Nat.add_eq_zero_iff, one_ne_zero, and_false, if_false,
    Nat.add_sub_cancel]
  split
  · exact ⟨_, rfl⟩
  · exact absurd ‹_› hanswer
  · exact ⟨_, rfl⟩

theorem demoteLeg_stops {idx : ℕ} {entry : CensusKey K} (hentry : entries[idx]? = some entry)
    (rest : List ℕ) (budget : ℕ) {t : Tick K}
    (hanswer : answers.move t.moves.length = .error .capacityExhausted) :
    (demoteLeg answers entries (idx :: rest) (budget + 1) t).1 = budget + 1 ∧
      (demoteLeg answers entries (idx :: rest) (budget + 1) t).2.moves.length =
        t.moves.length + 1 := by
  simp [demoteLeg, hentry, hanswer]

/-- A promotion costs one of the budget if it succeeds, and nothing if it fails. -/
theorem promoteLeg_goesOn {idx : ℕ} {entry : CensusKey K} (hentry : entries[idx]? = some entry)
    (rest : List ℕ) (budget : ℕ) (t : Tick K) :
    ∃ report, promoteLeg answers entries (idx :: rest) (budget + 1) t =
      promoteLeg answers entries rest
        (if answers.move t.moves.length = .ok () then budget else budget + 1)
        { t with report, moves := t.moves ++ [.promote entry.key] } := by
  simp only [promoteLeg, hentry, Nat.add_eq_zero_iff, one_ne_zero, and_false, if_false,
    Nat.add_sub_cancel]
  cases answers.move t.moves.length with
  | ok u => exact ⟨_, rfl⟩
  | error e => exact ⟨_, rfl⟩

variable (answers entries)

/-- The demote leg tries the named demotions up to its budget, or stops at the first answer that
the colder rung is full, whose budget it keeps. -/
theorem demoteLeg_spec (idxs : List ℕ) (budget : ℕ) (t : Tick K) :
    ((∀ k < min budget (named entries idxs),
        answers.move (t.moves.length + k) ≠ .error .capacityExhausted) ∧
      (demoteLeg answers entries idxs budget t).1 = budget - min budget (named entries idxs) ∧
      (demoteLeg answers entries idxs budget t).2.moves.length =
        t.moves.length + min budget (named entries idxs)) ∨
    ∃ k < min budget (named entries idxs),
      answers.move (t.moves.length + k) = .error .capacityExhausted ∧
      (∀ j < k, answers.move (t.moves.length + j) ≠ .error .capacityExhausted) ∧
      (demoteLeg answers entries idxs budget t).1 = budget - k ∧
      (demoteLeg answers entries idxs budget t).2.moves.length = t.moves.length + (k + 1) := by
  induction idxs generalizing budget t with
  | nil => simp [demoteLeg, named]
  | cons idx rest ih =>
    cases budget with
    | zero => simp [demoteLeg]
    | succ budget =>
      cases hentry : entries[idx]? with
      | none =>
        rw [named_cons_of_none hentry]
        simpa [demoteLeg, hentry] using ih (budget + 1) t
      | some entry =>
        rw [named_cons_of_some hentry, Nat.add_min_add_right]
        by_cases hanswer : answers.move t.moves.length = .error .capacityExhausted
        · obtain ⟨hbudget, hmoves⟩ := demoteLeg_stops hentry rest budget hanswer
          exact Or.inr ⟨0, by omega, hanswer, by simp, hbudget, by omega⟩
        · obtain ⟨report, hgoes⟩ := demoteLeg_goesOn hentry rest budget hanswer
          rw [hgoes]
          set t' : Tick K := { t with report, moves := t.moves ++ [.demote entry.key] }
          have hlength : t'.moves.length = t.moves.length + 1 := by simp [t']
          -- the answers of the rest are those of the whole leg, one later
          have hshift : ∀ k, t'.moves.length + k = t.moves.length + (k + 1) := by omega
          rcases ih budget t' with ⟨hnone, hleft, hmoves⟩ | ⟨k, hk, hfull, hbefore, hleft, hmoves⟩
          · refine Or.inl ⟨fun k hk => ?_, by omega, by omega⟩
            cases k with
            | zero => exact hanswer
            | succ k => exact hshift k ▸ hnone k (by omega)
          · refine Or.inr ⟨k + 1, by omega, hshift k ▸ hfull, fun j hj => ?_, by omega, by omega⟩
            cases j with
            | zero => exact hanswer
            | succ j => exact hshift j ▸ hbefore j (by omega)

theorem promoteLeg_moves_le (idxs : List ℕ) (budget : ℕ) (t : Tick K) :
    t.moves.length ≤ (promoteLeg answers entries idxs budget t).moves.length := by
  induction idxs generalizing budget t with
  | nil => exact le_refl _
  | cons idx rest ih =>
    cases budget with
    | zero => simp [promoteLeg]
    | succ budget =>
      cases hentry : entries[idx]? with
      | none => simpa [promoteLeg, hentry] using ih (budget + 1) t
      | some entry =>
        obtain ⟨report, hgoes⟩ := promoteLeg_goesOn hentry rest budget t
        rw [hgoes]
        exact le_trans (by simp) (ih _ _)

/-- A promotion costs budget when it succeeds, so the leg stays within `bound` trials when that many
are named, or when its budget is `bound` and every trial succeeds. -/
theorem promoteLeg_moves_le_iff (idxs : List ℕ) {budget bound : ℕ} (h : bound ≤ budget)
    (t : Tick K) :
    (promoteLeg answers entries idxs budget t).moves.length ≤ t.moves.length + bound ↔
      named entries idxs ≤ bound ∨ bound = budget ∧
        ∀ k, t.moves.length ≤ k → k < t.moves.length + budget → answers.move k = .ok () := by
  induction idxs generalizing budget bound t with
  | nil => simp [promoteLeg, named]
  | cons idx rest ih =>
    cases budget with
    | zero =>
      obtain rfl : bound = 0 := by omega
      exact iff_of_true (by simp [promoteLeg]) (.inr ⟨rfl, fun k hle hlt => by omega⟩)
    | succ budget =>
      cases hentry : entries[idx]? with
      | none =>
        rw [named_cons_of_none hentry]
        simpa [promoteLeg, hentry] using ih h t
      | some entry =>
        rw [named_cons_of_some hentry]
        obtain ⟨report, hgoes⟩ := promoteLeg_goesOn hentry rest budget t
        rw [hgoes]
        set t' : Tick K := { t with report, moves := t.moves ++ [.promote entry.key] }
        have hlength : t'.moves.length = t.moves.length + 1 := by simp [t']
        cases bound with
        | zero =>
          -- the leg has tried one, which is more than none
          have hmore : t'.moves.length ≤ (promoteLeg answers entries rest
            (if answers.move t.moves.length = .ok () then budget else budget + 1) t').moves.length :=
            promoteLeg_moves_le _ _ _ _ _
          omega
        | succ bound =>
          have hsum : t.moves.length + (bound + 1) = t'.moves.length + bound := by omega
          rw [hsum]
          by_cases hanswer : answers.move t.moves.length = .ok ()
          · rw [if_pos hanswer, ih (by omega) t']
            have hrange : (∀ k, t'.moves.length ≤ k → k < t'.moves.length + budget →
                answers.move k = .ok ()) ↔
                ∀ k, t.moves.length ≤ k → k < t.moves.length + (budget + 1) →
                  answers.move k = .ok () := by
              constructor
              · intro hall k hle hlt
                by_cases hk : k = t.moves.length
                · exact hk ▸ hanswer
                · exact hall k (by omega) (by omega)
              · exact fun hall k hle hlt => hall k (by omega) (by omega)
            rw [hrange, Nat.add_le_add_iff_right, Nat.add_right_cancel_iff]
          · rw [if_neg hanswer, ih (by omega) t']
            have hno : ¬ ∀ k, t.moves.length ≤ k → k < t.moves.length + (budget + 1) →
                answers.move k = .ok () :=
              fun hall => hanswer (hall _ (le_refl _) (by omega))
            simp only [hno, and_false, or_false, Nat.add_le_add_iff_right,
              show bound ≠ budget + 1 by omega, false_and]

/-- A plan is carried out by its legs, the rebinds before the moves. -/
theorem applyPlan_moves (plan : GovernorPlan) (heap : TierHeap)
    (hmode : g.settings.mode.executesMoves = true) (hcensus : g.census = some entries) :
    ∃ t : Tick K, t.moves = [] ∧ g.applyPlan answers plan heap =
      promoteLeg answers entries plan.promote
        (demoteLeg answers entries plan.demote g.settings.maxMovesPerTick t).1
        (demoteLeg answers entries plan.demote g.settings.maxMovesPerTick t).2 := by
  have hmaintains : g.settings.mode.executesMaintenance = true := by
    cases h : g.settings.mode <;> simp_all [GovernorMode.executesMoves,
      GovernorMode.executesMaintenance]
  refine ⟨g.rebinds answers plan { report := g.sweeps answers plan { plan }, heap },
    rebinds_moves plan _, ?_⟩
  simp [applyPlan, hmaintains, hmode, hcensus]

theorem applyPlan_moves_of_no_moves (plan : GovernorPlan) (heap : TierHeap)
    (h : g.settings.mode.executesMoves = false ∨ g.census = none) :
    (g.applyPlan answers plan heap).moves = [] := by
  unfold applyPlan
  split_ifs with hmaintains hmoves
  · rfl
  · exact rebinds_moves plan _
  · rcases h with h | h
    · simp [h] at hmoves
    · simp [h, rebinds_moves]

/-- **A tick keeps its move budget exactly when no trial escapes the count.** Two do: a promotion
that fails, and the demotion at which the leg stops. -/
theorem applyPlan_moves_le_iff (g : Governor K) (answers : TickAnswers) (plan : GovernorPlan)
    (heap : TierHeap) :
    (g.applyPlan answers plan heap).moves.length ≤ g.settings.maxMovesPerTick ↔
      g.settings.mode.executesMoves = false ∨ ∀ entries, g.census = some entries →
        MovesFit g.settings.maxMovesPerTick (named entries plan.demote)
          (named entries plan.promote) answers.move := by
  cases hmode : g.settings.mode.executesMoves with
  | false => simp [applyPlan_moves_of_no_moves answers plan heap (.inl hmode)]
  | true =>
    cases hcensus : g.census with
    | none => simp [applyPlan_moves_of_no_moves answers plan heap (.inr hcensus)]
    | some entries =>
      obtain ⟨t, hstart, happly⟩ := applyPlan_moves answers entries plan heap hmode hcensus
      obtain ⟨left, t', hleg⟩ : ∃ left t', demoteLeg answers entries plan.demote
          g.settings.maxMovesPerTick t = (left, t') := ⟨_, _, rfl⟩
      have hspec := demoteLeg_spec answers entries plan.demote g.settings.maxMovesPerTick t
      have hfits := fun bound (h : bound ≤ left) =>
        promoteLeg_moves_le_iff answers entries plan.promote h t'
      simp only [hleg, hstart, List.length_nil, Nat.zero_add] at hspec
      simp only [happly, hleg, Bool.true_eq_false, false_or, Option.some.injEq, forall_eq']
      rcases hspec with ⟨hnone, hleft, hmoves⟩ | ⟨k, hk, hfull, hbefore, hleft, hmoves⟩
      · have hbudget : t'.moves.length + left = g.settings.maxMovesPerTick := by omega
        have hfit := hfits left (le_refl left)
        rw [hbudget, hmoves] at hfit
        rw [hfit, MovesFit.iff_of_none hnone]
        have hnamed : named entries plan.promote ≤ left ↔ named entries plan.promote +
            min g.settings.maxMovesPerTick (named entries plan.demote) ≤
              g.settings.maxMovesPerTick := by omega
        simp only [hnamed, true_and]
      · have hbudget : t'.moves.length + (left - 1) = g.settings.maxMovesPerTick := by omega
        have hfit := hfits (left - 1) (by omega)
        rw [hbudget] at hfit
        rw [hfit, MovesFit.iff_of_first hk hfull hbefore]
        have hnamed : named entries plan.promote ≤ left - 1 ↔ named entries plan.promote +
            (k + 1) ≤ g.settings.maxMovesPerTick := by omega
        simp only [hnamed, show left - 1 ≠ left by omega, false_and, or_false]

/-- Seven hot keys and two cold ones on a full `L2`, under the default budget of eight. -/
def busyCensus : List CensusEntryView :=
  (List.range 9).map fun i => ⟨i, ⟨UInt64.ofNat i, 1⟩, .L2, .ready⟩

def busyHeat : HeatMap := (List.range 7).map fun i => (⟨UInt64.ofNat i, 1⟩, 20)

def busySettings : GovernorSettings :=
  { mode := .fullyAutonomous, pressureTest := fun _ _ => true }

/-- The first demotion finds its key gone, the second the colder rung full. -/
def busyAnswers : TickAnswers where
  move n := if n = 0 then .error .miss else if n = 1 then .error .capacityExhausted else .ok ()

/-- Nine moves are tried for a plan of the planner itself, where eight are allowed. -/
theorem applyPlan_moves_busy :
    ∃ (g : Governor ℕ) (answers : TickAnswers) (observation : Observation) (heat : HeatMap),
      ¬ (g.applyPlan answers (planTick observation heat g.settings) []).moves.length ≤
        g.settings.maxMovesPerTick :=
  ⟨{ settings := busySettings
     census := some ((List.range 9).map fun i => ⟨i, [], ⟨0, 0⟩⟩) }, busyAnswers,
    { crowded with census := busyCensus }, busyHeat, by decide +kernel⟩

/-! ## Which rungs a tick rebinds -/

/-- A rung that a hot rung is registered for. -/
def Rebindable (g : Governor K) (heap : TierHeap) (rung : TierId) : Prop :=
  ∃ h ∈ g.hotRungs, HotRungTier.rung heap h = some rung

/-- A rebind replaces the inner tier of a hot rung, and changes the rung of none. -/
theorem rung_rebindOne (rung : TierId) (hot : TierArc) {t : Tick K} {h : TierArc}
    (hh : (HotRungTier.rung t.heap h).isSome) :
    HotRungTier.rung (rebindOne answers rung hot t).heap h = HotRungTier.rung t.heap h := by
  have hswap : ∀ made replacement, HotRungTier.rung
      (HotRungTier.hotSwap (t.heap ++ made) hot replacement).2 h = HotRungTier.rung t.heap h :=
    fun made replacement => by
      rw [HotRungTier.rung_hotSwap, HotRungTier.rung_append made hh]
  unfold rebindOne
  split
  · rename_i made replacement hanswer
    have := hswap made replacement
    split <;> simp_all
  · rfl
  · rfl

theorem rebindOne_rebinds (rung : TierId) (hot : TierArc) (t : Tick K) :
    (rebindOne answers rung hot t).rebinds = t.rebinds ++ [rung] := by
  unfold rebindOne
  split
  · split <;> rfl
  · rfl
  · rfl

/-- The rebinder is called for the rungs of the plan that a hot rung serves. -/
theorem mem_rebindLeg (rungs : List TierId) {t : Tick K}
    (hhot : ∀ h ∈ g.hotRungs, (HotRungTier.rung t.heap h).isSome) {x : TierId} :
    x ∈ (g.rebindLeg answers rungs t).rebinds ↔
      x ∈ t.rebinds ∨ x ∈ rungs ∧ g.Rebindable t.heap x := by
  induction rungs generalizing t with
  | nil => simp [rebindLeg]
  | cons rung rest ih =>
    unfold rebindLeg
    split
    · rename_i hfind
      have hno : ¬ g.Rebindable t.heap rung := by
        rintro ⟨h, hmem, hrung⟩
        simpa [hrung] using List.find?_eq_none.mp hfind h hmem
      rw [ih hhot, List.mem_cons]
      refine or_congr_right ⟨fun h => ⟨.inr h.1, h.2⟩, ?_⟩
      rintro ⟨rfl | hx, hr⟩
      · exact absurd hr hno
      · exact ⟨hx, hr⟩
    · rename_i hot hfind
      have hrung : g.Rebindable t.heap rung :=
        ⟨hot, List.mem_of_find?_eq_some hfind, by simpa using List.find?_some hfind⟩
      have hsame : ∀ h ∈ g.hotRungs, HotRungTier.rung (rebindOne answers rung hot t).heap h =
          HotRungTier.rung t.heap h := fun h hmem => rung_rebindOne answers rung hot (hhot h hmem)
      have hrebindable : g.Rebindable (rebindOne answers rung hot t).heap x ↔
          g.Rebindable t.heap x :=
        exists_congr fun h => and_congr_right fun hmem => by rw [hsame h hmem]
      rw [ih fun h hmem => by rw [hsame h hmem]; exact hhot h hmem, rebindOne_rebinds,
        hrebindable, List.mem_append, List.mem_singleton, List.mem_cons]
      constructor
      · rintro ((hx | rfl) | ⟨hx, hr⟩)
        · exact .inl hx
        · exact .inr ⟨.inl rfl, hrung⟩
        · exact .inr ⟨.inr hx, hr⟩
      · rintro (hx | ⟨rfl | hx, hr⟩)
        · exact .inl (.inl hx)
        · exact .inl (.inr rfl)
        · exact .inr ⟨hx, hr⟩

theorem demoteLeg_rebinds (idxs : List ℕ) (budget : ℕ) (t : Tick K) :
    (demoteLeg answers entries idxs budget t).2.rebinds = t.rebinds := by
  induction idxs generalizing budget t with
  | nil => rfl
  | cons idx rest ih =>
    unfold demoteLeg
    split_ifs
    · rfl
    · split
      · exact ih budget t
      · split
        · exact ih _ _
        · rfl
        · exact ih _ _

theorem promoteLeg_rebinds (idxs : List ℕ) (budget : ℕ) (t : Tick K) :
    (promoteLeg answers entries idxs budget t).rebinds = t.rebinds := by
  induction idxs generalizing budget t with
  | nil => rfl
  | cons idx rest ih =>
    unfold promoteLeg
    split_ifs
    · rfl
    · split
      · exact ih budget t
      · split
        · exact ih _ _
        · exact ih _ _

/-- The rebinder calls of a tick are those of its rebind leg. -/
theorem tick_rebinds (m : ManagerView) (heap : TierHeap)
    (hmode : g.settings.mode.executesMaintenance = true) (hrebinder : g.rebinder = true) :
    ∃ report, (g.tick answers m heap).rebinds =
      (g.rebindLeg answers (g.plan m).rebind { report, heap }).rebinds := by
  refine ⟨g.sweeps answers (g.plan m) { plan := g.plan m }, ?_⟩
  have hleg : ∀ t : Tick K, g.rebinds answers (g.plan m) t =
      g.rebindLeg answers (g.plan m).rebind t := fun t => by rw [rebinds, if_pos hrebinder]
  rw [tick, if_pos hmode, applyPlan, if_neg (by simp [hmode]), hleg]
  dsimp only
  split_ifs
  · rfl
  · cases g.census with
    | none => rfl
    | some entries => rw [promoteLeg_rebinds, demoteLeg_rebinds]

/-- **A failed rung is rebound exactly when the budget reaches down to it.** The budget is spent on
the deepest failed rungs, whether or not a hot rung serves them. -/
theorem tick_rebinds_failed_iff (g : Governor K) (answers : TickAnswers) (m : ManagerView)
    (heap : TierHeap) (hmode : g.settings.mode.executesMaintenance = true)
    (hrebinder : g.rebinder = true)
    (hhot : ∀ h ∈ g.hotRungs, (HotRungTier.rung heap h).isSome) :
    (∃ rung ∈ (g.tick answers m heap).rebinds, g.Rebindable heap rung ∧ m.Failed rung) ↔
      ∃ rung, g.Rebindable heap rung ∧ m.Failed rung ∧ rung.isCacheRung ∧
        cacheLadder.countP (fun t => rung.asUsize < t.asUsize ∧ m.Failed t) <
          g.settings.maxRebindsPerTick := by
  obtain ⟨report, hticks⟩ := tick_rebinds answers m heap hmode hrebinder
  have hcalled : ∀ rung, rung ∈ (g.tick answers m heap).rebinds ↔
      (m.Failed rung ∧ rung.isCacheRung ∧
        cacheLadder.countP (fun t => rung.asUsize < t.asUsize ∧ m.Failed t) <
          g.settings.maxRebindsPerTick) ∧ g.Rebindable heap rung := by
    intro rung
    rw [hticks, mem_rebindLeg answers _ hhot]
    simp only [List.not_mem_nil, false_or, plan, mem_planTick_rebind, mem_degraded,
      countP_degraded, decide_eq_true_eq]
    show ((_ ∧ m.Failed rung) ∧ cacheLadder.countP (fun t =>
      decide (rung.asUsize < t.asUsize ∧ m.Failed t)) < _) ∧ _ ↔ _
    tauto
  simp only [hcalled]
  constructor
  · rintro ⟨rung, ⟨h, hr⟩, -⟩
    exact ⟨rung, hr, h⟩
  · rintro ⟨rung, hr, h⟩
    exact ⟨rung, ⟨h, hr⟩, hr, h.1⟩

/-- A governor with a hot rung for `L3`, in the mode that maintains without moving. -/
def hotL3 : Governor ℕ where
  settings := { mode := .semiAutonomous, pressureTest := fun _ _ => false }
  hotRungs := [1]
  rebinder := true

/-- The allocations behind it: a stub, and the hot rung around it. -/
def hotL3Heap : TierHeap := [.backend .L3, .hotRung .L3 0]

/-- A manager with that many tiers bound, whose `L3` has failed once. -/
def failedL3 (tiers : ℕ) : ManagerView where
  stats := { capacity := 0 }
  tiers := List.replicate tiers none
  consecutiveFailures t := if t = .L3 then 1 else 0
  peek _ := .error .miss

/-- With six tiers bound, the failed rung is the only one there is to rebind. -/
theorem tick_rebinds_failed_six :
    ∃ rung ∈ (hotL3.tick {} (failedL3 6) hotL3Heap).rebinds,
      hotL3.Rebindable hotL3Heap rung ∧ (failedL3 6).Failed rung :=
  (tick_rebinds_failed_iff hotL3 {} (failedL3 6) hotL3Heap rfl rfl (by decide)).mpr
    ⟨.L3, ⟨1, by decide, rfl⟩, by decide, rfl, by decide⟩

/-- With four bound, the unbound `L5` and `L4` use the budget up, tick after tick. -/
theorem tick_starves_four : hotL3.settings.mode.executesMaintenance = true ∧
    hotL3.rebinder = true ∧ 1 ≤ hotL3.settings.maxRebindsPerTick ∧
    (hotL3.Rebindable hotL3Heap .L3 ∧ (failedL3 4).Failed .L3) ∧
    (hotL3.tick {} (failedL3 4) hotL3Heap).rebinds = [] :=
  ⟨rfl, rfl, by decide, ⟨⟨1, by decide, rfl⟩, by decide⟩, by decide +kernel⟩

end Governor

end TheSix
