import TheSix.Control.Stats

/-!
# The planner

`plan_tick` of `governor/mod.rs`: what one tick would do, from one observation of the ladder, the
heat of the census keys and the settings. It moves nothing by itself.

The promote list is the hot part of the census, sorted and cut to the move budget. The demote list
is the cold part, taken whole when the promote list has left any budget. So the planner picks the
right keys (`plan_picks`), and exceeds the budget it shares between the two lists as soon as there
are more cold keys than it has left (`plan_within_budget_iff`).

The occupancy ratio is the only floating point of the planner. It enters as a predicate on the two
counts whose ratio is compared with the threshold.
-/

namespace TheSix

/-- `ContinuityState`: a rung's condition, as a consumer sees it. -/
inductive ContinuityState
  | healthy
  | degraded
  | unavailable
  | recovering
  | reconciling
  deriving DecidableEq, Repr

/-- `TierId::ALL`. -/
def TierId.all : List TierId := [.L0, .L1, .L2, .L3, .L4, .L5, .L6]

theorem TierId.mem_all (t : TierId) : t ∈ TierId.all := by cases t <;> decide

/-- `telemetry::KeyIdentity`: a digest of the framed key and its length. -/
structure KeyIdentity where
  digest : UInt64
  len : UInt16
  deriving DecidableEq, Repr

/-- `KeyIdentity::of`. -/
def KeyIdentity.of (key : KeyRef) : KeyIdentity :=
  ⟨fnv1a key fnvOffsetA, UInt16.ofNat (min key.length 65535)⟩

/-- `HashMap<KeyIdentity, u64>`: how often each identity was served in the ring window. -/
abbrev HeatMap := List (KeyIdentity × ℕ)

/-- `heat.get(identity).copied().unwrap_or(0)`. -/
def HeatMap.of (heat : HeatMap) (identity : KeyIdentity) : ℕ := (heat.lookup identity).getD 0

/-! ## Settings and plans -/

/-- `GovernorMode`. -/
inductive GovernorMode
  | manual
  | semiAutonomous
  | fullyAutonomous
  deriving DecidableEq, Repr

def GovernorMode.executesMaintenance : GovernorMode → Bool
  | .manual => false
  | .semiAutonomous | .fullyAutonomous => true

def GovernorMode.executesMoves : GovernorMode → Bool
  | .fullyAutonomous => true
  | _ => false

/-- `GovernorSettings`. -/
structure GovernorSettings where
  mode : GovernorMode := .manual
  maxMovesPerTick : ℕ := 8
  maxRebindsPerTick : ℕ := 2
  /-- `used / cap + EPSILON >= pressure_threshold`, on the two counts clamped to 32 bits. -/
  pressureTest : UInt32 → UInt32 → Bool
  hotHeat : ℕ := 8
  recoverAfter : Option ℕ := none

/-- `Skip`. -/
inductive Skip
  | noHeatSource
  | noCensus
  deriving DecidableEq, Repr

/-- `GovernorPlan`. The two move lists hold positions in the census. -/
structure GovernorPlan where
  recoverySweep : Bool := false
  expireSweep : Bool := false
  rebind : List TierId := []
  promote : List ℕ := []
  demote : List ℕ := []
  skipped : List Skip := []
  deriving DecidableEq, Repr

/-- `CensusEntryView`: one census entry as the planner sees it. -/
structure CensusEntryView where
  index : ℕ
  identity : KeyIdentity
  tier : TierId
  state : EntryState
  deriving DecidableEq, Repr

/-- `Observation`. -/
structure Observation where
  stats : PlaneStats
  rungCapacity : TierId → Option ℕ
  rungState : TierId → ContinuityState
  census : List CensusEntryView

/-! ## The planner -/

/-- `u32::try_from(n).unwrap_or(u32::MAX)`. -/
def clampU32 (n : ℕ) : UInt32 := UInt32.ofNat (min n (2 ^ 32 - 1))

/-- `rung_occupancy`, as the two numbers of its ratio. -/
def rungOccupancy (observation : Observation) (rung : TierId) : Option (UInt32 × UInt32) :=
  match observation.rungCapacity rung with
  | none => none
  | some cap =>
    if cap = 0 then none
    else some (clampU32 (observation.stats.byTier ⟨rung.asUsize, rung.asUsize_lt⟩), clampU32 cap)

/-- `Reverse(t.as_usize())` in the order of `sort_by_key`. -/
def TierId.DeeperFirst (s t : TierId) : Prop := t.asUsize ≤ s.asUsize

instance : DecidableRel TierId.DeeperFirst := fun _ _ => inferInstanceAs (Decidable (_ ≤ _))

section

variable (observation : Observation) (heat : HeatMap) (settings : GovernorSettings)

/-- Whether a rung is at or above the pressure threshold. -/
def pressured (t : TierId) : Bool :=
  (rungOccupancy observation t).any fun ratio => settings.pressureTest ratio.1 ratio.2

def rungPressure : List TierId :=
  (TierId.all.filter TierId.isCacheRung).filter (pressured observation settings)

/-- The rungs that count as degraded or worse, deepest first. -/
def degraded : List TierId :=
  ((TierId.all.filter TierId.isCacheRung).filter fun t =>
    observation.rungState t = .degraded ∨ observation.rungState t = .unavailable).insertionSort
      TierId.DeeperFirst

/-- Hot, readable, not already at the top of the ladder. -/
def isHot (v : CensusEntryView) : Bool :=
  v.state = .ready && v.tier.isCacheRung && 0 < v.tier.asUsize &&
    settings.hotHeat ≤ heat.of v.identity

/-- Cold, readable, and on a rung under pressure that is not the last one. -/
def isCold (v : CensusEntryView) : Bool :=
  v.state = .ready && v.tier.isCacheRung && v.tier.asUsize < lastCacheTier.asUsize &&
    (rungPressure observation settings).contains v.tier && heat.of v.identity = 0

/-- `Reverse((heat, index))` in the order of `sort_by_key`, a stable sort. -/
def hotterFirst (v w : CensusEntryView) : Prop :=
  heat.of w.identity < heat.of v.identity ∨
    heat.of w.identity = heat.of v.identity ∧ w.index ≤ v.index

instance : DecidableRel (hotterFirst heat) := fun _ _ => inferInstanceAs (Decidable (_ ∨ _))

/-- The promote loop: the indices it pushes, and the budget it leaves. -/
def promoteLoop : List CensusEntryView → ℕ → List ℕ × ℕ
  | [], budget => ([], budget)
  | _ :: _, 0 => ([], 0)
  | view :: rest, budget + 1 =>
    let (promoted, left) := promoteLoop rest budget
    (view.index :: promoted, left)

/-- `plan_tick`. -/
def planTick : GovernorPlan :=
  let plan : GovernorPlan :=
    { recoverySweep := true
      expireSweep := true
      rebind := (degraded observation).take settings.maxRebindsPerTick }
  if observation.census.isEmpty then { plan with skipped := [.noCensus] }
  else if heat.isEmpty then { plan with skipped := [.noHeatSource] }
  else
    let hot := (observation.census.filter (isHot heat settings)).insertionSort (hotterFirst heat)
    let (promoted, budget) := promoteLoop hot settings.maxMovesPerTick
    -- the budget is only asked whether anything is left, it does not cut the list
    let demote :=
      if 0 < budget then
        (observation.census.filter (isCold observation heat settings)).map (·.index)
      else []
    { plan with promote := promoted, demote := demote }

end

/-! ## What the lists of a plan are -/

theorem promoteLoop_eq (views : List CensusEntryView) (budget : ℕ) :
    promoteLoop views budget = ((views.take budget).map (·.index), budget - views.length) := by
  induction views generalizing budget with
  | nil => simp [promoteLoop]
  | cons view rest ih =>
    cases budget with
    | zero => simp [promoteLoop]
    | succ budget => simp [promoteLoop, ih]

variable {observation : Observation} {heat : HeatMap} {settings : GovernorSettings}

theorem planTick_rebind : (planTick observation heat settings).rebind =
    (degraded observation).take settings.maxRebindsPerTick := by
  unfold planTick
  split_ifs <;> rfl

/-- Without keys or without evidence nothing is moved. -/
theorem planTick_skips (h : observation.census = [] ∨ heat = []) :
    (planTick observation heat settings).promote = [] ∧
      (planTick observation heat settings).demote = [] := by
  unfold planTick
  split_ifs with hcensus hheat
  · exact ⟨rfl, rfl⟩
  · exact ⟨rfl, rfl⟩
  · simp only [List.isEmpty_iff] at hcensus hheat
    exact (h.elim hcensus hheat).elim

section Moves

variable (hcensus : observation.census ≠ []) (hheat : heat ≠ [])

include hcensus hheat

theorem planTick_promote : (planTick observation heat settings).promote =
    (((observation.census.filter (isHot heat settings)).insertionSort (hotterFirst heat)).take
      settings.maxMovesPerTick).map (·.index) := by
  simp [planTick, hcensus, hheat, promoteLoop_eq]

theorem planTick_demote : (planTick observation heat settings).demote =
    if observation.census.countP (isHot heat settings) < settings.maxMovesPerTick then
      (observation.census.filter (isCold observation heat settings)).map (·.index)
    else [] := by
  simp [planTick, hcensus, hheat, promoteLoop_eq, List.countP_eq_length_filter]

end Moves

/-! ## The move budget -/

/-- **The planner keeps its budgets exactly when the cold keys fit into what the hot ones leave.**
The rebinds are cut to theirs, the promotions to the moves; the demotions are not cut. -/
theorem plan_within_budget_iff (observation : Observation) (heat : HeatMap)
    (settings : GovernorSettings) :
    ((planTick observation heat settings).promote.length +
        (planTick observation heat settings).demote.length ≤ settings.maxMovesPerTick ∧
      (planTick observation heat settings).rebind.length ≤ settings.maxRebindsPerTick) ↔
    observation.census = [] ∨ heat = [] ∨
      settings.maxMovesPerTick ≤ observation.census.countP (isHot heat settings) ∨
      observation.census.countP (isHot heat settings) +
        observation.census.countP (isCold observation heat settings) ≤
          settings.maxMovesPerTick := by
  have hrebind : (planTick observation heat settings).rebind.length ≤
      settings.maxRebindsPerTick := by
    rw [planTick_rebind, List.length_take]
    omega
  by_cases hskip : observation.census = [] ∨ heat = []
  · obtain ⟨hpromote, hdemote⟩ : (planTick observation heat settings).promote = [] ∧
        (planTick observation heat settings).demote = [] := planTick_skips hskip
    rw [hpromote, hdemote]
    exact iff_of_true ⟨Nat.zero_le _, hrebind⟩ (by tauto)
  obtain ⟨hcensus, hheat⟩ := not_or.mp hskip
  have hpromote : (planTick observation heat settings).promote.length =
      min settings.maxMovesPerTick (observation.census.countP (isHot heat settings)) := by
    rw [planTick_promote hcensus hheat, List.length_map, List.length_take, List.length_insertionSort,
      List.countP_eq_length_filter]
  simp only [hrebind, and_true, hcensus, hheat, false_or, hpromote,
    planTick_demote hcensus hheat]
  split_ifs with hleft
  · rw [List.length_map, ← List.countP_eq_length_filter]
    omega
  · simp only [List.length_nil]
    omega

/-- Nine cold keys on a full `L2`, and the heat of a key that is in nobody's census. -/
def crowded : Observation where
  stats := { capacity := 0, byTier := fun _ => 9 }
  rungCapacity := fun t => if t = .L2 then some 10 else none
  rungState := fun _ => .healthy
  census := (List.range 9).map fun i => ⟨i, ⟨UInt64.ofNat i, 1⟩, .L2, .ready⟩

/-- One move a tick too many: the default budget is eight, and all nine keys are demoted. -/
theorem plan_exceeds_budget_crowded :
    ∃ (observation : Observation) (heat : HeatMap) (settings : GovernorSettings),
      settings.maxMovesPerTick = 8 ∧
      ¬ ((planTick observation heat settings).promote.length +
          (planTick observation heat settings).demote.length ≤ settings.maxMovesPerTick ∧
        (planTick observation heat settings).rebind.length ≤ settings.maxRebindsPerTick) :=
  ⟨crowded, [(⟨100, 1⟩, 20)], { pressureTest := fun used cap => 85 * cap ≤ 100 * used },
    rfl, by decide +kernel⟩

/-! ## The keys a plan names -/

/-- The keys the planner may promote, as the settings describe them. -/
def Promotable (heat : HeatMap) (settings : GovernorSettings) (v : CensusEntryView) : Prop :=
  v.state = .ready ∧ v.tier.isCacheRung ∧ v.tier ≠ .L0 ∧ settings.hotHeat ≤ heat.of v.identity

instance : DecidablePred (Promotable heat settings) :=
  fun _ => inferInstanceAs (Decidable (_ ∧ _ ∧ _ ∧ _))

/-- The keys the planner may demote: on a rung under pressure, between `L0` and `L4`. -/
def Demotable (observation : Observation) (heat : HeatMap) (settings : GovernorSettings)
    (v : CensusEntryView) : Prop :=
  v.state = .ready ∧ heat.of v.identity = 0 ∧ pressured observation settings v.tier ∧
    v.tier ∈ [TierId.L0, .L1, .L2, .L3, .L4]

/-- A plan picks the right keys of the census. -/
structure PicksRight (observation : Observation) (heat : HeatMap) (settings : GovernorSettings)
    (plan : GovernorPlan) : Prop where
  /-- The promote list is the front of the promotable keys, the hottest and latest first. -/
  promote : ∃ hot : List CensusEntryView,
    hot.Perm (observation.census.filter fun v => Promotable heat settings v) ∧
    hot.Pairwise (fun v w => heat.of w.identity < heat.of v.identity ∨
      heat.of w.identity = heat.of v.identity ∧ w.index < v.index) ∧
    plan.promote = (hot.take settings.maxMovesPerTick).map (·.index)
  demote : ∀ i ∈ plan.demote, ∃ v ∈ observation.census,
    v.index = i ∧ Demotable observation heat settings v
  promote_nodup : plan.promote.Nodup
  demote_nodup : plan.demote.Nodup
  disjoint : plan.promote.Disjoint plan.demote
  /-- No key on the authority rung is moved. -/
  stays : ∀ v ∈ observation.census, v.tier = .L6 → v.index ∉ plan.promote ∧ v.index ∉ plan.demote
  rebind : TierId.L6 ∉ plan.rebind

theorem isHot_iff {v : CensusEntryView} : isHot heat settings v ↔ Promotable heat settings v := by
  have : 0 < v.tier.asUsize ↔ v.tier ≠ .L0 := by cases v.tier <;> decide
  simp [isHot, Promotable, this, and_assoc]

theorem isCold_iff {v : CensusEntryView} :
    isCold observation heat settings v ↔ Demotable observation heat settings v := by
  have hrung : v.tier.isCacheRung ∧ v.tier.asUsize < lastCacheTier.asUsize ↔
      v.tier ∈ [TierId.L0, .L1, .L2, .L3, .L4] := by
    cases v.tier <;> decide
  have hcache : v.tier ∈ [TierId.L0, .L1, .L2, .L3, .L4] → v.tier.isCacheRung :=
    fun h => (hrung.mpr h).1
  simp only [isCold, Demotable, rungPressure, Bool.and_eq_true, decide_eq_true_eq,
    List.contains_iff_mem, List.mem_filter, TierId.mem_all, true_and, ← hrung]
  tauto

theorem not_promotable_of_cold (hhot : 1 ≤ settings.hotHeat) {v : CensusEntryView}
    (hcold : heat.of v.identity = 0) : ¬ Promotable heat settings v := by
  rintro ⟨-, -, -, hheat⟩
  omega

/-- Without evidence no key is hot, so the early returns of the planner lose no promotion. -/
theorem planTick_promote_of_hotHeat (hhot : 1 ≤ settings.hotHeat) :
    (planTick observation heat settings).promote =
      (((observation.census.filter (isHot heat settings)).insertionSort (hotterFirst heat)).take
        settings.maxMovesPerTick).map (·.index) := by
  by_cases hskip : observation.census = [] ∨ heat = []
  · have hnone : observation.census.filter (isHot heat settings) = [] := by
      rw [List.filter_eq_nil_iff]
      intro v hv hv'
      rcases hskip with h | rfl
      · simp [h] at hv
      · exact not_promotable_of_cold hhot rfl (isHot_iff.mp hv')
    rw [(planTick_skips hskip).1, hnone]
    simp
  · obtain ⟨hcensus, hheat⟩ := not_or.mp hskip
    exact planTick_promote hcensus hheat

theorem mem_planTick_promote (hhot : 1 ≤ settings.hotHeat) {i : ℕ}
    (h : i ∈ (planTick observation heat settings).promote) :
    ∃ v ∈ observation.census, v.index = i ∧ Promotable heat settings v := by
  rw [planTick_promote_of_hotHeat hhot, List.mem_map] at h
  obtain ⟨v, hv, rfl⟩ := h
  have hv := List.mem_of_mem_take hv
  rw [List.mem_insertionSort, List.mem_filter] at hv
  exact ⟨v, hv.1, rfl, isHot_iff.mp hv.2⟩

theorem mem_planTick_demote {i : ℕ} (h : i ∈ (planTick observation heat settings).demote) :
    ∃ v ∈ observation.census, v.index = i ∧ Demotable observation heat settings v := by
  by_cases hskip : observation.census = [] ∨ heat = []
  · rw [(planTick_skips hskip).2] at h
    exact absurd h (List.not_mem_nil)
  obtain ⟨hcensus, hheat⟩ := not_or.mp hskip
  rw [planTick_demote hcensus hheat] at h
  split_ifs at h with hleft
  · obtain ⟨v, hv, rfl⟩ := List.mem_map.mp h
    rw [List.mem_filter] at hv
    exact ⟨v, hv.1, rfl, isCold_iff.mp hv.2⟩
  · exact absurd h (List.not_mem_nil)

theorem mem_degraded {t : TierId} : t ∈ degraded observation ↔ t.isCacheRung ∧
    (observation.rungState t = .degraded ∨ observation.rungState t = .unavailable) := by
  simp [degraded, TierId.mem_all, and_comm]

instance : IsTrans TierId TierId.DeeperFirst where
  trans _ _ _ h h' := le_trans h' h

instance : Std.Total TierId.DeeperFirst where
  total s t := le_total t.asUsize s.asUsize

/-- Of what a strict order has sorted, the front holds what has few elements before it. -/
theorem mem_take_iff_countP_lt {α : Type} {l : List α} {f : α → ℕ}
    (hl : l.Pairwise fun a b => f b < f a) {n : ℕ} {x : α} :
    x ∈ l.take n ↔ x ∈ l ∧ l.countP (fun y => f x < f y) < n := by
  induction l generalizing n with
  | nil => simp
  | cons a l ih =>
    obtain ⟨hfirst, hl⟩ := List.pairwise_cons.mp hl
    cases n with
    | zero => simp
    | succ n =>
      by_cases hx : x = a
      · subst hx
        have hnone : l.countP (fun y => f x < f y) = 0 := by
          rw [List.countP_eq_zero]
          intro y hy
          simpa using le_of_lt (hfirst y hy)
        simp [hnone]
      · rw [List.take_succ_cons, List.mem_cons, List.mem_cons, ih hl, List.countP_cons]
        simp only [hx, false_or]
        refine and_congr_right fun hmem => ?_
        simp [hfirst x hmem]

/-- The planner rebinds a rung when it counts as failed and its budget reaches down to it. -/
theorem mem_planTick_rebind {t : TierId} : t ∈ (planTick observation heat settings).rebind ↔
    t ∈ degraded observation ∧
      (degraded observation).countP (fun s => t.asUsize < s.asUsize) <
        settings.maxRebindsPerTick := by
  have hsorted : (degraded observation).Pairwise TierId.DeeperFirst :=
    List.pairwise_insertionSort _ _
  have hnodup : (degraded observation).Nodup := by
    refine (List.perm_insertionSort _ _).nodup_iff.mpr ?_
    exact (List.Nodup.filter _ (List.Nodup.filter _ (by decide)))
  rw [planTick_rebind]
  refine mem_take_iff_countP_lt ((hsorted.and hnodup).imp ?_)
  rintro s u ⟨hle, hne⟩
  exact lt_of_le_of_ne hle fun h => hne (TierId.asUsize_injective h.symm)

theorem countP_degraded (p : TierId → Bool) : (degraded observation).countP p =
    cacheLadder.countP fun t => p t ∧
      (observation.rungState t = .degraded ∨ observation.rungState t = .unavailable) := by
  have hladder : TierId.all.filter TierId.isCacheRung = cacheLadder := by decide
  rw [degraded, (List.perm_insertionSort _ _).countP_eq, hladder, List.countP_filter]
  congr 1
  funext t
  simp

instance : IsTrans CensusEntryView (hotterFirst heat) where
  trans u v w h h' := by
    unfold hotterFirst at *
    omega

instance : Std.Total (hotterFirst heat) where
  total v w := by
    unfold hotterFirst
    omega

/-- With distinct indices the sort has no ties. -/
theorem sorted_hot {views : List CensusEntryView} (hindices : (views.map (·.index)).Nodup) :
    (views.insertionSort (hotterFirst heat)).Pairwise fun v w =>
      heat.of w.identity < heat.of v.identity ∨
        heat.of w.identity = heat.of v.identity ∧ w.index < v.index := by
  have hsorted : (views.insertionSort (hotterFirst heat)).Pairwise (hotterFirst heat) :=
    List.pairwise_insertionSort _ views
  have hdistinct : ((views.insertionSort (hotterFirst heat)).map (·.index)).Nodup :=
    ((List.perm_insertionSort _ views).map _).nodup_iff.mpr hindices
  rw [List.Nodup, List.pairwise_map] at hdistinct
  refine (hsorted.and hdistinct).imp ?_
  rintro v w ⟨hle, hne⟩
  unfold hotterFirst at hle
  omega

/-- **The planner picks the right keys.** When the census numbers its keys apart and a key needs
some heat to be hot, the promotions are the hottest keys in order, the demotions are cold keys of
rungs under pressure, no key is named twice, and the authority rung is left alone. -/
theorem plan_picks (observation : Observation) (heat : HeatMap) (settings : GovernorSettings)
    (hindices : (observation.census.map (·.index)).Nodup) (hhot : 1 ≤ settings.hotHeat) :
    PicksRight observation heat settings (planTick observation heat settings) := by
  -- an index names one key of the census
  have hsame : ∀ v ∈ observation.census, ∀ w ∈ observation.census, v.index = w.index → v = w :=
    fun v hv w hw h => List.inj_on_of_nodup_map hindices hv hw h
  have hfilter : ∀ p : CensusEntryView → Bool,
      ((observation.census.filter p).map (·.index)).Nodup :=
    fun p => hindices.sublist (List.filter_sublist.map _)
  refine ⟨⟨_, ?_, sorted_hot (hfilter (isHot heat settings)),
    planTick_promote_of_hotHeat hhot⟩, fun i hi => mem_planTick_demote hi, ?_, ?_, ?_, ?_, ?_⟩
  · have hpromotable : (fun v => decide (Promotable heat settings v)) = isHot heat settings := by
      funext v
      rw [Bool.eq_iff_iff, decide_eq_true_iff, isHot_iff]
    rw [hpromotable]
    exact List.perm_insertionSort _ _
  · rw [planTick_promote_of_hotHeat hhot, List.map_take]
    exact ((((List.perm_insertionSort _ _).map _).nodup_iff.mpr (hfilter _)).sublist
      (List.take_sublist _ _))
  · by_cases hskip : observation.census = [] ∨ heat = []
    · rw [(planTick_skips hskip).2]
      exact List.nodup_nil
    · obtain ⟨hcensus, hheat⟩ := not_or.mp hskip
      rw [planTick_demote hcensus hheat]
      split_ifs
      · exact hfilter _
      · exact List.nodup_nil
  · intro i hpromote hdemote
    obtain ⟨v, hv, rfl, hpromotable⟩ := mem_planTick_promote hhot hpromote
    obtain ⟨w, hw, hindex, -, hcold, -⟩ := mem_planTick_demote hdemote
    obtain rfl := hsame w hw v hv hindex
    exact not_promotable_of_cold hhot hcold hpromotable
  · intro v hv hauthority
    constructor
    · intro hpromote
      obtain ⟨w, hw, hindex, -, hrung, -⟩ := mem_planTick_promote hhot hpromote
      obtain rfl := hsame w hw v hv hindex
      simp [hauthority] at hrung
      exact absurd hrung (by decide)
    · intro hdemote
      obtain ⟨w, hw, hindex, -, -, -, hrung⟩ := mem_planTick_demote hdemote
      obtain rfl := hsame w hw v hv hindex
      simp [hauthority] at hrung
  · intro hauthority
    rw [planTick_rebind] at hauthority
    have hrung := (mem_degraded.mp (List.mem_of_mem_take hauthority)).1
    exact absurd hrung (by decide)

/-- A hot and a cold key on a full `L2`. -/
def mixed : Observation :=
  { crowded with census := [⟨0, ⟨7, 1⟩, .L2, .ready⟩, ⟨1, ⟨8, 1⟩, .L2, .ready⟩] }

theorem plan_picks_mixed :
    PicksRight mixed [(⟨7, 1⟩, 20)] { pressureTest := fun _ _ => true }
      (planTick mixed [(⟨7, 1⟩, 20)] { pressureTest := fun _ _ => true }) ∧
    (planTick mixed [(⟨7, 1⟩, 20)] { pressureTest := fun _ _ => true }).promote = [0] ∧
    (planTick mixed [(⟨7, 1⟩, 20)] { pressureTest := fun _ _ => true }).demote = [1] :=
  ⟨plan_picks _ _ _ (by decide) (by decide), by decide +kernel, by decide +kernel⟩

end TheSix
