import TheSix.Governor.Tick
import TheSix.Tier.Forwarding

/-!
# What a tick reports

A tick answers with counters. Here they are held against what the tick has done: the rebinder calls
and the moves it has asked for, in order, and how each of them turned out. A counter is the number
of the entries of a log that turned out in one way (`tally`), so what is proved of one step is that
its entry is counted once.
-/

namespace TheSix

/-! ## Counting in a log -/

section Tally

variable {α : Type}

/-- How many entries of a log satisfy `p`, which also sees the entries before. -/
def tally (p : List α → α → Bool) (log : List α) : ℕ :=
  (List.range log.length).countP fun k => (log[k]?).any (p (log.take k))

@[simp] theorem tally_nil (p : List α → α → Bool) : tally p [] = 0 := rfl

/-- One more entry counts for itself, and for no other. -/
theorem tally_concat (p : List α → α → Bool) (log : List α) (a : α) :
    tally p (log ++ [a]) = tally p log + (p log a).toNat := by
  have hbefore : ∀ k ∈ List.range log.length,
      ((log ++ [a])[k]?).any (p ((log ++ [a]).take k)) = true ↔
        (log[k]?).any (p (log.take k)) = true := by
    intro k hk
    rw [List.mem_range] at hk
    rw [List.getElem?_append_left hk, List.take_append_of_le_length hk.le]
  rw [tally, tally, List.length_append, List.length_singleton, List.range_succ,
    List.countP_append, List.countP_congr hbefore]
  cases h : p log a <;> simp [h]

end Tally

/-! ## The moves -/

/-- Whether a move goes down the ladder. -/
def Move.isDemotion {K : Type} : Move K → Bool
  | .demote _ => true
  | .promote _ => false

/-- The keys of the census at the positions of a plan, in its order. -/
def keysAt {K : Type} (entries : List (CensusKey K)) (idxs : List ℕ) : List K :=
  idxs.filterMap fun idx => entries[idx]?.map (·.key)

/-- The counters of the moves are right for the moves asked for. -/
structure CountsMoves {K : Type} (answers : TickAnswers) (t : Tick K) : Prop where
  demoted : t.report.demoted =
    tally (fun before m => m.isDemotion && (answers.move before.length).isOk) t.moves
  promoted : t.report.promoted =
    tally (fun before m => !m.isDemotion && (answers.move before.length).isOk) t.moves
  failed : t.report.moveFailures =
    tally (fun before _ => !(answers.move before.length).isOk) t.moves

/-- One more move, counted under its outcome. -/
theorem CountsMoves.count {K : Type} {answers : TickAnswers} {t t' : Tick K} {m : Move K} {ok : Bool}
    (h : CountsMoves answers t) (hok : (answers.move t.moves.length).isOk = ok)
    (hmoves : t'.moves = t.moves ++ [m])
    (hdemoted : t'.report.demoted = t.report.demoted + (m.isDemotion && ok).toNat)
    (hpromoted : t'.report.promoted = t.report.promoted + (!m.isDemotion && ok).toNat)
    (hfailed : t'.report.moveFailures = t.report.moveFailures + (!ok).toNat) :
    CountsMoves answers t' where
  demoted := by rw [hmoves, tally_concat, ← h.demoted, hok, hdemoted]
  promoted := by rw [hmoves, tally_concat, ← h.promoted, hok, hpromoted]
  failed := by rw [hmoves, tally_concat, ← h.failed, hok, hfailed]

namespace Governor

variable {K : Type} {g : Governor K} (answers : TickAnswers) (entries : List (CensusKey K))

theorem keysAt_cons_of_none {idx : ℕ} (h : entries[idx]? = none) (rest : List ℕ) :
    keysAt entries (idx :: rest) = keysAt entries rest := by
  simp [keysAt, h]

theorem keysAt_cons_of_some {idx : ℕ} {entry : CensusKey K} (h : entries[idx]? = some entry)
    (rest : List ℕ) : keysAt entries (idx :: rest) = entry.key :: keysAt entries rest := by
  simp [keysAt, h]

/-- A tick without what its moves have left in it. -/
def settled (t : Tick K) : Tick K :=
  { t with moves := [], report := { t.report with demoted := 0, promoted := 0, moveFailures := 0 } }

/-- What a leg has done when it is over: it has asked for the first keys of its list and counted
them, and the moves that succeeded have taken no more than its budget. -/
structure LegDone (ask : K → Move K) (idxs : List ℕ) (budget left : ℕ) (t t' : Tick K) : Prop where
  counts : CountsMoves answers t → CountsMoves answers t'
  asked : ∃ n, t'.moves = t.moves ++ ((keysAt entries idxs).take n).map ask
  spent : t'.report.demoted + t'.report.promoted + left ≤
    t.report.demoted + t.report.promoted + budget
  settled : settled t' = settled t

namespace LegDone

variable {answers entries} {ask : K → Move K} {idxs rest : List ℕ} {budget budget' left idx : ℕ}
  {entry : CensusKey K} {t t' t'' : Tick K}

theorem stop (idxs : List ℕ) (h : left ≤ budget) (t : Tick K) :
    LegDone answers entries ask idxs budget left t t where
  counts := id
  asked := ⟨0, by simp⟩
  spent := Nat.add_le_add_left h _
  settled := rfl

theorem skip (hentry : entries[idx]? = none)
    (h : LegDone answers entries ask rest budget left t t') :
    LegDone answers entries ask (idx :: rest) budget left t t' where
  counts := h.counts
  asked := by
    rw [keysAt_cons_of_none entries hentry]
    exact h.asked
  spent := h.spent
  settled := h.settled

/-- One move, and then the rest of the leg. -/
theorem next (hentry : entries[idx]? = some entry)
    (hcounts : CountsMoves answers t → CountsMoves answers t')
    (hmoves : t'.moves = t.moves ++ [ask entry.key])
    (hspent : t'.report.demoted + t'.report.promoted + budget' ≤
      t.report.demoted + t.report.promoted + budget)
    (hsettled : Governor.settled t' = Governor.settled t)
    (h : LegDone answers entries ask rest budget' left t' t'') :
    LegDone answers entries ask (idx :: rest) budget left t t'' where
  counts hc := h.counts (hcounts hc)
  asked := by
    obtain ⟨n, hn⟩ := h.asked
    refine ⟨n + 1, ?_⟩
    rw [hn, hmoves, keysAt_cons_of_some entries hentry, List.take_succ_cons, List.map_cons,
      List.append_assoc, List.singleton_append]
  spent := h.spent.trans hspent
  settled := h.settled.trans hsettled

end LegDone

theorem demoteLeg_done (idxs : List ℕ) (budget : ℕ) (t : Tick K) :
    LegDone answers entries .demote idxs budget (demoteLeg answers entries idxs budget t).1 t
      (demoteLeg answers entries idxs budget t).2 := by
  induction idxs generalizing budget t with
  | nil => exact .stop [] le_rfl t
  | cons idx rest ih =>
    unfold demoteLeg
    split_ifs with hbudget
    · exact .stop _ le_rfl t
    · split
      · rename_i hentry
        exact .skip hentry (ih budget t)
      · rename_i entry hentry
        split
        · rename_i hanswer
          have hok : (answers.move t.moves.length).isOk = true := by rw [hanswer]; rfl
          refine .next hentry (fun hc => ?_) ?_ ?_ ?_ (ih _ _)
          · exact hc.count hok rfl rfl rfl rfl
          · rfl
          · dsimp only
            omega
          · rfl
        · rename_i hanswer
          -- the leg stops here, with its budget untouched
          have hok : (answers.move t.moves.length).isOk = false := by rw [hanswer]; rfl
          refine .next hentry (fun hc => ?_) ?_ ?_ ?_ (.stop rest le_rfl _)
          · exact hc.count hok rfl rfl rfl rfl
          · rfl
          · exact le_rfl
          · rfl
        · rename_i hanswer
          have hok : (answers.move t.moves.length).isOk = false := by rw [hanswer]; rfl
          refine .next hentry (fun hc => ?_) ?_ ?_ ?_ (ih _ _)
          · exact hc.count hok rfl rfl rfl rfl
          · rfl
          · dsimp only
            omega
          · rfl

theorem promoteLeg_done (idxs : List ℕ) (budget : ℕ) (t : Tick K) :
    LegDone answers entries .promote idxs budget 0 t
      (promoteLeg answers entries idxs budget t) := by
  induction idxs generalizing budget t with
  | nil => exact .stop [] (Nat.zero_le _) t
  | cons idx rest ih =>
    unfold promoteLeg
    split_ifs with hbudget
    · exact .stop _ (Nat.zero_le _) t
    · split
      · rename_i hentry
        exact .skip hentry (ih budget t)
      · rename_i entry hentry
        split
        · rename_i hanswer
          have hok : (answers.move t.moves.length).isOk = true := by rw [hanswer]; rfl
          refine .next hentry (fun hc => ?_) ?_ ?_ ?_ (ih _ _)
          · exact hc.count hok rfl rfl rfl rfl
          · rfl
          · dsimp only
            omega
          · rfl
        · rename_i hanswer
          have hok : (answers.move t.moves.length).isOk = false := by rw [hanswer]; rfl
          refine .next hentry (fun hc => ?_) ?_ ?_ ?_ (ih _ _)
          · exact hc.count hok rfl rfl rfl rfl
          · rfl
          · exact le_rfl
          · rfl

/-- All but the last of the demotions that a leg has asked for found room below. -/
theorem demoteLeg_not_full (idxs : List ℕ) (budget : ℕ) (t : Tick K) {k : ℕ}
    (hfrom : t.moves.length ≤ k)
    (hk : k + 1 < (demoteLeg answers entries idxs budget t).2.moves.length) :
    answers.move k ≠ .error .capacityExhausted := by
  obtain ⟨i, rfl⟩ := Nat.exists_eq_add_of_le hfrom
  rcases demoteLeg_spec answers entries idxs budget t with
    ⟨hnone, -, hlength⟩ | ⟨j, -, -, hbefore, -, hlength⟩
  · exact hnone i (by omega)
  · exact hbefore i (by omega)

end Governor

/-! ## The rebinds -/

instance {K : Type} {g : Governor K} {heap : TierHeap} : DecidablePred (g.Rebindable heap) :=
  fun rung => inferInstanceAs (Decidable (∃ h ∈ g.hotRungs, HotRungTier.rung heap h = some rung))

namespace TickAnswers

variable (answers : TickAnswers)

/-- What the rebinder has allocated in its `k`-th call. -/
def made (k : ℕ) (rung : TierId) : TierHeap :=
  match answers.rebind k rung with
  | .ok (some (made, _)) => made
  | _ => []

/-- The rungs of the tiers there are after these calls of the rebinder. -/
def rungsAfter (heap : TierHeap) (calls : List TierId) : List TierId :=
  heap.rungs ++ (calls.mapIdx fun k rung => (answers.made k rung).rungs).flatten

/-- How a call of the rebinder turns out: declined, or a tier that its hot rung takes or not. -/
def rebindOutcome (heap : TierHeap) (before : List TierId) (rung : TierId) : Option Bool :=
  match answers.rebind before.length rung with
  | .ok (some (_, replacement)) =>
    some ((answers.rungsAfter heap (before ++ [rung]))[replacement]? = some rung)
  | .ok none => none
  | .error _ => some false

theorem rungsAfter_concat (heap : TierHeap) (calls : List TierId) (rung : TierId) :
    answers.rungsAfter heap (calls ++ [rung]) =
      answers.rungsAfter heap calls ++ (answers.made calls.length rung).rungs := by
  rw [rungsAfter, rungsAfter, List.mapIdx_concat, List.flatten_concat, List.append_assoc]

end TickAnswers

/-- The counters of the rebinds are right for the calls of the rebinder, or for there being none to
call where one is asked for. -/
structure CountsRebinds {K : Type} (answers : TickAnswers) (heap : TierHeap) (unset : Prop)
    (t : Tick K) : Prop where
  rungs : t.heap.rungs = answers.rungsAfter heap t.rebinds
  done : t.report.rebindsDone =
    tally (fun before rung => answers.rebindOutcome heap before rung = some true) t.rebinds
  failed : t.report.rebindFailures =
    tally (fun before rung => answers.rebindOutcome heap before rung = some false) t.rebinds
  declined : t.report.rebindingNotConfigured = true ↔
    unset ∨ 0 < tally (fun before rung => answers.rebindOutcome heap before rung = none) t.rebinds

/-- One more call, counted under its outcome. -/
theorem CountsRebinds.count {K : Type} {answers : TickAnswers} {heap : TierHeap} {unset : Prop}
    {t t' : Tick K} {rung : TierId} {outcome : Option Bool}
    (h : CountsRebinds answers heap unset t)
    (houtcome : answers.rebindOutcome heap t.rebinds rung = outcome)
    (hrungs : t'.heap.rungs = t.heap.rungs ++ (answers.made t.rebinds.length rung).rungs)
    (hrebinds : t'.rebinds = t.rebinds ++ [rung])
    (hdone : t'.report.rebindsDone = t.report.rebindsDone + (decide (outcome = some true)).toNat)
    (hfailed : t'.report.rebindFailures =
      t.report.rebindFailures + (decide (outcome = some false)).toNat)
    (hdeclined : t'.report.rebindingNotConfigured =
      (decide (outcome = none) || t.report.rebindingNotConfigured)) :
    CountsRebinds answers heap unset t' where
  rungs := by rw [hrebinds, answers.rungsAfter_concat, hrungs, h.rungs]
  done := by rw [hrebinds, tally_concat, ← h.done, houtcome, hdone]
  failed := by rw [hrebinds, tally_concat, ← h.failed, houtcome, hfailed]
  declined := by
    rw [hrebinds, tally_concat, houtcome, hdeclined, Bool.or_eq_true, h.declined]
    cases outcome <;> simp

namespace Governor

variable {K : Type} {g : Governor K} {answers : TickAnswers} {heap : TierHeap} {unset : Prop}

/-- One call of the rebinder is counted once. -/
theorem rebindOne_counts {t : Tick K} {rung : TierId} {hot : TierArc}
    (hrung : HotRungTier.rung t.heap hot = some rung) (h : CountsRebinds answers heap unset t) :
    CountsRebinds answers heap unset (rebindOne answers rung hot t) := by
  cases hanswer : answers.rebind t.rebinds.length rung with
  | error e =>
    have houtcome : answers.rebindOutcome heap t.rebinds rung = some false := by
      rw [TickAnswers.rebindOutcome, hanswer]
    have hmade : answers.made t.rebinds.length rung = [] := by rw [TickAnswers.made, hanswer]
    simp only [rebindOne, hanswer]
    exact h.count houtcome (by rw [hmade]; simp [TierHeap.rungs]) rfl rfl rfl rfl
  | ok handed =>
    cases handed with
    | none =>
      have houtcome : answers.rebindOutcome heap t.rebinds rung = none := by
        rw [TickAnswers.rebindOutcome, hanswer]
      have hmade : answers.made t.rebinds.length rung = [] := by rw [TickAnswers.made, hanswer]
      simp only [rebindOne, hanswer]
      exact h.count houtcome (by rw [hmade]; simp [TierHeap.rungs]) rfl rfl rfl rfl
    | some handed =>
      obtain ⟨made, replacement⟩ := handed
      have hmade : answers.made t.rebinds.length rung = made := by
        rw [TickAnswers.made, hanswer]
      have hrungs : TierHeap.rungs (t.heap ++ made : List TierObject) =
          answers.rungsAfter heap (t.rebinds ++ [rung]) := by
        rw [answers.rungsAfter_concat, hmade, ← h.rungs, TierHeap.rungs_append]
      have hok := TierHeap.hotSwap_isOk
        ((HotRungTier.rung_append made (by rw [hrung]; rfl)).trans hrung) replacement
      have hswapped : (HotRungTier.hotSwap (t.heap ++ made) hot replacement).2.rungs =
          t.heap.rungs ++ (answers.made t.rebinds.length rung).rungs := by
        rw [TierHeap.rungs_hotSwap, TierHeap.rungs_append, hmade]
      rw [hrungs] at hok
      have houtcome : answers.rebindOutcome heap t.rebinds rung =
          some (HotRungTier.hotSwap (t.heap ++ made) hot replacement).1.isOk := by
        rw [TickAnswers.rebindOutcome, hanswer, hok]
      simp only [rebindOne, hanswer]
      split
      · rename_i displaced swapped hswap
        rw [hswap] at houtcome hswapped
        exact h.count houtcome hswapped rfl rfl rfl rfl
      · rename_i e swapped hswap
        rw [hswap] at houtcome hswapped
        exact h.count houtcome hswapped rfl rfl rfl rfl

/-- The rebind leg calls the rebinder for the rungs that a hot rung serves, in the order of the
plan. -/
theorem rebindLeg_done (rungs : List TierId) {t : Tick K}
    (hhot : ∀ h ∈ g.hotRungs, (HotRungTier.rung t.heap h).isSome)
    (h : CountsRebinds answers heap unset t) :
    CountsRebinds answers heap unset (g.rebindLeg answers rungs t) ∧
      (g.rebindLeg answers rungs t).rebinds =
        t.rebinds ++ rungs.filter fun rung => g.Rebindable t.heap rung := by
  induction rungs generalizing t with
  | nil => exact ⟨h, by simp [rebindLeg]⟩
  | cons rung rest ih =>
    unfold rebindLeg
    split
    · rename_i hfind
      have hno : ¬ g.Rebindable t.heap rung := by
        rintro ⟨hot, hmem, hrung⟩
        simpa [hrung] using List.find?_eq_none.mp hfind hot hmem
      rw [List.filter_cons_of_neg (by simpa using hno)]
      exact ih hhot h
    · rename_i hot hfind
      have hrung : HotRungTier.rung t.heap hot = some rung := by
        simpa using List.find?_some hfind
      have hyes : g.Rebindable t.heap rung := ⟨hot, List.mem_of_find?_eq_some hfind, hrung⟩
      -- no call changes which rungs are served
      have hsame : ∀ h ∈ g.hotRungs, HotRungTier.rung (rebindOne answers rung hot t).heap h =
          HotRungTier.rung t.heap h := fun h hmem => rung_rebindOne answers rung hot (hhot h hmem)
      have hserved : ∀ x, g.Rebindable (rebindOne answers rung hot t).heap x ↔
          g.Rebindable t.heap x := fun x =>
        exists_congr fun h => and_congr_right fun hmem => by rw [hsame h hmem]
      obtain ⟨hcounts, hcalls⟩ := ih
        (fun h hmem => by rw [hsame h hmem]; exact hhot h hmem) (rebindOne_counts hrung h)
      refine ⟨hcounts, ?_⟩
      rw [hcalls, rebindOne_rebinds, List.filter_cons_of_pos (by simpa using hyes),
        List.append_assoc, List.singleton_append]
      simp only [hserved]

/-! ## The whole tick -/

/-- What the moves of a tick have left in it. -/
def moved (t : Tick K) : List (Move K) × ℕ × ℕ × ℕ :=
  (t.moves, t.report.demoted, t.report.promoted, t.report.moveFailures)

theorem rebindLeg_moved (rungs : List TierId) (t : Tick K) :
    moved (g.rebindLeg answers rungs t) = moved t := by
  induction rungs generalizing t with
  | nil => rfl
  | cons rung rest ih =>
    unfold rebindLeg
    split
    · exact ih t
    · rw [ih, rebindOne]
      split
      · split <;> rfl
      · rfl
      · rfl

theorem sweeps_eq (g : Governor K) (answers : TickAnswers) (plan : GovernorPlan) :
    ∃ recovered reconcile expired, g.sweeps answers plan { plan } =
      { plan
        recoveredIntents := recovered
        needsReconciliation := reconcile
        expiredDemoted := expired } := by
  unfold sweeps
  split_ifs <;> exact ⟨_, _, _, rfl⟩

/-- The report of a tick, the calls of its rebinder and its moves fit together. -/
structure Reported (g : Governor K) (answers : TickAnswers) (plan : GovernorPlan) (heap : TierHeap)
    (t : Tick K) : Prop where
  moves : CountsMoves answers t
  rebinds : CountsRebinds answers heap
    (g.settings.mode.executesMaintenance = true ∧ g.rebinder = false ∧ plan.rebind ≠ []) t
  /-- The rebinder is called for the rungs of the plan that a hot rung serves. -/
  called : t.rebinds = if g.settings.mode.executesMaintenance && g.rebinder then
    plan.rebind.filter fun rung => g.Rebindable heap rung else []
  /-- Demotions come first, and both follow the plan. -/
  asked : ∃ m n, t.moves =
    ((keysAt (g.census.getD []) plan.demote).take m).map .demote ++
      ((keysAt (g.census.getD []) plan.promote).take n).map .promote
  /-- No demotion follows one that has found the colder rung full. -/
  full : ∀ i j, i < j → (t.moves[j]?).any Move.isDemotion →
    answers.move i ≠ .error .capacityExhausted
  budget : t.report.demoted + t.report.promoted ≤ g.settings.maxMovesPerTick
  modes : g.settings.mode.executesMoves = false → t.moves = []

theorem countsMoves_of_moved {t : Tick K} (h : moved t = ([], 0, 0, 0)) :
    CountsMoves answers t := by
  obtain ⟨hmoves, hdemoted, hpromoted, hfailed⟩ : t.moves = [] ∧ t.report.demoted = 0 ∧
      t.report.promoted = 0 ∧ t.report.moveFailures = 0 := by simpa [moved] using h
  constructor
  · rw [hmoves, hdemoted, tally_nil]
  · rw [hmoves, hpromoted, tally_nil]
  · rw [hmoves, hfailed, tally_nil]

/-- A tick that has got no further than its rebinds. -/
theorem Reported.of_moved {plan : GovernorPlan} {t : Tick K}
    (hrebinds : CountsRebinds answers heap
      (g.settings.mode.executesMaintenance = true ∧ g.rebinder = false ∧ plan.rebind ≠ []) t)
    (hcalled : t.rebinds = if g.settings.mode.executesMaintenance && g.rebinder then
      plan.rebind.filter fun rung => g.Rebindable heap rung else [])
    (hmoved : moved t = ([], 0, 0, 0)) : g.Reported answers plan heap t := by
  have hmoves : t.moves = [] := congrArg Prod.fst hmoved
  have hsum : t.report.demoted = 0 ∧ t.report.promoted = 0 := by
    simp only [moved, Prod.mk.injEq] at hmoved
    exact ⟨hmoved.2.1, hmoved.2.2.1⟩
  exact {
    moves := countsMoves_of_moved hmoved
    rebinds := hrebinds
    called := hcalled
    asked := ⟨0, 0, by simp [hmoves]⟩
    full := fun i j _ hj => by simp [hmoves] at hj
    budget := by omega
    modes := fun _ => hmoves }

theorem rebinds_done (answers : TickAnswers) (plan : GovernorPlan)
    (hhot : ∀ h ∈ g.hotRungs, (HotRungTier.rung heap h).isSome) {t : Tick K}
    (ht : t = { report := g.sweeps answers plan { plan }, heap }) :
    CountsRebinds answers heap (g.rebinder = false ∧ plan.rebind ≠ []) (g.rebinds answers plan t) ∧
      (g.rebinds answers plan t).rebinds =
        (if g.rebinder then plan.rebind.filter fun rung => g.Rebindable heap rung else []) ∧
      moved (g.rebinds answers plan t) = ([], 0, 0, 0) := by
  obtain ⟨recovered, reconcile, expired, hsweeps⟩ := sweeps_eq g answers plan
  rw [hsweeps] at ht
  have hrungs : t.heap.rungs = answers.rungsAfter heap t.rebinds := by
    simp [ht, TickAnswers.rungsAfter]
  unfold rebinds
  cases hrebinder : g.rebinder with
  | false =>
    simp only [Bool.false_eq_true, if_false, true_and]
    refine ⟨⟨hrungs, ?_, ?_, ?_⟩, ?_, ?_⟩
    · simp [ht]
    · simp [ht]
    · simp [ht]
    · simp [ht]
    · simp [ht, moved]
  | true =>
    have hstart : CountsRebinds answers heap (true = false ∧ plan.rebind ≠ []) t := by
      refine ⟨hrungs, ?_, ?_, ?_⟩ <;> simp [ht]
    obtain ⟨hcounts, hcalls⟩ := rebindLeg_done plan.rebind (by rw [ht]; exact hhot) hstart
    simp only [if_true]
    refine ⟨hcounts, ?_, ?_⟩
    · rw [hcalls, ht]
      rfl
    · rw [rebindLeg_moved, ht]
      rfl

theorem countsRebinds_of_settled {t t' : Tick K} (hsettled : settled t' = settled t)
    (h : CountsRebinds answers heap unset t) : CountsRebinds answers heap unset t' := by
  simp only [settled, Tick.mk.injEq, GovernorReport.mk.injEq, and_true] at hsettled
  obtain ⟨⟨-, -, -, -, hdone, hfailed, hdeclined⟩, hheap, hrebinds⟩ := hsettled
  constructor
  · rw [hrebinds, hheap, h.rungs]
  · rw [hrebinds, hdone, h.done]
  · rw [hrebinds, hfailed, h.failed]
  · rw [hrebinds, hdeclined, h.declined]

/-- What both legs add to a tick that has made its rebinds. -/
theorem Reported.of_legs {plan : GovernorPlan} {entries : List (CensusKey K)} {left : ℕ}
    {t t' t'' : Tick K} (h : g.Reported answers plan heap t) (hmoved : moved t = ([], 0, 0, 0))
    (hmode : g.settings.mode.executesMoves = true) (hcensus : g.census = some entries)
    (hdown : LegDone answers entries .demote plan.demote g.settings.maxMovesPerTick left t t')
    (hfull : ∀ k, k + 1 < t'.moves.length → answers.move k ≠ .error .capacityExhausted)
    (hup : LegDone answers entries .promote plan.promote left 0 t' t'') :
    g.Reported answers plan heap t'' := by
  simp only [moved, Prod.mk.injEq] at hmoved
  obtain ⟨hmoves, hdemoted, hpromoted, -⟩ := hmoved
  have hsettled := hup.settled.trans hdown.settled
  obtain ⟨m, hm⟩ := hdown.asked
  obtain ⟨n, hn⟩ := hup.asked
  exact {
    moves := hup.counts (hdown.counts h.moves)
    rebinds := countsRebinds_of_settled hsettled h.rebinds
    called := by
      simp only [settled, Tick.mk.injEq] at hsettled
      rw [hsettled.2.2.1, h.called]
    asked := ⟨m, n, by rw [hn, hm, hmoves, hcensus, List.nil_append]; rfl⟩
    full := fun i j hij hj => by
      -- a demotion stands among those of the first leg
      by_cases hlt : j < t'.moves.length
      · exact hfull i (by omega)
      · rw [hn, List.getElem?_append_right (Nat.le_of_not_lt hlt), List.getElem?_map] at hj
        cases hkey : ((keysAt entries plan.promote).take n)[j - t'.moves.length]? with
        | none => simp [hkey] at hj
        | some key => simp [hkey, Move.isDemotion] at hj
    budget := by
      have := hdown.spent
      have := hup.spent
      omega
    modes := fun hno => absurd hmode (by simp [hno]) }

/-- **A tick reports what it has done.** Whatever the plan and however the calls turn out, every
rebind and every move is counted once, under its outcome. -/
theorem applyPlan_reported (g : Governor K) (answers : TickAnswers) (plan : GovernorPlan)
    (heap : TierHeap) (hhot : ∀ h ∈ g.hotRungs, (HotRungTier.rung heap h).isSome) :
    g.Reported answers plan heap (g.applyPlan answers plan heap) := by
  unfold applyPlan
  cases hmode : g.settings.mode.executesMaintenance with
  | false =>
    refine .of_moved ⟨?_, rfl, rfl, ?_⟩ ?_ rfl
    · simp [TickAnswers.rungsAfter]
    · simp [hmode]
    · simp [hmode]
  | true =>
    obtain ⟨hrebinds, hcalled, hmoved⟩ := rebinds_done answers plan hhot rfl
    simp only [Bool.not_true, Bool.false_eq_true, if_false]
    set t : Tick K := g.rebinds answers plan { report := g.sweeps answers plan { plan }, heap }
    have hbase : g.Reported answers plan heap t :=
      .of_moved (by simpa [hmode] using hrebinds) (by simpa [hmode] using hcalled) hmoved
    cases hmoves : g.settings.mode.executesMoves with
    | false => exact hbase
    | true =>
      simp only [Bool.not_true, Bool.false_eq_true, if_false]
      cases hcensus : g.census with
      | none => exact hbase
      | some entries =>
        have hstart : t.moves.length = 0 := congrArg (·.1.length) hmoved
        exact hbase.of_legs hmoved hmoves hcensus
          (demoteLeg_done answers entries plan.demote g.settings.maxMovesPerTick t)
          (fun k => demoteLeg_not_full answers entries plan.demote g.settings.maxMovesPerTick t
            (by omega))
          (promoteLeg_done answers entries plan.promote _ _)

/-- A governor that rebinds `L3` and moves keys of a census of nine. -/
def watchful : Governor ℕ where
  settings := busySettings
  census := some ((List.range 9).map fun i => ⟨i, [], ⟨0, 0⟩⟩)
  hotRungs := [1]
  rebinder := true

/-- The rebinder hands out a tier of the right rung, the first demotion finds its key gone and the
second one the colder rung full. -/
def watchfulAnswers : TickAnswers where
  rebind _ _ := .ok (some ([.backend .L3], 2))
  move := busyAnswers.move

def watchfulPlan : GovernorPlan where
  rebind := [.L4, .L3]
  demote := [7, 8, 6]
  promote := [0, 1]

/-- One rebind, two demotions that fail, and two promotions. -/
theorem applyPlan_reported_watchful :
    (∀ h ∈ watchful.hotRungs, (HotRungTier.rung hotL3Heap h).isSome) ∧
      watchful.Reported watchfulAnswers watchfulPlan hotL3Heap
        (watchful.applyPlan watchfulAnswers watchfulPlan hotL3Heap) :=
  ⟨by decide, applyPlan_reported watchful watchfulAnswers watchfulPlan hotL3Heap (by decide)⟩

end Governor

end TheSix
