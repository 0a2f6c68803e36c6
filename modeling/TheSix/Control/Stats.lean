import TheSix.Control.Refinement

/-!
# Passes over the whole table

`plane_stats` counts the entries of the table in one pass, and `sweep_expired` demotes those whose
TTL has elapsed, both shard by shard. Here they run at one instant, with nothing in between.

The sweep takes exactly the `Ready` entries of the cache rungs that are expired
(`sweepExpired_minimal`). The count of expired entries does not ask for the state, so it is the
number of `Ready` ones only as long as nothing else is expired (`planeStats_exact_iff`).
-/

namespace TheSix

/-! ## Counting -/

/-- The discriminants of `EntryStateAtomic`. -/
def EntryState.index : EntryState → Fin 6
  | absent => 0 | ready => 1 | stale => 2 | inFlight => 3 | failed => 4 | prepared => 5

/-- `PlaneStats`. -/
structure PlaneStats where
  capacity : ℕ
  occupied : ℕ := 0
  byState : Fin 6 → ℕ := fun _ => 0
  byTier : Fin 7 → ℕ := fun _ => 0
  populationOwned : ℕ := 0
  intentsOutstanding : ℕ := 0
  expiredReady : ℕ := 0

namespace PlaneStats

/-- The body of the loop of `plane_stats`. -/
def count (now : ℕ) (stats : PlaneStats) (e : ControlEntry) : PlaneStats where
  capacity := stats.capacity
  occupied := stats.occupied + 1
  byState := Function.update stats.byState e.state.index (stats.byState e.state.index + 1)
  byTier :=
    if h : e.tier.asUsize < 7 then
      Function.update stats.byTier ⟨e.tier.asUsize, h⟩ (stats.byTier ⟨e.tier.asUsize, h⟩ + 1)
    else stats.byTier
  populationOwned := if e.populationOwner then stats.populationOwned + 1 else stats.populationOwned
  intentsOutstanding :=
    if e.intent.isSome then stats.intentsOutstanding + 1 else stats.intentsOutstanding
  expiredReady :=
    if e.ttl.isSome && e.isExpired now then stats.expiredReady + 1 else stats.expiredReady

end PlaneStats

namespace Cachelito

/-- The `capacity_per_shard` that the table was made with: every shard has as many cells. -/
def capacityPerShard (t : Cachelito) : ℕ :=
  (t.shards.head (List.ne_nil_of_length_pos t.nonempty)).entries.length

/-- `Cachelito::plane_stats`. The product counts cells that exist, and does not saturate. -/
def planeStats (t : Cachelito) (now : ℕ) : PlaneStats :=
  t.shards.foldl (fun stats s => s.entries.reduceOption.foldl (PlaneStats.count now) stats)
    { capacity := t.shards.length * t.capacityPerShard }

/-- `Cachelito::sweep_expired`: how many entries it has demoted. -/
def sweepExpired (t : Cachelito) (now : ℕ) : ℕ × Cachelito :=
  (List.range t.shards.length).foldl
    (fun r i => (r.1 + (r.2.sweepExpiredIn i now).1, (r.2.sweepExpiredIn i now).2)) (0, t)

/-- The entries of the table. -/
def entries (t : Cachelito) : List ControlEntry := t.shards.flatMap (·.entries.reduceOption)

end Cachelito

/-! ## What the pass counts -/

/-- What a pass over some entries adds to the counters. -/
structure PlaneStats.Counted (now : ℕ) (es : List ControlEntry) (stats stats' : PlaneStats) :
    Prop where
  capacity : stats'.capacity = stats.capacity
  occupied : stats'.occupied = stats.occupied + es.length
  byState : ∀ i, stats'.byState i = stats.byState i + es.countP (·.state.index = i)
  byTier : ∀ i, stats'.byTier i = stats.byTier i + es.countP (·.tier.asUsize = i.val)
  populationOwned : stats'.populationOwned = stats.populationOwned + es.countP (·.populationOwner)
  intentsOutstanding :
    stats'.intentsOutstanding = stats.intentsOutstanding + es.countP (·.intent.isSome)
  expiredReady : stats'.expiredReady = stats.expiredReady + es.countP (·.isExpired now)

theorem ControlEntry.ttl_isSome_of_isExpired {e : ControlEntry} {now : ℕ}
    (h : e.isExpired now = true) : e.ttl.isSome = true := by
  unfold isExpired at h
  split at h
  · rename_i ht _
    rw [ht]
    rfl
  · cases h

theorem TierId.asUsize_lt (t : TierId) : t.asUsize < 7 := by
  cases t <;> decide

namespace PlaneStats

theorem counted_cons (now : ℕ) (e : ControlEntry) {es : List ControlEntry}
    {stats stats' : PlaneStats} (h : Counted now es (stats.count now e) stats') :
    Counted now (e :: es) stats stats' := by
  obtain ⟨h₁, h₂, h₃, h₄, h₅, h₆, h₇⟩ := h
  refine ⟨h₁, ?_, ?_, ?_, ?_, ?_, ?_⟩
  · rw [h₂, List.length_cons]
    simp only [count]
    omega
  · intro i
    rw [h₃, List.countP_cons]
    simp only [count, Function.update_apply, decide_eq_true_eq]
    by_cases hi : i = e.state.index
    · subst hi
      simp only [if_true]
      omega
    · simp only [if_neg hi, if_neg (Ne.symm hi)]
      omega
  · intro i
    rw [h₄, List.countP_cons]
    simp only [count, dif_pos e.tier.asUsize_lt, Function.update_apply, decide_eq_true_eq]
    by_cases hi : i = ⟨e.tier.asUsize, e.tier.asUsize_lt⟩
    · subst hi
      simp only [if_true]
      omega
    · have hval : e.tier.asUsize ≠ i.val := fun h => hi (Fin.ext h.symm)
      simp only [if_neg hi, if_neg hval]
      omega
  · rw [h₅, List.countP_cons]
    simp only [count]
    split_ifs <;> omega
  · rw [h₆, List.countP_cons]
    simp only [count]
    split_ifs <;> omega
  · rw [h₇, List.countP_cons]
    cases he : e.isExpired now with
    | false => simp [count, he]
    | true =>
      simp only [count, he, ControlEntry.ttl_isSome_of_isExpired he, Bool.and_self, if_true]
      omega

theorem counted_foldl (now : ℕ) (es : List ControlEntry) (stats : PlaneStats) :
    Counted now es stats (es.foldl (count now) stats) := by
  induction es generalizing stats with
  | nil => exact ⟨rfl, rfl, fun _ => rfl, fun _ => rfl, rfl, rfl, rfl⟩
  | cons e es ih => exact counted_cons now e (ih _)

/-- A histogram adds up to the number of entries. -/
theorem sum_countP {n : ℕ} (f : ControlEntry → Fin n) (es : List ControlEntry) :
    ∑ i, es.countP (fun e => f e = i) = es.length := by
  induction es with
  | nil => simp
  | cons e es ih =>
    simp only [List.countP_cons, Finset.sum_add_distrib, ih, List.length_cons, decide_eq_true_eq,
      Finset.sum_ite_eq, Finset.mem_univ, if_true]

end PlaneStats

namespace Cachelito

theorem planeStats_eq (t : Cachelito) (now : ℕ) :
    t.planeStats now = t.entries.foldl (PlaneStats.count now)
      { capacity := t.shards.length * t.capacityPerShard } := by
  rw [planeStats, entries, List.foldl_flatMap]

theorem planeStats_counted (t : Cachelito) (now : ℕ) :
    PlaneStats.Counted now t.entries { capacity := t.shards.length * t.capacityPerShard }
      (t.planeStats now) := by
  rw [planeStats_eq]
  exact PlaneStats.counted_foldl now t.entries _

/-- Every shard has as many cells. -/
def Sized (capacity : ℕ) (t : Cachelito) : Prop := ∀ s ∈ t.shards, s.entries.length = capacity

theorem Sized.of_shape {capacity : ℕ} {t t' : Cachelito} (h : t.Sized capacity)
    (hshape : t'.shards.map (·.entries.length) = t.shards.map (·.entries.length)) :
    t'.Sized capacity := by
  intro s hs
  have hmem : s.entries.length ∈ t.shards.map (·.entries.length) := by
    rw [← hshape]
    exact List.mem_map_of_mem hs
  obtain ⟨s', hs', hlen⟩ := List.mem_map.1 hmem
  rw [← hlen]
  exact h s' hs'

theorem Sized.step {capacity : ℕ} {t : Cachelito} (h : t.Sized capacity) (hw : t.WellFormed)
    (x : ℕ × TableOp) : (t.step x).Sized capacity := by
  obtain ⟨now, op⟩ := x
  cases op with
  | entry op => exact h.of_shape (hw.call now op).shape
  | staleIntents i cutoff => exact h
  | sweepExpired i =>
    change ((t.sweepExpiredIn i now).2).Sized capacity
    unfold sweepExpiredIn
    split
    · rename_i s hs
      refine h.of_shape ?_
      obtain ⟨hi, rfl⟩ := List.getElem?_eq_some_iff.1 hs
      simp only [putShard, List.map_set, Shard.sweepExpired, List.length_map]
      rw [← List.map_set, List.set_getElem_self]
    · exact h

theorem sized_run (shardCount capacity : ℕ) (p : Placement) (history : List (ℕ × TableOp)) :
    (history.foldl step ((sized shardCount capacity).withPlacement p)).Sized capacity := by
  have hstep : ∀ (t : Cachelito) x, t.WellFormed ∧ t.Sized capacity →
      (t.step x).WellFormed ∧ (t.step x).Sized capacity :=
    fun t x h => ⟨h.1.step x, h.2.step h.1 x⟩
  refine (Run.inv_run hstep ⟨wellFormed_sized shardCount capacity p, ?_⟩ history).2
  intro s hs
  rw [List.eq_of_mem_replicate hs]
  exact List.length_replicate

theorem Sized.length_entries_le {capacity : ℕ} {t : Cachelito} (h : t.Sized capacity) :
    t.entries.length ≤ t.shards.length * t.capacityPerShard := by
  have hhead : t.capacityPerShard = capacity := h _ (List.head_mem _)
  rw [hhead, entries, List.length_flatMap]
  calc (t.shards.map fun s => s.entries.reduceOption.length).sum
      ≤ (t.shards.map fun _ => capacity).sum := by
        refine List.sum_le_sum fun s hs => ?_
        rw [← h s hs]
        exact List.reduceOption_length_le _
    _ = t.shards.length * capacity := by simp

end Cachelito

/-- The counters are what they are named for. -/
structure PlaneStats.Exact (stats : PlaneStats) (es : List ControlEntry) (now : ℕ) : Prop where
  occupied : stats.occupied = es.length
  byState_sum : ∑ i, stats.byState i = stats.occupied
  byTier_sum : ∑ i, stats.byTier i = stats.occupied
  occupied_le : stats.occupied ≤ stats.capacity
  populationOwned : stats.populationOwned = es.countP (·.populationOwner)
  intentsOutstanding : stats.intentsOutstanding = es.countP (·.intent.isSome)
  expiredReady :
    stats.expiredReady = es.countP fun e => decide (e.state = .ready) && e.isExpired now

/-- Counting `Ready` entries among the expired ones leaves none out exactly when there are no
others. -/
theorem countP_expired_eq_iff (es : List ControlEntry) (now : ℕ) :
    es.countP (·.isExpired now) =
        es.countP (fun e => decide (e.state = .ready) && e.isExpired now) ↔
      ∀ e ∈ es, e.isExpired now = true → e.state = .ready := by
  induction es with
  | nil => simp
  | cons e es ih =>
    have hle : es.countP (fun e => decide (e.state = .ready) && e.isExpired now) ≤
        es.countP (·.isExpired now) := by
      refine List.countP_mono_left fun e _ he => ?_
      exact (Bool.and_eq_true_iff.1 he).2
    rw [List.forall_mem_cons, ← ih, List.countP_cons, List.countP_cons]
    cases hx : e.isExpired now with
    | false => simp
    | true =>
      by_cases hs : e.state = .ready
      · simp [hs]
      · simp [hs]
        omega

/-! ## The sweep -/

/-- The sweep is due for an entry: it is `Ready`, expired, and not on the authority rung. -/
def ControlEntry.Overdue (e : ControlEntry) (now : ℕ) : Prop :=
  e.state = .ready ∧ e.isExpired now = true ∧ e.tier ≠ .L6

instance (e : ControlEntry) (now : ℕ) : Decidable (e.Overdue now) :=
  inferInstanceAs (Decidable (_ ∧ _ ∧ _))

namespace ControlEntry

variable (e : ControlEntry) (now : ℕ)

theorem isAuthorityRung_iff (t : TierId) : t.isAuthorityRung = true ↔ t = .L6 := by
  cases t <;> decide

theorem sweepExpired_eq :
    e.sweepExpired now = if e.Overdue now then (true, e.setState .stale) else (false, e) := by
  unfold sweepExpired
  by_cases ht : e.tier = .L6
  · rw [if_pos ((isAuthorityRung_iff e.tier).2 ht), if_neg fun h => h.2.2 ht]
  · rw [if_neg fun h => ht ((isAuthorityRung_iff e.tier).1 h)]
    by_cases hs : e.state = .ready ∧ e.isExpired now = true
    · rw [if_pos hs, if_pos ⟨hs.1, hs.2, ht⟩]
    · rw [if_neg hs, if_neg fun h => hs ⟨h.1, h.2.1⟩]

theorem sweepExpired_fst : (e.sweepExpired now).1 = decide (e.Overdue now) := by
  rw [sweepExpired_eq]
  split_ifs with h <;> simp [h]

theorem isExpired_sweepExpired : (e.sweepExpired now).2.isExpired now = e.isExpired now := by
  rw [sweepExpired_eq]
  split_ifs <;> rfl

theorem not_overdue_sweepExpired : ¬(e.sweepExpired now).2.Overdue now := by
  rw [sweepExpired_eq]
  split_ifs with h
  · rintro ⟨hs, -⟩
    cases hs
  · exact h

/-- A second sweep finds nothing. -/
theorem sweepExpired_again :
    (e.sweepExpired now).2.sweepExpired now = (false, (e.sweepExpired now).2) := by
  rw [sweepExpired_eq (e.sweepExpired now).2, if_neg (e.not_overdue_sweepExpired now)]

end ControlEntry

theorem Shard.sweepExpired_fst (s : Shard) (now : ℕ) :
    (s.sweepExpired now).1 = s.entries.reduceOption.countP fun e => decide (e.Overdue now) := by
  obtain ⟨cells⟩ := s
  simp only [Shard.sweepExpired]
  induction cells with
  | nil => rfl
  | cons c cells ih =>
    cases c with
    | none => simpa using ih
    | some e =>
      rw [List.countP_cons, List.reduceOption_cons_of_some, List.countP_cons, ih]
      simp [ControlEntry.sweepExpired_fst]

namespace Cachelito

/-- Do the same to every shard. -/
def mapShards (t : Cachelito) (f : Shard → Shard) : Cachelito where
  shards := t.shards.map f
  placement := t.placement
  nonempty := by
    rw [List.length_map]
    exact t.nonempty

/-- The table after the first shards were swept. -/
theorem sweepExpired_prefix (t : Cachelito) (now : ℕ) {k : ℕ} (hk : k ≤ t.shards.length) :
    let r := (List.range k).foldl
      (fun r i => (r.1 + (r.2.sweepExpiredIn i now).1, (r.2.sweepExpiredIn i now).2)) (0, t)
    r.1 = ((t.shards.take k).map fun s => (s.sweepExpired now).1).sum ∧
      r.2.shards = (t.shards.take k).map (fun s => (s.sweepExpired now).2) ++ t.shards.drop k ∧
      r.2.placement = t.placement := by
  induction k with
  | zero => exact ⟨rfl, rfl, rfl⟩
  | succ k ih =>
    obtain ⟨hsum, hshards, hplace⟩ := ih (by omega)
    have hlt : k < t.shards.length := hk
    dsimp only at hsum hshards hplace ⊢
    rw [List.range_succ, List.foldl_append, List.foldl_cons, List.foldl_nil]
    generalize (List.range k).foldl _ (0, t) = r at hsum hshards hplace
    have hlen : ((t.shards.take k).map fun s => (s.sweepExpired now).2).length = k := by
      rw [List.length_map, List.length_take]
      omega
    have hdrop : t.shards.drop k = t.shards[k] :: t.shards.drop (k + 1) :=
      List.drop_eq_getElem_cons hlt
    have htake : t.shards.take (k + 1) = t.shards.take k ++ [t.shards[k]] := by
      rw [List.take_add_one, List.getElem?_eq_getElem hlt]
      rfl
    have hget : r.2.shards[k]? = some t.shards[k] := by
      rw [hshards, List.getElem?_append_right (by omega), hlen, hdrop]
      simp
    have hin : r.2.sweepExpiredIn k now =
        ((t.shards[k].sweepExpired now).1, r.2.putShard k (t.shards[k].sweepExpired now).2) := by
      simp only [sweepExpiredIn, hget]
    rw [hin]
    refine ⟨?_, ?_, hplace⟩
    · rw [hsum, htake, List.map_append, List.sum_append]
      simp
    · simp only [putShard, hshards, htake, List.map_append, List.map_cons, List.map_nil]
      rw [List.set_append_right _ _ (by omega), hlen, hdrop, Nat.sub_self, List.set_cons_zero,
        List.append_assoc]
      rfl

/-- The sweep goes over every entry. -/
theorem sweepExpired_eq (t : Cachelito) (now : ℕ) :
    t.sweepExpired now = (t.entries.countP fun e => decide (e.Overdue now),
      t.mapShards fun s => (s.sweepExpired now).2) := by
  obtain ⟨hsum, hshards, hplace⟩ := t.sweepExpired_prefix now le_rfl
  change (t.sweepExpired now).1 = _ at hsum
  change (t.sweepExpired now).2.shards = _ at hshards
  change (t.sweepExpired now).2.placement = _ at hplace
  rw [List.take_length] at hsum hshards
  rw [List.drop_length, List.append_nil] at hshards
  generalize t.sweepExpired now = r at hsum hshards hplace
  obtain ⟨n, ⟨shards, placement, hpos⟩⟩ := r
  obtain rfl : shards = _ := hshards
  obtain rfl : placement = _ := hplace
  have hcount : n = t.entries.countP fun e => decide (e.Overdue now) := by
    rw [show n = _ from hsum, entries, List.countP_flatMap]
    simp only [Shard.sweepExpired_fst]
    rfl
  rw [hcount]
  rfl

theorem entries_sweepExpired (t : Cachelito) (now : ℕ) :
    (t.sweepExpired now).2.entries = t.entries.map fun e => (e.sweepExpired now).2 := by
  rw [sweepExpired_eq]
  simp only [entries, mapShards, List.flatMap_map, List.map_flatMap, Shard.sweepExpired,
    List.reduceOption_map]

theorem entryAt_sweepExpired (t : Cachelito) (now : ℕ) (at' : ℕ × ℕ) :
    (t.sweepExpired now).2.entryAt at' =
      (t.entryAt at').map fun e => (e.sweepExpired now).2 := by
  rw [sweepExpired_eq]
  simp only [entryAt, mapShards, List.getElem?_map]
  cases t.shards[at'.1]? with
  | none => rfl
  | some s => exact OpenTable.entryAt_map _ _

/-- What the sweep does to a table, cell by cell. -/
structure SweepsOverdue (t : Cachelito) (now : ℕ) (r : ℕ × Cachelito) : Prop where
  /-- An overdue entry becomes `Stale`, and its waiters are notified; nothing else of it changes. -/
  demoted : ∀ at' e, t.entryAt at' = some e → e.Overdue now → r.2.entryAt at' =
    some { e with state := .stale, notifications := e.notifications + 1 }
  /-- Any other entry is left alone. -/
  spared : ∀ at' e, t.entryAt at' = some e → ¬e.Overdue now → r.2.entryAt at' = some e
  /-- No entry appears. -/
  empty : ∀ at', t.entryAt at' = none → r.2.entryAt at' = none
  /-- The answer counts the overdue entries. -/
  counted : r.1 = t.entries.countP fun e => decide (e.Overdue now)
  /-- A second sweep at the same instant changes nothing. -/
  again : r.2.sweepExpired now = (0, r.2)

/-- **The expiry sweep is minimal and idempotent**, on every table and at every instant. -/
theorem sweepExpired_minimal (t : Cachelito) (now : ℕ) :
    t.SweepsOverdue now (t.sweepExpired now) := by
  refine ⟨?_, ?_, ?_, ?_, ?_⟩
  · intro at' e he hdue
    rw [entryAt_sweepExpired, he, Option.map_some, ControlEntry.sweepExpired_eq, if_pos hdue]
    rfl
  · intro at' e he hdue
    rw [entryAt_sweepExpired, he, Option.map_some, ControlEntry.sweepExpired_eq, if_neg hdue]
  · intro at' he
    rw [entryAt_sweepExpired, he, Option.map_none]
  · rw [sweepExpired_eq]
  · rw [sweepExpired_eq (t.sweepExpired now).2]
    refine Prod.ext ?_ ?_
    · rw [entries_sweepExpired, List.countP_eq_zero]
      intro e he
      obtain ⟨e', -, rfl⟩ := List.mem_map.1 he
      simpa using e'.not_overdue_sweepExpired now
    · have hagain : (fun s => (s.sweepExpired now).2) ∘ (fun s : Shard => (s.sweepExpired now).2) =
          fun s => (s.sweepExpired now).2 := by
        funext s
        simp only [Function.comp_apply, Shard.sweepExpired, List.map_map, Option.map_comp_map]
        congr 2
        funext c
        simp only [Function.comp_def, ControlEntry.sweepExpired_again]
      rw [sweepExpired_eq]
      simp only [mapShards, List.map_map, hagain]

/-- **`plane_stats` is exact if and only if every expired entry is `Ready`**, in every state that
calls lead to. And right after a sweep of a table without authority entries it counts no expired
entry if and only if none was expired before. -/
theorem planeStats_exact_iff (shardCount capacity : ℕ) (p : Placement)
    (history : List (ℕ × TableOp)) (now : ℕ) {t : Cachelito}
    (ht : t = history.foldl step ((sized shardCount capacity).withPlacement p)) :
    ((t.planeStats now).Exact t.entries now ↔
        ∀ e ∈ t.entries, e.isExpired now = true → e.state = .ready) ∧
      ((∀ e ∈ t.entries, e.tier ≠ .L6) →
        (((t.sweepExpired now).2.planeStats now).expiredReady = 0 ↔
          ∀ e ∈ t.entries, e.isExpired now = false)) := by
  have hsized : t.Sized capacity := by
    rw [ht]
    exact sized_run shardCount capacity p history
  have hcount := t.planeStats_counted now
  refine ⟨⟨fun h => ?_, fun h => ?_⟩, fun _ => ?_⟩
  · refine (countP_expired_eq_iff t.entries now).1 ?_
    rw [← h.expiredReady, hcount.expiredReady, Nat.zero_add]
  · refine ⟨?_, ?_, ?_, ?_, ?_, ?_, ?_⟩
    · rw [hcount.occupied, Nat.zero_add]
    · simp only [hcount.byState, hcount.occupied, Nat.zero_add]
      exact PlaneStats.sum_countP _ _
    · have hfin : ∀ (e : ControlEntry) (i : Fin 7), decide (e.tier.asUsize = i.val) =
          decide ((⟨e.tier.asUsize, e.tier.asUsize_lt⟩ : Fin 7) = i) := by
        intro e i
        simp only [Fin.ext_iff]
      simp only [hcount.byTier, hcount.occupied, Nat.zero_add, hfin]
      exact PlaneStats.sum_countP _ _
    · rw [hcount.occupied, hcount.capacity, Nat.zero_add]
      exact hsized.length_entries_le
    · rw [hcount.populationOwned, Nat.zero_add]
    · rw [hcount.intentsOutstanding, Nat.zero_add]
    · rw [hcount.expiredReady, Nat.zero_add]
      exact (countP_expired_eq_iff t.entries now).2 h
  · rw [((t.sweepExpired now).2.planeStats_counted now).expiredReady, Nat.zero_add,
      entries_sweepExpired, List.countP_map, List.countP_eq_zero]
    simp only [Function.comp_apply, ControlEntry.isExpired_sweepExpired, Bool.not_eq_true]

/-- An entry whose TTL elapses. -/
def expiredHistory : List (ℕ × TableOp) :=
  [(1, .entry (.prepare (.of [0, 1] .default) none .L0 .write)),
    (1, .entry (.commit ⟨.of [0, 1] .default, 0, .write, 0⟩ (some 5)))]

/-- The same, with a sweep afterwards. -/
def sweptHistory : List (ℕ × TableOp) := expiredHistory ++ [(10, .sweepExpired 0)]

theorem planeStats_exact_iff_expiredHistory :
    ((expiredHistory.foldl step ((sized 1 2).withPlacement .default)).planeStats 10).Exact
      (expiredHistory.foldl step ((sized 1 2).withPlacement .default)).entries 10 := by
  refine (planeStats_exact_iff 1 2 .default expiredHistory 10 rfl).1.2 ?_
  decide +kernel

/-- After a sweep the entry is `Stale`, and is still counted among the expired `Ready` ones. -/
theorem expiredHistory_counts_stale :
    (∀ e ∈ (expiredHistory.foldl step ((sized 1 2).withPlacement .default)).entries,
        e.tier ≠ .L6) ∧
      ((sweptHistory.foldl step ((sized 1 2).withPlacement .default)).planeStats 10).expiredReady =
        1 ∧
      (sweptHistory.foldl step ((sized 1 2).withPlacement .default)).entries.countP
        (fun e => decide (e.state = .ready) && e.isExpired 10) = 0 := by
  decide +kernel

end Cachelito

end TheSix
