import TheSix.Tier.Accounting

/-!
# The eviction cursor goes round the table

`eviction_candidate` probes from its cursor for a slot that is occupied and has not expired, and
leaves the cursor just past it. So calls with no change of the table between them nominate the live
slots in circular order from the cursor, each of them once in a round, and the next round is the same
(`evictionCandidate_fair`). A cursor that lies beyond the table counts modulo its length.
-/

namespace TheSix

namespace FixedTierStub

variable {V : Type}

/-- The number of occupied slots that have not expired. -/
def liveCount (t : FixedTierStub V) (now : ℕ) : ℕ := t.occupied.countP fun s => !s.isExpired now

/-- The indices of these slots, in circular order from the cursor. -/
def liveFrom (t : FixedTierStub V) (now : ℕ) : List ℕ :=
  ((List.range t.slots.length).rotate t.evictionCursor).filter fun i =>
    (t.slotAt i).any fun s => !s.isExpired now

/-- What calls of `eviction_candidate` at the given instants answer, one after the other, and the
state each of them leaves. -/
def nominations (t : FixedTierStub V) : List ℕ → List (Option KeyAddress × FixedTierStub V)
  | [] => []
  | now :: nows => t.evictionCandidate now :: nominations (t.evictionCandidate now).2 nows

/-- The two instants find the same slots expired. -/
def SameLive (t : FixedTierStub V) (now now' : ℕ) : Prop :=
  ∀ s ∈ t.occupied, s.isExpired now = s.isExpired now'

instance (t : FixedTierStub V) (now now' : ℕ) : Decidable (t.SameLive now now') :=
  inferInstanceAs (Decidable (∀ s ∈ t.occupied, s.isExpired now = s.isExpired now'))

theorem lookLive_ne_stop (now : ℕ) (c : Option Slot) : lookLive now c ≠ .stop := by
  cases c with
  | none => simp [lookLive]
  | some s => cases h : s.isExpired now <;> simp [lookLive, h]

theorem lookLive_beq_hit (now : ℕ) (c : Option Slot) :
    (lookLive now c == .hit) = c.any fun s => !s.isExpired now := by
  cases c with
  | none => rfl
  | some s => cases h : s.isExpired now <;> simp [lookLive, h]

theorem liveFrom_eq (t : FixedTierStub V) (now : ℕ) :
    t.liveFrom now = Probe.hitsFrom (lookLive now) t.slots t.evictionCursor := by
  unfold liveFrom Probe.hitsFrom
  congr 1
  funext i
  simp only [slotAt, Probe.hitAt]
  cases t.slots[i]? with
  | none => rfl
  | some c => exact (lookLive_beq_hit now c).symm

theorem liveCount_eq (t : FixedTierStub V) (now : ℕ) :
    t.liveCount now = t.slots.countP fun c => lookLive now c == .hit := by
  simp only [lookLive_beq_hit]
  rw [liveCount, occupied]
  induction t.slots with
  | nil => rfl
  | cons c cs ih =>
    cases c with
    | none => rw [List.reduceOption_cons_of_none, ih, List.countP_cons_of_neg (by simp)]
    | some s =>
      rw [List.reduceOption_cons_of_some, List.countP_cons, List.countP_cons, ih]
      rfl

theorem length_liveFrom (t : FixedTierStub V) (now : ℕ) :
    (t.liveFrom now).length = t.liveCount now := by
  rw [liveFrom_eq, Probe.length_hitsFrom, liveCount_eq]

theorem nodup_liveFrom (t : FixedTierStub V) (now : ℕ) : (t.liveFrom now).Nodup := by
  rw [liveFrom_eq]
  exact Probe.nodup_hitsFrom _

/-- The slots in the order are those that are occupied and have not expired. -/
theorem mem_liveFrom {t : FixedTierStub V} {now i : ℕ} :
    i ∈ t.liveFrom now ↔ ∃ s, t.slotAt i = some s ∧ s.isExpired now = false := by
  have hany : ((t.slotAt i).any fun s => !s.isExpired now) = true ↔
      ∃ s, t.slotAt i = some s ∧ s.isExpired now = false := by
    cases t.slotAt i with
    | none => simp
    | some s => simp
  rw [liveFrom, List.mem_filter, List.mem_rotate, List.mem_range, hany, and_iff_right_iff_imp]
  rintro ⟨s, hs, -⟩
  exact slotAt_lt hs

section Round

variable {t : FixedTierStub V} {now now' : ℕ}

theorem lookLive_congr (h : t.SameLive now' now) {c : Option Slot} (hc : c ∈ t.slots) :
    lookLive now' c = lookLive now c := by
  cases c with
  | none => rfl
  | some s =>
    have hs : s ∈ t.occupied := List.reduceOption_mem_iff.2 hc
    simp only [lookLive, h s hs]

/-- One call: it nominates the first slot of the order, which then comes last. -/
theorem evictionCandidate_of_liveFrom (h : t.SameLive now' now) {i : ℕ} {rest : List ℕ}
    (horder : t.liveFrom now = i :: rest) :
    t.evictionCandidate now' =
        ((t.slotAt i).map (·.address), { t with evictionCursor := i + 1 }) ∧
      liveFrom { t with evictionCursor := i + 1 } now = rest ++ [i] := by
  have hlen : t.slots.length ≠ 0 := by
    obtain ⟨s, hs, -⟩ := mem_liveFrom.1 (horder ▸ List.mem_cons_self : i ∈ t.liveFrom now)
    have := slotAt_lt hs
    omega
  rw [liveFrom_eq] at horder
  obtain ⟨hscan, hround⟩ := Probe.scan_hitsFrom (fun c _ => lookLive_ne_stop now c) horder
  constructor
  · rw [evictionCandidate, if_neg hlen, Probe.scan_congr fun c hc => lookLive_congr h hc, hscan]
    rfl
  · rw [liveFrom_eq]
    exact hround

/-- Calls enough for a first part of the order nominate that part, which then comes last. -/
theorem nominations_of_liveFrom {a b nows : List ℕ} (horder : t.liveFrom now = a ++ b)
    (hlen : a.length ≤ nows.length) (hsame : ∀ x ∈ nows, t.SameLive x now) :
    ∃ cursor, liveFrom { t with evictionCursor := cursor } now = b ++ a ∧
      t.nominations nows =
        a.map (fun i => ((t.slotAt i).map (·.address), { t with evictionCursor := i + 1 })) ++
          nominations { t with evictionCursor := cursor } (nows.drop a.length) := by
  induction a generalizing t b nows with
  | nil => exact ⟨t.evictionCursor, by simpa using horder, rfl⟩
  | cons i a ih =>
    cases nows with
    | nil => simp at hlen
    | cons x nows =>
      rw [List.cons_append] at horder
      obtain ⟨hcall, hnext⟩ := evictionCandidate_of_liveFrom (hsame x (by simp)) horder
      rw [List.append_assoc] at hnext
      obtain ⟨cursor, hlast, hrest⟩ := ih hnext (by simpa using hlen)
        (fun y hy => hsame y (List.mem_cons_of_mem x hy))
      refine ⟨cursor, by simpa using hlast, ?_⟩
      rw [nominations, hcall, hrest]
      rfl

end Round

/-- **Round-robin eviction is fair**: with no slot expiring between them, as many calls as there are
live slots nominate each of these once, in circular order from the cursor, and as many again repeat
that order. No other slot is nominated, the table stays as it is, and the cursor stands just past the
nominee. -/
theorem evictionCandidate_fair (t : FixedTierStub V) (now : ℕ) (nows nows' : List ℕ)
    (hround : nows.length = t.liveCount now) (hnext : nows'.length = t.liveCount now)
    (hsame : ∀ x ∈ nows ++ nows', t.SameLive x now) :
    (t.liveFrom now).Nodup ∧
      (∀ i, i ∈ t.liveFrom now ↔ ∃ s, t.slotAt i = some s ∧ s.isExpired now = false) ∧
      t.nominations (nows ++ nows') =
        (t.liveFrom now ++ t.liveFrom now).map fun i =>
          ((t.slotAt i).map (·.address), { t with evictionCursor := i + 1 }) := by
  refine ⟨t.nodup_liveFrom now, fun i => mem_liveFrom, ?_⟩
  rw [← length_liveFrom] at hround hnext
  have hlater : ∀ x ∈ nows', t.SameLive x now := fun x hx => hsame x (List.mem_append_right _ hx)
  obtain ⟨cursor, horder, hfirst⟩ := nominations_of_liveFrom (List.append_nil _).symm
    (show _ ≤ (nows ++ nows').length by rw [List.length_append]; omega) hsame
  -- after one round the order is the one it began with
  rw [List.nil_append, ← List.append_nil (t.liveFrom now)] at horder
  obtain ⟨_, -, hsecond⟩ := nominations_of_liveFrom horder hnext.ge hlater
  rw [hfirst, ← hround, List.drop_left, hsecond, ← hnext, List.drop_length, List.map_append]
  simp [nominations, slotAt]

/-- A table of four slots with a hole and an expired slot, and a cursor beyond its end. -/
def holedTable : FixedTierStub (List UInt8) where
  pool := ⟨[some [1], none, some [2], some [3]], [1], 4⟩
  slots :=
    [some ⟨1, 1, 1, 0, none, ⟨1, 1⟩⟩, none, some ⟨2, 2, 2, 2, some (0, 5), ⟨2, 2⟩⟩,
      some ⟨3, 3, 3, 3, some (0, 90), ⟨3, 3⟩⟩]
  placement := .default
  corruptionsDetected := 0
  evictionCursor := 7

theorem evictionCandidate_fair_holedTable :
    (holedTable.nominations [20, 21, 22, 23]).map Prod.fst =
      [some ⟨3, 3⟩, some ⟨1, 1⟩, some ⟨3, 3⟩, some ⟨1, 1⟩] := by
  obtain ⟨-, -, h⟩ := evictionCandidate_fair holedTable 20 [20, 21] [22, 23] (by decide) (by decide)
    (by decide)
  exact (congrArg (List.map Prod.fst) h).trans (by decide)

end FixedTierStub

end TheSix
