import TheSix.Planes.Reads
import TheSix.Sequential.Stages

/-!
# Nothing is left running

Between two calls of one client, nobody works on any entry: no entry is `InFlight` or `Prepared`, none
has an owner, and none has an intent (`Quiescent`). A call on a key takes that key's entry through the
stages of `Sequential.Fits` whatever the rungs answer, so the proof gives the stages rungs of their own
(`shadow`). The entries of other keys are touched by evictions only.
-/

namespace TheSix

open Coroutine TheSix.Sequential

variable {T V : Type} [CacheTier T V]

namespace Planes

/-- Nobody works on any entry. -/
def Quiescent (P : Planes T) : Prop := ∀ a, AtRest (P.entry a)

/-- What a call on the key at an address sees, with rungs of its own. -/
def shadow (P : Planes T) (a : KeyAddress) (rungs : TierId → Option V) : KeyWorld V where
  now := P.now
  address := a
  slot := P.slots a
  rungs := rungs
  failures := P.failures

/-- Some rungs fit the entry in its stage. -/
def FitsSome (e : ControlEntry) (c : Call V) (st : Stage V) : Prop :=
  ∃ rungs, Fits e rungs (fun _ => True) (fun _ => True) c st

theorem evolves_true (c : Call V) (q : Req V) (a : q.Answer) :
    Evolves c (fun _ => True) (fun _ => True) (fun _ => True) (fun _ => True) q a := by
  unfold Evolves
  split <;> simp

theorem entry_putSlot (P : Planes T) (a : KeyAddress) (s : KeySlot) :
    (P.putSlot a s).entry a = s.getD { address := a } := by
  simp [entry, putSlot]

theorem entry_putSlot_of_ne (P : Planes T) {a a' : KeyAddress} (h : a' ≠ a) (s : KeySlot) :
    (P.putSlot a s).entry a' = P.entry a' := by
  simp [entry, putSlot, h]

variable {P P' : Planes T} {key : KeyRef} {o : Outcome V} {φ : Phase V} {l : Fn}

omit [CacheTier T V] in
/-- A shadow that answers as the planes do leads from stage to stage. -/
theorem FitsSome.of_shadow {a₀ : KeyAddress} {q : Req V} {a : q.Answer} {rungs : TierId → Option V}
    (h : Fits (P.entry a₀) rungs (fun _ => True) (fun _ => True) φ.call φ.stage)
    (hok : φ.allows l q) (o' : Outcome V) {w' : KeyWorld V}
    (hexec : (P.shadow a₀ rungs).exec q o' = some (a, w')) (hentry : w'.entry = P'.entry a₀)
    (hhonest : HonestTier ⟨0, φ.call, l, q, a, P.shadow a₀ rungs, w'⟩) :
    FitsSome (P'.entry a₀) φ.call (Phase.next φ.stage l q a) := by
  have hshadow : Fits (P.shadow a₀ rungs).entry (P.shadow a₀ rungs).rungs (fun _ => True)
      (fun _ => True) φ.call φ.stage := h
  refine ⟨w'.rungs, ?_⟩
  rw [← hentry]
  exact hshadow.answer hok hexec (fun _ => hhonest) (evolves_true _ q a)

/-- Outside the two stages in which a call has just written, any rungs fit. -/
theorem fits_of_rungs {e : ControlEntry} {c : Call V} {st : Stage V} {rungs : TierId → Option V}
    (h : Fits e rungs (fun _ => True) (fun _ => True) c st)
    (hfilled : ∀ claimed g rung v, st ≠ .filled claimed g rung v)
    (hwrote : ∀ token rung lost, st ≠ .wrote token rung lost) (rungs' : TierId → Option V) :
    Fits e rungs' (fun _ => True) (fun _ => True) c st := by
  have hbase : Base e rungs (fun _ => True) → Base e rungs' (fun _ => True) :=
    fun hb => ⟨hb.rest, fun _ _ _ => trivial⟩
  cases st
  case idle | marked | failed | committed => exact hbase h
  case seen | got | checked | refused | missed | served => exact ⟨hbase h.1, h.2⟩
  case populating | carrying | undoing => exact h
  case filled claimed g rung v => exact absurd rfl (hfilled claimed g rung v)
  case wrote token rung lost => exact absurd rfl (hwrote token rung lost)
  case writing => exact ⟨h.1, h.2.1, fun _ _ _ => trivial⟩
  case unwritten => exact ⟨h.1, fun _ _ _ _ => trivial⟩
  case moving | copied | cleared => exact ⟨h.1, h.2.1, h.2.2.1, fun _ _ => trivial⟩
  case waiting | beaten | retrying | backing => exact h.elim

/-- **One request leads from stage to stage**, whatever the rungs answer. -/
theorem FitsSome.answer {q : Req V} {a : q.Answer}
    (h : FitsSome (P.entry (P.address key)) φ.call φ.stage) (hok : φ.allows l q)
    (hexec : exec key q o P = some (a, P')) :
    FitsSome (P'.entry (P.address key)) φ.call (Phase.next φ.stage l q a) := by
  obtain ⟨rungs, h⟩ := h
  cases q with
  | peek | acquire | setState | publish | failWithError | invalidate | release | prepare | commit
  | abort | abortProvenClean =>
    simp only [exec, Option.some.injEq, Prod.mk.injEq, onSlot] at hexec
    obtain ⟨rfl, rfl⟩ := hexec
    refine FitsSome.of_shadow h hok o rfl ?_ trivial
    first | rfl | exact (entry_putSlot P _ _).symm
  | reserveEviction address =>
    simp only [exec, Option.some.injEq, Prod.mk.injEq, onSlot] at hexec
    obtain ⟨rfl, rfl⟩ := hexec
    by_cases ha : address = P.address key
    · subst ha
      refine FitsSome.of_shadow h hok {} (if_pos rfl) ?_ trivial
      exact (entry_putSlot P _ _).symm
    · refine FitsSome.of_shadow h hok { effect := (P.slots address).reserveEviction.1 }
        (if_neg ha) ?_ trivial
      exact (entry_putSlot_of_ne P (Ne.symm ha) _).symm
  | tierGet rung =>
    simp only [exec, Option.some.injEq, Prod.mk.injEq, onRung] at hexec
    obtain ⟨rfl, rfl⟩ := hexec
    have hfilled : ∀ claimed g r v, φ.stage ≠ .filled claimed g r v := by
      intro _ _ _ _ hst
      simp [Phase.allows, hst] at hok
    have hwrote : ∀ token r lost, φ.stage ≠ .wrote token r lost := by
      intro _ _ _ hst
      simp [Phase.allows, hst] at hok
    cases hr : (CacheTier.get (P.rungs rung) key P.now).1 with
    | error e => exact FitsSome.of_shadow h hok { error := some e } rfl rfl trivial
    | ok v =>
      have hv := fits_of_rungs h hfilled hwrote fun _ => v
      exact FitsSome.of_shadow hv hok {} rfl rfl trivial
  | tierSet rung v ttl =>
    simp only [exec, Option.some.injEq, Prod.mk.injEq, onRung] at hexec
    obtain ⟨rfl, rfl⟩ := hexec
    cases hr : (CacheTier.set (P.rungs rung) key v ttl P.now).1 with
    | error e =>
      exact FitsSome.of_shadow h hok { error := some e, effect := false } rfl rfl fun _ => rfl
    | ok u => exact FitsSome.of_shadow h hok {} rfl rfl trivial
  | tierRemove rung =>
    simp only [exec, Option.some.injEq, Prod.mk.injEq, onRung] at hexec
    obtain ⟨rfl, rfl⟩ := hexec
    cases hr : (CacheTier.remove (P.rungs rung) key P.now).1 with
    | error e =>
      exact FitsSome.of_shadow h hok { error := some e, effect := false } rfl rfl trivial
    | ok u => exact FitsSome.of_shadow h hok {} rfl rfl trivial
  | fetch =>
    simp only [exec, Option.some.injEq, Prod.mk.injEq] at hexec
    obtain ⟨rfl, rfl⟩ := hexec
    exact FitsSome.of_shadow h hok o rfl rfl trivial
  | register notify =>
    cases notify with
    | entry =>
      simp only [exec, Option.some.injEq, Prod.mk.injEq] at hexec
      obtain ⟨rfl, rfl⟩ := hexec
      exact FitsSome.of_shadow h hok o rfl rfl trivial
    | detached =>
      simp only [exec, Option.some.injEq, Prod.mk.injEq] at hexec
      obtain ⟨rfl, rfl⟩ := hexec
      exact FitsSome.of_shadow h hok o rfl rfl trivial
  | notified epoch =>
    rw [show φ.stage = .waiting from hok] at h
    exact h.elim
  | yieldNow | evictionCandidate | removeIfAddress | tierContains | sleep | tierHealth =>
    simp only [exec, Option.some.injEq, Prod.ext_iff] at hexec
    obtain ⟨-, rfl⟩ := hexec
    exact ⟨rungs, h⟩
  | record rung result =>
    simp only [exec, Option.some.injEq, Prod.mk.injEq] at hexec
    obtain ⟨-, rfl⟩ := hexec
    have hentry : (P.recordOutcome rung result).entry (P.address key) = P.entry (P.address key) := by
      rw [entry, recordOutcome_slots, entry]
    rw [hentry]
    exact ⟨rungs, h⟩

/-- What a request leaves of the entries of other keys, and of the rest of the planes. -/
theorem exec_frame {q : Req V} {a : q.Answer} (h : exec key q o P = some (a, P')) :
    P'.placement = P.placement ∧ P'.now = P.now ∧
      ∀ a' ≠ P.address key, P'.slots a' = P.slots a' ∨
        P'.slots a' = (P.slots a').reserveEviction.2 := by
  cases q with
  | peek | acquire | setState | publish | failWithError | invalidate | release | prepare | commit
  | abort | abortProvenClean =>
    simp only [exec, Option.some.injEq, Prod.mk.injEq, onSlot] at h
    obtain ⟨-, rfl⟩ := h
    refine ⟨rfl, rfl, fun a' ha => Or.inl ?_⟩
    first | rfl | exact Function.update_of_ne ha _ _
  | reserveEviction address =>
    simp only [exec, Option.some.injEq, Prod.mk.injEq, onSlot] at h
    obtain ⟨-, rfl⟩ := h
    refine ⟨rfl, rfl, fun a' _ => ?_⟩
    by_cases ha : a' = address
    · subst ha
      exact Or.inr (Function.update_self _ _ _)
    · exact Or.inl (Function.update_of_ne ha _ _)
  | register notify =>
    cases notify <;>
      simp only [exec, Option.some.injEq, Prod.mk.injEq] at h <;> obtain ⟨-, rfl⟩ := h <;>
        exact ⟨rfl, rfl, fun _ _ => Or.inl rfl⟩
  | notified epoch =>
    simp only [exec] at h
    split_ifs at h <;> simp only [Option.some.injEq, Prod.mk.injEq] at h <;> obtain ⟨-, rfl⟩ := h <;>
      exact ⟨rfl, rfl, fun _ _ => Or.inl rfl⟩
  | record rung result =>
    simp only [exec, Option.some.injEq, Prod.mk.injEq] at h
    obtain ⟨-, rfl⟩ := h
    exact ⟨recordOutcome_placement _ _ _, recordOutcome_now _ _ _,
      fun a' _ => Or.inl (by rw [recordOutcome_slots])⟩
  | yieldNow | evictionCandidate | removeIfAddress | tierGet | tierSet | tierRemove | tierContains
  | fetch | sleep | tierHealth =>
    simp only [exec, Option.some.injEq, Prod.ext_iff, onRung] at h
    obtain ⟨-, rfl⟩ := h
    exact ⟨rfl, rfl, fun _ _ => Or.inl rfl⟩

omit [CacheTier T V] in
theorem atRest_reserveEviction {a : KeyAddress} (h : AtRest (P.entry a))
    (hs : P'.slots a = (P.slots a).reserveEviction.2) : AtRest (P'.entry a) := by
  cases hslot : P.slots a with
  | none =>
    rw [hslot, KeySlot.reserveEviction, KeySlot.withEntry_none] at hs
    simpa [entry, hs, hslot] using h
  | some e =>
    have he : P.entry a = e := by simp [entry, hslot]
    have hs' : P'.entry a = e.reserveEviction.2 := by
      rw [entry, hs, hslot, KeySlot.reserveEviction, KeySlot.withEntry_some]
      rfl
    rw [he] at h
    rw [hs', ControlEntry.reserveEviction]
    split_ifs
    · exact h
    · exact h
    · exact ⟨by simp, by simp, by simp [h.unowned], by simp [h.noIntent]⟩

/-- A call on the key at `a₀` is in its stage, and nobody works on another entry. -/
structure Busy (a₀ : KeyAddress) (key : KeyRef) (s : Planes T × ℕ) (φ : Phase V) : Prop where
  address : s.1.address key = a₀
  fits : FitsSome (s.1.entry a₀) φ.call φ.stage
  others : ∀ a ≠ a₀, AtRest (s.1.entry a)

theorem exec_of_serve {o : ℕ → Req V → Outcome V} {q : Req V} {a : q.Answer}
    {s s' : Planes T × ℕ} (h : serve key o q s = some (a, s')) :
    exec key q (o s.2 q) s.1 = some (a, s'.1) := by
  rw [serve, Option.map_eq_some_iff] at h
  obtain ⟨⟨a', P'⟩, hexec, heq⟩ := h
  simp only [Prod.mk.injEq] at heq
  rw [hexec, heq.1, ← heq.2]

/-- What every world guarantees about the answers of `Phase.Possible`. -/
theorem possible_of_exec {q : Req V} {a : q.Answer} (h : exec key q o P = some (a, P')) :
    Phase.Possible q a := by
  cases q with
  | acquire tier =>
    simp only [exec, Option.some.injEq, onSlot, Prod.mk.injEq] at h
    obtain ⟨rfl, -⟩ := h
    exact KeyWorld.possible_of_exec (w := P.shadow (P.address key) fun _ => none) (o := o) rfl
  | _ => trivial

theorem Busy.answer {a₀ : KeyAddress} {o : ℕ → Req V → Outcome V} {q : Req V} {a : q.Answer}
    {s s' : Planes T × ℕ} (h : Busy a₀ key s φ) (hok : φ.ok l q)
    (hserve : serve key o q s = some (a, s')) :
    ∃ φ', (protocol V).tr φ l q a φ' ∧ Busy a₀ key s' φ' := by
  have hexec := exec_of_serve hserve
  obtain ⟨hplacement, -, hslots⟩ := exec_frame hexec
  obtain rfl := h.address
  refine ⟨⟨φ.call, Phase.next φ.stage l q a⟩, ⟨possible_of_exec hexec, rfl⟩, ?_, ?_, ?_⟩
  · rw [Planes.address, hplacement, Planes.address]
  · exact h.fits.answer hok.1 hexec
  · intro a' ha
    rcases hslots a' ha with hs | hs
    · rw [entry, hs]
      exact h.others a' ha
    · exact atRest_reserveEviction (h.others a' ha) hs

/-- **A call that has returned leaves nobody working.** -/
theorem Quiescent.runOn {tiers n : ℕ} {o : ℕ → Req V → Outcome V} {c : Call V} {r : Reply V}
    (h : P.Quiescent) (hrun : c.runOn tiers o P = some (r, P', n)) : P'.Quiescent := by
  have hbusy : Busy (P.address c.key) c.key (P, 0) (⟨c, .idle⟩ : Phase V) :=
    ⟨rfl, ⟨fun _ => none, h _, fun _ _ _ => trivial⟩, fun a _ => h a⟩
  obtain ⟨φ, hfinal, hbusy'⟩ := Prog.eval_of_wp (J := Busy (P.address c.key) c.key)
    Busy.answer (Call.conforms tiers c) hbusy hrun
  intro a
  by_cases ha : a = P.address c.key
  · obtain ⟨rungs, hfits⟩ := hbusy'.fits
    rw [ha]
    exact (hfits.base hfinal.1).rest
  · exact hbusy'.others a ha

theorem quiescent_empty (placement : Placement) (rungs : TierId → T) :
    (Planes.empty placement rungs).Quiescent :=
  fun _ => ⟨by simp [entry, empty], by simp [entry, empty], by simp [entry, empty], by simp [entry, empty]⟩

/-- **Nobody works on any entry between the calls of one client.** -/
theorem Quiescent.runs {tiers : ℕ} {acts : List (Act V)} {replies : List (Reply V × ℕ)}
    (h : P.Quiescent) (hruns : P.runs tiers acts = some (replies, P')) : P'.Quiescent :=
  runs_keeps (fun _ h => h) (fun h hrun => h.runOn hrun) h hruns

end Planes

end TheSix
