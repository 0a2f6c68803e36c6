import TheSix.Manager.Upkeep

/-!
# What a recovery sweep hits

A recovery sweep decides by an intent that it has collected: whether that is old enough, and whether
it is aborted or released. It acts later, by the address of the key alone, on whichever intent is
outstanding by then. As long as that is the intent it has collected, it acts on intents of its age
and of the right kind only (`hitsOld_of_prompt`); when the collected one was settled in between, it
acts on its successor.
-/

namespace TheSix

open Coroutine

variable {V : Type}

/-- Settling a collected intent of this kind has an effect on the entry. -/
def TakesEffect (e : ControlEntry) : IntentKind → Prop
  | .write => (e.abortIntentByAddress .uncommittedIntent).1 = true
  | .move => e.releasePopulationClaim.1 = true

instance (e : ControlEntry) : (kind : IntentKind) → Decidable (TakesEffect e kind)
  | .write | .move => inferInstanceAs (Decidable (_ = _))

/-- An intent is at least `age` old, by the clock of the control plane. -/
def CommitIntent.OldAt (intent : CommitIntent) (age now : ℕ) : Prop :=
  intent.startedNanos + age ≤ ControlEntry.instantToNanos now

instance (intent : CommitIntent) (age now : ℕ) : Decidable (intent.OldAt age now) :=
  inferInstanceAs (Decidable (_ ≤ _))

theorem instantToNanos_mono {t t' : ℕ} (h : t ≤ t') :
    ControlEntry.instantToNanos t ≤ ControlEntry.instantToNanos t' := by
  simp only [ControlEntry.instantToNanos]
  omega

/-- When a sweep settles what it has collected, the intent it aborts or releases is at least as old
as the sweep asks for, and it is a write that is aborted and a move that is released. -/
def HitsOld (w : Maintained V) : Upkeep → Prop
  | .settle j =>
    match w.sweeps j with
    | .settling age collected =>
      TakesEffect w.key.entry collected.kind → ∀ outstanding ∈ w.key.entry.intent,
        outstanding.OldAt age w.key.now ∧ outstanding.kind = collected.kind
    | _ => True
  | _ => True

/-- What a sweep collects before its clock has reached the age it asks for was not recorded at
zero. -/
def Sweep.ScansLate (e : ControlEntry) : Sweep → Prop
  | .scanning age clock => age ≤ clock ∨ ∀ intent ∈ e.intent, intent.startedNanos ≠ 0
  | _ => True

instance (e : ControlEntry) : DecidablePred (Sweep.ScansLate e)
  | .scanning _ _ => inferInstanceAs (Decidable (_ ∨ _))
  | .idle | .settling _ _ => .isTrue trivial

/-- What a sweep settles is the intent that it has collected. -/
def Sweep.SettlesCollected (e : ControlEntry) : Sweep → Prop
  | .settling _ collected =>
    TakesEffect e collected.kind → ∀ outstanding ∈ e.intent, outstanding = collected
  | _ => True

instance (e : ControlEntry) : DecidablePred (Sweep.SettlesCollected e)
  | .settling _ _ => inferInstanceAs (Decidable (_ → _))
  | .idle | .scanning _ _ => .isTrue trivial

/-- A sweep settles what it has collected. It asks for an age that a `u64` holds, and collects
nothing early. -/
def Prompt (w : Maintained V) : Upkeep → Prop
  | .recover _ age => age < 2 ^ 64
  | .scan j => (w.sweeps j).ScansLate w.key.entry
  | .settle j => (w.sweeps j).SettlesCollected w.key.entry
  | _ => True

instance (w : Maintained V) : DecidablePred (Prompt w)
  | .recover _ age => inferInstanceAs (Decidable (age < 2 ^ 64))
  | .scan j => inferInstanceAs (Decidable ((w.sweeps j).ScansLate w.key.entry))
  | .settle j => inferInstanceAs (Decidable ((w.sweeps j).SettlesCollected w.key.entry))
  | .tick _ | .sweepExpired => .isTrue trivial

/-- What is known of a sweep: its clock was read in the past, and what it has collected was old
enough then. -/
def Sweep.Sound (now : ℕ) : Sweep → Prop
  | .idle => True
  | .scanning age clock => age < 2 ^ 64 ∧ clock ≤ ControlEntry.instantToNanos now
  | .settling age collected => collected.OldAt age now

theorem Sweep.Sound.mono {sweep : Sweep} {now now' : ℕ} (h : sweep.Sound now) (hle : now ≤ now') :
    sweep.Sound now' := by
  cases sweep with
  | idle => trivial
  | scanning age clock => exact ⟨h.1, h.2.trans (instantToNanos_mono hle)⟩
  | settling age collected => exact le_trans (show _ ≤ _ from h) (instantToNanos_mono hle)

/-- Every sweep is sound. -/
def SoundSweeps (w : Maintained V) : Prop := ∀ j, (w.sweeps j).Sound w.key.now

theorem SoundSweeps.goOn {w : Maintained V} (h : SoundSweeps w) {j : ℕ} {sweep : Sweep}
    (hs : sweep.Sound w.key.now) : SoundSweeps (w.goOn j sweep) := by
  intro i
  by_cases hij : i = j
  · subst hij
    simpa [Maintained.goOn] using hs
  · simpa [Maintained.goOn, Function.update_of_ne hij] using h i

/-- What a sweep collects is old enough. -/
theorem sound_of_collects {w : Maintained V} {age clock : ℕ}
    (h : (Sweep.scanning age clock).Sound w.key.now)
    (hprompt : age ≤ clock ∨ ∀ intent ∈ w.key.entry.intent, intent.startedNanos ≠ 0) :
    ((w.collects age clock).elim Sweep.idle (Sweep.settling age)).Sound w.key.now := by
  obtain ⟨hage, hclock⟩ := h
  cases hc : w.collects age clock with
  | none => trivial
  | some intent =>
    obtain ⟨hi, hstarted⟩ := Option.filter_eq_some_iff.1 hc
    have hcut : intent.startedNanos ≤ cutoff age clock := of_decide_eq_true hstarted
    rw [cutoff, Nat.mod_eq_of_lt hage] at hcut
    show intent.startedNanos + age ≤ _
    rcases hprompt with hle | hzero
    · omega
    · -- before the clock has reached the age, the cutoff is zero
      have := hzero intent hi
      omega

theorem SoundSweeps.upkeep {w : Maintained V} (h : SoundSweeps w) {e : Upkeep} (he : Prompt w e) :
    SoundSweeps (w.upkeep e) := by
  cases e with
  | tick d => exact fun j => (h j).mono (Nat.le_add_right _ _)
  | sweepExpired => exact h
  | recover j age =>
    simp only [Maintained.upkeep]
    split
    · exact h.goOn ⟨he, le_rfl⟩
    · exact h
  | scan j =>
    simp only [Maintained.upkeep]
    split
    · rename_i age clock hj
      simp only [Prompt, hj] at he
      exact h.goOn (sound_of_collects (hj ▸ h j) he)
    · exact h
  | settle j =>
    simp only [Maintained.upkeep]
    split
    · rename_i age intent hj
      have hsettled : SoundSweeps (w.settled intent.kind) := by
        cases intent.kind <;> exact h
      exact hsettled.goOn trivial
    · exact h

theorem SoundSweeps.exec {w w' : Maintained V} (h : SoundSweeps w) {q : Req V} {o : Outcome V}
    {a : q.Answer} (hexec : w.exec q o = some (a, w')) : SoundSweeps w' := by
  have hnow := KeyWorld.exec_now (Maintained.exec_eq_some hexec).1
  simp only [Maintained.exec, Option.map_eq_some_iff, Prod.mk.injEq] at hexec
  obtain ⟨r, -, -, rfl⟩ := hexec
  intro j
  rw [hnow]
  exact h j

theorem hitsOld_of_sound {w : Maintained V} (h : SoundSweeps w) {e : Upkeep} (he : Prompt w e) :
    HitsOld w e := by
  cases e with
  | settle j =>
    simp only [HitsOld]
    split
    · rename_i age collected hj
      simp only [Prompt, hj, Sweep.SettlesCollected] at he
      intro heffect outstanding hout
      obtain rfl := he heffect outstanding hout
      have hsound := h j
      rw [hj] at hsound
      exact ⟨hsound, rfl⟩
    · trivial
  | _ => trivial

/-- **A recovery sweep hits only intents of its age and of the right kind**, in every interleaving
in which what it settles is what it has collected. -/
theorem hitsOld_of_prompt {tiers : ℕ} {key : KeyWorld V} {schedule : List (Duty V)}
    (h : Run.Along (maintained V tiers).step (OnUpkeep Prompt) (.initial { key := key }) schedule) :
    Run.Along (maintained V tiers).step (OnUpkeep HitsOld) (.initial { key := key }) schedule := by
  have hkeep : ∀ s duty, SoundSweeps s.world → OnUpkeep Prompt s duty →
      SoundSweeps ((maintained V tiers).step s duty).world := by
    intro s duty hs hduty
    by_cases henv : ∃ e, duty = .env e
    · obtain ⟨e, rfl⟩ := henv
      exact hs.upkeep hduty
    · rcases Machine.step_cases_of_ne_env (M := maintained V tiers) s (not_exists.1 henv) with
        ⟨hw, -⟩ | ⟨i, c, l, q, cancel, k, o, a, w, rest, -, hexec, he⟩
      · rw [hw]
        exact hs
      · rw [he]
        exact hs.exec hexec
  have hhit : ∀ (s : Upkept V) duty, SoundSweeps s.world → OnUpkeep Prompt s duty →
      OnUpkeep HitsOld s duty := by
    intro s duty hs hduty
    cases duty with
    | env e => exact hitsOld_of_sound hs hduty
    | start | run | drop => trivial
  exact Run.along_of_inv (I := fun s : Upkept V => SoundSweeps s.world) hkeep hhit
    (fun _ => trivial) h

/-- A write that takes too long, and a recovery sweep that collects its intent and settles it. -/
def recoveredWrite : List (Duty ℕ) :=
  [.start 0 (.set (.pinned .L0 none) 1), .run 0 {}, .run 0 {}, .run 0 {}, .env (.tick 10),
    .env (.recover 0 5), .env (.scan 0), .env (.settle 0)]

theorem hitsOld_of_prompt_recoveredWrite :
    Run.Along (maintained ℕ 1).step (OnUpkeep Prompt) (.initial .unwritten) recoveredWrite ∧
      Run.Along (maintained ℕ 1).step (OnUpkeep HitsOld) (.initial .unwritten) recoveredWrite := by
  have hprompt : Run.Along (maintained ℕ 1).step (OnUpkeep Prompt) (.initial .unwritten)
      recoveredWrite := by decide +kernel
  exact ⟨hprompt, hitsOld_of_prompt hprompt⟩

/-- The write is committed after its intent was collected, and a `promote` begins before the sweep
settles it. -/
def recoveredSuccessor : List (Duty ℕ) :=
  [.start 0 (.set (.pinned .L1 none) 1), .run 0 {}, .run 0 {}, .run 0 {}, .env (.tick 10),
    .env (.recover 0 5), .env (.scan 0), .run 0 {}, .run 0 {}, .run 0 {},
    .start 1 (.promote (.pinned .L1 none)), .run 1 {}, .run 1 {}]

/-- The sweep aborts the intent of a move that has only just begun. -/
theorem recoveredSuccessor_hits_young :
    ∃ outstanding collected,
      ((maintained ℕ 2).run .unwritten recoveredSuccessor).world.sweeps 0 =
        .settling 5 collected ∧ collected.kind = .write ∧
      ((maintained ℕ 2).run .unwritten recoveredSuccessor).world.key.entry.intent =
        some outstanding ∧
      TakesEffect ((maintained ℕ 2).run .unwritten recoveredSuccessor).world.key.entry .write ∧
      outstanding.kind = .move ∧
      ¬outstanding.OldAt 5 ((maintained ℕ 2).run .unwritten recoveredSuccessor).world.key.now ∧
      ((maintained ℕ 2).run .unwritten
        (recoveredSuccessor ++ [.env (.settle 0)])).world.key.entry.state = .failed ∧
      ((maintained ℕ 2).run .unwritten
        (recoveredSuccessor ++ [.env (.settle 0)])).world.key.entry.intent = none := by
  refine ⟨⟨.move, 0, 0, 11⟩, ⟨.write, 1, 0, 1⟩, ?_⟩
  decide +kernel

end TheSix
