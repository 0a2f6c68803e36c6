import TheSix.Manager.Recover
import TheSix.Lib.BigStep

/-!
# The age of a recovery sweep

A sweep that runs alone settles the intents whose start lies at or before its cutoff, and counts
those it has settled. The cutoff is computed from the age cast to 64 bits, by a subtraction that
stops at zero. So an intent that was recorded less than the age ago is left alone unless it was
recorded when the clock stood at zero, or the age does not fit 64 bits and what is left of it is
shorter than the time since (`recoverOlderThan_honoursAge_iff`).
-/

namespace TheSix

open Coroutine Manager

/-- The answers of a control plane that nothing else uses. -/
def Plane.alone (q : SweepReq) (w : Plane) : Option (q.Answer × Plane) := Plane.exec q () w

/-- The address that an exchange makes the report count: an intent that was aborted or could not
be, and every move. -/
def countedBy : SweepTalk → Option KeyAddress
  | ⟨_, .abortIntentByAddress _, .ok false⟩ => none
  | ⟨_, .abortIntentByAddress a, _⟩ => some a
  | ⟨_, .releasePopulationClaim a, _⟩ => some a
  | _ => none

/-- The addresses that a sweep of the plane alone counts. -/
def Plane.counted (w : Plane) (age : ℕ) : List KeyAddress :=
  ((recoverOlderThan w.table.shards.length age).exchanges Plane.alone w).filterMap countedBy

/-- A sweep leaves the entries whose intents were recorded less than the age ago as they are, and
does not count them. -/
def HonoursAge (w : Plane) (recorded : KeyAddress → ℕ) (age : ℕ) : Prop :=
  ∃ r w', (recoverOlderThan w.table.shards.length age).eval Plane.alone w = some (r, w') ∧
    r.recovered + r.needsReconciliation = (w.counted age).length ∧ r.failed = 0 ∧
    ∀ a e intent, w.table.slots a = some e → e.intent = some intent → w.now < recorded a + age →
      w'.table.slots a = some e ∧ a ∉ w.counted age

/-! ## One intent -/

/-- What settling an intent does to the table. -/
structure Settles (t : Cachelito) (a : KeyAddress) (t' : Cachelito) : Prop where
  wellFormed : t'.WellFormed
  other : ∀ b ≠ a, t'.slots b = t.slots b
  this : t'.slots a = t.slots a ∨ t'.SettledAt a

theorem settles_of_refines {t : Cachelito} {a : KeyAddress} {f : ControlEntry → Bool × ControlEntry}
    {r : Bool × Cachelito} (h : t.Refines a r ((t.slots a).withEntry false f))
    (hf : ∀ e, (f e).2 = e ∨ (f e).2.state ≠ .prepared) : Settles t a r.2 := by
  refine ⟨h.wellFormed, fun b hb => ?_, ?_⟩
  · rw [h.slots, Function.update_of_ne hb]
  · have hslot : r.2.slots a = ((t.slots a).withEntry false f).2 := by
      rw [h.slots, Function.update_self]
    cases he : t.slots a with
    | none => exact .inl (by rw [hslot, he]; rfl)
    | some e =>
      rw [he, KeySlot.withEntry_some] at hslot
      rcases hf e with hsame | hsettled
      · exact .inl (by rw [hslot, hsame])
      · refine .inr fun e' he' => ?_
        rw [hslot, Option.some.injEq] at he'
        exact he' ▸ hsettled

/-- An abort by address, whatever entry it finds. -/
theorem abort_settles {t : Cachelito} (h : t.WellFormed) (a : KeyAddress) {b : Bool}
    {t' : Cachelito} (hr : t.abortIntentByAddress a .uncommittedIntent = (b, t')) :
    Settles t a t' ∧ (t.SettledAt a → t'.slots a = t.slots a ∧ b = false) ∧
      ((∀ e, t.slots a = some e → e.intent ≠ none) → t'.SettledAt a) := by
  have hrefines : t.Refines a (b, t')
      ((t.slots a).withEntry false (·.abortIntentByAddress .uncommittedIntent)) :=
    hr ▸ h.call 0 (.abortIntentByAddress a .uncommittedIntent)
  have hanswer := hrefines.answer
  have hslot : t'.slots a =
      ((t.slots a).withEntry false (·.abortIntentByAddress .uncommittedIntent)).2 := by
    rw [hrefines.slots, Function.update_self]
  refine ⟨settles_of_refines hrefines fun e => ?_, fun hsettled => ?_, fun hintent => ?_⟩
  · unfold ControlEntry.abortIntentByAddress
    split_ifs
    · exact .inl rfl
    · exact .inl rfl
    · exact .inr (by simp)
  · cases he : t.slots a with
    | none =>
      rw [he] at hslot hanswer
      exact ⟨hslot, hanswer⟩
    | some e =>
      have hsame : e.abortIntentByAddress .uncommittedIntent = (false, e) := by
        simp [ControlEntry.abortIntentByAddress, hsettled e he]
      rw [he, KeySlot.withEntry_some, hsame] at hslot hanswer
      exact ⟨hslot, hanswer⟩
  · intro e' he'
    cases he : t.slots a with
    | none =>
      rw [he] at hslot
      rw [hslot] at he'
      cases he'
    | some e =>
      rw [he, KeySlot.withEntry_some] at hslot
      rw [hslot, Option.some.injEq] at he'
      subst he'
      unfold ControlEntry.abortIntentByAddress
      rw [if_neg (by simpa using hintent e he)]
      split_ifs with hs
      · exact hs
      · simp

/-- A release by address, whatever entry it finds. -/
theorem release_settles {t : Cachelito} (h : t.WellFormed) (a : KeyAddress) :
    Settles t a (t.releasePopulationClaim a).2 := by
  refine settles_of_refines (h.call 0 (.releasePopulationClaim a)) fun e => ?_
  unfold ControlEntry.releasePopulationClaim
  split_ifs
  · exact .inl rfl
  · exact .inr (by simp)

theorem Cachelito.SettledAt.congr {t t' : Cachelito} {a : KeyAddress} (h : t.SettledAt a)
    (hslots : t'.slots a = t.slots a) : t'.SettledAt a := by
  intro e he
  exact h e (hslots ▸ he)

theorem Settles.each {t t' : Cachelito} {a : KeyAddress} (h : Settles t a t') (b : KeyAddress) :
    t'.slots b = t.slots b ∨ t'.SettledAt b := by
  by_cases hb : b = a
  · exact hb ▸ h.this
  · exact .inl (h.other b hb)

/-! ## All of them -/

/-- What settling the intents that were collected does to the plane and to the report, and the
addresses that it counts. -/
structure SettlesAll (w : Plane) (collected : List (KeyAddress × CommitIntent))
    (report r : RecoveryReport) (w' : Plane) (counted : List KeyAddress) : Prop where
  total : r.recovered + r.needsReconciliation =
    report.recovered + report.needsReconciliation + counted.length
  failed : r.failed = report.failed
  /-- What was not collected is left alone, and so is a write that is not prepared any more. -/
  untouched : ∀ a, (∀ intent, (a, intent) ∈ collected →
    intent.kind = .write ∧ w.table.SettledAt a) → w'.table.slots a = w.table.slots a ∧ a ∉ counted
  moves : ∀ a intent, (a, intent) ∈ collected → intent.kind = .move → a ∈ counted
  each : ∀ a, w'.table.slots a = w.table.slots a ∨ w'.table.SettledAt a
  writes : ∀ a intent, (a, intent) ∈ collected → intent.kind = .write →
    (∀ e, w.table.slots a = some e → e.intent ≠ none) → w'.table.SettledAt a

theorem SettlesAll.nil (w : Plane) (report : RecoveryReport) :
    SettlesAll w [] report report w [] where
  total := rfl
  failed := rfl
  untouched _ _ := ⟨rfl, List.not_mem_nil⟩
  moves _ _ h := absurd h List.not_mem_nil
  each _ := .inl rfl
  writes _ _ h := absurd h List.not_mem_nil

/-- One intent is settled, and then the others are. -/
theorem SettlesAll.cons {w w₁ w' : Plane} {a : KeyAddress} {intent : CommitIntent}
    {rest : List (KeyAddress × CommitIntent)} {report report₁ r : RecoveryReport}
    {counted : List KeyAddress} (h : SettlesAll w₁ rest report₁ r w' counted)
    (own : List KeyAddress) (hone : Settles w.table a w₁.table)
    (htotal : report₁.recovered + report₁.needsReconciliation =
      report.recovered + report.needsReconciliation + own.length)
    (hfailed : report₁.failed = report.failed) (hown : ∀ b ∈ own, b = a)
    (hidle : intent.kind = .write → w.table.SettledAt a →
      w₁.table.slots a = w.table.slots a ∧ own = [])
    (hmove : intent.kind = .move → a ∈ own)
    (hwrite : intent.kind = .write → (∀ e, w.table.slots a = some e → e.intent ≠ none) →
      w₁.table.SettledAt a) :
    SettlesAll w ((a, intent) :: rest) report r w' (own ++ counted) := by
  have hlater : ∀ b, w₁.table.SettledAt b → w'.table.SettledAt b := by
    intro b hb
    rcases h.each b with hsame | hsettled
    · exact hb.congr hsame
    · exact hsettled
  constructor
  · rw [h.total, htotal, List.length_append]
    omega
  · exact h.failed.trans hfailed
  · intro b hb
    have hfirst : w₁.table.slots b = w.table.slots b ∧ b ∉ own := by
      by_cases hba : b = a
      · subst hba
        obtain ⟨hkind, hsettled⟩ := hb intent List.mem_cons_self
        obtain ⟨hsame, hnone⟩ := hidle hkind hsettled
        exact ⟨hsame, by simp [hnone]⟩
      · exact ⟨hone.other b hba, fun hmem => hba (hown b hmem)⟩
    obtain ⟨hsame, hcounted⟩ := h.untouched b fun intent' hmem => by
      obtain ⟨hkind, hsettled⟩ := hb intent' (List.mem_cons_of_mem _ hmem)
      exact ⟨hkind, hsettled.congr hfirst.1⟩
    exact ⟨hsame.trans hfirst.1, by simp [hfirst.2, hcounted]⟩
  · intro b intent' hmem hkind
    rcases List.mem_cons.1 hmem with hhead | hmem
    · cases hhead
      exact List.mem_append_left _ (hmove hkind)
    · exact List.mem_append_right _ (h.moves b intent' hmem hkind)
  · intro b
    rcases hone.each b with hsame | hsettled
    · rw [← hsame]
      exact h.each b
    · exact .inr (hlater b hsettled)
  · intro b intent' hmem hkind hintent
    rcases List.mem_cons.1 hmem with hhead | hmem
    · cases hhead
      exact hlater _ (hwrite hkind hintent)
    · rcases hone.each b with hsame | hsettled
      · exact h.writes b intent' hmem hkind (hsame ▸ hintent)
      · exact hlater b hsettled

/-- A sweep that has collected its intents settles them all. -/
theorem settle_alone {w : Plane} (h : w.table.WellFormed)
    (collected : List (KeyAddress × CommitIntent)) (report : RecoveryReport) :
    ∃ r w', (settle collected report).eval Plane.alone w = some (r, w') ∧
      SettlesAll w collected report r w'
        (((settle collected report).exchanges Plane.alone w).filterMap countedBy) := by
  induction collected generalizing w report with
  | nil => exact ⟨report, w, rfl, .nil w report⟩
  | cons pair rest ih =>
    obtain ⟨a, intent⟩ := pair
    cases hkind : intent.kind with
    | write =>
      cases hr : w.table.abortIntentByAddress a .uncommittedIntent with
      | mk b t =>
        obtain ⟨hone, hidle, hwrite⟩ := abort_settles h a hr
        have hexec : Plane.alone (.abortIntentByAddress a) w =
            some (.ok b, { w with table := t }) := by
          simp [Plane.alone, Plane.exec, hr]
        simp only [settle, hkind, ask, Prog.req_bind, Prog.ret_bind, Prog.eval_req hexec,
          Prog.exchanges_req hexec]
        cases b with
        | true =>
          obtain ⟨r, w', heval, hrest⟩ :=
            @ih { w with table := t } hone.wellFormed
              { report with recovered := report.recovered + 1 }
          refine ⟨r, w', heval, hrest.cons [a] hone ?_ rfl ?_ ?_ ?_ ?_⟩
          · simp only [List.length_singleton]
            omega
          · simp
          · intro _ hsettled
            cases (hidle hsettled).2
          · simp
          · exact fun _ => hwrite
        | false =>
          obtain ⟨r, w', heval, hrest⟩ := @ih { w with table := t } hone.wellFormed report
          refine ⟨r, w', heval, hrest.cons [] hone rfl rfl ?_ ?_ ?_ ?_⟩
          · simp
          · exact fun _ hsettled => ⟨(hidle hsettled).1, rfl⟩
          · simp [hkind]
          · exact fun _ => hwrite
    | move =>
      have hone := release_settles h a
      have hexec : Plane.alone (.releasePopulationClaim a) w =
          some (.ok (w.table.releasePopulationClaim a).1,
            { w with table := (w.table.releasePopulationClaim a).2 }) := rfl
      simp only [settle, hkind, ask, Prog.req_bind, Prog.ret_bind, Prog.eval_req hexec,
        Prog.exchanges_req hexec]
      have hrest : ∀ report₁ : RecoveryReport, report₁.recovered + report₁.needsReconciliation =
          report.recovered + report.needsReconciliation + 1 → report₁.failed = report.failed →
          ∃ r w', (settle rest report₁).eval Plane.alone
              { w with table := (w.table.releasePopulationClaim a).2 } = some (r, w') ∧
            SettlesAll w ((a, intent) :: rest) report r w'
              ([a] ++ ((settle rest report₁).exchanges Plane.alone
                { w with table := (w.table.releasePopulationClaim a).2 }).filterMap countedBy) := by
        intro report₁ htotal hfailed
        obtain ⟨r, w', heval, hrest⟩ :=
          @ih { w with table := (w.table.releasePopulationClaim a).2 } hone.wellFormed report₁
        exact ⟨r, w', heval, hrest.cons [a] hone htotal hfailed (by simp) (by simp [hkind])
          (by simp) (by simp [hkind])⟩
      cases (w.table.releasePopulationClaim a).1 with
      | true => exact hrest _ (by dsimp only; omega) rfl
      | false => exact hrest _ (by dsimp only; omega) rfl

/-! ## The sweep -/

/-- The scan changes nothing, and counts nothing. -/
theorem staleIntents_alone (c : ℕ) (shards : List ℕ) (w : Plane) :
    (staleIntents c shards).eval Plane.alone w =
        some (shards.flatMap fun shard => w.table.staleIntentsIn shard c, w) ∧
      ((staleIntents c shards).exchanges Plane.alone w).filterMap countedBy = [] := by
  induction shards with
  | nil => exact ⟨rfl, rfl⟩
  | cons shard shards ih =>
    have hexec : Plane.alone (.staleIntents shard c) w =
        some (w.table.staleIntentsIn shard c, w) := rfl
    simp only [staleIntents, ask, Prog.req_bind, Prog.ret_bind, Prog.eval_req hexec,
      Prog.exchanges_req hexec, Prog.eval_bind, Prog.exchanges_bind ih.1, ih.1, List.flatMap_cons]
    refine ⟨rfl, ?_⟩
    rw [List.filterMap_cons_none rfl, List.filterMap_append, ih.2]
    rfl

/-- A sweep that runs alone settles what lies at or before its cutoff. -/
theorem recoverOlderThan_alone {w : Plane} (h : w.table.WellFormed) (age : ℕ) :
    ∃ r w', (recoverOlderThan w.table.shards.length age).eval Plane.alone w = some (r, w') ∧
      SettlesAll w ((List.range w.table.shards.length).flatMap fun shard =>
        w.table.staleIntentsIn shard (cutoff age (ControlEntry.instantToNanos w.now))) {} r w'
        (w.counted age) := by
  have hexec : Plane.alone (.cutoff age) w =
      some (cutoff age (ControlEntry.instantToNanos w.now), w) := rfl
  obtain ⟨hscan, hnothing⟩ := staleIntents_alone
    (cutoff age (ControlEntry.instantToNanos w.now)) (List.range w.table.shards.length) w
  obtain ⟨r, w', heval, hall⟩ := settle_alone h _ {}
  refine ⟨r, w', ?_, ?_⟩
  · simp only [recoverOlderThan, ask, Prog.req_bind, Prog.ret_bind, Prog.eval_req hexec,
      Prog.eval_bind, hscan]
    exact heval
  · simp only [Plane.counted, recoverOlderThan, ask, Prog.req_bind, Prog.ret_bind,
      Prog.exchanges_req hexec, Prog.exchanges_bind hscan]
    rw [List.filterMap_cons_none rfl, List.filterMap_append, hnothing]
    exact hall

theorem mem_collected {t : Cachelito} (h : t.WellFormed) {c : ℕ} {a : KeyAddress}
    {intent : CommitIntent} :
    (a, intent) ∈ (List.range t.shards.length).flatMap (fun shard => t.staleIntentsIn shard c) ↔
      intent.startedNanos ≤ c ∧ ∃ e, t.slots a = some e ∧ e.intent = some intent := by
  simp only [List.mem_flatMap, List.mem_range, h.mem_staleIntentsIn]
  constructor
  · rintro ⟨_, -, -, hle, he⟩
    exact ⟨hle, he⟩
  · rintro ⟨hle, he⟩
    exact ⟨_, t.shardFor_lt a, rfl, hle, he⟩

/-- **The age is honoured exactly when it fits.** An intent that was recorded less than the age ago
must not have been recorded when the clock stood at zero, and an age that does not fit 64 bits must
leave a rest that is longer than the time since. A write that is not prepared any more is not at
stake. -/
theorem recoverOlderThan_honoursAge_iff {w : Plane} (h : w.table.WellFormed)
    {recorded : KeyAddress → ℕ}
    (hrecorded : ∀ a e intent, w.table.slots a = some e → e.intent = some intent →
      intent.startedNanos = ControlEntry.instantToNanos (recorded a) ∧ recorded a ≤ w.now)
    (age : ℕ) :
    HonoursAge w recorded age ↔ ∀ a e intent, w.table.slots a = some e → e.intent = some intent →
      intent.kind = .move ∨ e.state = .prepared → w.now < recorded a + age →
      0 < intent.startedNanos ∧ (2 ^ 64 ≤ age →
        ControlEntry.instantToNanos w.now < intent.startedNanos + age % 2 ^ 64) := by
  obtain ⟨r, w', heval, hall⟩ := recoverOlderThan_alone h age
  -- where the cutoff lies, for an intent that is young
  have hcutoff : ∀ a e intent, w.table.slots a = some e → e.intent = some intent →
      w.now < recorded a + age →
      (intent.startedNanos ≤ cutoff age (ControlEntry.instantToNanos w.now) ↔
        ¬ (0 < intent.startedNanos ∧ (2 ^ 64 ≤ age →
          ControlEntry.instantToNanos w.now < intent.startedNanos + age % 2 ^ 64))) := by
    intro a e intent he hi hyoung
    obtain ⟨hstarted, hpast⟩ := hrecorded a e intent he hi
    unfold cutoff
    rcases Nat.lt_or_ge age (2 ^ 64) with hfits | hlong
    · rw [Nat.mod_eq_of_lt hfits, hstarted, ControlEntry.instantToNanos,
        ControlEntry.instantToNanos]
      omega
    · simp only [hlong, forall_const]
      omega
  constructor
  · rintro ⟨r', w'', heval', -, -, hleft⟩ a e intent he hi hactive hyoung
    cases heval.symm.trans heval'
    obtain ⟨hsame, huncounted⟩ := hleft a e intent he hi hyoung
    by_contra hcollected
    have hmem := (mem_collected h).2
      ⟨(hcutoff a e intent he hi hyoung).2 hcollected, e, he, hi⟩
    cases hkind : intent.kind with
    | move => exact huncounted (hall.moves a intent hmem hkind)
    | write =>
      have hprepared : e.state = .prepared := by simpa [hkind] using hactive
      have hintent : ∀ e', w.table.slots a = some e' → e'.intent ≠ none := by
        intro e' he'
        rw [he, Option.some.injEq] at he'
        simp [← he', hi]
      exact hall.writes a intent hmem hkind hintent e hsame hprepared
  · intro hfits
    refine ⟨r, w', heval, ?_, hall.failed, fun a e intent he hi hyoung => ?_⟩
    · simpa using hall.total
    · rw [← he]
      refine hall.untouched a fun intent' hmem => ?_
      obtain ⟨hle, e', he', hi'⟩ := (mem_collected h).1 hmem
      cases he.symm.trans he'
      cases hi.symm.trans hi'
      have hidle : ¬ (intent.kind = .move ∨ e.state = .prepared) := fun hactive =>
        (hcutoff a e intent he hi hyoung).1 hle (hfits a e intent he hi hactive hyoung)
      rw [not_or] at hidle
      refine ⟨?_, ?_⟩
      · cases hkind : intent.kind with
        | move => exact absurd hkind hidle.1
        | write => rfl
      · intro e' he'
        cases he.symm.trans he'
        exact hidle.2

/-- A table with one entry, on which a write was prepared at `5`, one nanosecond ago. -/
def preparedAtFive : Plane where
  table := ((Cachelito.sized 1 1).prepare ((Cachelito.sized 1 1).addressOf []) none .L0 .write 5).2
  now := 6

theorem preparedAtFive_refines : (Cachelito.sized 1 1).Refines ((Cachelito.sized 1 1).addressOf [])
    ((Cachelito.sized 1 1).prepare ((Cachelito.sized 1 1).addressOf []) none .L0 .write 5)
    (KeySlot.withOrCreate none ((Cachelito.sized 1 1).addressOf []) true
      (.error .configurationError) (·.prepare none .L0 .write 5)) :=
  (Cachelito.wellFormed_sized 1 1 .default).call 5 (.prepare _ none .L0 .write)

theorem preparedAtFive_intent {a : KeyAddress} {e : ControlEntry} {intent : CommitIntent}
    (he : preparedAtFive.table.slots a = some e) (hi : e.intent = some intent) :
    intent.startedNanos = 5 := by
  have hempty : (Cachelito.sized 1 1).slots = fun _ => none := Cachelito.slots_sized 1 1 .default
  have hslots := congrFun preparedAtFive_refines.slots a
  rw [hempty, Function.update_apply] at hslots
  change preparedAtFive.table.slots a = _ at hslots
  rw [hslots] at he
  split_ifs at he
  cases he
  cases hi
  rfl

/-- An age that fits is honoured. -/
theorem honoursAge_ten : HonoursAge preparedAtFive (fun _ => 5) 10 := by
  refine (recoverOlderThan_honoursAge_iff preparedAtFive_refines.wellFormed ?_ 10).2 ?_
  · intro a e intent he hi
    rw [preparedAtFive_intent he hi]
    decide
  · intro a e intent he hi _ _
    rw [preparedAtFive_intent he hi]
    decide

/-- An age of `2 ^ 64` nanoseconds is taken for zero: the write is aborted after one nanosecond. -/
theorem honoursAge_fails_wrapped : 2 ^ 64 ≤ durationMax ∧
    ¬ HonoursAge preparedAtFive (fun _ => 5) (2 ^ 64) := by
  refine ⟨by decide, ?_⟩
  rintro ⟨r, w', -, -, -, h⟩
  have hcounted : (Cachelito.sized 1 1).addressOf [] ∈ preparedAtFive.counted (2 ^ 64) := by
    decide +kernel
  obtain ⟨e, intent, he, hi⟩ : ∃ e intent,
      preparedAtFive.table.slots ((Cachelito.sized 1 1).addressOf []) = some e ∧
        e.intent = some intent :=
    ⟨_, _, rfl, rfl⟩
  exact (h _ e intent he hi (by decide)).2 hcounted

end TheSix
