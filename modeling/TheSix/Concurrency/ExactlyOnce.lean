import TheSix.Concurrency.Recovery
import TheSix.Manager.Recover

/-!
# Recovery is exactly-once

Any number of recovery sweeps run together on a control plane that nothing else uses. What a sweep
has collected may be settled by another one before it comes to it; it then finds the entry no
longer `Prepared`, and counts nothing. So a `Prepared` entry is either as it was, or one request of
one sweep has settled it, by the kind of its intent (`Progress`), and once a sweep has returned, the
entries that were old enough for it when everything began are settled.
-/

namespace TheSix

open Coroutine

/-! ## The states the control plane can be in -/

/-- Who is in the middle of a commit owns the entry. -/
def ControlEntry.Attended (e : ControlEntry) : Prop :=
  e.state = .prepared → e.intent ≠ none → e.populationOwner = true

theorem ControlEntry.Step.attended {e e' : ControlEntry} (h : e.Step (· ≠ .prepared) e')
    (he : e.Attended) : e'.Attended := by
  cases h with
  | refl | setGeneration | setTier | bumpGeneration => exact he
  | claim | publish | fail | release | evict | expire =>
    intro hs
    cases hs
  | setState h =>
    intro hs
    exact absurd hs h
  | releasePopulationClaim hs ho =>
    intro hs'
    rw [ControlEntry.releasePopulationClaim, if_neg (by simp [hs, ho])] at hs'
    cases hs'
  | prepare intent => exact fun _ _ => rfl
  | commit | abort => exact fun _ hi => absurd rfl hi

/-- A table that calls have led to. The manager stores no state but `Stale` with `set_state`. -/
structure Cachelito.Reached (t : Cachelito) : Prop where
  wellFormed : t.WellFormed
  attended : ∀ a e, t.slots a = some e → e.Attended

theorem Cachelito.Reached.step {t : Cachelito} (h : t.Reached) {x : ℕ × TableOp}
    (hx : x.2.Sets (· ≠ .prepared)) : (t.step x).Reached := by
  refine ⟨h.wellFormed.step x, fun a e he => ?_⟩
  have hstep := h.wellFormed.slots_step hx x.1 a
  change (t.slots a).Step _ ((t.step x).slots a) at hstep
  rw [he] at hstep
  generalize hs : t.slots a = s at hstep
  cases hstep with
  | entry hstep => exact hstep.attended (h.attended a _ hs)
  | create hstep =>
    refine hstep.attended ?_
    intro hs
    cases hs

theorem Cachelito.reached_run {shardCount capacity : ℕ} {p : Placement}
    {history : List (ℕ × TableOp)} (hsets : ∀ x ∈ history, x.2.Sets (· ≠ .prepared)) :
    (history.foldl step ((sized shardCount capacity).withPlacement p)).Reached := by
  refine List.foldlRecOn (motive := Cachelito.Reached) history step ?_ ?_
  · refine ⟨wellFormed_sized shardCount capacity p, fun a e he => ?_⟩
    rw [slots_sized] at he
    cases he
  · intro t ht x hx
    exact ht.step (hsets x hx)

/-! ## What the sweeps do to an entry -/

/-- What has become of an entry, and how often it was recovered and released. -/
inductive Progress (e : ControlEntry) : ControlEntry → ℕ → ℕ → Prop
  | kept : Progress e e 0 0
  | recovered {intent : CommitIntent} (hs : e.state = .prepared) (hi : e.intent = some intent)
      (hk : intent.kind = .write) : Progress e (e.aborted .uncommittedIntent false) 1 0
  | released {intent : CommitIntent} (hs : e.state = .prepared) (hi : e.intent = some intent)
      (hk : intent.kind = .move) (ho : e.populationOwner = true) :
      Progress e e.releasePopulationClaim.2 0 1

namespace Progress

variable {e e' : ControlEntry} {n m : ℕ} {intent : CommitIntent}

theorem releasePopulationClaim_of_owned (hs : e.state = .prepared) (ho : e.populationOwner = true) :
    e.releasePopulationClaim = (true, { e with
      state := .failed
      generation := e.generation + 1
      populationOwner := false
      notifications := e.notifications + 1 }) := by
  rw [ControlEntry.releasePopulationClaim, if_neg (by simp [hs, ho])]

theorem releasePopulationClaim_of_ne (hs : e.state ≠ .prepared) :
    e.releasePopulationClaim = (false, e) := by
  rw [ControlEntry.releasePopulationClaim, if_pos (Or.inl hs)]

/-- An abort of a write that was collected settles the entry, or finds it settled. -/
theorem abort (h : Progress e e' n m) (hi : e.intent = some intent) (hk : intent.kind = .write) :
    Progress e (e'.abortIntentByAddress .uncommittedIntent).2
        (n + (e'.abortIntentByAddress .uncommittedIntent).1.toNat) m ∧
      (e'.abortIntentByAddress .uncommittedIntent).2.state ≠ .prepared := by
  cases h with
  | kept =>
    by_cases hs : e.state = .prepared
    · have habort : e.abortIntentByAddress .uncommittedIntent =
          (true, e.aborted .uncommittedIntent false) := by
        simp [ControlEntry.abortIntentByAddress, hi, hs]
      rw [habort]
      exact ⟨.recovered hs hi hk, by simp⟩
    · have habort : e.abortIntentByAddress .uncommittedIntent = (false, e) := by
        simp [ControlEntry.abortIntentByAddress, hi, hs]
      rw [habort]
      exact ⟨.kept, hs⟩
  | recovered hs hi' hk' =>
    have habort : (e.aborted .uncommittedIntent false).abortIntentByAddress .uncommittedIntent =
        (false, e.aborted .uncommittedIntent false) := by
      simp [ControlEntry.abortIntentByAddress]
    rw [habort]
    exact ⟨.recovered hs hi' hk', by simp⟩
  | released hs hi' hk' ho =>
    rw [hi, Option.some.injEq] at hi'
    rw [hi', hk'] at hk
    cases hk

/-- A release of a move that was collected settles the entry, or finds it settled. -/
theorem release (h : Progress e e' n m) (hattended : e.Attended) (hi : e.intent = some intent)
    (hk : intent.kind = .move) :
    Progress e e'.releasePopulationClaim.2 n (m + e'.releasePopulationClaim.1.toNat) ∧
      e'.releasePopulationClaim.2.state ≠ .prepared := by
  cases h with
  | kept =>
    by_cases hs : e.state = .prepared
    · have ho : e.populationOwner = true := hattended hs (by simp [hi])
      have hrelease := releasePopulationClaim_of_owned hs ho
      refine ⟨?_, by simp [hrelease]⟩
      have htrue : e.releasePopulationClaim.1 = true := by rw [hrelease]
      rw [htrue]
      exact .released hs hi hk ho
    · rw [releasePopulationClaim_of_ne hs]
      exact ⟨.kept, hs⟩
  | recovered hs hi' hk' =>
    rw [hi, Option.some.injEq] at hi'
    rw [hi', hk'] at hk
    cases hk
  | released hs hi' hk' ho =>
    have hfailed : e.releasePopulationClaim.2.state ≠ .prepared := by
      simp [releasePopulationClaim_of_owned hs ho]
    rw [releasePopulationClaim_of_ne hfailed]
    exact ⟨.released hs hi' hk' ho, hfailed⟩

/-- An intent that an entry still has was there from the beginning. -/
theorem intent_eq (h : Progress e e' n m) (hi : e'.intent = some intent) :
    e.intent = some intent := by
  cases h with
  | kept => exact hi
  | recovered => cases hi
  | released hs _ _ ho =>
    rw [releasePopulationClaim_of_owned hs ho] at hi
    exact hi

/-- What is settled stays as it is. -/
theorem eq_of_le {e₁ e₂ : ControlEntry} {n₁ m₁ n₂ m₂ : ℕ} (h₁ : Progress e e₁ n₁ m₁)
    (h₂ : Progress e e₂ n₂ m₂) (hn : n₁ ≤ n₂) (hm : m₁ ≤ m₂) (hpos : 0 < n₁ + m₁) :
    e₂ = e₁ ∧ n₂ = n₁ ∧ m₂ = m₁ := by
  cases h₁ with
  | kept => omega
  | recovered =>
    cases h₂ with
    | kept | released => omega
    | recovered => exact ⟨rfl, rfl, rfl⟩
  | released =>
    cases h₂ with
    | kept | recovered => omega
    | released => exact ⟨rfl, rfl, rfl⟩

/-- An entry that is still `Prepared` is as it was. -/
theorem eq_of_prepared (h : Progress e e' n m) (hs : e'.state = .prepared) : e' = e := by
  cases h with
  | kept => rfl
  | recovered => cases hs
  | released hs' _ _ ho =>
    rw [releasePopulationClaim_of_owned hs' ho] at hs
    cases hs

end Progress

/-! ## What a sweep has been shown -/

namespace Manager

/-- The intents a sweep has been shown, after a request. -/
def shown (φ : List (KeyAddress × CommitIntent)) :
    (q : SweepReq) → q.Answer → List (KeyAddress × CommitIntent)
  | .staleIntents _ _, found => φ ++ found
  | _, _ => φ

/-- A sweep settles an intent that it has been shown, by its kind. -/
def settles (φ : List (KeyAddress × CommitIntent)) : SweepReq → Prop
  | .abortIntentByAddress a => ∃ intent, (a, intent) ∈ φ ∧ intent.kind = .write
  | .releasePopulationClaim a => ∃ intent, (a, intent) ∈ φ ∧ intent.kind = .move
  | _ => True

/-- The discipline of the sweeps. -/
def sweeping : Discipline (List (KeyAddress × CommitIntent)) Unit SweepReq SweepReq.Answer where
  ok φ _ q := settles φ q
  tr φ _ q ans φ' := φ' = shown φ q ans
  cancel φ := φ

variable {Dn : Unit → List (KeyAddress × CommitIntent) → Prop}

theorem staleIntents_sweeping (c : ℕ) (shards : List ℕ) (φ : List (KeyAddress × CommitIntent)) :
    (staleIntents c shards).wp sweeping Dn (fun φ' found => φ ⊆ φ' ∧ found ⊆ φ') φ := by
  induction shards generalizing φ with
  | nil => simp [staleIntents]
  | cons shard shards ih =>
    simp only [staleIntents, ask, Prog.req_bind, Prog.ret_bind, Prog.wp_req, Prog.wp_bind,
      Prog.wp_pure]
    refine ⟨trivial, ?_, by simp⟩
    rintro found _ rfl
    refine Prog.wp_mono ?_ (ih (φ ++ found))
    rintro φ' more ⟨hsub, hmore⟩
    obtain ⟨hφ, hfound⟩ := List.append_subset.1 hsub
    exact ⟨hφ, List.append_subset.2 ⟨hfound, hmore⟩⟩

theorem settle_sweeping {collected φ : List (KeyAddress × CommitIntent)} (h : collected ⊆ φ)
    (report : RecoveryReport) :
    (settle collected report).wp sweeping Dn (fun _ _ => True) φ := by
  induction collected generalizing report with
  | nil => trivial
  | cons pair rest ih =>
    obtain ⟨a, intent⟩ := pair
    obtain ⟨hpair, hrest⟩ := List.cons_subset.1 h
    cases hk : intent.kind with
    | write =>
      simp only [settle, hk, ask, Prog.req_bind, Prog.ret_bind, Prog.wp_req]
      refine ⟨⟨intent, hpair, hk⟩, ?_, by simp⟩
      rintro (e | _ | _) _ rfl
      · exact ih hrest _
      · exact ih hrest _
      · exact ih hrest _
    | move =>
      simp only [settle, hk, ask, Prog.req_bind, Prog.ret_bind, Prog.wp_req]
      refine ⟨⟨intent, hpair, hk⟩, ?_, by simp⟩
      rintro (e | _ | _) _ rfl
      · exact ih hrest _
      · exact ih hrest _
      · exact ih hrest _

theorem recoverOlderThan_sweeping (shards age : ℕ) :
    (recoverOlderThan shards age).wp sweeping Dn (fun _ _ => True) [] := by
  simp only [recoverOlderThan, ask, Prog.req_bind, Prog.ret_bind, Prog.wp_req, Prog.wp_bind]
  refine ⟨trivial, ?_, by simp⟩
  rintro c _ rfl
  refine Prog.wp_mono ?_ (staleIntents_sweeping c (List.range shards) [])
  rintro φ collected ⟨-, hsub⟩
  exact settle_sweeping hsub {}

end Manager

/-! ## The invariant -/

/-- The addresses whose intents were aborted. -/
def recoveries (trace : List Swept) : List KeyAddress :=
  trace.filterMap fun it => recoveredBy it.exchange

/-- The addresses whose claims were released. -/
def releases (trace : List Swept) : List KeyAddress :=
  trace.filterMap fun it => releasedBy it.exchange

theorem recoveredBy_abort (a : KeyAddress) (b : Bool) :
    (recoveredBy ⟨(), .abortIntentByAddress a, .ok b⟩).toList = List.replicate b.toNat a := by
  cases b <;> rfl

theorem releasedBy_release (a : KeyAddress) (b : Bool) :
    (releasedBy ⟨(), .releasePopulationClaim a, .ok b⟩).toList = List.replicate b.toNat a := by
  cases b <;> rfl

theorem recoveries_cons (it : Swept) (trace : List Swept) :
    recoveries (it :: trace) = (recoveredBy it.exchange).toList ++ recoveries trace := by
  simp only [recoveries, List.filterMap_eq_flatMap_toList, List.flatMap_cons]

theorem releases_cons (it : Swept) (trace : List Swept) :
    releases (it :: trace) = (releasedBy it.exchange).toList ++ releases trace := by
  simp only [releases, List.filterMap_eq_flatMap_toList, List.flatMap_cons]

/-- What an answer says about the entries that were there when everything began. -/
def Tells (start : Plane) (t : Cachelito) : (q : SweepReq) → q.Answer → Prop
  | .cutoff age, c => cutoff age (ControlEntry.instantToNanos start.now) ≤ c
  | .staleIntents shard c, found => ∀ a e intent, start.table.slots a = some e →
      e.state = .prepared → e.intent = some intent → start.table.shardFor a = shard →
      intent.startedNanos ≤ c → (a, intent) ∈ found ∨ t.SettledAt a
  | .abortIntentByAddress a, _ | .releasePopulationClaim a, _ => t.SettledAt a

theorem Tells.mono {start : Plane} {t t' : Cachelito} (h : ∀ a, t.SettledAt a → t'.SettledAt a)
    {q : SweepReq} {ans : q.Answer} (hq : Tells start t q ans) : Tells start t' q ans := by
  cases q with
  | cutoff age => exact hq
  | staleIntents shard c =>
    intro a e intent he hs hi hshard hle
    exact (hq a e intent he hs hi hshard hle).imp_right (h a)
  | abortIntentByAddress a => exact h a hq
  | releasePopulationClaim a => exact h a hq

/-- The invariant of the sweeps; `φ` is what they have been shown. -/
structure Sweeps (start : Plane) (s : Sweeping) (φ : ℕ → List (KeyAddress × CommitIntent)) :
    Prop where
  wellFormed : s.world.table.WellFormed
  shardFor : ∀ a, s.world.table.shardFor a = start.table.shardFor a
  later : start.now ≤ s.world.now
  shown : ∀ i a intent, (a, intent) ∈ φ i →
    ∃ e, start.table.slots a = some e ∧ e.intent = some intent
  missing : ∀ a, start.table.slots a = none → s.world.table.slots a = none
  progress : ∀ a e, start.table.slots a = some e → ∃ e', s.world.table.slots a = some e' ∧
    Progress e e' ((recoveries s.trace).count a) ((releases s.trace).count a)
  tells : ∀ it ∈ s.trace, Tells start s.world.table it.req it.ans

namespace Sweeps

variable {start : Plane} {s : Sweeping} {φ : ℕ → List (KeyAddress × CommitIntent)} {i c : ℕ}
  {rest : SweepStep (Option RecoveryReport)}

theorem shown_update (h : Sweeps start s φ) {φ' : List (KeyAddress × CommitIntent)}
    (hφ' : ∀ a intent, (a, intent) ∈ φ' →
      ∃ e, start.table.slots a = some e ∧ e.intent = some intent) :
    ∀ j a intent, (a, intent) ∈ Function.update φ i φ' j →
      ∃ e, start.table.slots a = some e ∧ e.intent = some intent := by
  intro j a intent hmem
  rw [Function.update_apply] at hmem
  split_ifs at hmem
  · exact hφ' a intent hmem
  · exact h.shown j a intent hmem

/-- A request is answered, and only what the sweeps are for happens to the entries. -/
theorem answer (h : Sweeps start s φ) {q : SweepReq} {ans : q.Answer} {t : Cachelito}
    {φ' : List (KeyAddress × CommitIntent)} (hwf : t.WellFormed)
    (hshard : ∀ a, t.shardFor a = s.world.table.shardFor a)
    (hshown : ∀ a intent, (a, intent) ∈ φ' →
      ∃ e, start.table.slots a = some e ∧ e.intent = some intent)
    (hmissing : ∀ a, s.world.table.slots a = none → t.slots a = none)
    (hprogress : ∀ a e e', start.table.slots a = some e → s.world.table.slots a = some e' →
      Progress e e' ((recoveries s.trace).count a) ((releases s.trace).count a) →
      ∃ e'', t.slots a = some e'' ∧ (e'.state ≠ .prepared → e''.state ≠ .prepared) ∧
        Progress e e''
          (((recoveredBy ⟨(), q, ans⟩).toList ++ recoveries s.trace).count a)
          (((releasedBy ⟨(), q, ans⟩).toList ++ releases s.trace).count a))
    (htells : Tells start t q ans) :
    Sweeps start (s.answer i c () q ans { s.world with table := t } rest)
      (Function.update φ i φ') := by
  have hsettled : ∀ a, s.world.table.SettledAt a → t.SettledAt a := by
    intro a ha e'' he''
    cases hstart : start.table.slots a with
    | none =>
      rw [hmissing a (h.missing a hstart)] at he''
      cases he''
    | some e =>
      obtain ⟨e', he', hp⟩ := h.progress a e hstart
      obtain ⟨_, hslot, hkeep, -⟩ := hprogress a e e' hstart he' hp
      rw [hslot, Option.some.injEq] at he''
      exact he'' ▸ hkeep (ha e' he')
  refine ⟨hwf, fun a => (hshard a).trans (h.shardFor a), h.later, h.shown_update hshown,
    fun a ha => hmissing a (h.missing a ha), fun a e he => ?_, ?_⟩
  · obtain ⟨e', he', hp⟩ := h.progress a e he
    obtain ⟨e'', hslot, -, hp'⟩ := hprogress a e e' he he' hp
    refine ⟨e'', hslot, ?_⟩
    rw [Sys.answer_trace, recoveries_cons, releases_cons]
    exact hp'
  · rw [Sys.answer_trace]
    refine List.forall_mem_cons.2 ⟨htells, fun it hit => (h.tells it hit).mono hsettled⟩

/-- A request that changes nothing. -/
theorem read (h : Sweeps start s φ) {q : SweepReq} {ans : q.Answer}
    {φ' : List (KeyAddress × CommitIntent)} (hrecovered : recoveredBy ⟨(), q, ans⟩ = none)
    (hreleased : releasedBy ⟨(), q, ans⟩ = none)
    (hshown : ∀ a intent, (a, intent) ∈ φ' →
      ∃ e, start.table.slots a = some e ∧ e.intent = some intent)
    (htells : Tells start s.world.table q ans) :
    Sweeps start (s.answer i c () q ans s.world rest) (Function.update φ i φ') := by
  refine h.answer h.wellFormed (fun _ => rfl) hshown (fun _ ha => ha) ?_ htells
  intro a e e' _ he' hp
  rw [hrecovered, hreleased]
  exact ⟨e', he', id, hp⟩

/-- A request that settles one entry. -/
theorem settle (h : Sweeps start s φ) {q : SweepReq} {ans : q.Answer} {a : KeyAddress}
    {e : ControlEntry} {f : ControlEntry → Bool × ControlEntry} {r : Bool × Cachelito}
    (hr : s.world.table.Refines a r ((s.world.table.slots a).withEntry false f))
    (he : start.table.slots a = some e)
    (hprogress : ∀ e', s.world.table.slots a = some e' →
      Progress e e' ((recoveries s.trace).count a) ((releases s.trace).count a) →
      (f e').2.state ≠ .prepared ∧ Progress e (f e').2
        (((recoveredBy ⟨(), q, ans⟩).toList ++ recoveries s.trace).count a)
        (((releasedBy ⟨(), q, ans⟩).toList ++ releases s.trace).count a))
    (hrecovered : ∀ b ≠ a, b ∉ (recoveredBy ⟨(), q, ans⟩).toList)
    (hreleased : ∀ b ≠ a, b ∉ (releasedBy ⟨(), q, ans⟩).toList)
    (htells : r.2.SettledAt a → Tells start r.2 q ans) :
    Sweeps start (s.answer i c () q ans { s.world with table := r.2 } rest)
      (Function.update φ i (φ i)) := by
  obtain ⟨e', he', hp⟩ := h.progress a e he
  have hslot : r.2.slots a = some (f e').2 := by
    rw [hr.slots, Function.update_self, he', KeySlot.withEntry_some]
  have hother : ∀ b ≠ a, r.2.slots b = s.world.table.slots b := by
    intro b hb
    rw [hr.slots, Function.update_of_ne hb]
  obtain ⟨hsettled, hp'⟩ := hprogress e' he' hp
  have hshard : ∀ b, r.2.shardFor b = s.world.table.shardFor b := by
    intro b
    have hlength := congrArg List.length hr.shape
    rw [List.length_map, List.length_map] at hlength
    rw [Cachelito.shardFor, Cachelito.shardFor, hlength]
  refine h.answer hr.wellFormed hshard (h.shown i) (fun b hb => ?_) ?_ (htells ?_)
  · rw [hother b, hb]
    rintro rfl
    rw [he'] at hb
    cases hb
  · intro b d d' hd hd' hpd
    by_cases hb : b = a
    · subst hb
      rw [he, Option.some.injEq] at hd
      exact ⟨_, hslot, fun _ => hsettled, hd ▸ hp'⟩
    · refine ⟨d', by rw [hother b hb, hd'], id, ?_⟩
      rw [List.count_append, List.count_append, List.count_eq_zero_of_not_mem (hrecovered b hb),
        List.count_eq_zero_of_not_mem (hreleased b hb), Nat.zero_add, Nat.zero_add]
      exact hpd
  · intro e'' he''
    rw [hslot, Option.some.injEq] at he''
    exact he'' ▸ hsettled

theorem later_cutoff (h : Sweeps start s φ) (age : ℕ) :
    cutoff age (ControlEntry.instantToNanos start.now) ≤
      cutoff age (ControlEntry.instantToNanos s.world.now) :=
  Nat.sub_le_sub_right (instantToNanos_mono h.later) _

/-- What the scan of a shard shows. -/
theorem tells_staleIntents (h : Sweeps start s φ) (shard c : ℕ) :
    Tells start s.world.table (.staleIntents shard c)
      (s.world.table.staleIntentsIn shard c) := by
  intro a e intent he hs hi hshard hle
  obtain ⟨e', he', hp⟩ := h.progress a e he
  by_cases hs' : e'.state = .prepared
  · left
    obtain rfl := hp.eq_of_prepared hs'
    exact h.wellFormed.mem_staleIntentsIn.2 ⟨(h.shardFor a).trans hshard, hle, e', he', hi⟩
  · right
    intro e'' he''
    rw [he', Option.some.injEq] at he''
    exact he'' ▸ hs'

/-- A sweep that keeps to the discipline keeps the invariant. -/
theorem next (h : Sweeps start s φ) (hstart : start.table.Reached) {q : SweepReq} {o : Unit}
    {ans : q.Answer} {w : Plane} (hexec : Plane.exec q o s.world = some (ans, w))
    (hok : Manager.settles (φ i) q) :
    Sweeps start (s.answer i c () q ans w rest)
      (Function.update φ i (Manager.shown (φ i) q ans)) := by
  cases q with
  | cutoff age =>
    simp only [Plane.exec, Option.some.injEq, Prod.mk.injEq] at hexec
    obtain ⟨rfl, rfl⟩ := hexec
    exact h.read rfl rfl (h.shown i) (h.later_cutoff age)
  | staleIntents shard c =>
    simp only [Plane.exec, Option.some.injEq, Prod.mk.injEq] at hexec
    obtain ⟨rfl, rfl⟩ := hexec
    refine h.read rfl rfl ?_ (h.tells_staleIntents shard c)
    intro a intent hmem
    rcases List.mem_append.1 hmem with hmem | hmem
    · exact h.shown i a intent hmem
    · obtain ⟨-, -, e', he', hi⟩ := h.wellFormed.mem_staleIntentsIn.1 hmem
      cases hslot : start.table.slots a with
      | none =>
        rw [h.missing a hslot] at he'
        cases he'
      | some e =>
        obtain ⟨e'', he'', hp⟩ := h.progress a e hslot
        rw [he', Option.some.injEq] at he''
        exact ⟨e, rfl, hp.intent_eq (he'' ▸ hi)⟩
  | abortIntentByAddress a =>
    simp only [Plane.exec, Option.some.injEq, Prod.mk.injEq] at hexec
    obtain ⟨rfl, rfl⟩ := hexec
    obtain ⟨intent, hmem, hk⟩ := hok
    obtain ⟨e, he, hi⟩ := h.shown i a intent hmem
    have hr : s.world.table.Refines a (s.world.table.abortIntentByAddress a .uncommittedIntent)
        ((s.world.table.slots a).withEntry false (·.abortIntentByAddress .uncommittedIntent)) :=
      h.wellFormed.call s.world.now (.abortIntentByAddress a .uncommittedIntent)
    refine h.settle hr he ?_ ?_ (fun _ _ => List.not_mem_nil) id
    · intro e' he' hp
      obtain ⟨hp', hs'⟩ := hp.abort hi hk
      refine ⟨hs', ?_⟩
      rw [hr.answer, he', KeySlot.withEntry_some, recoveredBy_abort, List.count_append,
        List.count_replicate_self, Nat.add_comm]
      exact hp'
    · intro b hb
      rw [recoveredBy_abort]
      exact fun hmem => hb (List.eq_of_mem_replicate hmem)
  | releasePopulationClaim a =>
    simp only [Plane.exec, Option.some.injEq, Prod.mk.injEq] at hexec
    obtain ⟨rfl, rfl⟩ := hexec
    obtain ⟨intent, hmem, hk⟩ := hok
    obtain ⟨e, he, hi⟩ := h.shown i a intent hmem
    have hr : s.world.table.Refines a (s.world.table.releasePopulationClaim a)
        ((s.world.table.slots a).withEntry false (·.releasePopulationClaim)) :=
      h.wellFormed.call s.world.now (.releasePopulationClaim a)
    refine h.settle hr he ?_ (fun _ _ => List.not_mem_nil) ?_ id
    · intro e' he' hp
      obtain ⟨hp', hs'⟩ := hp.release (hstart.attended a e he) hi hk
      refine ⟨hs', ?_⟩
      rw [hr.answer, he', KeySlot.withEntry_some, releasedBy_release,
        @List.count_append _ _ _ (List.replicate _ _) _, List.count_replicate_self,
        Nat.add_comm]
      exact hp'
    · intro b hb
      rw [releasedBy_release]
      exact fun hmem => hb (List.eq_of_mem_replicate hmem)

/-- A thread is put at a program. -/
theorem leave (h : Sweeps start s φ) {φ' : List (KeyAddress × CommitIntent)}
    (hshown : ∀ a intent, (a, intent) ∈ φ' →
      ∃ e, start.table.slots a = some e ∧ e.intent = some intent) :
    Sweeps start (s.leave i c rest) (Function.update φ i φ') :=
  ⟨h.wellFormed, h.shardFor, h.later, h.shown_update hshown, h.missing, h.progress, h.tells⟩

theorem keeps (hstart : start.table.Reached) (shards : ℕ) :
    Machine.Keeps (recovery shards) Manager.sweeping (fun _ _ => True) (Sweeps start)
      (fun _ _ => True) := by
  refine ⟨?_, ?_, ?_, ?_, ?_⟩
  · intro s φ i c h _ _
    exact ⟨[], Manager.recoverOlderThan_sweeping shards c, h.1.leave (by simp)⟩
  · intro s φ i c l q cancel k o a w h _ _ _ hexec hok
    exact ⟨_, rfl, h.1.next hstart hexec hok⟩
  · intro s φ i c l q cs k o a w h _ _ _ hexec hok
    exact ⟨_, rfl, h.1.next hstart hexec hok⟩
  · intro s φ i c l q cs k h _ _
    exact h.leave (h.shown i)
  · intro s φ d h _
    exact ⟨h.wellFormed, h.shardFor, h.later.trans (Nat.le_add_right _ _), h.shown, h.missing,
      h.progress, h.tells⟩

theorem initial (hstart : start.table.Reached) : Sweeps start (.initial start) fun _ => [] where
  wellFormed := hstart.wellFormed
  shardFor _ := rfl
  later := le_rfl
  shown := by simp
  missing _ ha := ha
  progress _ e he := ⟨e, he, .kept⟩
  tells := by simp [Sys.initial]

theorem run (hstart : start.table.Reached) (shards : ℕ) (schedule : List (Event ℕ Unit ℕ)) :
    ∃ φ, Sweeps start ((recovery shards).run start schedule) φ := by
  have hstep : ∀ s ev,
      (∃ φ, Machine.Safe Manager.sweeping (fun _ _ => True) (Sweeps start) s φ) →
      ∃ φ, Machine.Safe Manager.sweeping (fun _ _ => True) (Sweeps start)
        ((recovery shards).step s ev) φ := by
    rintro s ev ⟨φ, h⟩
    exact Machine.safe_step (keeps hstart shards) h trivial
  have h₀ : Machine.Safe Manager.sweeping (fun _ _ => True) (Sweeps start)
      (.initial start) fun _ => [] := ⟨initial hstart, fun i t ht => by cases ht⟩
  obtain ⟨φ, h, -⟩ := Run.inv_run hstep ⟨_, h₀⟩ schedule
  exact ⟨φ, h⟩

end Sweeps

/-! ## The reports -/

/-- An intent is settled: one request of all sweeps has settled it, by its kind, and it is counted
in the report of the sweep that made this request. -/
structure SettledOnce (s : Sweeping) (a : KeyAddress) (intent : CommitIntent) : Prop where
  entry : ∃ e, s.world.table.slots a = some e ∧ e.state = .failed ∧ e.populationOwner = false ∧
    e.intent = if intent.kind = .write then none else some intent
  recovered : (recoveries s.trace).count a = if intent.kind = .write then 1 else 0
  released : (releases s.trace).count a = if intent.kind = .write then 0 else 1

/-- What recovery does in a run from `start`. -/
structure ExactlyOnce (start : Plane) (schedule : List (Event ℕ Unit ℕ)) (s : Sweeping)
    (shards : ℕ) : Prop where
  /-- A sweep that has returned reports its own effects: its items are a path of its program. -/
  reports : ∀ i age r, s.tasks i = some ⟨age, .ret (some r)⟩ → ∃ mine older,
    ofThread i s.trace = mine ++ older ∧
      (Manager.recoverOlderThan shards age).Leads (mine.reverse.map Item.exchange) r ∧
      r.recovered = (recoveries mine).length ∧
      r.releasedForReconciliation = (releases mine).length ∧ r.failed = 0
  /-- When a sweep has returned, the intents old enough for it at the start are settled. -/
  settled : ∀ i age r, s.tasks i = some ⟨age, .ret (some r)⟩ → age < 2 ^ 64 →
    ∀ a e intent, start.table.slots a = some e → e.state = .prepared → e.intent = some intent →
      intent.OldAt age start.now → SettledOnce s a intent
  /-- An entry in another state does not change, and nothing counts it. -/
  others : ∀ a e, start.table.slots a = some e → e.state ≠ .prepared →
    s.world.table.slots a = some e ∧ a ∉ recoveries s.trace ∧ a ∉ releases s.trace
  missing : ∀ a, start.table.slots a = none → s.world.table.slots a = none
  /-- Whatever runs further leaves a settled intent alone, and does not count it. -/
  further : ∀ a intent, SettledOnce s a intent → ∀ more,
    ((recovery shards).run start (schedule ++ more)).world.table.slots a =
        s.world.table.slots a ∧
      ∃ newer, ((recovery shards).run start (schedule ++ more)).trace = newer ++ s.trace ∧
        a ∉ recoveries newer ∧ a ∉ releases newer

theorem length_filterMap_exchange (f : SweepTalk → Option KeyAddress) (mine : List Swept) :
    ((mine.reverse.map Item.exchange).filterMap f).length =
      (mine.filterMap fun it => f it.exchange).length := by
  rw [List.filterMap_map, List.filterMap_reverse, List.length_reverse]
  rfl

/-- A shard is never poisoned. -/
theorem sweepFailed_of_exec {q : SweepReq} {o : Unit} {w w' : Plane} {ans : q.Answer}
    (h : Plane.exec q o w = some (ans, w')) : sweepFailed ⟨(), q, ans⟩ = false := by
  cases q with
  | cutoff | staleIntents => rfl
  | abortIntentByAddress a =>
    obtain ⟨rfl, -⟩ := Prod.mk.inj (Option.some.inj h)
    rfl
  | releasePopulationClaim a =>
    obtain ⟨rfl, -⟩ := Prod.mk.inj (Option.some.inj h)
    rfl

/-- Who has settled an intent was told that it is settled. -/
theorem settledAt_of_settledBy {start : Plane} {t : Cachelito} {x : SweepTalk} {a : KeyAddress}
    {kind : IntentKind} (h : Tells start t x.req x.ans) (hx : settledBy x = some (a, kind)) :
    t.SettledAt a := by
  obtain ⟨_, q, ans⟩ := x
  cases q with
  | cutoff | staleIntents => cases hx
  | abortIntentByAddress b =>
    cases hx
    exact h
  | releasePopulationClaim b =>
    cases hx
    exact h

namespace Sweeps

variable {start : Plane} {s : Sweeping} {φ : ℕ → List (KeyAddress × CommitIntent)}
  {a : KeyAddress} {e : ControlEntry} {intent : CommitIntent}

/-- An entry that is no longer `Prepared` was settled once. -/
theorem settledOnce (h : Sweeps start s φ) (he : start.table.slots a = some e)
    (hs : e.state = .prepared) (hi : e.intent = some intent)
    (hsettled : s.world.table.SettledAt a) : SettledOnce s a intent := by
  obtain ⟨e', he', hp⟩ := h.progress a e he
  have hstate := hsettled e' he'
  generalize hn : (recoveries s.trace).count a = n at hp
  generalize hm : (releases s.trace).count a = m at hp
  cases hp with
  | kept => exact absurd hs hstate
  | recovered _ hi' hk =>
    rw [hi, Option.some.injEq] at hi'
    subst hi'
    exact ⟨⟨_, he', by simp, by simp, by simp [hk]⟩, by simp [hk, hn], by simp [hk, hm]⟩
  | released _ hi' hk ho =>
    rw [hi, Option.some.injEq] at hi'
    subst hi'
    have hrelease := Progress.releasePopulationClaim_of_owned hs ho
    exact ⟨⟨_, he', by simp [hrelease], by simp [hrelease], by simp [hrelease, hk, hi]⟩,
      by simp [hk, hn], by simp [hk, hm]⟩

/-- What a sweep has found old enough is settled when it has gone over all shards. -/
theorem settledAt_of_recovers {log : List SweepTalk} {age : ℕ} {r : RecoveryReport}
    (hlog : Recovers start.table.shards.length age log r)
    (htells : ∀ x ∈ log, Tells start s.world.table x.req x.ans) (hage : age < 2 ^ 64)
    (he : start.table.slots a = some e) (hs : e.state = .prepared) (hi : e.intent = some intent)
    (hold : intent.OldAt age start.now) : s.world.table.SettledAt a := by
  obtain ⟨c, hcut, hscan⟩ := hlog.scanned
  obtain ⟨found, hfound, hsettle⟩ := hscan _ (start.table.shardFor_lt a)
  have hle : intent.startedNanos ≤ c := by
    have hc : cutoff age (ControlEntry.instantToNanos start.now) ≤ c := htells _ hcut
    simp only [CommitIntent.OldAt] at hold
    rw [cutoff, Nat.mod_eq_of_lt hage] at hc
    omega
  rcases htells _ hfound a e intent he hs hi rfl hle with hmem | hsettled
  · obtain ⟨x, hx, hxa⟩ := hsettle a intent hmem
    exact settledAt_of_settledBy (htells x hx) hxa
  · exact hsettled

theorem others (h : Sweeps start s φ) (he : start.table.slots a = some e)
    (hs : e.state ≠ .prepared) : s.world.table.slots a = some e ∧ a ∉ recoveries s.trace ∧
      a ∉ releases s.trace := by
  obtain ⟨e', he', hp⟩ := h.progress a e he
  generalize hn : (recoveries s.trace).count a = n at hp
  generalize hm : (releases s.trace).count a = m at hp
  cases hp with
  | kept => exact ⟨he', List.count_eq_zero.1 hn, List.count_eq_zero.1 hm⟩
  | recovered hs' => exact absurd hs' hs
  | released hs' => exact absurd hs' hs

/-- What is settled in a run stays so when the run goes on. -/
theorem further {s' : Sweeping} {φ' : ℕ → List (KeyAddress × CommitIntent)} (h : Sweeps start s φ)
    (h' : Sweeps start s' φ') (hsuffix : s.trace <:+ s'.trace) (hsettled : SettledOnce s a intent) :
    s'.world.table.slots a = s.world.table.slots a ∧ ∃ newer, s'.trace = newer ++ s.trace ∧
      a ∉ recoveries newer ∧ a ∉ releases newer := by
  obtain ⟨newer, hnewer⟩ := hsuffix
  obtain ⟨e', he', -⟩ := hsettled.entry
  cases hstart : start.table.slots a with
  | none =>
    rw [h.missing a hstart] at he'
    cases he'
  | some e =>
    obtain ⟨e₁, he₁, hp₁⟩ := h.progress a e hstart
    obtain ⟨e₂, he₂, hp₂⟩ := h'.progress a e hstart
    have hpos : 0 < (recoveries s.trace).count a + (releases s.trace).count a := by
      rw [hsettled.recovered, hsettled.released]
      split_ifs <;> omega
    rw [← hnewer] at hp₂
    simp only [recoveries, releases, List.filterMap_append, List.count_append] at hp₁ hp₂ hpos
    obtain ⟨rfl, hn, hm⟩ := hp₁.eq_of_le hp₂ (by omega) (by omega) hpos
    refine ⟨he₂.trans he₁.symm, newer, hnewer.symm, ?_, ?_⟩
    · exact List.count_eq_zero.1 (by simp only [recoveries]; omega)
    · exact List.count_eq_zero.1 (by simp only [releases]; omega)

end Sweeps

/-- **Recovery is exactly-once and idempotent**, from every state that calls of the control plane
lead to, for any number of sweeps in any interleaving. -/
theorem recovery_exactlyOnce {shardCount capacity : ℕ} {p : Placement}
    {history : List (ℕ × TableOp)} (hsets : ∀ x ∈ history, x.2.Sets (· ≠ .prepared)) {start : Plane}
    (hstart : start.table =
      history.foldl Cachelito.step ((Cachelito.sized shardCount capacity).withPlacement p))
    (schedule : List (Event ℕ Unit ℕ)) :
    ExactlyOnce start schedule ((recovery start.table.shards.length).run start schedule)
      start.table.shards.length := by
  have hreached : start.table.Reached := by
    rw [hstart]
    exact Cachelito.reached_run hsets
  obtain ⟨φ, h⟩ := Sweeps.run hreached start.table.shards.length schedule
  refine ⟨?_, ?_, fun a e he hs => h.others he hs, h.missing, ?_⟩
  · intro i age r ht
    obtain ⟨mine, older, hown, -, hleads⟩ := Machine.leads_of_result ht
    obtain ⟨hrecovered, hfailed, hreleased⟩ := (Manager.recoverOlderThan_leads hleads).counted
    refine ⟨mine, older, hown, hleads, ?_, ?_, ?_⟩
    · rw [hrecovered, length_filterMap_exchange]
      exact Nat.zero_add _
    · rw [hreleased, length_filterMap_exchange]
      exact Nat.zero_add _
    · rw [hfailed, List.countP_eq_zero.2 ?_]
      intro x hx
      obtain ⟨it, hit, rfl⟩ := mem_exchanges hx
      obtain ⟨o, hexec⟩ :=
        (Machine.linked_run start schedule).exec_of_mem (mem_trace_of_mine hown hit)
      exact Bool.eq_false_iff.1 (sweepFailed_of_exec hexec)
  · intro i age r ht hage a e intent he hs hi hold
    obtain ⟨mine, older, hown, -, hleads⟩ := Machine.leads_of_result ht
    have htells : ∀ x ∈ mine.reverse.map Item.exchange, Tells start
        ((recovery start.table.shards.length).run start schedule).world.table x.req x.ans := by
      intro x hx
      obtain ⟨it, hit, rfl⟩ := mem_exchanges hx
      exact h.tells it (mem_trace_of_mine hown hit)
    exact h.settledOnce he hs hi (Sweeps.settledAt_of_recovers
      (Manager.recoverOlderThan_leads hleads) htells hage he hs hi hold)
  · intro a intent hsettled more
    obtain ⟨φ', h'⟩ := Sweeps.run hreached start.table.shards.length (schedule ++ more)
    exact h.further h' (Machine.trace_run_suffix start schedule more) hsettled

/-- A write and a move that were left in the middle of a commit. -/
def leftIntents : List (ℕ × TableOp) :=
  [(1, .entry (.prepare (.of [0, 1] .default) none .L0 .write)),
    (2, .entry (.prepare (.of [0, 2] .default) none .L1 .move))]

/-- The control plane a while later. -/
def leftPlane : Plane where
  table := leftIntents.foldl Cachelito.step ((Cachelito.sized 1 2).withPlacement .default)
  now := 10

/-- Two sweeps that collect the same intents; the one recovers the write, the other releases the
move. -/
def twoSweeps : List (Event ℕ Unit ℕ) :=
  [.start 0 5, .start 1 5, .run 0 (), .run 1 (), .run 0 (), .run 1 (), .run 0 (), .run 1 (),
    .run 1 (), .run 0 ()]

theorem recovery_exactlyOnce_twoSweeps :
    ExactlyOnce leftPlane twoSweeps
        ((recovery leftPlane.table.shards.length).run leftPlane twoSweeps)
        leftPlane.table.shards.length ∧
      ((recovery 1).run leftPlane twoSweeps).result 0 =
        some { recovered := 1, needsReconciliation := 1 } ∧
      ((recovery 1).run leftPlane twoSweeps).result 1 =
        some { needsReconciliation := 1, releasedForReconciliation := 1 } := by
  have hleft : leftPlane.table =
      leftIntents.foldl Cachelito.step ((Cachelito.sized 1 2).withPlacement .default) := rfl
  refine ⟨recovery_exactlyOnce ?_ hleft twoSweeps, ?_, ?_⟩
  · simp [leftIntents, TableOp.Sets, EntryOp.Sets]
  · decide +kernel
  · decide +kernel

end TheSix
