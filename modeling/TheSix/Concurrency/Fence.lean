import TheSix.Manager.Runs
import TheSix.Lib.Trace

/-!
# The generation as a fence

A population is granted a claim at a generation, and publishes for that generation. Its two ways
to end are fenced differently: `publish` is refused when the generation has moved on, and
`fail_with_error` never is.

`Turns` are the requests that move the generation on. Neither `prepare` nor `commit` is among them,
so a write that commits while a population is fetching does not stop it from being published over
the write: it is stopped exactly when the generation has moved on meanwhile, up to wrapping
(`refused_iff_turned`). And a population that has lost its claim still fails the entry, whoever it
belongs to by then (`undisturbed_iff_failed`).
-/

namespace TheSix

open Coroutine

variable {V : Type}

/-! ## The generation along a trace -/

/-- The requests that move the generation on: a granted claim, `invalidate`, `remove`, a
conservative abort of an intent, and an eviction. -/
def Turns : Served V → Bool
  | ⟨_, _, _, .acquire _, .ok s, _, _⟩ => s.populationOwner
  | ⟨_, _, _, .invalidate, _, pre, _⟩ | ⟨_, _, _, .release, _, pre, _⟩ => pre.slot.isSome
  | ⟨_, _, _, .abort _ _, _, pre, _⟩ => pre.entry.state == .prepared
  | ⟨_, _, _, .reserveEviction address, _, pre, _⟩ =>
    decide (address = pre.address ∧ pre.Evictable)
  | _ => false

/-- A request moves the generation on, or leaves it. -/
theorem KeyWorld.exec_generation {w w' : KeyWorld V} {q : Req V} {o : Outcome V} {a : q.Answer}
    (h : w.exec q o = some (a, w')) (i : ℕ) (c : Call V) (l : Fn) :
    w'.entry.generation =
      if Turns ⟨i, c, l, q, a, w, w'⟩ then w.entry.generation + 1 else w.entry.generation := by
  cases q with
  | acquire tier =>
    rcases exec_acquire h with ⟨e, rfl, rfl, -⟩ | ⟨rfl, rfl⟩
    · simp [Turns]
    · cases hc : w.entry.state.isClaimable with
      | false => simp [Turns, ControlEntry.acquire_of_not_claimable hc, ControlEntry.snapshotOf]
      | true => simp [Turns, ControlEntry.acquire_of_claimable hc, ControlEntry.snapshotOf]
  | setState state =>
    rcases exec_setState h with ⟨rfl, -⟩ | rfl <;> simp [Turns]
  | publish g tier ttl =>
    rcases exec_publish h with ⟨e, -, rfl, -⟩ | ⟨-, -, rfl⟩ <;> simp [Turns]
  | failWithError e =>
    rcases exec_failWithError h with ⟨-, rfl⟩ | ⟨-, rfl⟩ <;> simp [Turns]
  | invalidate =>
    obtain ⟨-, ⟨hs, rfl⟩ | ⟨hs, rfl⟩⟩ := exec_invalidate h <;> simp [Turns, hs]
  | release =>
    obtain ⟨-, ⟨hs, rfl⟩ | ⟨hs, rfl⟩⟩ := exec_release h <;> simp [Turns, hs]
  | prepare tier kind =>
    rcases exec_prepare h with ⟨e, -, rfl, -⟩ | ⟨-, rfl⟩ <;> simp [Turns]
  | commit token ttl =>
    rcases exec_commit h with ⟨e, -, rfl, -, -⟩ | ⟨-, -, -, rfl⟩ <;> simp [Turns]
  | abort token e =>
    rcases exec_abort h with ⟨hs, rfl⟩ | ⟨hs, rfl⟩ <;> simp [Turns, hs]
  | abortProvenClean token e =>
    rcases exec_abortProvenClean h with ⟨hs, rfl⟩ | ⟨hs, rfl⟩ <;> simp [Turns]
  | reserveEviction address =>
    rcases exec_reserveEviction h with ⟨rfl, hn⟩ | ⟨ha, he, rfl⟩
    · simp [Turns, hn]
    · simp [Turns, ha, he]
  | peek | evictionCandidate | removeIfAddress | tierGet | tierSet | tierRemove | tierContains
  | fetch | register | notified | sleep | yieldNow | tierHealth | record =>
    rw [exec_entry rfl h]
    simp [Turns]

/-- The generation of the claim an item grants. -/
def granted : Served V → Option Generation
  | ⟨_, _, _, .acquire _, .ok s, _, _⟩ => if s.populationOwner then some s.generation else none
  | _ => none

/-- The last claim granted to a thread, and what has happened since, newest first. -/
def sinceGrant (i : ℕ) : List (Served V) → Option (Generation × List (Served V))
  | [] => none
  | it :: older =>
    match if it.thread = i then granted it else none with
    | some g => some (g, [])
    | none => (sinceGrant i older).map fun since => (since.1, it :: since.2)

theorem sinceGrant_eq_some {i : ℕ} {older mid : List (Served V)} {g : Generation}
    (h : sinceGrant i older = some (g, mid)) :
    ∃ grant earlier, older = mid ++ grant :: earlier ∧ grant.thread = i ∧ granted grant = some g := by
  induction older generalizing mid with
  | nil => cases h
  | cons it older ih =>
    rw [sinceGrant] at h
    split at h
    · rename_i g' hg
      split_ifs at hg with hi
      simp only [Option.some.injEq, Prod.mk.injEq] at h
      obtain ⟨rfl, rfl⟩ := h
      exact ⟨it, older, rfl, hi, hg⟩
    · simp only [Option.map_eq_some_iff, Prod.mk.injEq] at h
      obtain ⟨⟨g', mid'⟩, hs, rfl, rfl⟩ := h
      obtain ⟨grant, earlier, rfl, hi, hg⟩ := ih hs
      exact ⟨grant, earlier, rfl, hi, hg⟩

/-- A claim is granted at the generation the entry then has. -/
theorem generation_of_granted {it : Served V} {o : Outcome V} {g : Generation}
    (h : it.pre.exec it.req o = some (it.ans, it.post)) (hg : granted it = some g) :
    it.post.entry.generation = g ∧ it.post.slot.isSome = true := by
  obtain ⟨i, c, l, q, a, pre, post⟩ := it
  dsimp only at h ⊢
  cases q with
  | acquire tier =>
    rcases KeyWorld.exec_acquire h with ⟨e, rfl, rfl, -⟩ | ⟨rfl, rfl⟩
    · cases hg
    · cases hc : pre.entry.state.isClaimable with
      | false =>
        simp [granted, ControlEntry.acquire_of_not_claimable hc, ControlEntry.snapshotOf] at hg
      | true =>
        simpa [granted, ControlEntry.acquire_of_claimable hc, ControlEntry.snapshotOf] using hg
  | _ => cases hg

theorem iterate_add_one (n : ℕ) (g : Generation) : (· + 1)^[n] g = g + UInt64.ofNat n := by
  induction n with
  | zero => simp
  | succ n ih =>
    rw [Function.iterate_succ_apply', ih, UInt64.ofNat_add, UInt64.add_assoc]
    rfl

/-- A generation comes round again after `2 ^ 64` moves. -/
theorem eq_add_ofNat_iff (g : Generation) (n : ℕ) : g = g + UInt64.ofNat n ↔ 2 ^ 64 ∣ n := by
  have hlt := g.toNat_lt
  rw [← UInt64.toNat_inj, UInt64.toNat_add, UInt64.toNat_ofNat']
  omega

variable {tiers : ℕ} {w : KeyWorld V} {schedule : List (Turn V)}

/-- An item of a run's trace, and what led to it. -/
theorem linked_of_suffix {it : Served V} {older : List (Served V)}
    (h : it :: older <:+ ((manager V tiers).run w schedule).trace) :
    (∃ o, it.pre.exec it.req o = some (it.ans, it.post)) ∧
      (manager V tiers).Linked it.pre older := by
  obtain ⟨newer, hnewer⟩ := h
  have hrun := Machine.linked_run (M := manager V tiers) w schedule
  rw [← hnewer] at hrun
  obtain ⟨-, -, hit, holder⟩ := hrun.older
  exact ⟨hit, holder⟩

/-- The entry a while after a claim was granted: its generation has moved on as often as the trace
says. -/
theorem generation_since {w : KeyWorld V} {i : ℕ} {older mid : List (Served V)} {g : Generation}
    (h : (manager V tiers).Linked w older) (hs : sinceGrant i older = some (g, mid)) :
    w.slot.isSome = true ∧ w.entry.generation = g + UInt64.ofNat (mid.countP Turns) := by
  obtain ⟨grant, earlier, rfl, -, hg⟩ := sinceGrant_eq_some hs
  have hgrant : grant.post.entry.generation = g ∧ grant.post.slot.isSome = true := by
    obtain ⟨w', -, ⟨o, ho⟩, -⟩ := h.older
    exact generation_of_granted ho hg
  refine ⟨h.keeps (P := fun w => w.slot.isSome = true) (fun _ _ hw => hw)
    (fun _ _ _ _ _ => KeyWorld.exec_isSome) hgrant.2, ?_⟩
  have hcount := h.count (f := fun w => w.entry.generation) (n := (· + 1)) (p := Turns)
    (fun _ _ => rfl) fun x _ o ho => KeyWorld.exec_generation ho x.thread x.call x.site
  rw [hcount, iterate_add_one, hgrant.1]

/-! ## Failing -/

/-- The item leaves the state, the owner, the rung and the generation of the entry as they are. -/
def Undisturbed (it : Served V) : Prop :=
  it.post.entry.state = it.pre.entry.state ∧
    it.post.entry.populationOwner = it.pre.entry.populationOwner ∧
    it.post.entry.tier = it.pre.entry.tier ∧ it.post.entry.generation = it.pre.entry.generation

instance : DecidablePred (Undisturbed (V := V)) := fun _ => inferInstanceAs (Decidable (_ ∧ _))

/-- A population ends without a result: it fails, or is dropped. -/
def givesUp (it : Served V) : Bool :=
  match it.req with
  | .failWithError _ => true
  | _ => false

/-- The entry is committed, or claimed by another thread. -/
def overtakes (i : ℕ) (it : Served V) : Bool :=
  match it with
  | ⟨_, _, _, .commit _ _, .ok _, _, _⟩ => true
  | ⟨j, _, _, .publish _ _ _, .ok _, _, _⟩ => i != j
  | it => it.thread != i && (granted it).isSome

/-- The claim of the item's thread is no longer the entry's: the generation is another one, or the
entry was committed or claimed by another thread since. -/
def hasLost (it : Served V) (older : List (Served V)) : Bool :=
  match sinceGrant it.thread older with
  | some (g, mid) => it.pre.entry.generation != g || mid.any (overtakes it.thread)
  | none => false

/-- **A population that lost fails the entry all the same.** In any interleaving of any calls, its
last step leaves the entry alone exactly when that has failed already and nobody owns it. -/
theorem undisturbed_iff_failed {it : Served V} {older : List (Served V)}
    (hit : it :: older <:+ ((manager V tiers).run w schedule).trace) (hends : givesUp it = true)
    (hlost : hasLost it older = true) :
    Undisturbed it ↔ it.pre.entry.state = .failed ∧ it.pre.entry.populationOwner = false := by
  obtain ⟨⟨o, hexec⟩, hlinked⟩ := linked_of_suffix hit
  have hslot : it.pre.slot.isSome = true := by
    unfold hasLost at hlost
    split at hlost
    · rename_i g mid hs
      exact (generation_since hlinked hs).1
    · cases hlost
  obtain ⟨i, c, l, q, a, pre, post⟩ := it
  dsimp only at hexec hslot ⊢
  cases q with
  | failWithError e =>
    rcases KeyWorld.exec_failWithError hexec with ⟨hn, -⟩ | ⟨-, rfl⟩
    · simp [hn] at hslot
    · simp only [Undisturbed, KeyWorld.putEntry_entry, ControlEntry.failWithError_state,
        ControlEntry.failWithError_populationOwner, ControlEntry.failWithError_tier,
        ControlEntry.failWithError_generation, and_self, and_true]
      exact and_congr eq_comm eq_comm
  | _ => cases hends

/-- A population is invalidated while it fetches, the next one fails, and then it is refused. -/
def losesToFailure : List (Turn ℕ) :=
  [.start 0 (.getOrFetch (.pinned .L0 none)), .run 0 {}, .run 0 { fetched := .ok 7 },
    .start 1 (.invalidate (.pinned .L0 none)), .run 1 {},
    .start 1 (.getOrFetch (.pinned .L0 none)), .run 1 {}, .run 1 { fetched := .error .corrupted },
    .run 1 {}, .run 0 {}, .run 0 {}, .run 0 {}, .run 0 {}]

theorem losesToFailure_trace : ((manager ℕ 1).run .unwritten losesToFailure).trace ≠ [] := by
  decide +kernel

theorem undisturbed_iff_failed_losesToFailure :
    ∃ it older, it :: older <:+ ((manager ℕ 1).run .unwritten losesToFailure).trace ∧
      givesUp it = true ∧ hasLost it older = true ∧ Undisturbed it := by
  have hit : _ <:+ ((manager ℕ 1).run .unwritten losesToFailure).trace :=
    ⟨[], List.cons_head_tail losesToFailure_trace⟩
  refine ⟨_, _, hit, ?_, ?_, (undisturbed_iff_failed hit ?_ ?_).2 ?_⟩ <;> decide +kernel

/-- A population is invalidated while it fetches, a write commits, and then the population is
refused. -/
def losesToWrite : List (Turn ℕ) :=
  [.start 0 (.getOrFetch (.pinned .L0 none)), .run 0 {}, .run 0 { fetched := .ok 7 },
    .start 1 (.invalidate (.pinned .L0 none)), .run 1 {},
    .start 1 (.set (.pinned .L0 none) 1), .run 1 {}, .run 1 {}, .run 1 {}, .run 1 {}, .run 1 {},
    .run 1 {},
    .run 0 {}, .run 0 {}, .run 0 {}, .run 0 {}]

theorem losesToWrite_trace : ((manager ℕ 1).run .unwritten losesToWrite).trace ≠ [] := by
  decide +kernel

/-- The population turns the committed write into a failure. -/
theorem losesToWrite_fails_commit :
    ∃ it older, it :: older <:+ ((manager ℕ 1).run .unwritten losesToWrite).trace ∧
      givesUp it = true ∧ hasLost it older = true ∧ it.pre.entry.state = .ready ∧
      it.post.entry.state = .failed ∧ ¬Undisturbed it := by
  refine ⟨_, _, ⟨[], List.cons_head_tail losesToWrite_trace⟩, ?_⟩
  decide +kernel

/-! ## Publishing -/

/-- One `get_or_fetch`, on thread 0, and any number of `set` calls on the others. -/
def oneFlight (V : Type) : Terms V where
  starts s i c :=
    (i = 0 ∧ s.tasks 0 = none ∧ ∃ a, c = .getOrFetch a) ∨ (i ≠ 0 ∧ ∃ a v, c = .set a v)

instance : (oneFlight V).Checkable where
  starts s i c :=
    have : Decidable (s.tasks 0 = none) := decidable_of_iff _ Option.isNone_iff_eq_none
    inferInstanceAs (Decidable ((i = 0 ∧ s.tasks 0 = none ∧ ∃ a, c = .getOrFetch a) ∨
      (i ≠ 0 ∧ ∃ a v, c = .set a v)))
  outcome _ := .isTrue trivial
  drops := .isTrue trivial
  good _ _ := .isTrue trivial

namespace Fence

/-- The stages of a call after it was granted a claim at generation `g`. -/
def AfterGrant (g : Generation) : Stage V → Prop
  | .populating claimed g' _ | .filled claimed g' _ _ => claimed = true ∧ g' = g
  | .served _ | .failed => True
  | _ => False

/-- A claim is granted once, and what is published is published for its generation. -/
structure Bound (s : System V) (φ : ℕ → Phase V) : Prop where
  others : ∀ i, i ≠ 0 → ¬(φ i).call.Populates
  granted : ∀ it ∈ s.trace, ∀ g, granted it = some g → it.thread = 0 ∧ AfterGrant g (φ 0).stage
  published : s.trace.Pairwise fun new old => ∀ g rung ttl, new.req = .publish g rung ttl →
    ∀ g', TheSix.granted old = some g' → old.thread = new.thread → g' = g

variable {s : System V} {φ : ℕ → Phase V} {i : ℕ} {c : Call V} {l : Fn} {q : Req V}
  {o : Outcome V} {a : q.Answer} {w : KeyWorld V}
  {rest : Prog Fn (Req V) Req.Answer (Option (Reply V))}

/-- After its claim a call makes no other. -/
theorem AfterGrant.next {φ : Phase V} {g : Generation} (h : AfterGrant g φ.stage)
    (hok : φ.allows l q) : AfterGrant g (Phase.next φ.stage l q a) := by
  obtain ⟨c, st⟩ := φ
  -- the other requests are not allowed in these stages
  cases st with
  | populating b g' v' =>
    cases q with
    | tierSet rung v ttl => cases a <;> exact h
    | prepare tier kind => cases kind <;> simp [Phase.allows] at hok
    | _ => first | exact h | trivial | simp [Phase.allows] at hok
  | filled b g' rung v =>
    cases q with
    | publish g'' tier ttl =>
      cases a
      · exact h
      · trivial
    | prepare tier kind => cases kind <;> simp [Phase.allows] at hok
    | _ => first | exact h | trivial | simp [Phase.allows] at hok
  | served v =>
    cases q with
    | prepare tier kind => cases kind <;> simp [Phase.allows] at hok
    | _ => first | trivial | simp [Phase.allows] at hok
  | failed =>
    cases q with
    | prepare tier kind => cases kind <;> simp [Phase.allows] at hok
    | _ => first | trivial | simp [Phase.allows] at hok
  | _ => exact h.elim

theorem AfterGrant.cancel {st : Stage V} {g : Generation} (h : AfterGrant g st) :
    AfterGrant g st.cancel := by
  cases st <;> exact h

theorem allows_of_granted {φ : Phase V} {g : Generation} {pre post : KeyWorld V}
    (hok : φ.allows l q) (hg : granted ⟨i, c, l, q, a, pre, post⟩ = some g) :
    φ.call.Populates ∧ Phase.next φ.stage l q a = .populating true g none := by
  cases q with
  | acquire tier =>
    cases a with
    | error e => cases hg
    | ok s =>
      simp only [granted] at hg
      split_ifs at hg with ho
      obtain rfl := Option.some.inj hg
      exact ⟨hok.1, by simp [Phase.next, ho]⟩
  | _ => cases hg

theorem Bound.start (h : Bound s φ) (hB : Belongs s φ) (hc : (oneFlight V).starts s i c) :
    Bound (s.leave i c rest) (Function.update φ i ⟨c, .idle⟩) := by
  rcases hc with ⟨rfl, hnone, a, rfl⟩ | ⟨hi, a, v, rfl⟩
  · refine ⟨fun j hj => ?_, fun it hit g hg => ?_, h.published⟩
    · rw [Function.update_of_ne hj]
      exact h.others j hj
    · -- a thread that has not run yet was granted nothing
      have := (h.granted it hit g hg).2
      rw [(hB 0).1 hnone] at this
      exact this.elim
  · refine ⟨fun j hj => ?_, fun it hit g hg => ?_, h.published⟩
    · by_cases hji : j = i
      · subst hji
        simp [Call.Populates]
      · rw [Function.update_of_ne hji]
        exact h.others j hj
    · rw [Function.update_of_ne (Ne.symm hi)]
      exact h.granted it hit g hg

theorem Bound.drop (h : Bound s φ) (hcall : (φ i).call = c) :
    Bound (s.leave i c rest) (Function.update φ i ⟨c, (φ i).stage.cancel⟩) := by
  refine ⟨?_, fun it hit g hg => ⟨(h.granted it hit g hg).1, ?_⟩, h.published⟩
  · refine (Function.forall_update_iff φ fun j ψ => j ≠ 0 → ¬ψ.call.Populates).2
      ⟨?_, fun j _ => h.others j⟩
    rw [← hcall]
    exact h.others i
  · have hafter := (h.granted it hit g hg).2
    by_cases h0 : 0 = i
    · subst h0
      rw [Function.update_self]
      exact hafter.cancel
    · rw [Function.update_of_ne h0]
      exact hafter

theorem Bound.answer (h : Bound s φ) (hserves : (oneFlight V).Serves s (φ i) i c l q o a w) :
    Bound (s.answer i c l q a w rest)
      (Function.update φ i ⟨c, Phase.next (φ i).stage l q a⟩) := by
  refine ⟨fun j hj => ?_, ?_, ?_⟩
  · by_cases hji : j = i
    · subst hji
      rw [Function.update_self, ← hserves.call]
      exact h.others j hj
    · rw [Function.update_of_ne hji]
      exact h.others j hj
  · intro it hit g hg
    rw [Sys.answer_trace, List.mem_cons] at hit
    rcases hit with rfl | hit
    · -- the claim is granted now
      obtain ⟨hpop, hnext⟩ := allows_of_granted hserves.allows hg
      have hi : i = 0 := by
        by_contra hi
        exact h.others i hi hpop
      subst hi
      exact ⟨rfl, by rw [Function.update_self, hnext]; exact ⟨rfl, rfl⟩⟩
    · obtain ⟨hi, hafter⟩ := h.granted it hit g hg
      refine ⟨hi, ?_⟩
      by_cases h0 : 0 = i
      · subst h0
        rw [Function.update_self]
        exact hafter.next hserves.allows
      · rw [Function.update_of_ne h0]
        exact hafter
  · rw [Sys.answer_trace, List.pairwise_cons]
    refine ⟨?_, h.published⟩
    rintro old hold g rung ttl hreq g' hg' hthread
    dsimp only at hreq hthread
    subst hreq
    obtain ⟨b, v, hst⟩ := hserves.allows
    obtain ⟨h0, hafter⟩ := h.granted old hold g' hg'
    rw [← h0, hthread, hst] at hafter
    exact hafter.2.symm

theorem upholds : Upholds (oneFlight V) Bound where
  start h hB hc _ := h.start hB hc
  answer _ h _ _ hserves := h.answer hserves
  drop _ h _ _ hcall := h.drop hcall
  env h := ⟨h.others, h.granted, h.published⟩

theorem bound_initial (w : KeyWorld V) :
    Bound (.initial w) fun _ => (⟨.evict, .idle⟩ : Phase V) where
  others _ _ := id
  granted _ := by simp [Sys.initial]
  published := .nil

end Fence

/-- The item publishes a population. -/
def publishes (it : Served V) : Bool :=
  match it.req with
  | .publish _ _ _ => true
  | _ => false

/-- A `set` commits. -/
def commitsSet : Served V → Bool
  | ⟨_, .set _ _, _, .commit _ _, .ok _, _, _⟩ => true
  | _ => false

/-- A `set` has committed since the claim of the item's thread was granted. -/
def overtaken (it : Served V) (older : List (Served V)) : Bool :=
  match sinceGrant it.thread older with
  | some (_, mid) => mid.any commitsSet
  | none => false

/-- How often the generation has moved on since then. -/
def turnsSince (it : Served V) (older : List (Served V)) : ℕ :=
  match sinceGrant it.thread older with
  | some (_, mid) => mid.countP Turns
  | none => 0

/-- The item is refused, and the entry still says what it said before. -/
def Refused : Served V → Prop
  | ⟨_, _, _, .publish _ _ _, .error _, pre, post⟩ => post.entry = pre.entry
  | _ => False

instance : DecidablePred (Refused (V := V)) := fun ⟨_, _, _, q, a, _, _⟩ => by
  induction q using Req.casesOn
  case publish => induction a using Except.casesOn <;> dsimp only [Refused] <;> infer_instance
  all_goals exact .isFalse id

/-- **A population that was overtaken by a write is refused exactly when the generation has moved
on since its claim.** Only aborted intents and evictions move it on, up to wrapping; the commit of
the write itself does not. -/
theorem refused_iff_turned (hT : (oneFlight V).Hold tiers w schedule) {it : Served V}
    {older : List (Served V)} (hit : it :: older <:+ ((manager V tiers).run w schedule).trace)
    (hpub : publishes it = true) (hover : overtaken it older = true) :
    Refused it ↔ ¬2 ^ 64 ∣ turnsSince it older := by
  obtain ⟨φ, hr⟩ := Fence.upholds.run (Fence.bound_initial w) (fun _ => rfl) hT
  obtain ⟨⟨o, hexec⟩, hlinked⟩ := linked_of_suffix hit
  unfold overtaken at hover
  unfold turnsSince
  split at hover
  · rename_i g mid hs
    obtain ⟨hslot, hgen⟩ := generation_since hlinked hs
    obtain ⟨grant, earlier, hold, hthread, hg⟩ := sinceGrant_eq_some hs
    have hpair := (List.pairwise_cons.1 (hr.inv.published.sublist hit.sublist)).1 grant
      (by simp [hold])
    obtain ⟨i, c, l, q, a, pre, post⟩ := it
    dsimp only at hexec hslot hgen hthread hpair hs ⊢
    cases q with
    | publish g' rung ttl =>
      obtain rfl := hpair g' rung ttl rfl g hg hthread
      rw [← eq_add_ofNat_iff g, ← hgen]
      rcases KeyWorld.exec_publish hexec with ⟨e, rfl, rfl, hn | hne⟩ | ⟨rfl, heq, rfl⟩
      · simp [hn] at hslot
      · exact iff_of_true rfl hne
      · exact iff_of_false id (not_not.2 heq)
    | _ => cases hpub
  · cases hover

/-- While a population fetches, one write is aborted and another one commits. -/
def refusedFlight : List (Turn ℕ) :=
  [.start 0 (.getOrFetch (.pinned .L0 none)), .run 0 {}, .run 0 { fetched := .ok 7 },
    .start 1 (.set (.pinned .L0 none) 1), .run 1 {}, .run 1 {}, .run 1 {},
    .run 1 { error := some .tierUnavailable }, .run 1 {}, .run 1 {},
    .start 1 (.set (.pinned .L0 none) 2), .run 1 {}, .run 1 {}, .run 1 {}, .run 1 {}, .run 1 {},
    .run 1 {},
    .run 0 {}, .run 0 {}, .run 0 {}]

theorem refusedFlight_trace : ((manager ℕ 1).run .unwritten refusedFlight).trace ≠ [] := by
  decide +kernel

theorem refused_iff_turned_refusedFlight :
    (oneFlight ℕ).Hold 1 .unwritten refusedFlight ∧
    ∃ it older, it :: older <:+ ((manager ℕ 1).run .unwritten refusedFlight).trace ∧
      publishes it = true ∧ overtaken it older = true ∧ Refused it := by
  have hhold : (oneFlight ℕ).Hold 1 .unwritten refusedFlight := by decide +kernel
  have hit : _ <:+ ((manager ℕ 1).run .unwritten refusedFlight).trace :=
    ⟨[], List.cons_head_tail refusedFlight_trace⟩
  refine ⟨hhold, _, _, hit, ?_, ?_, (refused_iff_turned hhold hit ?_ ?_).2 ?_⟩ <;> decide +kernel

/-- While a population fetches, a write commits. -/
def overwritingFlight : List (Turn ℕ) :=
  [.start 0 (.getOrFetch (.pinned .L0 none)), .run 0 {}, .run 0 { fetched := .ok 7 },
    .start 1 (.set (.pinned .L0 none) 2), .run 1 {}, .run 1 {}, .run 1 {}, .run 1 {}, .run 1 {},
    .run 1 {},
    .run 0 {}, .run 0 {}, .run 0 {}]

theorem overwritingFlight_trace : ((manager ℕ 1).run .unwritten overwritingFlight).trace ≠ [] := by
  decide +kernel

/-- The population is published over the committed write. -/
theorem overwritingFlight_replaces_commit :
    (oneFlight ℕ).Hold 1 .unwritten overwritingFlight ∧
    ∃ it older, it :: older <:+ ((manager ℕ 1).run .unwritten overwritingFlight).trace ∧
      publishes it = true ∧ overtaken it older = true ∧ ¬Refused it ∧
      it.pre.rungs .L0 = some 7 ∧ it.post.entry.state = .ready := by
  refine ⟨by decide +kernel, _, _, ⟨[], List.cons_head_tail overwritingFlight_trace⟩, ?_⟩
  decide +kernel

end TheSix
