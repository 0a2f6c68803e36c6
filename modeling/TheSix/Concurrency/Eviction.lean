import TheSix.Manager.Runs

/-!
# Evictions that overtake a write

An eviction asks the control plane first, which gives the entry up and advances its generation, and
then removes the bytes from the rung. The removal is conditional on the key's address only, and a
rewrite of the same key keeps the address: a `set` or a population that completes between the two
steps loses its bytes, while the entry names the rung that held them.

`Spares` are the removals that meet neither a rung the entry serves, nor a rung with bytes that a
call has written and not yet asked to commit. While every removal is such, a `Ready` entry, or one
`Prepared` over a `Ready` value, names a rung that holds what was written there last (`held_of_ready`).
-/

namespace TheSix

open Coroutine

variable {V : Type}

/-! ## What the trace says about the rungs -/

/-- The value an item writes to a rung. -/
def writesTo (rung : TierId) : Served V → Option V
  | ⟨_, _, _, .tierSet r v _, .ok _, _, _⟩ => if r = rung then some v else none
  | _ => none

/-- The value that was written to a rung last. -/
def lastWritten (rung : TierId) (trace : List (Served V)) : Option V :=
  trace.findSome? (writesTo rung)

/-- The rung of an accepted commit or publication. -/
def commitsTo : Served V → Option TierId
  | ⟨_, _, _, .commit token _, .ok _, _, _⟩ => TierId.fromIndex token.targetTier
  | ⟨_, _, _, .publish _ rung _, .ok _, _, _⟩ => some rung
  | _ => none

/-- The rung of the last accepted commit or publication. -/
def lastCommitted (trace : List (Served V)) : Option TierId := trace.findSome? commitsTo

/-- Whether an item opens a write of its thread, and where, or closes it. -/
def opens : Served V → Option (Option TierId)
  | ⟨_, _, _, .tierSet rung _ _, .ok _, _, _⟩ => some (some rung)
  | ⟨_, _, _, .tierSet _ _ _, .error _, _, _⟩ | ⟨_, _, _, .commit _ _, _, _, _⟩
  | ⟨_, _, _, .publish _ _ _, _, _, _⟩ | ⟨_, _, _, .abort _ _, _, _, _⟩
  | ⟨_, _, _, .abortProvenClean _ _, _, _, _⟩ | ⟨_, _, _, .failWithError _, _, _, _⟩ => some none
  | _ => none

/-- The rung a thread has written to without having asked for the commit or the publication. -/
def openWrite (i : ℕ) : List (Served V) → Option TierId
  | [] => none
  | it :: older => if it.thread = i then (opens it).getD (openWrite i older) else openWrite i older

/-- Some thread has such a write on the rung. -/
def Pending (trace : List (Served V)) (rung : TierId) : Prop :=
  ∃ it ∈ trace, openWrite it.thread trace = some rung

instance (trace : List (Served V)) (rung : TierId) : Decidable (Pending trace rung) :=
  inferInstanceAs (Decidable (∃ it ∈ trace, openWrite it.thread trace = some rung))

theorem openWrite_cons_of_ne {i : ℕ} {it : Served V} {older : List (Served V)}
    (h : it.thread ≠ i) : openWrite i (it :: older) = openWrite i older := if_neg h

theorem pending_of_openWrite {i : ℕ} {trace : List (Served V)} {rung : TierId}
    (h : openWrite i trace = some rung) : Pending trace rung := by
  have hmem : ∃ it ∈ trace, it.thread = i := by
    induction trace with
    | nil => cases h
    | cons it older ih =>
      by_cases hi : it.thread = i
      · exact ⟨it, List.mem_cons_self, hi⟩
      · rw [openWrite_cons_of_ne hi] at h
        obtain ⟨it', hmem, hi'⟩ := ih h
        exact ⟨it', List.mem_cons_of_mem it hmem, hi'⟩
  obtain ⟨it, hmem, rfl⟩ := hmem
  exact ⟨it, hmem, h⟩

/-- An item opens no write but its own. -/
theorem pending_of_cons {it : Served V} {older : List (Served V)} {rung : TierId}
    (h : Pending (it :: older) rung) : Pending older rung ∨ opens it = some (some rung) := by
  obtain ⟨it', -, hopen⟩ := h
  simp only [openWrite] at hopen
  split_ifs at hopen
  · cases ho : opens it with
    | none =>
      rw [ho, Option.getD_none] at hopen
      exact Or.inl (pending_of_openWrite hopen)
    | some r =>
      rw [ho, Option.getD_some] at hopen
      exact Or.inr (by rw [hopen])
  · exact Or.inl (pending_of_openWrite hopen)

/-! ## The calls -/

/-- An entry that serves a rung, or would again after a clean abort. -/
def Names (e : ControlEntry) (rung : TierId) : Prop :=
  (e.state = .ready ∨ (e.state = .prepared ∧ e.intentPrevState = .ready)) ∧ e.tier = rung

instance (e : ControlEntry) (rung : TierId) : Decidable (Names e rung) :=
  inferInstanceAs (Decidable (_ ∧ _))

/-- The calls that write the key, and the eviction. -/
def Call.Contends : Call V → Prop
  | .set _ _ | .getOrFetch _ | .evict => True
  | _ => False

/-- A write that a stub refuses finds it full, and stores nothing. -/
def StubWrites : Served V → Prop
  | ⟨_, _, _, .tierSet rung _ _, .error e, pre, post⟩ =>
    e = .capacityExhausted ∧ post.rungs rung = pre.rungs rung
  | _ => True

/-- A removal of the key's bytes meets neither a rung that is served nor an open write. -/
def Spares (s : System V) : Served V → Prop
  | ⟨_, _, _, .removeIfAddress rung address, _, _, _⟩ =>
    address = s.world.address → ¬Names s.world.entry rung ∧ ¬Pending s.trace rung
  | _ => True

/-- Writes, populations and evictions of one key, on stub rungs. -/
def stubEviction (V : Type) : Terms V where
  starts _ _ c := c.Contends
  good _ := StubWrites

/-- The same, with evictions that spare what was written since. -/
def sparingEviction (V : Type) : Terms V :=
  { stubEviction V with good := fun s it => StubWrites it ∧ Spares s it }

instance : DecidablePred (Call.Contends (V := V)) := fun c => by
  induction c using Call.casesOn <;> dsimp only [Call.Contends] <;> infer_instance

instance [DecidableEq V] : DecidablePred (StubWrites (V := V)) := fun ⟨_, _, _, q, a, _, _⟩ => by
  induction q using Req.casesOn
  case tierSet => induction a using Except.casesOn <;> dsimp only [StubWrites] <;> infer_instance
  all_goals exact .isTrue trivial

instance (s : System V) : DecidablePred (Spares s) := fun ⟨_, _, _, q, _, _, _⟩ => by
  induction q using Req.casesOn <;> dsimp only [Spares] <;> infer_instance

instance [DecidableEq V] : (stubEviction V).Checkable where
  starts _ _ c := inferInstanceAs (Decidable c.Contends)
  outcome _ := .isTrue trivial
  drops := .isTrue trivial
  good _ it := inferInstanceAs (Decidable (StubWrites it))

instance [DecidableEq V] : (sparingEviction V).Checkable where
  starts _ _ c := inferInstanceAs (Decidable c.Contends)
  outcome _ := .isTrue trivial
  drops := .isTrue trivial
  good s it := inferInstanceAs (Decidable (StubWrites it ∧ Spares s it))

namespace Eviction

/-- What a thread's stage says about its write. -/
def Fits (opened : Option TierId) : Stage V → Prop
  | .writing token rung _ => token.targetTier = rung.asU8
  | .wrote token rung _ => token.targetTier = rung.asU8 ∧ opened = some rung
  | .filled _ _ rung _ => opened = some rung
  | .unwritten _ _ e => e = .capacityExhausted
  | .moving _ _ _ | .carrying _ _ _ _ | .copied _ _ _ _ | .cleared _ _ _ _ | .backing _ _ => False
  | _ => True

/-- A rung that is served or has an open write holds what was written there last. -/
structure Held (e : ControlEntry) (rungs : TierId → Option V) (trace : List (Served V)) : Prop where
  bytes : ∀ rung, Names e rung ∨ Pending trace rung →
    ∃ v, rungs rung = some v ∧ lastWritten rung trace = some v
  committed : ∀ rung, Names e rung → lastCommitted trace = some rung

/-- The invariant. -/
structure Sparing (s : System V) (φ : ℕ → Phase V) : Prop where
  calls : ∀ i, (φ i).call.Contends
  fits : ∀ i, Fits (openWrite i s.trace) (φ i).stage
  made : ∀ i, (φ i).stage.token ≠ none → s.world.slot.isSome = true
  held : Held s.world.entry s.world.rungs s.trace

section Requests

variable {φ : Phase V} {l : Fn} {o : Outcome V} {w w' : KeyWorld V}

/-- Only a commit or a publication makes the entry serve a rung. -/
theorem names_of_exec {q : Req V} {a : q.Answer} (hok : φ.allows l q)
    (hexec : w.exec q o = some (a, w')) (hcommit : ∀ token ttl, q ≠ .commit token ttl)
    (hpublish : ∀ g rung ttl, q ≠ .publish g rung ttl) {rung : TierId}
    (h : Names w'.entry rung) : Names w.entry rung := by
  cases q with
  | acquire tier =>
    rcases KeyWorld.exec_acquire hexec with ⟨e, -, rfl, -⟩ | ⟨-, rfl⟩
    · exact h
    · cases hc : w.entry.state.isClaimable with
      | false => simpa [ControlEntry.acquire_of_not_claimable hc] using h
      | true => simp [ControlEntry.acquire_of_claimable hc, Names] at h
  | setState state =>
    obtain ⟨rfl, -⟩ := hok
    rcases KeyWorld.exec_setState hexec with ⟨rfl, -⟩ | rfl
    · exact h
    · simp [Names] at h
  | failWithError error =>
    rcases KeyWorld.exec_failWithError hexec with ⟨-, rfl⟩ | ⟨-, rfl⟩
    · exact h
    · simp [Names] at h
  | invalidate =>
    obtain ⟨-, ⟨-, rfl⟩ | ⟨-, rfl⟩⟩ := KeyWorld.exec_invalidate hexec
    · exact h
    · simp [Names] at h
  | release =>
    obtain ⟨-, ⟨-, rfl⟩ | ⟨-, rfl⟩⟩ := KeyWorld.exec_release hexec
    · exact h
    · simp [Names] at h
  | prepare target kind =>
    rcases KeyWorld.exec_prepare hexec with ⟨e, -, rfl, -⟩ | ⟨-, rfl⟩
    · exact h
    · have hprev : w.entry.state = .ready ∧ w.entry.tier = rung := by simpa [Names] using h
      exact ⟨Or.inl hprev.1, hprev.2⟩
  | abort token error =>
    rcases KeyWorld.exec_abort hexec with ⟨-, rfl⟩ | ⟨-, rfl⟩
    · exact h
    · simp [Names] at h
  | abortProvenClean token error =>
    rcases KeyWorld.exec_abortProvenClean hexec with ⟨-, rfl⟩ | ⟨hp, rfl⟩
    · exact h
    · -- the state before the intent is restored
      simp only [Names, KeyWorld.putEntry_entry, ControlEntry.aborted_state,
        ControlEntry.aborted_intentPrevState, ControlEntry.aborted_tier, if_true] at h
      refine ⟨Or.inr ⟨hp, ?_⟩, h.2⟩
      rcases h.1 with hr | ⟨-, hr⟩
      · exact hr
      · exact hr
  | reserveEviction address =>
    rcases KeyWorld.exec_reserveEviction hexec with ⟨rfl, -⟩ | ⟨-, -, rfl⟩
    · exact h
    · simp [Names] at h
  | commit token ttl => exact absurd rfl (hcommit token ttl)
  | publish g target ttl => exact absurd rfl (hpublish g target ttl)
  | peek | evictionCandidate | removeIfAddress | tierGet | tierSet | tierRemove | tierContains
  | fetch | register | notified | sleep | yieldNow | tierHealth | record =>
    rwa [KeyWorld.exec_entry rfl hexec] at h

/-- The stage of the thread whose request is answered. -/
theorem Fits.next {q : Req V} {a : q.Answer} {opened opened' : Option TierId} {i : ℕ}
    (h : Fits opened φ.stage) (hc : φ.call.Contends) (hok : φ.allows l q)
    (hexec : w.exec q o = some (a, w')) (hmade : φ.stage.token ≠ none → w.slot.isSome = true)
    (hstub : StubWrites ⟨i, φ.call, l, q, a, w, w'⟩)
    (hopen : opened' = (opens ⟨i, φ.call, l, q, a, w, w'⟩).getD opened) :
    Fits opened' (Phase.next φ.stage l q a) := by
  obtain ⟨c, st⟩ := φ
  cases q with
  | peek =>
    rcases hok with hst | ⟨s, v, hst⟩ | hst <;> obtain rfl := hst <;> simp only [Phase.next]
    · trivial
    · split <;> trivial
    · trivial
  | acquire tier =>
    cases a with
    | error e => trivial
    | ok s =>
      simp only [Phase.next]
      split <;> trivial
  | setState state =>
    rcases hok.2 with ⟨s, hst, -⟩ | ⟨s, hst, -⟩ <;> obtain rfl := hst
    · cases l <;> trivial
    · trivial
  | publish g tier ttl =>
    obtain ⟨claimed, v, rfl⟩ := hok
    cases a <;> trivial
  | prepare rung kind =>
    cases kind with
    | write =>
      rcases KeyWorld.exec_prepare hexec with ⟨e, rfl, -⟩ | ⟨rfl, -⟩
      · trivial
      · rcases hok.2 with hst | ⟨s, hst⟩ | ⟨lost, hst⟩ <;> obtain rfl := hst <;> rfl
    | move =>
      have hmoves := hok.1
      cases c <;> first | exact hmoves.elim | exact hc.elim
  | commit token ttl =>
    rcases hok with ⟨rung, lost, hst⟩ | ⟨s, dst, v, hst⟩ <;> obtain rfl := hst
    · rcases KeyWorld.exec_commit hexec with ⟨e, rfl, -, -, he⟩ | ⟨rfl, -⟩
      · simp only [Phase.next, he (hmade (by simp)), if_true]
        trivial
      · trivial
    · exact h.elim
  | abort token e =>
    rcases hok with hst | ⟨rung, lost, hst⟩ | ⟨rung, e', hst⟩ | ⟨s, dst, hst⟩ <;> obtain rfl := hst <;>
      trivial
  | tierGet rung =>
    rcases hok with ⟨s, hst, -⟩ | ⟨b, s, hst, -⟩ | hst | ⟨hst, -⟩ | ⟨t, s, dst, hst, -⟩ <;>
      obtain rfl := hst
    · cases a <;> simp only [Phase.next] <;> split <;> trivial
    · rcases a with e | _ | v <;> trivial
    · trivial
    · trivial
    · exact h.elim
  | tierSet rung v ttl =>
    rcases hok with ⟨b, g, hst⟩ | ⟨t, n, a', hst, -⟩ | ⟨t, s, hst⟩ <;> obtain rfl := hst
    · cases a with
      | error e => trivial
      | ok u => exact hopen
    · cases a with
      | error e => exact hstub.1
      | ok u => exact ⟨h, hopen⟩
    · exact h.elim
  | tierRemove rung =>
    rcases hok with ⟨-, a', hcall⟩ | ⟨t, hst⟩ | ⟨t, s, dst, v, hst, -⟩ | ⟨t, hst⟩
    · cases c <;> first | exact hc.elim | cases hcall
    · obtain rfl := hst
      cases h
    · obtain rfl := hst
      exact h.elim
    · obtain rfl := hst
      exact h.elim
  | fetch =>
    rcases hok.2 with ⟨b, g, v, hst⟩ | ⟨s, hst, -⟩ | ⟨s, hst, -⟩ <;> obtain rfl := hst <;> trivial
  | failWithError | abortProvenClean | register => trivial
  | invalidate | release | evictionCandidate | reserveEviction | removeIfAddress | tierContains
  | notified | sleep | yieldNow | tierHealth | record =>
    obtain rfl : opened' = opened := hopen
    exact h

/-- A token comes from a `prepare`. -/
theorem made_of_next {q : Req V} {a : q.Answer} (hok : φ.allows l q)
    (hexec : w.exec q o = some (a, w')) (hmade : φ.stage.token ≠ none → w.slot.isSome = true)
    (h : (Phase.next φ.stage l q a).token ≠ none) : w'.slot.isSome = true := by
  by_cases hold : φ.stage.token = none
  · cases q with
    | prepare rung kind =>
      rcases KeyWorld.exec_prepare hexec with ⟨e, rfl, -⟩ | ⟨-, rfl⟩
      · exact absurd rfl h
      · rfl
    | acquire tier =>
      cases a with
      | error e => exact absurd rfl h
      | ok s =>
        simp only [Phase.next] at h
        split at h <;> exact absurd rfl h
    | setState state =>
      rcases hok.2 with ⟨s, hst, -⟩ | ⟨s, hst, -⟩ <;> rw [hst] at h
      · cases l <;> exact absurd rfl h
      · exact absurd rfl h
    | publish g tier ttl =>
      obtain ⟨claimed, v, hst⟩ := hok
      rw [hst] at h
      cases a <;> exact absurd rfl h
    | commit token ttl =>
      rcases hok with ⟨rung, lost, hst⟩ | ⟨s, dst, v, hst⟩ <;> simp [hst] at hold
    | abort token e =>
      rcases hok with hst | ⟨rung, lost, hst⟩ | ⟨rung, e', hst⟩ | ⟨s, dst, hst⟩ <;>
        simp [hst] at hold
    | failWithError | abortProvenClean => exact absurd rfl h
    | invalidate | release | reserveEviction => exact absurd hold h
    | peek | evictionCandidate | removeIfAddress | tierGet | tierSet | tierRemove | tierContains
    | fetch | register | notified | sleep | yieldNow | tierHealth | record =>
      rw [(Phase.next_of_not_touches rfl hok).1] at h
      exact absurd hold h
  · exact KeyWorld.exec_isSome hexec (hmade hold)

end Requests

section Steps

variable {e e' : ControlEntry} {rungs rungs' : TierId → Option V} {trace : List (Served V)}
  {it : Served V}

/-- An item that writes nothing and makes the entry serve nothing new. -/
theorem Held.keep (h : Held e rungs trace) (hnames : ∀ rung, Names e' rung → Names e rung)
    (hopens : ∀ rung, opens it ≠ some (some rung)) (hwrites : ∀ rung, writesTo rung it = none)
    (hcommits : commitsTo it = none)
    (hrungs : ∀ rung, Names e rung ∨ Pending trace rung → rungs' rung = rungs rung) :
    Held e' rungs' (it :: trace) where
  bytes rung hrung := by
    have hold : Names e rung ∨ Pending trace rung := by
      rcases hrung with hn | hp
      · exact Or.inl (hnames rung hn)
      · exact Or.inr ((pending_of_cons hp).resolve_right (hopens rung))
    obtain ⟨v, hv, hlast⟩ := h.bytes rung hold
    refine ⟨v, by rw [hrungs rung hold, hv], ?_⟩
    simpa [lastWritten, hwrites] using hlast
  committed rung hn := by
    simpa [lastCommitted, hcommits] using h.committed rung (hnames rung hn)

/-- A write that its rung accepts. -/
theorem Held.write (h : Held e rungs trace) {i : ℕ} {c : Call V} {l : Fn} {rung : TierId} {v : V}
    {ttl : Option ℕ} {pre post : KeyWorld V} :
    Held e (Function.update rungs rung (some v))
      (⟨i, c, l, .tierSet rung v ttl, .ok (), pre, post⟩ :: trace) where
  bytes r hr := by
    by_cases hrung : r = rung
    · subst hrung
      exact ⟨v, by simp, by simp [lastWritten, writesTo]⟩
    · have hold : Names e r ∨ Pending trace r := by
        rcases hr with hn | hp
        · exact Or.inl hn
        · refine Or.inr ((pending_of_cons hp).resolve_right ?_)
          simpa [opens] using Ne.symm hrung
      obtain ⟨x, hx, hlast⟩ := h.bytes r hold
      refine ⟨x, by rw [Function.update_of_ne hrung, hx], ?_⟩
      simpa [lastWritten, writesTo, Ne.symm hrung] using hlast
  committed r hn := h.committed r hn

/-- An accepted commit or publication of a write that is open. -/
theorem Held.accept (h : Held e rungs trace) {rung : TierId} (hpending : Pending trace rung)
    (hnames : ∀ r, Names e' r → r = rung) (hopens : opens it = some none)
    (hwrites : ∀ r, writesTo r it = none) (hcommits : commitsTo it = some rung) :
    Held e' rungs (it :: trace) where
  bytes r hr := by
    have hold : Pending trace r := by
      rcases hr with hn | hp
      · rwa [hnames r hn]
      · exact (pending_of_cons hp).resolve_right (by simp [hopens])
    obtain ⟨v, hv, hlast⟩ := h.bytes r (Or.inr hold)
    exact ⟨v, hv, by simpa [lastWritten, hwrites] using hlast⟩
  committed r hn := by
    rw [hnames r hn]
    simp [lastCommitted, hcommits]

end Steps

/-- The rungs after an answered request. -/
theorem Held.answer {φ : Phase V} {l : Fn} {q : Req V} {o : Outcome V} {s : System V}
    {w : KeyWorld V} {a : q.Answer} {i : ℕ} (h : Held s.world.entry s.world.rungs s.trace)
    (hfits : Fits (openWrite i s.trace) φ.stage) (hc : φ.call.Contends) (hok : φ.allows l q)
    (hexec : s.world.exec q o = some (a, w)) (hstub : StubWrites ⟨i, φ.call, l, q, a, s.world, w⟩)
    (hspares : Spares s ⟨i, φ.call, l, q, a, s.world, w⟩) :
    Held w.entry w.rungs (⟨i, φ.call, l, q, a, s.world, w⟩ :: s.trace) := by
  obtain ⟨c, st⟩ := φ
  have hnames : (∀ token ttl, q ≠ .commit token ttl) → (∀ g rung ttl, q ≠ .publish g rung ttl) →
      ∀ rung, Names w.entry rung → Names s.world.entry rung :=
    fun h₁ h₂ _ => names_of_exec hok hexec h₁ h₂
  have hrungs : q.touchesRungs = false →
      ∀ rung, Names s.world.entry rung ∨ Pending s.trace rung → w.rungs rung = s.world.rungs rung :=
    fun hq rung _ => congrFun (KeyWorld.exec_rungs hq hexec) rung
  cases q with
  | commit token ttl =>
    rcases hok with ⟨rung, lost, hst⟩ | ⟨snapshot, dst, v, hst⟩ <;> obtain rfl := hst
    · rcases KeyWorld.exec_commit hexec with ⟨e, rfl, rfl, -, -⟩ | ⟨rfl, -, -, rfl⟩
      · exact h.keep (fun _ hn => hn) (by simp [opens]) (fun _ => rfl) rfl fun _ _ => rfl
      · refine h.accept (pending_of_openWrite hfits.2) ?_ rfl (fun _ => rfl) ?_
        · rintro r ⟨-, hr⟩
          simpa [hfits.1] using hr.symm
        · simp [commitsTo, hfits.1]
    · exact hfits.elim
  | publish g rung ttl =>
    obtain ⟨claimed, v, rfl⟩ := hok
    rcases KeyWorld.exec_publish hexec with ⟨e, rfl, rfl, -⟩ | ⟨rfl, -, rfl⟩
    · exact h.keep (fun _ hn => hn) (by simp [opens]) (fun _ => rfl) rfl fun _ _ => rfl
    · refine h.accept (pending_of_openWrite hfits) ?_ rfl (fun _ => rfl) rfl
      rintro r ⟨-, hr⟩
      simpa using hr.symm
  | tierSet rung v ttl =>
    rcases KeyWorld.exec_tierSet hexec with ⟨rfl, rfl⟩ | ⟨e, rfl, hw⟩
    · exact h.write
    · -- the stub was full, and stored nothing
      refine h.keep (hnames (by simp) (by simp)) (by simp [opens]) (fun _ => rfl) rfl fun r _ => ?_
      rcases hw with rfl | rfl
      · rfl
      · by_cases hr : r = rung
        · rw [hr]
          exact hstub.2
        · rw [KeyWorld.store_rungs, Function.update_of_ne hr]
  | removeIfAddress rung address =>
    refine h.keep (hnames (by simp) (by simp)) (by simp [opens]) (fun _ => rfl) rfl fun r hr => ?_
    rcases KeyWorld.exec_removeIfAddress hexec with rfl | ⟨haddr, rfl⟩
    · rfl
    · have hne : r ≠ rung := by
        rintro rfl
        rcases hr with hn | hp
        · exact (hspares haddr).1 hn
        · exact (hspares haddr).2 hp
      rw [KeyWorld.store_rungs, Function.update_of_ne hne]
  | tierRemove rung =>
    rcases hok with ⟨-, a', hcall⟩ | ⟨t, hst⟩ | ⟨t, snapshot, dst, v, hst, -⟩ | ⟨t, hst⟩
    · cases c <;> first | exact hc.elim | cases hcall
    · obtain rfl := hst
      cases hfits
    · obtain rfl := hst
      exact hfits.elim
    · obtain rfl := hst
      exact hfits.elim
  | peek | acquire | setState | failWithError | invalidate | release | prepare | abort
  | abortProvenClean | evictionCandidate | reserveEviction | tierGet | tierContains | fetch | register
  | notified | sleep | yieldNow | tierHealth | record =>
    exact h.keep (hnames (by simp) (by simp)) (by simp [opens]) (fun _ => rfl) rfl (hrungs rfl)

theorem Fits.cancel {opened : Option TierId} {st : Stage V} (h : Fits opened st) :
    Fits opened st.cancel := by
  cases st <;> first | exact h | trivial

theorem upholds : Upholds (sparingEviction V) Sparing where
  start {s φ i c rest} h _ hc hst := by
    refine ⟨?_, ?_, ?_, h.held⟩
    · exact (Function.forall_update_iff φ fun _ ψ => ψ.call.Contends).2 ⟨hc, fun j _ => h.calls j⟩
    · exact (Function.forall_update_iff φ fun j ψ => Fits (openWrite j s.trace) ψ.stage).2
        ⟨trivial, fun j _ => h.fits j⟩
    · exact (Function.forall_update_iff φ fun _ ψ => ψ.stage.token ≠ none →
        s.world.slot.isSome = true).2 ⟨fun hne => absurd rfl hne, fun j _ => h.made j⟩
  answer {s φ i c l q o a w} rest h _ _ hserves := by
    obtain rfl := hserves.call
    obtain ⟨hstub, hspares⟩ := hserves.good
    refine ⟨?_, ?_, ?_, ?_⟩
    · exact (Function.forall_update_iff φ fun _ ψ => ψ.call.Contends).2
        ⟨h.calls i, fun j _ => h.calls j⟩
    · refine (Function.forall_update_iff φ fun j ψ => Fits (openWrite j _) ψ.stage).2
        ⟨?_, fun j hj => ?_⟩
      · exact (h.fits i).next (h.calls i) hserves.allows hserves.exec (h.made i) hstub (if_pos rfl)
      · rw [Sys.answer_trace, openWrite_cons_of_ne (Ne.symm hj)]
        exact h.fits j
    · refine (Function.forall_update_iff φ fun _ ψ => ψ.stage.token ≠ none →
        w.slot.isSome = true).2 ⟨made_of_next hserves.allows hserves.exec (h.made i), ?_⟩
      intro j _ hj
      exact KeyWorld.exec_isSome hserves.exec (h.made j hj)
    · exact h.held.answer (h.fits i) (h.calls i) hserves.allows hserves.exec hstub hspares
  drop {s φ i c l q cancel k} rest h _ hpend hcall := by
    obtain rfl := hcall
    refine ⟨?_, ?_, ?_, h.held⟩
    · exact (Function.forall_update_iff φ fun _ ψ => ψ.call.Contends).2
        ⟨h.calls i, fun j _ => h.calls j⟩
    · exact (Function.forall_update_iff φ fun j ψ => Fits (openWrite j s.trace) ψ.stage).2
        ⟨(h.fits i).cancel, fun j _ => h.fits j⟩
    · refine (Function.forall_update_iff φ fun _ ψ => ψ.stage.token ≠ none →
        s.world.slot.isSome = true).2 ⟨?_, fun j _ => h.made j⟩
      rw [Stage.cancel_token]
      exact h.made i
  env h := ⟨h.calls, h.fits, h.made, h.held⟩

theorem sparing_initial (address : KeyAddress) :
    Sparing (.initial (.empty address)) fun _ => (⟨.evict, .idle⟩ : Phase V) where
  calls _ := trivial
  fits _ := trivial
  made _ h := absurd rfl h
  held := by
    have hnames : ∀ rung, ¬Names (KeyWorld.empty address : KeyWorld V).entry rung := by
      simp [Names]
    refine ⟨?_, fun rung hn => absurd hn (hnames rung)⟩
    rintro rung (hn | hp)
    · exact absurd hn (hnames rung)
    · simp [Pending, Sys.initial] at hp

end Eviction

/-- A value is set on `L0`. An eviction there has reserved it when a second `set`, to `rung`, runs
and commits; then the eviction removes the bytes from `L0`. -/
def setInsideEviction (rung : TierId) : List (Turn ℕ) :=
  [.start 1 (.set (.pinned .L0 none) 1),
    .run 1 {}, .run 1 {}, .run 1 {}, .run 1 {}, .run 1 {}, .run 1 {},
    .start 0 .evict, .run 0 { candidate := some (.of [0, 107] .default) }, .run 0 {},
    .start 1 (.set (.pinned rung none) 2),
    .run 1 {}, .run 1 {}, .run 1 {}, .run 1 {}, .run 1 {}, .run 1 {},
    .run 0 {}]

end TheSix
