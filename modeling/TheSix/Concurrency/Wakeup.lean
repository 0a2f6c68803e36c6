import TheSix.Control.Steps
import TheSix.Manager.Programs
import TheSix.Lib.Paths
import TheSix.Lib.Trace

/-!
# Waiting for somebody else's work

A caller that finds a key `InFlight` or `Prepared` waits in `wait_for_population`. It has a snapshot
of the entry from an earlier call, with the entry's `Notify` object in it. It registers there, looks
at the entry again, and waits unless the work is over.

The waiters run on a control plane whose other calls, on any key, go on around them. An entry stays
in its cell, so that its `Notify` object is the one that every snapshot of it carries; and every
call that takes the state out of `InFlight` and `Prepared` notifies (`ControlEntry.Step.follows`). A
waiter that has found the entry busy is therefore woken by the first such call after its look.

Of `tokio` it is assumed that `notify_waiters` completes every `Notified` that is enabled, and that
a `select!` returns when its first branch completes.
-/

namespace TheSix

open Coroutine

/-! ## What a call does to the waiters of an entry -/

/-- The entry was notified, or is busy if it was busy before. -/
def ControlEntry.Follows (e e' : ControlEntry) : Prop :=
  (e'.notifications = e.notifications ∧ (e.state.Busy → e'.state.Busy)) ∨
    e'.notifications = e.notifications + 1

/-- **Whatever a call does to an entry, it notifies when it ends the work on it.** -/
theorem ControlEntry.Step.follows {sets : EntryState → Prop} {e e' : ControlEntry}
    (h : e.Step sets e') : e.Follows e' := by
  cases h with
  | refl => exact Or.inl ⟨rfl, id⟩
  | claim => exact Or.inl ⟨rfl, fun _ => Or.inl rfl⟩
  | prepare => exact Or.inl ⟨rfl, fun _ => Or.inr rfl⟩
  | setGeneration | setTier => exact Or.inl ⟨rfl, id⟩
  | releasePopulationClaim hs ho =>
    rw [ControlEntry.releasePopulationClaim, if_neg (by simp [hs, ho])]
    exact Or.inr rfl
  | publish | fail | release | setState | bumpGeneration | evict | commit | abort | expire =>
    exact Or.inr rfl

namespace KeySlot

/-- The state of the entry; a missing one is absent. -/
def state (s : KeySlot) : EntryState := s.elim .absent (·.state)

/-- How often the entry was notified. -/
def notifications (s : KeySlot) : ℕ := s.elim 0 (·.notifications)

theorem Step.follows {sets : EntryState → Prop} {s s' : KeySlot} (h : s.Step sets s') :
    (s'.notifications = s.notifications ∧ (s.state.Busy → s'.state.Busy)) ∨
      s'.notifications = s.notifications + 1 := by
  cases h with
  | missing => exact Or.inl ⟨rfl, id⟩
  | entry h => exact h.follows
  | create h => exact h.follows

end KeySlot

/-! ## Waiters -/

variable {V : Type}

/-- A snapshot of the entry of the key, and the cell whose `Notify` object it carries. -/
structure Ticket where
  snapshot : ControlSnapshot
  cell : Option (ℕ × ℕ)
  deriving DecidableEq

/-- A control plane, and one of its keys. `tickets` are the snapshots of the key that calls have
returned, and `departures` counts how often its state has left `InFlight` and `Prepared`. -/
structure Watched where
  table : Cachelito
  address : KeyAddress
  now : ℕ
  tickets : List Ticket
  departures : ℕ

/-- What goes on around the waiters. -/
inductive Activity
  | tick (d : ℕ)
  | op (op : TableOp)

/-- The snapshot that a call of the control plane returns. -/
def EntryOp.returns : (op : EntryOp) → op.Answer → Option ControlSnapshot
  | .peek _, s | .acquire _ _, .ok s => some s
  | _, _ => none

namespace Watched

/-- The entry of the key. -/
def slot (w : Watched) : KeySlot := w.table.slots w.address

/-- The snapshot of the key that a call returns. -/
def returned (w : Watched) : TableOp → Option ControlSnapshot
  | .entry op => if op.address = w.address then op.returns (w.table.call w.now op).1 else none
  | _ => none

/-- A call of the control plane. -/
def call (w : Watched) (op : TableOp) : Watched :=
  let table := w.table.step (w.now, op)
  { w with
    table := table
    tickets := (w.returned op).toList.map (⟨·, table.locate w.address⟩) ++ w.tickets
    departures :=
      if w.slot.state.Busy ∧ ¬(table.slots w.address).state.Busy then w.departures + 1
      else w.departures }

/-- A move of the environment. -/
def act : Activity → Watched → Watched
  | .tick d, w => { w with now := w.now + d }
  | .op op, w => w.call op

/-- The requests of a waiter. An enabled `Notified` is the number of notifications before it; it is
completed when there were more. -/
def exec : (q : Req V) → Outcome V → Watched → Option (q.Answer × Watched)
  | .register notify, _, w =>
    match notify with
    | .entry => some (some w.slot.notifications, w)
    | .detached => some (none, w)
  | .peek, _, w => some (w.table.peek w.address w.now, w)
  | .notified epoch, o, w =>
    if o.timeout then some (.error .timeout, w)
    else if epoch.elim false (· != w.slot.notifications) then some (.ok (), w)
    else none
  | _, _, _ => none

end Watched

/-- Any number of calls of `wait_for_population` on one key. -/
def waiters (V : Type) :
    Machine Ticket Fn (Req V) Req.Answer (Except CacheError Unit) Watched (Outcome V)
      Activity where
  prog ticket := Manager.waitForPopulation ticket.snapshot
  exec := Watched.exec
  env := Watched.act

/-- A state of the waiters. -/
abbrev Waiters (V : Type) := Sys Ticket Fn (Req V) Req.Answer (Except CacheError Unit) Watched

/-- An answered request of a waiter. -/
abbrev Waited (V : Type) := Item Ticket Fn (Req V) Req.Answer Watched

/-- The `Notified` that a waiter waits for is completed. -/
def completed (s : Waiters V) (i : ℕ) : Bool :=
  match s.tasks i with
  | some ⟨_, .req _ (.notified (some n)) _ _⟩ => n != s.world.slot.notifications
  | _ => false

/-- A caller waits with a snapshot that it was returned, when that shows the entry busy; and a wait
whose `Notified` is completed does not time out any more. -/
def WaitsFairly (s : Waiters V) : Event Ticket (Outcome V) Activity → Prop
  | .start _ ticket => ticket ∈ s.world.tickets ∧ ticket.snapshot.state.Busy
  | .run i o => o.timeout = true → completed s i = false
  | .drop i o => ∀ o' ∈ o, o'.timeout = true → completed s i = false
  | .env _ => True

instance (s : Waiters V) : DecidablePred (WaitsFairly s)
  | .start _ _ => inferInstanceAs (Decidable (_ ∧ _))
  | .run _ _ => inferInstanceAs (Decidable (_ → _))
  | .drop _ o => inferInstanceAs (Decidable (∀ o' ∈ o, _))
  | .env _ => .isTrue trivial

/-- The item is a look at the entry that has found it busy. -/
def findsBusy : Waited V → Bool
  | ⟨_, _, _, .peek, s, _, _⟩ => s.state.Busy
  | _ => false

/-- What the answer to a wait is. -/
def waitEnds : Waited V → Option (Except CacheError Unit)
  | ⟨_, _, _, .notified _, a, _, _⟩ => some a
  | _ => none

/-- A wait has followed a look at a busy entry. It was woken, or has timed out before any call took
the state out of `InFlight` and `Prepared`. -/
def EndsWell (it : Waited V) (older : List (Waited V)) (r : Except CacheError Unit) : Prop :=
  ∃ look earlier, ofThread it.thread older = look :: earlier ∧ findsBusy look = true ∧
    (r = .ok () ∨ r = .error .timeout ∧ it.pre.departures = look.post.departures)

/-- No wakeup is lost. -/
structure NoLostWakeup (s : Waiters V) : Prop where
  /-- A call that takes the state out of `InFlight` and `Prepared` notifies the object of the
  entry's own cell. -/
  notifies : ∀ op, s.world.slot.state.Busy → ¬(s.world.call op).slot.state.Busy →
    (s.world.call op).slot.notifications = s.world.slot.notifications + 1 ∧
      (s.world.call op).table.locate s.world.address = s.world.table.locate s.world.address
  /-- The object a waiter has registered on is the one of the entry. -/
  registered : ∀ i c rest, s.tasks i = some ⟨c, rest⟩ →
    c.cell ≠ none ∧ s.world.table.locate s.world.address = c.cell
  /-- Every wait that is over was woken, or timed out before any such call. -/
  ended : ∀ it older r, it :: older <:+ s.trace → waitEnds it = some r → EndsWell it older r
  /-- A waiter is not blocked once there was such a call after its look. -/
  pending : ∀ i c l epoch cancel k, s.tasks i = some ⟨c, .req l (.notified epoch) cancel k⟩ →
    ∃ look earlier, ofThread i s.trace = look :: earlier ∧ findsBusy look = true ∧
      (s.world.departures ≠ look.post.departures →
        ∀ o : Outcome V, o.timeout = false →
          Watched.exec (.notified epoch) o s.world = some (.ok (), s.world))

/-! ## The protocol of a waiter -/

/-- Where a waiter stands. -/
inductive Watch
  /-- It is about to register on the object of the entry. -/
  | fresh
  /-- It has registered after `n` notifications. -/
  | registered (n : ℕ)
  /-- It has found the entry busy since, after `d` departures. -/
  | looked (n d : ℕ)
  /-- It is done, or was dropped. -/
  | finished

/-- The requests of a waiter, one after the other. -/
def watching (V : Type) : Discipline Watch Fn (Req V) Req.Answer where
  ok φ _ q :=
    match q with
    | .register notify => φ = .fresh ∧ notify = .entry
    | .peek => ∃ n, φ = .registered n
    | .notified epoch => ∃ n d, φ = .looked n d ∧ epoch = some n
    | _ => False
  tr φ _ q a φ' :=
    match q, a with
    | .register _, a => ∃ n, a = some n ∧ φ' = .registered n
    | .peek, s => ∃ n d, φ = .registered n ∧ φ' = if s.state.Busy then .looked n d else .finished
    | _, _ => φ' = .finished
  cancel _ := .finished

theorem waitForPopulation_watching {snapshot : ControlSnapshot} (h : snapshot.notify = .entry) :
    (Manager.waitForPopulation (V := V) snapshot).wp (watching V) (fun _ _ => True)
      (fun _ _ => True) .fresh := by
  simp only [Manager.waitForPopulation, Manager.call, Manager.await, Prog.req_bind, Prog.ret_bind,
    Prog.wp_req, watching]
  refine ⟨⟨trivial, h⟩, ?_, by simp⟩
  rintro a φ ⟨n, rfl, rfl⟩
  refine ⟨⟨n, rfl⟩, ?_, by simp⟩
  rintro now φ ⟨n', d, hn, rfl⟩
  cases hn
  by_cases hbusy : now.state.Busy
  · rw [if_pos hbusy, if_neg (by
      rintro ⟨hf, hp⟩
      exact hbusy.elim hf hp)]
    refine ⟨⟨n, d, rfl, rfl⟩, fun _ _ _ => trivial, ?_⟩
    rintro cs ⟨⟩
    exact ⟨trivial, fun _ _ _ => trivial⟩
  · rw [if_pos ⟨fun hf => hbusy (Or.inl hf), fun hp => hbusy (Or.inr hp)⟩]
    trivial

theorem ControlEntry.acquire_notify (e : ControlEntry) (tier : TierId) (now : ℕ) :
    (e.acquire tier now).1.notify = .entry := by
  unfold acquire
  split <;> rfl

/-- A snapshot that shows the entry busy was taken of an entry, and carries its object. -/
theorem EntryOp.returns_busy (op : EntryOp) {now : ℕ} {room : Bool} {slot : KeySlot}
    {s : ControlSnapshot} (h : op.returns (op.onSlot now room slot).1 = some s)
    (hbusy : s.state.Busy) : s.notify = .entry ∧ (op.onSlot now room slot).2.isSome = true := by
  cases op with
  | peek a =>
    simp only [returns, Option.some.injEq] at h
    subst h
    cases slot with
    | none => simp [onSlot, KeySlot.peek, ControlSnapshot.neverWritten, EntryState.Busy] at hbusy
    | some e => exact ⟨rfl, rfl⟩
  | acquire a tier =>
    cases slot with
    | some e =>
      simp only [onSlot, KeySlot.acquire, KeySlot.withOrCreate_some, returns,
        Option.some.injEq] at h
      subst h
      exact ⟨e.acquire_notify tier now, rfl⟩
    | none =>
      cases room with
      | false => simp [onSlot, KeySlot.acquire, KeySlot.withOrCreate, returns] at h
      | true =>
        simp only [onSlot, KeySlot.acquire, KeySlot.withOrCreate, if_true, returns,
          Option.some.injEq] at h
        subst h
        exact ⟨ControlEntry.acquire_notify _ tier now, rfl⟩
  | _ => cases h

namespace Watched

variable {w : Watched}

theorem slot_eq_none_iff (h : w.table.WellFormed) :
    w.slot = none ↔ w.table.locate w.address = none := by
  rw [slot, Cachelito.slots, Shard.findEntry_eq_none_iff (h.shard w.address), Cachelito.locate,
    Option.map_eq_none_iff]

theorem peek_state (w : Watched) : (w.table.peek w.address w.now).state = w.slot.state := by
  change (w.slot.peek w.now).state = w.slot.state
  cases w.slot <;> rfl

theorem locate_call (h : w.table.WellFormed) (op : TableOp) {p : ℕ × ℕ}
    (hp : w.table.locate w.address = some p) : (w.call op).table.locate w.address = some p := by
  cases op with
  | entry op => exact (h.call w.now op).locate _ _ hp
  | staleIntents i cutoff => exact hp
  | sweepExpired i => exact (h.sweepExpiredIn i w.now).2.2 _ _ hp

theorem follows (w : Watched) (h : w.table.WellFormed) (op : TableOp) :
    ((w.call op).slot.notifications = w.slot.notifications ∧
        (w.slot.state.Busy → (w.call op).slot.state.Busy)) ∨
      (w.call op).slot.notifications = w.slot.notifications + 1 := by
  have hop : op.Sets fun _ => True := by
    cases op with
    | entry op => cases op <;> trivial
    | staleIntents | sweepExpired => trivial
  exact (h.slots_step hop w.now w.address).follows

theorem call_departures (w : Watched) (op : TableOp) :
    (w.call op).departures =
      if w.slot.state.Busy ∧ ¬(w.call op).slot.state.Busy then w.departures + 1
      else w.departures := rfl

/-- A snapshot of a busy entry carries the object of the entry. -/
theorem returned_busy (h : w.table.WellFormed) {op : TableOp} {s : ControlSnapshot}
    (hs : w.returned op = some s) (hbusy : s.state.Busy) :
    s.notify = .entry ∧ (w.call op).table.locate w.address ≠ none := by
  cases op with
  | staleIntents | sweepExpired => cases hs
  | entry op =>
    simp only [returned] at hs
    split_ifs at hs with haddr
    have hcall := h.call w.now op
    rw [hcall.answer] at hs
    obtain ⟨hnotify, hsome⟩ := op.returns_busy hs hbusy
    refine ⟨hnotify, fun hnone => ?_⟩
    have hslot := (slot_eq_none_iff (w := w.call (.entry op)) hcall.wellFormed).2 hnone
    have hupdate : (w.call (.entry op)).slot = _ := congrFun hcall.slots w.address
    rw [hupdate, ← haddr, Function.update_self] at hslot
    rw [hslot] at hsome
    cases hsome

end Watched

/-! ## The invariant -/

/-- What a waiter knows at its stage; `mine` are its items, newest first. -/
def Watch.Knows (w : Watched) (mine : List (Waited V)) : Watch → Prop
  | .registered n => n ≤ w.slot.notifications
  | .looked n d =>
    (n < w.slot.notifications ∨
        (n = w.slot.notifications ∧ d = w.departures ∧ w.slot.state.Busy)) ∧
      ∃ look earlier, mine = look :: earlier ∧ findsBusy look = true ∧ look.post.departures = d
  | _ => True

/-- The invariant of the waiters. -/
structure Vigilant (s : Waiters V) (φ : ℕ → Watch) : Prop where
  wellFormed : s.world.table.WellFormed
  tickets : ∀ t ∈ s.world.tickets, t.snapshot.state.Busy →
    t.snapshot.notify = .entry ∧ t.cell ≠ none ∧ s.world.table.locate s.world.address = t.cell
  calls : ∀ i c rest, s.tasks i = some ⟨c, rest⟩ →
    c ∈ s.world.tickets ∧ c.snapshot.state.Busy
  knows : ∀ i, (φ i).Knows s.world (ofThread i s.trace)
  ended : ∀ it older r, it :: older <:+ s.trace → waitEnds it = some r → EndsWell it older r

namespace Vigilant

variable {s : Waiters V} {φ : ℕ → Watch} {i : ℕ} {c : Ticket}

theorem calls_update (h : Vigilant s φ) {rest : Prog Fn (Req V) Req.Answer _}
    (hc : c ∈ s.world.tickets ∧ c.snapshot.state.Busy) {j : ℕ} {c' : Ticket}
    {rest' : Prog Fn (Req V) Req.Answer _}
    (hj : Function.update s.tasks i (some ⟨c, rest⟩) j = some ⟨c', rest'⟩) :
    c' ∈ s.world.tickets ∧ c'.snapshot.state.Busy := by
  rw [Function.update_apply] at hj
  split_ifs at hj
  · obtain ⟨rfl, -⟩ := Task.mk.inj (Option.some.inj hj)
    exact hc
  · exact h.calls j c' rest' hj

/-- A thread is put at a program, at a stage that asks for nothing. -/
theorem leave (h : Vigilant s φ) {rest : Prog Fn (Req V) Req.Answer _} {st : Watch}
    (hc : c ∈ s.world.tickets ∧ c.snapshot.state.Busy)
    (hst : st.Knows s.world (ofThread i s.trace)) :
    Vigilant (s.leave i c rest) (Function.update φ i st) where
  wellFormed := h.wellFormed
  tickets := h.tickets
  calls _ _ _ hj := h.calls_update hc hj
  knows j := by
    rw [Function.update_apply]
    split_ifs with hij
    · subst hij
      exact hst
    · exact h.knows j
  ended := h.ended

/-- A request is answered and leaves the world as it was. -/
theorem answer (h : Vigilant s φ) {l : Fn} {q : Req V} {a : q.Answer}
    {rest : Prog Fn (Req V) Req.Answer _} {st : Watch}
    (hc : c ∈ s.world.tickets ∧ c.snapshot.state.Busy)
    (hst : st.Knows s.world (⟨i, c, l, q, a, s.world, s.world⟩ :: ofThread i s.trace))
    (hend : ∀ r, waitEnds ⟨i, c, l, q, a, s.world, s.world⟩ = some r →
      EndsWell ⟨i, c, l, q, a, s.world, s.world⟩ s.trace r) :
    Vigilant (s.answer i c l q a s.world rest) (Function.update φ i st) where
  wellFormed := h.wellFormed
  tickets := h.tickets
  calls _ _ _ hj := h.calls_update hc hj
  knows j := by
    rw [Machine.ofThread_answer, Function.update_apply]
    by_cases hij : j = i
    · subst hij
      rw [if_pos rfl, if_pos rfl]
      exact hst
    · rw [if_neg hij, if_neg (Ne.symm hij)]
      exact h.knows j
  ended it older r hit hr := by
    rw [Sys.answer_trace, List.suffix_cons_iff] at hit
    rcases hit with hit | hit
    · obtain ⟨rfl, rfl⟩ := List.cons.inj hit
      exact hend r hr
    · exact h.ended it older r hit hr

/-- Time passes, or a call of the control plane is made. -/
theorem act (h : Vigilant s φ) (e : Activity) :
    Vigilant { s with world := s.world.act e } φ := by
  cases e with
  | tick d => exact ⟨h.wellFormed, h.tickets, h.calls, h.knows, h.ended⟩
  | op op =>
    have hfollows := s.world.follows h.wellFormed op
    refine ⟨h.wellFormed.step _, ?_, ?_, ?_, h.ended⟩
    · intro t ht hbusy
      rcases List.mem_append.1 ht with ht | ht
      · obtain ⟨snapshot, hs, rfl⟩ := List.mem_map.1 ht
        obtain ⟨hn, hl⟩ := Watched.returned_busy h.wellFormed (Option.mem_toList.1 hs) hbusy
        exact ⟨hn, hl, rfl⟩
      · obtain ⟨hn, hcell, hl⟩ := h.tickets t ht hbusy
        obtain ⟨p, hp⟩ := Option.ne_none_iff_exists'.1 hcell
        refine ⟨hn, hcell, ?_⟩
        rw [hp] at hl ⊢
        exact Watched.locate_call h.wellFormed op hl
    · intro i c rest ht
      obtain ⟨hmem, hbusy⟩ := h.calls i c rest ht
      exact ⟨List.mem_append_right _ hmem, hbusy⟩
    · intro i
      have hknows := h.knows i
      cases hst : φ i with
      | fresh | finished => trivial
      | registered n =>
        rw [hst] at hknows
        have hle : n ≤ s.world.slot.notifications := hknows
        show n ≤ (s.world.call op).slot.notifications
        rcases hfollows with ⟨hsame, -⟩ | hmore <;> omega
      | looked n d =>
        rw [hst] at hknows
        obtain ⟨hcount, hlook⟩ := hknows
        refine ⟨?_, hlook⟩
        show n < (s.world.call op).slot.notifications ∨ (n = (s.world.call op).slot.notifications ∧
          d = (s.world.call op).departures ∧ (s.world.call op).slot.state.Busy)
        rcases hfollows with ⟨hsame, hstays⟩ | hmore
        · -- the call has not notified, so it has not ended the work either
          rcases hcount with hlt | ⟨rfl, rfl, hbusy⟩
          · exact Or.inl (by omega)
          · refine Or.inr ⟨hsame.symm, ?_, hstays hbusy⟩
            rw [Watched.call_departures, if_neg fun hleft => hleft.2 (hstays hbusy)]
        · exact Or.inl (by rcases hcount with hlt | ⟨rfl, -⟩ <;> omega)

end Vigilant

/-- The answer to a request of a waiter, whether the waiter sees it or not. -/
theorem Vigilant.next {s : Waiters V} {φ : ℕ → Watch} (h : Vigilant s φ) {i : ℕ} {c : Ticket}
    {l : Fn} {q : Req V} {cancel : Option (List (Req V))}
    {k : q.Answer → Prog Fn (Req V) Req.Answer _} (ht : s.tasks i = some ⟨c, .req l q cancel k⟩)
    {o : Outcome V} (ho : o.timeout = true → completed s i = false) {a : q.Answer} {w : Watched}
    (hexec : Watched.exec q o s.world = some (a, w)) (hok : (watching V).ok (φ i) l q) :
    w = s.world ∧ ∃ φ', (watching V).tr (φ i) l q a φ' ∧
      φ'.Knows s.world (⟨i, c, l, q, a, s.world, s.world⟩ :: ofThread i s.trace) ∧
      ∀ r, waitEnds ⟨i, c, l, q, a, s.world, s.world⟩ = some r →
        EndsWell ⟨i, c, l, q, a, s.world, s.world⟩ s.trace r := by
  have hknows := h.knows i
  cases q with
  | register notify =>
    obtain ⟨-, rfl⟩ := hok
    simp only [Watched.exec, Option.some.injEq, Prod.mk.injEq] at hexec
    obtain ⟨rfl, rfl⟩ := hexec
    refine ⟨rfl, .registered s.world.slot.notifications, ⟨_, rfl, rfl⟩, le_rfl, ?_⟩
    rintro r ⟨⟩
  | peek =>
    obtain ⟨n, hφ⟩ := hok
    simp only [Watched.exec, Option.some.injEq, Prod.mk.injEq] at hexec
    obtain ⟨rfl, rfl⟩ := hexec
    rw [hφ] at hknows
    refine ⟨rfl, _, ⟨n, s.world.departures, hφ, rfl⟩, ?_, ?_⟩
    · split_ifs with hbusy
      · refine ⟨?_, _, _, rfl, by simpa [findsBusy] using hbusy, rfl⟩
        rcases lt_or_eq_of_le (show n ≤ s.world.slot.notifications from hknows) with hlt | heq
        · exact Or.inl hlt
        · rw [Watched.peek_state] at hbusy
          exact Or.inr ⟨heq, rfl, hbusy⟩
      · trivial
    · rintro r ⟨⟩
  | notified epoch =>
    obtain ⟨n, d, hφ, rfl⟩ := hok
    rw [hφ] at hknows
    obtain ⟨hcount, look, earlier, hmine, hlook, hd⟩ := hknows
    simp only [Watched.exec] at hexec
    split_ifs at hexec with htime hwoken
    · simp only [Option.some.injEq, Prod.mk.injEq] at hexec
      obtain ⟨rfl, rfl⟩ := hexec
      refine ⟨rfl, .finished, rfl, trivial, ?_⟩
      rintro r ⟨⟩
      have hn : n = s.world.slot.notifications := by
        have hopen := ho htime
        simpa [completed, ht] using hopen
      refine ⟨look, earlier, hmine, hlook, Or.inr ⟨rfl, ?_⟩⟩
      rcases hcount with hlt | ⟨-, hdep, -⟩
      · omega
      · show s.world.departures = look.post.departures
        rw [hd, hdep]
    · simp only [Option.some.injEq, Prod.mk.injEq] at hexec
      obtain ⟨rfl, rfl⟩ := hexec
      refine ⟨rfl, .finished, rfl, trivial, ?_⟩
      rintro r ⟨⟩
      exact ⟨look, earlier, hmine, hlook, Or.inl rfl⟩
  | _ => exact hok.elim

theorem vigilant_keeps :
    Machine.Keeps (waiters V) (watching V) (fun _ _ => True) Vigilant WaitsFairly := by
  refine ⟨?_, ?_, ?_, ?_, ?_⟩
  · intro s φ i c h hstart _
    have hnotify := (h.1.tickets c hstart.1 hstart.2).1
    exact ⟨.fresh, waitForPopulation_watching hnotify, h.1.leave hstart trivial⟩
  · intro s φ i c l q cancel k o a w h ht ho _ hexec hok
    obtain ⟨rfl, φ', htr, hknows, hend⟩ := h.1.next ht ho hexec hok
    exact ⟨φ', htr, h.1.answer (h.1.calls i c _ ht) hknows hend⟩
  · intro s φ i c l q cs k o a w h ht ho _ hexec hok
    obtain ⟨rfl, φ', htr, -, hend⟩ := h.1.next ht (ho o rfl) hexec hok
    have hknows : Watch.finished.Knows s.world (⟨i, c, l, q, a, s.world, s.world⟩ ::
      ofThread i s.trace) := trivial
    exact ⟨φ', htr, h.1.answer (h.1.calls i c _ ht) hknows hend⟩
  · intro s φ i c l q cs k h _ ht
    exact h.leave (h.calls i c _ ht) trivial
  · intro s φ e h _
    exact h.act e

theorem vigilant_initial {table : Cachelito} (h : table.WellFormed) (address : KeyAddress)
    (now : ℕ) :
    Vigilant (.initial ⟨table, address, now, [], 0⟩ : Waiters V) fun _ => .finished where
  wellFormed := h
  tickets := by simp [Sys.initial]
  calls := by simp [Sys.initial]
  knows _ := trivial
  ended := by simp [Sys.initial]

/-- The key `k`, as a control plane of default placement addresses it. -/
def watchedKey : KeyAddress := .of [0, 107] .default

/-- A population is claimed, and a second caller is shown that; it waits until the population is
published. -/
def wokenWaiter : List (Event Ticket (Outcome ℕ) Activity) :=
  let claim := EntryOp.acquire watchedKey .L0
  let first := (Cachelito.sized 1 2).call 1 claim
  let second := first.2.call 1 claim
  [.env (.op (.entry claim)), .env (.op (.entry claim)),
    .start 0 ⟨(claim.returns second.1).getD .neverWritten, second.2.locate watchedKey⟩,
    .run 0 {}, .run 0 {}, .env (.op (.entry (.publish watchedKey 1 .L0 none))), .run 0 {}]

end TheSix
