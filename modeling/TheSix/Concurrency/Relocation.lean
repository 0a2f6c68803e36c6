import TheSix.Manager.Runs

/-!
# One move among writes

`move_entry` copies a value to its destination, removes it from the source, and commits; when the
commit is refused it removes the copy from the destination and aborts. The removals look at
nothing. A `set` that has stored its value on one of the two rungs, and commits before or after,
loses it there.

Three things lose a committed write, and nothing else does (`Careful`): a removal that meets a
rung in use, the early return of a move whose destination is not bound, which aborts the intent it
has just recorded, and a `set` that gives up after its last lost race, with its value still on the
rung. What carries the proof is that as long as a `set` was committed and the entry is not `Ready`,
somebody still owes it a commit (`Owed`): a `set` that has not given up, or the move while its
token is good.
-/

namespace TheSix

open Coroutine

variable {V : Type}

/-- The call of thread `i`, a `set` of `x`, has returned `Ok`. -/
def ReturnedOk (s : System V) (i : ℕ) (x : V) : Prop :=
  s.result i = some (.done (.ok ())) ∧ (s.tasks i).bind (·.call.stores) = some x

instance [DecidableEq V] (s : System V) (i : ℕ) (x : V) : Decidable (ReturnedOk s i x) :=
  inferInstanceAs (Decidable (_ ∧ _))

/-- A commit is refused. -/
def refusesCommit : Served V → Bool
  | ⟨_, _, _, .commit _ _, .error _, _, _⟩ => true
  | _ => false

/-- How often a commit of thread `i` was refused. -/
def refusals (i : ℕ) (trace : List (Served V)) : ℕ :=
  trace.countP fun it => it.thread == i && refusesCommit it

/-- The rung on which thread `i` has stored a value whose commit is still to come. -/
def storedOn (i : ℕ) : List (Served V) → Option TierId
  | [] => none
  | it :: older =>
    if it.thread = i then
      match it.req with
      | .tierSet rung _ _ => some rung
      | .commit _ _ => none
      | _ => storedOn i older
    else storedOn i older

/-- The last thing a thread did was to record an intent. -/
def justPrepared (i : ℕ) (trace : List (Served V)) : Bool :=
  match trace.find? (·.thread == i) with
  | some ⟨_, _, _, .prepare _ _, _, _, _⟩ => true
  | _ => false

/-- The key is not evicted. -/
def Unevicted : Served V → Prop
  | ⟨_, _, _, .reserveEviction address, _, pre, _⟩
  | ⟨_, _, _, .removeIfAddress _ address, _, pre, _⟩ => address ≠ pre.address
  | _ => True

instance : DecidablePred (Unevicted (V := V)) := fun ⟨_, _, _, q, _, _, _⟩ => by
  induction q using Req.casesOn <;> dsimp only [Unevicted] <;> infer_instance

/-- A removal meets neither the rung of a `Ready` entry nor one on which a value awaits its commit,
a move does not abort right after its `prepare`, and no `set` loses its last race. -/
def Careful (s : System V) : Served V → Prop
  | ⟨_, _, _, .tierRemove rung, _, pre, _⟩ =>
    ¬(pre.entry.state = .ready ∧ pre.entry.tier = rung) ∧
      ∀ it ∈ s.trace, storedOn it.thread s.trace ≠ some rung
  | ⟨i, _, _, .abort _ _, _, _, _⟩ => justPrepared i s.trace = false
  | ⟨i, .set _ _, _, .commit token _, _, pre, _⟩ =>
    (pre.entry.generation = token.generation ∧ pre.entry.state = .prepared) ∨
      refusals i s.trace + 1 < Manager.maxCommitAttempts
  | _ => True

instance (s : System V) : DecidablePred (Careful s) := fun ⟨_, c, _, q, _, _, _⟩ => by
  induction q using Req.casesOn
  case commit => induction c using Call.casesOn <;> dsimp only [Careful] <;> infer_instance
  all_goals (dsimp only [Careful]; infer_instance)

/-- One `promote` or `demote` on thread 0 and any number of `set` calls, each on a thread of its
own, on tiers that behave as maps. Nothing is dropped or evicted. -/
def oneMove (V : Type) : Terms V where
  starts s i c := (s.tasks i).isNone = true ∧ ((i = 0 ∧ c.Moves) ∨ (i ≠ 0 ∧ ∃ a v, c = .set a v))
  outcome := Outcome.Exact
  drops := False
  good _ := Unevicted

instance : DecidablePred (Call.Moves (V := V)) := fun c => by
  induction c using Call.casesOn <;> dsimp only [Call.Moves] <;> infer_instance

instance : (oneMove V).Checkable where
  starts s i c := inferInstanceAs (Decidable ((s.tasks i).isNone = true ∧
    ((i = 0 ∧ c.Moves) ∨ (i ≠ 0 ∧ ∃ a v, c = .set a v))))
  outcome := inferInstanceAs (DecidablePred Outcome.Exact)
  drops := .isFalse id
  good _ it := inferInstanceAs (Decidable (Unevicted it))

/-- The same, as long as every step is careful. -/
def carefulMove (V : Type) : Terms V :=
  { oneMove V with good := fun s it => Unevicted it ∧ Careful s it }

instance : (carefulMove V).Checkable where
  starts s i c := inferInstanceAs (Decidable ((s.tasks i).isNone = true ∧
    ((i = 0 ∧ c.Moves) ∨ (i ≠ 0 ∧ ∃ a v, c = .set a v))))
  outcome := inferInstanceAs (DecidablePred Outcome.Exact)
  drops := .isFalse id
  good s it := inferInstanceAs (Decidable (Unevicted it ∧ Careful s it))

namespace Relocation

/-- A write that has begun; here it goes on until it is committed. -/
def begun : Stage V → Bool
  | .writing _ _ _ | .wrote _ _ _ | .beaten _ _ _ | .retrying _ | .committed => true
  | _ => false

/-- A write that has begun and is not committed. -/
def owes : Stage V → Bool
  | .writing _ _ _ | .wrote _ _ _ | .beaten _ _ _ | .retrying _ => true
  | _ => false

/-- The token of a move that goes on to its commit. -/
def carries : Stage V → Option CommitToken
  | .moving t _ _ | .carrying t _ _ _ | .copied t _ _ _ | .cleared t _ _ _ => some t
  | _ => none

/-- `x` is the value of a write that has begun. -/
def Began (φ : ℕ → Phase V) (x : V) : Prop :=
  ∃ j a, (φ j).call = .set a x ∧ begun (φ j).stage = true

/-- Once something was committed, the entry is `Ready`, or somebody will make it so. -/
def Owed (s : System V) (φ : ℕ → Phase V) : Prop :=
  s.world.entry.state = .ready ∨ (∃ j, owes (φ j).stage = true) ∨
    (∃ t, carries (φ 0).stage = some t ∧ s.world.entry.state = .prepared ∧
      s.world.entry.generation = t.generation) ∨
    ∀ j, (φ j).stage ≠ .committed

/-- What thread `i` knows in its stage. -/
def Fits (s : System V) (φ : ℕ → Phase V) (i : ℕ) : Stage V → Prop
  | .idle => i ≠ 0 → refusals i s.trace = 0
  | .seen snapshot =>
    (i ≠ 0 → refusals i s.trace = 0) ∧
      (i = 0 → snapshot.state = .ready → s.world.rungs snapshot.tier ≠ none)
  | .writing token rung lost =>
    i ≠ 0 ∧ token.targetTier = rung.asU8 ∧ lost = refusals i s.trace
  | .wrote token rung lost =>
    i ≠ 0 ∧ token.targetTier = rung.asU8 ∧ lost = refusals i s.trace ∧
      s.world.rungs rung ≠ none ∧ storedOn i s.trace = some rung
  | .beaten _ _ lost =>
    i ≠ 0 ∧ lost + 1 = refusals i s.trace ∧ lost + 1 < Manager.maxCommitAttempts
  | .retrying lost => i ≠ 0 ∧ lost = refusals i s.trace ∧ lost < Manager.maxCommitAttempts
  | .moving token snapshot dst =>
    i = 0 ∧ token.targetTier = dst.asU8 ∧ snapshot.tier ≠ dst ∧
      s.world.rungs snapshot.tier ≠ none ∧ justPrepared i s.trace = true
  | .carrying token snapshot dst v =>
    i = 0 ∧ token.targetTier = dst.asU8 ∧ snapshot.tier ≠ dst ∧ Began φ v
  | .copied token snapshot dst _ =>
    i = 0 ∧ token.targetTier = dst.asU8 ∧ snapshot.tier ≠ dst ∧ s.world.rungs dst ≠ none
  | .cleared token _ dst _ =>
    i = 0 ∧ token.targetTier = dst.asU8 ∧ s.world.rungs dst ≠ none
  | .backing _ _ | .undoing _ => i = 0
  | .committed => True
  | _ => False

/-- No committed write is lost. -/
structure Kept (s : System V) (φ : ℕ → Phase V) : Prop where
  roles : ∀ i t, s.tasks i = some t →
    (i = 0 ∧ t.call.Moves) ∨ (i ≠ 0 ∧ ∃ a v, t.call = .set a v)
  fits : ∀ i, Fits s φ i (φ i).stage
  made : ∀ i, begun (φ i).stage = true ∨ (φ i).stage.token ≠ none → s.world.slot.isSome = true
  stored : ∀ rung x, s.world.rungs rung = some x → Began φ x
  named : s.world.entry.state = .ready → s.world.rungs s.world.entry.tier ≠ none
  owed : Owed s φ

variable {s : System V} {φ : ℕ → Phase V} {i j : ℕ} {c : Call V} {l : Fn} {q : Req V}
  {o : Outcome V} {a : q.Answer} {w : KeyWorld V}
  {rest : Prog Fn (Req V) Req.Answer (Option (Reply V))}

/-! ## Looking back along the trace -/

theorem refusals_cons (it : Served V) (trace : List (Served V)) :
    refusals i (it :: trace) =
      refusals i trace + if it.thread = i ∧ refusesCommit it = true then 1 else 0 := by
  simp [refusals, List.countP_cons]

theorem storedOn_of_ne {it : Served V} {trace : List (Served V)} (h : it.thread ≠ j) :
    storedOn j (it :: trace) = storedOn j trace := if_neg h

theorem justPrepared_of_ne {it : Served V} {trace : List (Served V)} (h : it.thread ≠ j) :
    justPrepared j (it :: trace) = justPrepared j trace := by
  simp [justPrepared, h]

/-- Whoever has stored a value is in the trace. -/
theorem mem_of_storedOn {trace : List (Served V)} {rung : TierId}
    (h : storedOn j trace = some rung) : ∃ it ∈ trace, it.thread = j := by
  induction trace with
  | nil => cases h
  | cons it older ih =>
    by_cases hj : it.thread = j
    · exact ⟨it, List.mem_cons_self, hj⟩
    · rw [storedOn_of_ne hj] at h
      obtain ⟨it', hit, hthread⟩ := ih h
      exact ⟨it', List.mem_cons_of_mem it hit, hthread⟩

/-! ## What survives a step -/

theorem Fits.mono {s' : System V} {φ' : ℕ → Phase V} {st : Stage V}
    (hrefusals : refusals j s'.trace = refusals j s.trace)
    (hstored : storedOn j s'.trace = storedOn j s.trace)
    (hjust : (∀ t snapshot dst, st ≠ .moving t snapshot dst) ∨
      justPrepared j s'.trace = justPrepared j s.trace)
    (hbegan : ∀ x, Began φ x → Began φ' x)
    (hrungs : ∀ rung, s.world.rungs rung ≠ none → s'.world.rungs rung ≠ none ∨
      (j ≠ 0 ∧ storedOn j s.trace ≠ some rung))
    (h : Fits s φ j st) : Fits s' φ' j st := by
  -- a rung the thread relies on is not emptied
  have hmover : ∀ {rung}, j = 0 → s.world.rungs rung ≠ none → s'.world.rungs rung ≠ none :=
    fun hj hr => (hrungs _ hr).resolve_right fun h => h.1 hj
  cases st
  case idle => exact fun hj => hrefusals.trans (h hj)
  case seen =>
    exact ⟨fun hj => hrefusals.trans (h.1 hj), fun hj hr => hmover hj (h.2 hj hr)⟩
  case writing => exact ⟨h.1, h.2.1, h.2.2.trans hrefusals.symm⟩
  case wrote =>
    obtain ⟨hj, ht, hl, hr, hs⟩ := h
    exact ⟨hj, ht, hl.trans hrefusals.symm, (hrungs _ hr).resolve_right fun h => h.2 hs,
      hstored.trans hs⟩
  case beaten => exact ⟨h.1, h.2.1.trans hrefusals.symm, h.2.2⟩
  case retrying => exact ⟨h.1, h.2.1.trans hrefusals.symm, h.2.2⟩
  case moving t snapshot dst =>
    obtain ⟨hj, ht, hne, hr, hp⟩ := h
    have hjust := hjust.resolve_left fun h => h t snapshot dst rfl
    exact ⟨hj, ht, hne, hmover hj hr, hjust.trans hp⟩
  case carrying => exact ⟨h.1, h.2.1, h.2.2.1, hbegan _ h.2.2.2⟩
  case copied => exact ⟨h.1, h.2.1, h.2.2.1, hmover h.1 h.2.2.2⟩
  case cleared => exact ⟨h.1, h.2.1, hmover h.1 h.2.2⟩
  all_goals exact h

theorem began_update {st : Stage V} (hcall : begun (φ i).stage = true → (φ i).call = c)
    (hbegun : begun (φ i).stage = true → begun st = true) {x : V} (hx : Began φ x) :
    Began (Function.update φ i ⟨c, st⟩) x := by
  obtain ⟨j, a, hj, hb⟩ := hx
  refine ⟨j, a, ?_⟩
  by_cases hji : j = i
  · subst hji
    rw [Function.update_self]
    exact ⟨(hcall hb).symm.trans hj, hbegun hb⟩
  · rw [Function.update_of_ne hji]
    exact ⟨hj, hb⟩

/-- What is owed stays owed while the entry stays as it is, and the thread goes on. -/
theorem Owed.keep {s' : System V} {st : Stage V} (h : Owed s φ)
    (hw : s'.world.entry = s.world.entry) (howes : owes (φ i).stage = true → owes st = true)
    (hcarries : i = 0 → carries st = carries (φ i).stage)
    (hcommitted : st = .committed → (φ i).stage = .committed) :
    Owed s' (Function.update φ i ⟨c, st⟩) := by
  rcases h with hr | ⟨j, hj⟩ | ⟨t, ht, hlive⟩ | hnone
  · exact Or.inl (hw ▸ hr)
  · refine Or.inr (Or.inl ⟨j, ?_⟩)
    by_cases hji : j = i
    · subst hji
      rw [Function.update_self]
      exact howes hj
    · rw [Function.update_of_ne hji]
      exact hj
  · refine Or.inr (Or.inr (Or.inl ⟨t, ?_, hw ▸ hlive⟩))
    by_cases hi : 0 = i
    · subst hi
      rw [Function.update_self]
      exact (hcarries rfl).trans ht
    · rw [Function.update_of_ne hi]
      exact ht
  · refine Or.inr (Or.inr (Or.inr ?_))
    exact (Function.forall_update_iff φ fun j ψ => ψ.stage ≠ .committed).2
      ⟨fun h => hnone i (hcommitted h), fun j _ => hnone j⟩

theorem owed_of_owes {s' : System V} {st : Stage V} (h : owes st = true) :
    Owed s' (Function.update φ i ⟨c, st⟩) :=
  Or.inr (Or.inl ⟨i, by rwa [Function.update_self]⟩)

/-! ## One step -/

section Step

variable (h : Kept s φ) (hserves : (carefulMove V).Serves s (φ i) i c l q o a w)

include h hserves

theorem Kept.role : (i = 0 ∧ c.Moves) ∨ (i ≠ 0 ∧ ∃ a v, c = .set a v) := by
  obtain ⟨cancel, k, hpend⟩ := hserves.pending
  exact h.roles i _ hpend

/-- What a step of thread `i` has to show. -/
theorem Kept.step {st : Stage V}
    (hfit : Fits (s.answer i c l q a w rest) (Function.update φ i ⟨c, st⟩) i st)
    (hbegun : begun (φ i).stage = true → begun st = true)
    (hmade : begun st = true ∨ st.token ≠ none → w.slot.isSome = true)
    (hstored : ∀ rung x, w.rungs rung = some x →
      s.world.rungs rung = some x ∨ Began (Function.update φ i ⟨c, st⟩) x)
    (hkept : ∀ rung, s.world.rungs rung ≠ none → w.rungs rung ≠ none ∨
      (i = 0 ∧ ∀ j, storedOn j s.trace ≠ some rung))
    (hnamed : w.entry.state = .ready → w.rungs w.entry.tier ≠ none)
    (howed : Owed (s.answer i c l q a w rest) (Function.update φ i ⟨c, st⟩)) :
    Kept (s.answer i c l q a w rest) (Function.update φ i ⟨c, st⟩) := by
  have hbegan : ∀ x, Began φ x → Began (Function.update φ i ⟨c, st⟩) x :=
    fun _ hx => began_update (fun _ => hserves.call) hbegun hx
  refine ⟨?_, ?_, ?_, ?_, hnamed, howed⟩
  · refine (Function.forall_update_iff s.tasks fun j x => ∀ t, x = some t →
      (j = 0 ∧ t.call.Moves) ∨ (j ≠ 0 ∧ ∃ a v, t.call = .set a v)).2 ⟨?_, fun j _ => h.roles j⟩
    intro t ht
    obtain rfl := Option.some.inj ht
    exact h.role hserves
  · intro j
    by_cases hj : j = i
    · subst hj
      rw [Function.update_self]
      exact hfit
    · rw [Function.update_of_ne hj]
      have hij : i ≠ j := fun e => hj e.symm
      refine (h.fits j).mono ?_ (storedOn_of_ne hij) (Or.inr (justPrepared_of_ne hij)) hbegan ?_
      · rw [Sys.answer_trace, refusals_cons, if_neg fun h => hij h.1, Nat.add_zero]
      · intro rung hr
        exact (hkept rung hr).imp_right fun hs => ⟨fun hj0 => hj (hj0.trans hs.1.symm), hs.2 j⟩
  · refine (Function.forall_update_iff φ fun j ψ =>
      begun ψ.stage = true ∨ ψ.stage.token ≠ none → w.slot.isSome = true).2
      ⟨hmade, fun j _ hj => KeyWorld.exec_isSome hserves.exec (h.made j hj)⟩
  · intro rung x hx
    rcases hstored rung x hx with hold | hnew
    · exact hbegan x (h.stored rung x hold)
    · exact hnew

/-- A step that leaves the entry and the rungs as they are. -/
theorem Kept.keep (hw : w.entry = s.world.entry) (hr : w.rungs = s.world.rungs) {st : Stage V}
    (hfit : Fits (s.answer i c l q a w rest) (Function.update φ i ⟨c, st⟩) i st)
    (hbegun : begun st = begun (φ i).stage) (htoken : st.token = (φ i).stage.token)
    (howes : owes st = owes (φ i).stage) (hcarries : i = 0 → carries st = carries (φ i).stage)
    (hcommitted : st = .committed → (φ i).stage = .committed) :
    Kept (s.answer i c l q a w rest) (Function.update φ i ⟨c, st⟩) := by
  refine h.step hserves hfit (fun hb => hbegun.trans hb) ?_ (fun rung x hx => Or.inl (hr ▸ hx))
    (fun rung hne => Or.inl (hr ▸ hne)) ?_
    (h.owed.keep hw (fun ho => howes.trans ho) hcarries hcommitted)
  · intro hst
    rw [hbegun, htoken] at hst
    exact KeyWorld.exec_isSome hserves.exec (h.made i hst)
  · rw [hw, hr]
    exact h.named

/-- A step that changes nothing and leaves the thread where it is. -/
theorem Kept.stay (hw : w.entry = s.world.entry) (hr : w.rungs = s.world.rungs)
    (hq : ∀ token ttl, q ≠ .commit token ttl) (hq' : ∀ rung v ttl, q ≠ .tierSet rung v ttl)
    (hst : ∀ t snapshot dst, (φ i).stage ≠ .moving t snapshot dst) :
    Kept (s.answer i c l q a w rest) (Function.update φ i ⟨c, (φ i).stage⟩) := by
  refine h.keep hserves hw hr ?_ rfl rfl rfl (fun _ => rfl) id
  refine (h.fits i).mono ?_ ?_ (Or.inl hst) ?_ (fun rung hne => Or.inl ?_)
  · rw [Sys.answer_trace, refusals_cons, if_neg, Nat.add_zero]
    rintro ⟨-, hc⟩
    cases q <;> first | exact hq _ _ rfl | cases hc
  · rw [Sys.answer_trace, storedOn, if_pos rfl]
    cases q <;> first | exact absurd rfl (hq _ _) | exact absurd rfl (hq' _ _ _) | rfl
  · exact fun x hx => began_update (fun _ => hserves.call) id hx
  · rw [Sys.answer_world, hr]
    exact hne

end Step

/-! ## The requests -/

theorem Kept.peek (h : Kept s φ) {a : ControlSnapshot}
    (hserves : (carefulMove V).Serves s (φ i) i c l .peek o a w) :
    Kept (s.answer i c l .peek a w rest)
      (Function.update φ i ⟨c, Phase.next (φ i).stage l .peek a⟩) := by
  obtain ⟨hstate, -, htier, -, rfl⟩ := KeyWorld.exec_peek hserves.exec
  have hfits := h.fits i
  rcases hserves.allows with hst | ⟨snapshot, v, hst⟩ | hst
  · rw [hst] at hfits ⊢
    refine h.keep hserves rfl rfl ⟨?_, ?_⟩ (by simp [hst, Phase.next, begun])
      (by simp [hst, Phase.next]) (by simp [hst, Phase.next, owes])
      (by simp [hst, Phase.next, carries]) (by simp [Phase.next])
    · intro hi
      simpa [refusals_cons, refusesCommit] using hfits hi
    · intro _ hr
      rw [hstate] at hr
      rw [htier]
      exact h.named hr
  · rw [hst] at hfits
    exact hfits.elim
  · rw [hst] at hfits
    exact hfits.elim

theorem Kept.tierGet (h : Kept s φ) {rung : TierId} {a : Except CacheError (Option V)}
    (hserves : (carefulMove V).Serves s (φ i) i c l (.tierGet rung) o a w) :
    Kept (s.answer i c l (.tierGet rung) a w rest)
      (Function.update φ i ⟨c, Phase.next (φ i).stage l (.tierGet rung) a⟩) := by
  obtain ⟨ha, rfl⟩ := KeyWorld.exec_tierGet_exact hserves.outcome hserves.exec
  have hfits := h.fits i
  rcases hserves.allows with ⟨snapshot, hst, -, -, -, hreads⟩ | ⟨again, snapshot, hst, -⟩ | hst |
    ⟨hst, -⟩ | ⟨token, snapshot, dst, hst, rfl⟩
  · rw [hserves.call] at hreads
    rcases h.role hserves with ⟨-, hmoves⟩ | ⟨-, a', v, hset⟩
    · cases c <;> first | exact hreads.elim | exact hmoves.elim
    · rw [hset] at hreads
      exact hreads.elim
  · rw [hst] at hfits
    exact hfits.elim
  · rw [hst] at hfits
    exact hfits.elim
  · rw [hst] at hfits
    exact hfits.elim
  · rw [hst] at hfits ⊢
    obtain ⟨hi, htarget, hne, hsource, -⟩ := hfits
    -- the source still holds something
    obtain ⟨v, hv⟩ := Option.ne_none_iff_exists'.1 hsource
    rw [hv] at ha
    subst ha
    refine h.keep hserves rfl rfl ⟨hi, htarget, hne, ?_⟩ (by simp [hst, Phase.next, begun])
      (by simp [hst, Phase.next]) (by simp [hst, Phase.next, owes])
      (by simp [hst, Phase.next, carries]) (by simp [Phase.next])
    exact began_update (fun _ => hserves.call) (by simp [hst, begun]) (h.stored _ v hv)

/-- Storing the value of a write that has begun, or of the move. -/
theorem Kept.tierSet (h : Kept s φ) {rung : TierId} {v : V} {ttl : Option ℕ}
    {a : Except CacheError Unit}
    (hserves : (carefulMove V).Serves s (φ i) i c l (.tierSet rung v ttl) o a w) :
    Kept (s.answer i c l (.tierSet rung v ttl) a w rest)
      (Function.update φ i ⟨c, Phase.next (φ i).stage l (.tierSet rung v ttl) a⟩) := by
  obtain ⟨rfl, rfl⟩ := KeyWorld.exec_tierSet_exact hserves.outcome hserves.exec
  have hfits := h.fits i
  have hmade := h.made i
  have hstored : ∀ {st : Stage V}, Began (Function.update φ i ⟨c, st⟩) v → ∀ r x,
      (s.world.store rung (some v)).rungs r = some x →
      s.world.rungs r = some x ∨ Began (Function.update φ i ⟨c, st⟩) x := by
    intro st hv r x hx
    rw [KeyWorld.store_rungs, Function.update_apply] at hx
    split_ifs at hx
    · exact Or.inr (Option.some.inj hx ▸ hv)
    · exact Or.inl hx
  have hkept : ∀ r, s.world.rungs r ≠ none → (s.world.store rung (some v)).rungs r ≠ none := by
    intro r hr
    rw [KeyWorld.store_rungs, Function.update_apply]
    split_ifs
    · exact Option.some_ne_none v
    · exact hr
  have hnew : (s.world.store rung (some v)).rungs rung ≠ none := by simp
  rcases hserves.allows with ⟨claimed, g, hst⟩ | ⟨token, lost, a', hst, hcall⟩ | ⟨token, snapshot, hst⟩
  · rw [hst] at hfits
    exact hfits.elim
  · rw [hst] at hfits hmade ⊢
    rw [hserves.call] at hcall
    obtain ⟨hi, htarget, hlost⟩ := hfits
    refine h.step hserves ⟨hi, htarget, ?_, hnew, ?_⟩ (fun _ => rfl) (fun _ => hmade (Or.inl rfl))
      (hstored ⟨i, a', ?_⟩) (fun r hr => Or.inl (hkept r hr)) (fun hr => hkept _ (h.named hr))
      (owed_of_owes rfl)
    · simpa [refusals_cons, refusesCommit] using hlost
    · simp [storedOn]
    · rw [Function.update_self]
      exact ⟨hcall, rfl⟩
  · rw [hst] at hfits hmade ⊢
    obtain ⟨hi, htarget, hne, hv⟩ := hfits
    refine h.step hserves ⟨hi, htarget, hne, hnew⟩ (by simp [hst, begun])
      (fun _ => hmade (Or.inr (by simp)))
      (hstored (began_update (fun _ => hserves.call) (by simp [hst, begun]) hv))
      (fun r hr => Or.inl (hkept r hr)) (fun hr => hkept _ (h.named hr)) ?_
    exact h.owed.keep rfl (by simp [hst, owes]) (by simp [hst, carries, Phase.next])
      (by simp [Phase.next])

/-- A removal empties a rung that nobody relies on. -/
theorem Kept.tierRemove (h : Kept s φ) {rung : TierId} {a : Except CacheError Unit}
    (hserves : (carefulMove V).Serves s (φ i) i c l (.tierRemove rung) o a w) :
    Kept (s.answer i c l (.tierRemove rung) a w rest)
      (Function.update φ i ⟨c, Phase.next (φ i).stage l (.tierRemove rung) a⟩) := by
  obtain ⟨rfl, rfl⟩ := KeyWorld.exec_tierRemove_exact hserves.outcome hserves.exec
  obtain ⟨hready, hawaited⟩ := hserves.good.2
  have hfits := h.fits i
  have hmade := h.made i
  have hother : ∀ r, r ≠ rung → s.world.rungs r ≠ none →
      (s.world.store rung none).rungs r ≠ none := by
    intro r hr hne
    rwa [KeyWorld.store_rungs, Function.update_of_ne hr]
  have hkept : i = 0 → ∀ r, s.world.rungs r ≠ none → (s.world.store rung none).rungs r ≠ none ∨
      (i = 0 ∧ ∀ j, storedOn j s.trace ≠ some r) := by
    intro hi r hne
    by_cases hr : r = rung
    · refine Or.inr ⟨hi, fun j hj => ?_⟩
      obtain ⟨it, hit, rfl⟩ := mem_of_storedOn hj
      exact hawaited it hit (hr ▸ hj)
    · exact Or.inl (hother r hr hne)
  have hnamed : (s.world.store rung none).entry.state = .ready →
      (s.world.store rung none).rungs (s.world.store rung none).entry.tier ≠ none := by
    intro hr
    exact hother _ (fun ht => hready ⟨hr, ht⟩) (h.named hr)
  rcases hserves.allows with ⟨-, a', hcall⟩ | ⟨token, hst⟩ | ⟨token, snapshot, dst, v, hst, rfl⟩ |
    ⟨token, hst⟩
  · rw [hserves.call] at hcall
    rcases h.role hserves with ⟨-, hmoves⟩ | ⟨-, a'', v, hset⟩
    · rw [hcall] at hmoves
      exact hmoves.elim
    · exact absurd (hset.symm.trans hcall) (by simp)
  · rw [hst] at hfits
    exact hfits.elim
  · rw [hst] at hfits hmade ⊢
    obtain ⟨hi, htarget, hne, hdst⟩ := hfits
    refine h.step hserves ⟨hi, htarget, hother _ hne.symm hdst⟩ (by simp [hst, begun])
      (fun _ => hmade (Or.inr (by simp))) (fun r x hx => Or.inl (KeyWorld.rungs_of_store_none hx))
      (hkept hi) hnamed ?_
    exact h.owed.keep rfl (by simp [hst, owes]) (by simp [hst, carries, Phase.next])
      (by simp [Phase.next])
  · rw [hst] at hfits hmade ⊢
    refine h.step hserves hfits (by simp [hst, begun]) (fun _ => hmade (Or.inr (by simp)))
      (fun r x hx => Or.inl (KeyWorld.rungs_of_store_none hx)) (hkept hfits) hnamed ?_
    exact h.owed.keep rfl (by simp [hst, owes]) (by simp [hst, carries, Phase.next])
      (by simp [Phase.next])

theorem Kept.prepare (h : Kept s φ) {rung : TierId} {kind : IntentKind}
    {a : Except CacheError CommitToken}
    (hserves : (carefulMove V).Serves s (φ i) i c l (.prepare rung kind) o a w) :
    Kept (s.answer i c l (.prepare rung kind) a w rest)
      (Function.update φ i ⟨c, Phase.next (φ i).stage l (.prepare rung kind) a⟩) := by
  have hfits := h.fits i
  have hrefusals : refusals i (⟨i, c, l, .prepare rung kind, a, s.world, w⟩ :: s.trace) =
      refusals i s.trace := by simp [refusals_cons, refusesCommit]
  rcases KeyWorld.exec_prepare hserves.exec with ⟨e, rfl, rfl, hnone⟩ | ⟨rfl, rfl⟩
  · -- a write that has begun has an entry, and is not refused here
    have hmade : ¬(begun (φ i).stage = true ∨ (φ i).stage.token ≠ none) := by
      intro hm
      have := h.made i hm
      simp [hnone] at this
    have hst : (φ i).stage = .idle ∨ ∃ snapshot, (φ i).stage = .seen snapshot := by
      cases kind with
      | write =>
        rcases hserves.allows.2 with hst | hst | ⟨lost, hst⟩
        · exact Or.inl hst
        · exact Or.inr hst
        · simp [hst, begun] at hmade
      | move =>
        obtain ⟨-, snapshot, hst, -⟩ := hserves.allows
        exact Or.inr ⟨snapshot, hst⟩
    have hzero : i ≠ 0 → refusals i s.trace = 0 := by
      rcases hst with hst | ⟨snapshot, hst⟩
      · rw [hst] at hfits
        exact hfits
      · rw [hst] at hfits
        exact hfits.1
    refine h.keep hserves rfl rfl (fun hi => hrefusals.trans (hzero hi)) ?_ ?_ ?_ ?_ (by rintro ⟨⟩) <;>
      rcases hst with hst | ⟨snapshot, hst⟩ <;> simp [hst, Phase.next, begun, owes, carries]
  cases kind with
  | write =>
    obtain ⟨⟨a', v, hcall⟩, hst⟩ := hserves.allows
    rw [hserves.call] at hcall
    have hi : i ≠ 0 := by
      rcases h.role hserves with ⟨-, hmoves⟩ | ⟨hi, -⟩
      · rw [hcall] at hmoves
        exact hmoves.elim
      · exact hi
    have hwriting : ∀ lost, lost = refusals i s.trace →
        Kept (s.answer i c l (.prepare rung .write) (.ok (s.world.entry.tokenFor rung .write))
          (s.world.putEntry (s.world.entry.preparedFor
            (s.world.entry.intentFor rung .write s.world.now))) rest)
          (Function.update φ i ⟨c, .writing (s.world.entry.tokenFor rung .write) rung lost⟩) := by
      intro lost hlost
      exact h.step hserves ⟨hi, rfl, hlost.trans hrefusals.symm⟩ (fun _ => rfl) (fun _ => rfl)
        (fun _ _ hx => Or.inl hx) (fun _ hr => Or.inl hr) (by simp) (owed_of_owes rfl)
    rcases hst with hst | ⟨snapshot, hst⟩ | ⟨lost, hst⟩
    · rw [hst] at hfits ⊢
      exact hwriting 0 (hfits hi).symm
    · rw [hst] at hfits ⊢
      exact hwriting 0 (hfits.1 hi).symm
    · rw [hst] at hfits ⊢
      exact hwriting lost hfits.2.1
  | move =>
    obtain ⟨hmoves, snapshot, hst, hready, hne⟩ := hserves.allows
    rw [hserves.call] at hmoves
    have hi : i = 0 := by
      rcases h.role hserves with ⟨hi, -⟩ | ⟨-, a', v, hset⟩
      · exact hi
      · rw [hset] at hmoves
        exact hmoves.elim
    rw [hst] at hfits ⊢
    refine h.step hserves ⟨hi, rfl, hne, hfits.2 hi hready, by simp [justPrepared]⟩
      (by simp [hst, begun]) (fun _ => rfl) (fun _ _ hx => Or.inl hx) (fun _ hr => Or.inl hr)
      (by simp) ?_
    -- the move has the entry now, and a good token for it
    refine Or.inr (Or.inr (Or.inl ⟨s.world.entry.tokenFor rung .move, ?_, rfl, rfl⟩))
    rw [hi, Function.update_self]
    rfl

/-- A commit that is accepted makes the entry `Ready` at a rung that holds something. -/
theorem Kept.commit_ok (h : Kept s φ) {token : CommitToken} {ttl : Option ℕ} {rung : TierId}
    (hserves : (carefulMove V).Serves s (φ i) i c l (.commit token ttl) o (.ok ())
      (s.world.putEntry (s.world.entry.committed token ttl s.world.now)))
    (htarget : token.targetTier = rung.asU8) (hrung : s.world.rungs rung ≠ none) :
    Kept (s.answer i c l (.commit token ttl) (.ok ())
      (s.world.putEntry (s.world.entry.committed token ttl s.world.now)) rest)
      (Function.update φ i ⟨c, .committed⟩) := by
  refine h.step hserves trivial (fun _ => rfl) (fun _ => rfl) (fun _ _ hx => Or.inl hx)
    (fun _ hr => Or.inl hr) (fun _ => ?_) (Or.inl rfl)
  simpa only [KeyWorld.putEntry_rungs, KeyWorld.putEntry_entry, ControlEntry.committed_tier,
    htarget, TierId.fromIndex_asU8, Option.getD_some] using hrung

theorem Kept.commit (h : Kept s φ) {token : CommitToken} {ttl : Option ℕ}
    {a : Except CacheError Unit}
    (hserves : (carefulMove V).Serves s (φ i) i c l (.commit token ttl) o a w) :
    Kept (s.answer i c l (.commit token ttl) a w rest)
      (Function.update φ i ⟨c, Phase.next (φ i).stage l (.commit token ttl) a⟩) := by
  have hfits := h.fits i
  have hmade := h.made i
  rcases hserves.allows with ⟨rung, lost, hst⟩ | ⟨snapshot, dst, v, hst⟩
  · rw [hst] at hfits hmade
    obtain ⟨hi, htarget, hlost, hrung, -⟩ := hfits
    rcases KeyWorld.exec_commit hserves.exec with ⟨e, rfl, rfl, hdead, hstale⟩ | ⟨rfl, -, -, rfl⟩
    · obtain rfl := hstale (hmade (Or.inl rfl))
      obtain ⟨a', v, rfl⟩ : ∃ a v, c = .set a v := by
        rcases h.role hserves with ⟨hi0, -⟩ | ⟨-, hset⟩
        · exact absurd hi0 hi
        · exact hset
      have hraces : refusals i s.trace + 1 < Manager.maxCommitAttempts :=
        Or.resolve_left hserves.good.2 hdead
      rw [hst]
      refine h.keep hserves rfl rfl ⟨hi, ?_, ?_⟩ (by simp [hst, Phase.next, begun])
        (by simp [hst, Phase.next]) (by simp [hst, Phase.next, owes]) (fun h => absurd h hi)
        (by simp [Phase.next])
      · simp [refusals_cons, refusesCommit, hlost]
      · rw [hlost]
        exact hraces
    · exact h.commit_ok hserves htarget hrung
  · rw [hst] at hfits hmade
    obtain ⟨hi, htarget, hdst⟩ := hfits
    rcases KeyWorld.exec_commit hserves.exec with ⟨e, rfl, rfl, hdead, -⟩ | ⟨rfl, -, -, rfl⟩
    · rw [hst]
      refine h.step hserves hi (by simp [hst, begun]) (fun _ => hmade (Or.inr (by simp)))
        (fun _ _ hx => Or.inl hx) (fun _ hr => Or.inl hr) h.named ?_
      -- the token was not good any more, so the commit was somebody else's to make
      rcases h.owed with hr | ⟨j, hj⟩ | ⟨t, ht, hp, hg⟩ | hnone
      · exact Or.inl hr
      · refine Or.inr (Or.inl ⟨j, ?_⟩)
        have hji : j ≠ i := by
          rintro rfl
          simp [hst, owes] at hj
        rwa [Function.update_of_ne hji]
      · rw [← hi, hst] at ht
        obtain rfl := Option.some.inj ht
        exact absurd ⟨hg, hp⟩ hdead
      · refine Or.inr (Or.inr (Or.inr ?_))
        exact (Function.forall_update_iff φ fun j ψ => ψ.stage ≠ .committed).2
          ⟨by simp [Phase.next], fun j _ => hnone j⟩
    · exact h.commit_ok hserves htarget hdst

theorem Kept.abort (h : Kept s φ) {token : CommitToken} {e : CacheError}
    {a : Except CacheError Unit}
    (hserves : (carefulMove V).Serves s (φ i) i c l (.abort token e) o a w) :
    Kept (s.answer i c l (.abort token e) a w rest)
      (Function.update φ i ⟨c, Phase.next (φ i).stage l (.abort token e) a⟩) := by
  have hfits := h.fits i
  have hmade := h.made i
  have hrungs : w.rungs = s.world.rungs := KeyWorld.exec_rungs rfl hserves.exec
  have hnamed : w.entry.state = .ready → w.rungs w.entry.tier ≠ none := by
    rcases KeyWorld.exec_abort hserves.exec with ⟨-, rfl⟩ | ⟨-, rfl⟩
    · exact h.named
    · simp
  rcases hserves.allows with hst | ⟨rung, lost, hst⟩ | ⟨rung, e, hst⟩ | ⟨snapshot, dst, hst⟩
  · rw [hst] at hfits hmade ⊢
    have hi : i = 0 := hfits
    refine h.step hserves (fun hne => absurd hi hne) (by simp [hst, begun]) (by simp [Phase.next, begun])
      (fun _ _ hx => Or.inl (hrungs ▸ hx)) (fun _ hr => Or.inl (hrungs ▸ hr)) hnamed ?_
    rcases KeyWorld.exec_abort hserves.exec with ⟨-, rfl⟩ | ⟨hp, rfl⟩
    · exact h.owed.keep rfl (by simp [hst, owes]) (by simp [hst, carries, Phase.next])
        (by simp [Phase.next])
    · -- whose intent it was goes on
      rcases h.owed with hr | ⟨j, hj⟩ | ⟨t, ht, -⟩ | hnone
      · exact absurd (hr.symm.trans hp) (by simp)
      · refine Or.inr (Or.inl ⟨j, ?_⟩)
        have hji : j ≠ i := by
          rintro rfl
          simp [hst, owes] at hj
        rwa [Function.update_of_ne hji]
      · rw [← hi, hst] at ht
        cases ht
      · refine Or.inr (Or.inr (Or.inr ?_))
        exact (Function.forall_update_iff φ fun j ψ => ψ.stage ≠ .committed).2
          ⟨by simp [Phase.next], fun j _ => hnone j⟩
  · rw [hst] at hfits hmade ⊢
    obtain ⟨hi, hlost, hraces⟩ := hfits
    refine h.step hserves ⟨hi, ?_, hraces⟩ (fun _ => rfl)
      (fun _ => KeyWorld.exec_isSome hserves.exec (hmade (Or.inl rfl)))
      (fun _ _ hx => Or.inl (hrungs ▸ hx)) (fun _ hr => Or.inl (hrungs ▸ hr)) hnamed
      (owed_of_owes rfl)
    simpa [refusals_cons, refusesCommit] using hlost
  · rw [hst] at hfits
    exact hfits.elim
  · rw [hst] at hfits
    obtain ⟨-, -, -, -, hjust⟩ := hfits
    exact absurd (hjust.symm.trans hserves.good.2) (by simp)

/-- Every careful step keeps the committed writes. -/
theorem Kept.answer (h : Kept s φ) (hserves : (carefulMove V).Serves s (φ i) i c l q o a w) :
    Kept (s.answer i c l q a w rest)
      (Function.update φ i ⟨c, Phase.next (φ i).stage l q a⟩) := by
  have hallows := hserves.allows
  have hfits := h.fits i
  have hgood := hserves.good.1
  -- these calls neither populate nor read by a snapshot
  have hcall : ¬(φ i).call.Populates ∧ ¬(φ i).call.Reads ∧ (∀ a, (φ i).call ≠ .invalidate a) ∧
      ∀ a, (φ i).call ≠ .remove a := by
    rw [hserves.call]
    rcases h.role hserves with ⟨-, hmoves⟩ | ⟨-, a', v, rfl⟩
    · cases c <;> simp_all [Call.Moves, Call.Populates, Call.Reads]
    · simp [Call.Populates, Call.Reads]
  cases q with
  | peek => exact h.peek hserves
  | tierGet rung => exact h.tierGet hserves
  | tierSet rung v ttl => exact h.tierSet hserves
  | tierRemove rung => exact h.tierRemove hserves
  | prepare rung kind => exact h.prepare hserves
  | commit token ttl => exact h.commit hserves
  | abort token e => exact h.abort hserves
  | reserveEviction address =>
    rcases KeyWorld.exec_reserveEviction hserves.exec with ⟨rfl, -⟩ | ⟨haddr, -, -⟩
    · refine h.stay hserves rfl rfl (by simp) (by simp) ?_
      rcases hallows.2 with hst | ⟨snapshot, hst⟩ <;> simp [hst]
    · exact absurd haddr hgood
  | removeIfAddress rung address =>
    rcases KeyWorld.exec_removeIfAddress hserves.exec with rfl | ⟨haddr, -⟩
    · refine h.stay hserves rfl rfl (by simp) (by simp) ?_
      rcases hallows.2 with hst | ⟨snapshot, hst⟩ <;> simp [hst]
    · exact absurd haddr hgood
  | evictionCandidate rung =>
    refine h.stay hserves (KeyWorld.exec_entry rfl hserves.exec) (KeyWorld.exec_rungs rfl hserves.exec)
      (by simp) (by simp) ?_
    rcases hallows.2 with hst | ⟨snapshot, hst⟩ <;> simp [hst]
  | tierContains rung =>
    obtain ⟨snapshot, hst, -⟩ := hallows
    exact h.stay hserves (KeyWorld.exec_entry rfl hserves.exec)
      (KeyWorld.exec_rungs rfl hserves.exec) (by simp) (by simp) (by simp [hst])
  | tierHealth rung =>
    refine h.stay hserves (KeyWorld.exec_entry rfl hserves.exec)
      (KeyWorld.exec_rungs rfl hserves.exec) (by simp) (by simp) ?_
    rcases hallows with ⟨snapshot, hst⟩ | ⟨hst, -⟩ <;> simp [hst]
  | record rung result =>
    exact h.stay hserves (KeyWorld.exec_entry rfl hserves.exec)
      (KeyWorld.exec_rungs rfl hserves.exec) (by simp) (by simp) hallows.2.2
  | yieldNow =>
    obtain ⟨token, rung, lost, hst⟩ := hallows
    exact h.stay hserves (KeyWorld.exec_entry rfl hserves.exec)
      (KeyWorld.exec_rungs rfl hserves.exec) (by simp) (by simp) (by simp [hst])
  | acquire tier => exact absurd hallows.1 hcall.1
  | setState state =>
    rcases hallows.2 with ⟨snapshot, -, -, hreads⟩ | ⟨snapshot, hst, -⟩
    · exact absurd hreads hcall.2.1
    · rw [hst] at hfits
      exact hfits.elim
  | register notify =>
    rcases hallows with ⟨snapshot, -, -, -, hreads⟩ | ⟨again, snapshot, hst, -⟩
    · exact absurd hreads hcall.2.1
    · rw [hst] at hfits
      exact hfits.elim
  | invalidate =>
    obtain ⟨-, a', hc⟩ := hallows
    exact absurd hc (hcall.2.2.1 a')
  | release =>
    obtain ⟨-, a', hc⟩ := hallows
    exact absurd hc (hcall.2.2.2 a')
  | publish g rung ttl =>
    obtain ⟨claimed, v, hst⟩ := hallows
    rw [hst] at hfits
    exact hfits.elim
  | failWithError e =>
    rcases hallows with hpop | ⟨snapshot, hst, -⟩ | ⟨snapshot, hst, -⟩
    · cases hst : (φ i).stage <;> rw [hst] at hpop hfits <;>
        first | exact hfits.elim | cases hpop
    · rw [hst] at hfits
      exact hfits.elim
    · rw [hst] at hfits
      exact hfits.elim
  | abortProvenClean token e =>
    obtain ⟨rung, hst, -⟩ := hallows
    rw [hst] at hfits
    exact hfits.elim
  | fetch =>
    rcases hallows with ⟨-, ⟨claimed, g, v, hst⟩ | ⟨snapshot, hst, -⟩ | ⟨snapshot, hst, -⟩⟩ <;>
      rw [hst] at hfits <;> exact hfits.elim
  | notified epoch =>
    rw [show (φ i).stage = .waiting from hallows] at hfits
    exact hfits.elim
  | sleep =>
    obtain ⟨claimed, g, v, hst⟩ := hallows
    rw [hst] at hfits
    exact hfits.elim

/-! ## All runs -/

theorem Kept.start (h : Kept s φ) (hB : Belongs s φ) (hi : (s.tasks i).isNone = true)
    (hrole : (i = 0 ∧ c.Moves) ∨ (i ≠ 0 ∧ ∃ a v, c = .set a v)) :
    Kept (s.leave i c rest) (Function.update φ i ⟨c, .idle⟩) := by
  have hst : (φ i).stage = .idle := (hB i).1 (Option.isNone_iff_eq_none.1 hi)
  have hbegan : ∀ x, Began φ x → Began (Function.update φ i ⟨c, .idle⟩) x :=
    fun _ hx => began_update (by simp [hst, begun]) (by simp [hst, begun]) hx
  refine ⟨?_, ?_, ?_, fun rung x hx => hbegan x (h.stored rung x hx), h.named, ?_⟩
  · refine (Function.forall_update_iff s.tasks fun j x => ∀ t, x = some t →
      (j = 0 ∧ t.call.Moves) ∨ (j ≠ 0 ∧ ∃ a v, t.call = .set a v)).2 ⟨?_, fun j _ => h.roles j⟩
    intro t ht
    obtain rfl := Option.some.inj ht
    exact hrole
  · intro j
    have hfits : Fits s φ j (Function.update φ i ⟨c, .idle⟩ j).stage := by
      by_cases hj : j = i
      · subst hj
        rw [Function.update_self, ← hst]
        exact h.fits j
      · rw [Function.update_of_ne hj]
        exact h.fits j
    exact hfits.mono rfl rfl (Or.inr rfl) hbegan fun _ hr => Or.inl hr
  · exact (Function.forall_update_iff φ fun j ψ =>
      begun ψ.stage = true ∨ ψ.stage.token ≠ none → s.world.slot.isSome = true).2
      ⟨by simp [begun], fun j _ => h.made j⟩
  · exact h.owed.keep rfl (by simp [hst, owes]) (by simp [hst]) (by simp)

theorem upholds : Upholds (carefulMove V) Kept where
  start h hB hc _ := h.start hB hc.1 hc.2
  answer _ h _ _ hserves := h.answer hserves
  drop _ _ hdrops := hdrops.elim
  env h := ⟨h.roles, fun i => (h.fits i).mono rfl rfl (Or.inr rfl) (fun _ => id) fun _ => Or.inl,
    h.made, h.stored, h.named, h.owed⟩

theorem kept_initial (address : KeyAddress) :
    Kept (.initial (.empty address)) fun _ => (⟨.evict, .idle⟩ : Phase V) where
  roles _ _ := by rintro ⟨⟩
  fits _ := fun _ => rfl
  made _ := by simp [begun]
  stored _ _ := by rintro ⟨⟩
  named := by rintro ⟨⟩
  owed := Or.inr (Or.inr (Or.inr fun _ => by rintro ⟨⟩))

theorem settled_of_begun {st : Stage V} (h : begun st = true) (hs : st.Settled) :
    st = .committed ∨ ∃ lost, st = .retrying lost := by
  cases st <;> simp_all [begun]

theorem token_of_carries {st : Stage V} {t : CommitToken} (h : carries st = some t) :
    st.token = some t := by
  cases st <;> simp_all [carries]

/-- Whoever owes a commit runs a `set`. -/
theorem Kept.set_of_owes (h : Kept s φ) (hB : Belongs s φ) (hj : owes (φ j).stage = true) :
    ∃ a v, (φ j).call = .set a v := by
  have hne : j ≠ 0 := by
    have hfits := h.fits j
    cases hst : (φ j).stage <;> rw [hst] at hj hfits <;> first | exact hfits.1 | cases hj
  cases ht : s.tasks j with
  | none =>
    rw [(hB j).1 ht] at hj
    cases hj
  | some t =>
    rw [(hB j).2 t ht]
    exact ((h.roles j t ht).resolve_left fun h => hne h.1).2

/-- A write that has begun and has finished was committed. -/
theorem Kept.committed_of_begun (h : Kept s φ) (hB : Belongs s φ) (hC : Conforming s φ)
    (hreturns : ∀ i t, s.tasks i = some t → t.rest.Returns) (hq : s.Quiescent)
    (hj : begun (φ j).stage = true) {a : Args} {v : V} (hcall : (φ j).call = .set a v) :
    (φ j).stage = .committed ∧ ReturnedOk s j v := by
  cases ht : s.tasks j with
  | none =>
    rw [(hB j).1 ht] at hj
    cases hj
  | some t =>
    obtain ⟨c, rest⟩ := t
    obtain ⟨r, rfl⟩ : ∃ r, rest = .ret r := hq j _ ht
    have hr : r ≠ none := hreturns j _ ht
    have hc : c = .set a v := ((hB j).2 _ ht).symm.trans hcall
    obtain ⟨hok, hlost⟩ := (hC.final ht rfl).2.2.2 a v hcall hr
    have hcommitted : (φ j).stage = .committed := by
      rcases settled_of_begun hj (hC.settled hB (hq j)) with hst | ⟨lost, hst⟩
      · exact hst
      · -- nobody has lost every race
        have hfits := h.fits j
        rw [hst] at hfits
        exact absurd (hlost lost hst) (Nat.ne_of_lt hfits.2.2)
    refine ⟨hcommitted, ?_, ?_⟩
    · simp only [Sys.result, ht]
      exact hok.2 hcommitted
    · simp [ht, hc, Call.stores]

end Relocation

/-- **A move loses no committed write** in any interleaving whose steps are careful: when everything
has finished and some `set` has returned `Ok`, the entry is `Ready`, and the rung it names holds
the value of a `set` that has returned `Ok`. -/
theorem ready_of_returnedOk {tiers : ℕ} {address : KeyAddress} {schedule : List (Turn V)}
    (hT : (carefulMove V).Hold tiers (.empty address) schedule)
    (hq : ((manager V tiers).run (.empty address) schedule).Quiescent)
    (hset : ∃ i x, ReturnedOk ((manager V tiers).run (.empty address) schedule) i x) :
    ((manager V tiers).run (.empty address) schedule).world.entry.state = .ready ∧
    ∃ x, ((manager V tiers).run (.empty address) schedule).world.rungs
        ((manager V tiers).run (.empty address) schedule).world.entry.tier = some x ∧
      ∃ j, ReturnedOk ((manager V tiers).run (.empty address) schedule) j x := by
  obtain ⟨φ, hr⟩ := Relocation.upholds.run (Relocation.kept_initial address) (fun _ => rfl) hT
  have hreturns := fun i t => hT.returns (i := i) (t := t) (fun h : False => h)
  revert hr hq hset hreturns
  generalize (manager V tiers).run (.empty address) schedule = s
  intro hq hset hr hreturns
  have hcommitted := fun j (hj : Relocation.begun (φ j).stage = true) a v =>
    hr.inv.committed_of_begun (a := a) (v := v) hr.belongs hr.conforming hreturns hq hj
  -- nobody owes a commit any more
  have hready : s.world.entry.state = .ready := by
    rcases hr.inv.owed with hready | ⟨j, hj⟩ | ⟨t, ht, -⟩ | hnone
    · exact hready
    · obtain ⟨a, v, hcall⟩ := hr.inv.set_of_owes hr.belongs hj
      have hbegun : Relocation.begun (φ j).stage = true := by
        cases hst : (φ j).stage <;> rw [hst] at hj <;> first | rfl | cases hj
      rw [(hcommitted j hbegun a v hcall).1] at hj
      cases hj
    · have hfree := (hr.conforming.settled hr.belongs (hq 0)).1
      exact absurd (hfree.symm.trans (Relocation.token_of_carries ht)) (by simp)
    · obtain ⟨i, x, hok, hx⟩ := hset
      obtain ⟨c, ht⟩ := Sys.result_eq_some hok
      rw [ht] at hx
      obtain ⟨a, rfl⟩ := Call.eq_set_of_stores hx
      have hcall : (φ i).call = .set a x := (hr.belongs i).2 _ ht
      obtain ⟨hiff, -⟩ := (hr.conforming.final ht rfl).2.2.2 a x hcall (Option.some_ne_none _)
      exact absurd (hiff.1 rfl) (hnone i)
  obtain ⟨x, hx⟩ := Option.ne_none_iff_exists'.1 (hr.inv.named hready)
  obtain ⟨j, a, hcall, hj⟩ := hr.inv.stored _ x hx
  exact ⟨hready, x, hx, j, (hcommitted j hj a x hcall).2⟩

/-- A write commits on the source after the move has emptied it, and the move is refused. -/
def overtakenMove : List (Turn ℕ) :=
  [.start 1 (.set (.pinned .L1 none) 1),
    .run 1 {}, .run 1 {}, .run 1 {}, .run 1 {}, .run 1 {}, .run 1 {},
    .start 0 (.promote (.pinned .L1 none)), .run 0 {}, .run 0 {}, .run 0 {}, .run 0 {}, .run 0 {},
    .run 0 {}, .run 0 {},
    .start 2 (.set (.pinned .L1 none) 2),
    .run 2 {}, .run 2 {}, .run 2 {}, .run 2 {}, .run 2 {}, .run 2 {},
    .run 0 {}, .run 0 {}, .run 0 {}]

theorem ready_of_returnedOk_overtakenMove :
    (carefulMove ℕ).Hold 2 .unwritten overtakenMove ∧
      ReturnedOk ((manager ℕ 2).run .unwritten overtakenMove) 2 2 ∧
      ((manager ℕ 2).run .unwritten overtakenMove).world.entry.state = .ready := by
  have hhold : (carefulMove ℕ).Hold 2 .unwritten overtakenMove := by decide +kernel
  have hok : ReturnedOk ((manager ℕ 2).run .unwritten overtakenMove) 2 2 := by decide +kernel
  have hq : ((manager ℕ 2).run .unwritten overtakenMove).Quiescent :=
    Machine.quiescent_run (n := 3) rfl (by decide +kernel)
  exact ⟨hhold, hok, (ready_of_returnedOk hhold hq ⟨2, 2, hok⟩).1⟩

/-- A write commits on the source after the move has copied the value, and before it removes it. -/
def trampledWrite : List (Turn ℕ) :=
  [.start 1 (.set (.pinned .L1 none) 1),
    .run 1 {}, .run 1 {}, .run 1 {}, .run 1 {}, .run 1 {}, .run 1 {},
    .start 0 (.promote (.pinned .L1 none)), .run 0 {}, .run 0 {}, .run 0 {}, .run 0 {}, .run 0 {},
    .start 2 (.set (.pinned .L1 none) 2),
    .run 2 {}, .run 2 {}, .run 2 {}, .run 2 {}, .run 2 {}, .run 2 {},
    .run 0 {}, .run 0 {}, .run 0 {}, .run 0 {}, .run 0 {}]

theorem trampledWrite_quiescent : ((manager ℕ 2).run .unwritten trampledWrite).Quiescent :=
  Machine.quiescent_run (n := 3) rfl (by decide +kernel)

/-- Both writes have returned `Ok`, and the rung that the entry names holds nothing. -/
theorem trampledWrite_loses_value :
    (oneMove ℕ).Hold 2 .unwritten trampledWrite ∧
      ((manager ℕ 2).run .unwritten trampledWrite).Quiescent ∧
      ReturnedOk ((manager ℕ 2).run .unwritten trampledWrite) 1 1 ∧
      ReturnedOk ((manager ℕ 2).run .unwritten trampledWrite) 2 2 ∧
      ((manager ℕ 2).run .unwritten trampledWrite).world.rungs
        ((manager ℕ 2).run .unwritten trampledWrite).world.entry.tier = none := by
  refine ⟨?_, trampledWrite_quiescent, ?_⟩ <;> decide +kernel

end TheSix
