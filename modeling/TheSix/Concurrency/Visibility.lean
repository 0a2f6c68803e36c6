import TheSix.Manager.Runs

/-!
# What a reader can see

A `set` stores its value on a rung before it commits, and `get` reads the rung of a `Ready` entry
and then checks the state once more. A value that was never committed reaches a reader in three
ways, and in no other (`Orderly`). A second intent is recorded over an outstanding one, or an
outstanding one is marked stale, so that two calls write at once and one is committed with the
bytes of the other. A move acts on a snapshot that is out of date, and carries off what an aborted
write has left on a rung. And the second look of `get` compares the state only: an intent may have
been given up, and another one committed, since the first.
-/

namespace TheSix

open Coroutine

variable {V : Type}

/-- The calls of a key's readers, writers and movers. -/
def Call.Plain : Call V → Prop
  | .get _ | .set _ _ | .promote _ | .demote _ => True
  | _ => False

instance : DecidablePred (Call.Plain (V := V)) := fun c => by
  induction c using Call.casesOn <;> dsimp only [Call.Plain] <;> infer_instance

/-- What thread `i` was shown, when the item is a look of its at the entry. -/
def shown (i : ℕ) : Served V → Option ControlSnapshot
  | ⟨j, _, _, .peek, s, _, _⟩ => if j = i then some s else none
  | _ => none

/-- What thread `i` was shown last. -/
def lastShown (i : ℕ) (trace : List (Served V)) : Option ControlSnapshot := trace.findSome? (shown i)

/-- An outstanding intent is given up. -/
def givesIntentUp (it : Served V) : Bool :=
  match it.req with
  | .abort _ _ => it.pre.entry.state == .prepared
  | _ => false

/-- No intent was given up since thread `i` last looked at the entry. -/
def undisturbedSinceShown (i : ℕ) (trace : List (Served V)) : Bool :=
  (trace.takeWhile fun it => (shown i it).isNone).all fun it => !givesIntentUp it

/-- Intents do not meet an outstanding one, a move finds the entry where it saw it, and a reader
that finds the entry `Ready` twice has missed no abort. -/
def Orderly (s : System V) : Served V → Prop
  | ⟨i, _, _, .peek, _, pre, _⟩ =>
    ∀ snapshot ∈ lastShown i s.trace, snapshot.state = .ready → pre.entry.state = .ready →
      undisturbedSinceShown i s.trace = true
  | ⟨i, _, _, .prepare _ kind, _, pre, _⟩ =>
    pre.entry.state ≠ .prepared ∧ (kind = .move → pre.entry.state = .ready ∧
      (lastShown i s.trace).map (·.tier) = some pre.entry.tier)
  | ⟨_, _, _, .setState _, _, pre, _⟩ => pre.entry.state ≠ .prepared
  | _ => True

instance (s : System V) : DecidablePred (Orderly s) := fun ⟨_, _, _, q, _, _, _⟩ => by
  induction q using Req.casesOn <;> dsimp only [Orderly] <;> infer_instance

/-- Any number of `get`, `set`, `promote` and `demote` calls, each on a thread of its own, on tiers
that behave as maps. Any of them may be dropped. -/
def plainCalls (V : Type) : Terms V where
  starts s i c := (s.tasks i).isNone = true ∧ c.Plain
  outcome := Outcome.Exact

instance : (plainCalls V).Checkable where
  starts s i c := inferInstanceAs (Decidable ((s.tasks i).isNone = true ∧ c.Plain))
  outcome := inferInstanceAs (DecidablePred Outcome.Exact)
  drops := .isTrue trivial
  good _ _ := .isTrue trivial

/-- The same, as long as every step is orderly. -/
def readersAndWriters (V : Type) : Terms V := { plainCalls V with good := Orderly }

instance : (readersAndWriters V).Checkable where
  starts s i c := inferInstanceAs (Decidable ((s.tasks i).isNone = true ∧ c.Plain))
  outcome := inferInstanceAs (DecidablePred Outcome.Exact)
  drops := .isTrue trivial
  good s it := inferInstanceAs (Decidable (Orderly s it))

/-- A `set` of `x` is committed. -/
def Commits (x : V) : Served V → Prop
  | ⟨_, .set _ v, _, .commit _ _, .ok _, _, _⟩ => v = x
  | _ => False

instance [DecidableEq V] (x : V) : DecidablePred (Commits x) := fun ⟨_, c, _, q, a, _, _⟩ => by
  induction q using Req.casesOn
  case commit =>
    induction c using Call.casesOn <;> induction a using Except.casesOn <;>
      dsimp only [Commits] <;> infer_instance
  all_goals induction c using Call.casesOn <;> exact .isFalse id

namespace Visibility

/-- Some `set` of `x` was committed. -/
def Committed (trace : List (Served V)) (x : V) : Prop := ∃ it ∈ trace, Commits x it

theorem Committed.cons {trace : List (Served V)} {x : V} (h : Committed trace x) (it : Served V) :
    Committed (it :: trace) x := by
  obtain ⟨it', hit, hx⟩ := h
  exact ⟨it', List.mem_cons_of_mem it hit, hx⟩

/-- A value that was committed, or whose `set` holds an intent. -/
def Sound (trace : List (Served V)) (φ : ℕ → Phase V) (x : V) : Prop :=
  Committed trace x ∨ ∃ j a, (φ j).call = .set a x ∧ (φ j).stage.token ≠ none

/-- What a reader knows about its snapshot and the value it has read, as long as no intent was
given up. -/
def Views (s : System V) (φ : ℕ → Phase V) (i : ℕ) : Stage V → Prop
  | .seen snapshot =>
    lastShown i s.trace = some snapshot ∧ snapshot.state ≠ .inFlight ∧
      (snapshot.state = .prepared → snapshot.populationOwner = true) ∧
      (snapshot.state = .ready → undisturbedSinceShown i s.trace = true →
        ∀ x, s.world.rungs snapshot.tier = some x → Sound s.trace φ x)
  | .got snapshot v =>
    lastShown i s.trace = some snapshot ∧ snapshot.state = .ready ∧
      (undisturbedSinceShown i s.trace = true → ∀ x, v = some x → Sound s.trace φ x)
  | .checked v => ∀ x, v = some x → Committed s.trace x
  | _ => True

/-- What the holder of an intent knows about the rung its token names. -/
def Works (s : System V) (c : Call V) : Stage V → Prop
  | .writing token rung _ => token.targetTier = rung.asU8 ∧ ∃ a v, c = .set a v
  | .wrote token rung _ =>
    token.targetTier = rung.asU8 ∧ ∃ a v, c = .set a v ∧ ∀ x, s.world.rungs rung = some x → x = v
  | .moving token snapshot dst =>
    token.targetTier = dst.asU8 ∧ ∀ x, s.world.rungs snapshot.tier = some x → Committed s.trace x
  | .carrying token _ dst v => token.targetTier = dst.asU8 ∧ Committed s.trace v
  | .copied token _ dst _ | .cleared token _ dst _ =>
    token.targetTier = dst.asU8 ∧ ∀ x, s.world.rungs dst = some x → Committed s.trace x
  | .idle | .seen _ | .got _ _ | .checked _ | .undoing _ | .committed => True
  | _ => False

/-- At most one intent is outstanding, its holder is the only one to write, and what a `Ready`
entry names was committed. -/
structure Tidy (s : System V) (φ : ℕ → Phase V) : Prop where
  plain : ∀ i t, s.tasks i = some t → t.call.Plain
  owned : s.world.entry.state ≠ .inFlight ∧
    (s.world.entry.state = .prepared → s.world.entry.populationOwner = true)
  live : ∀ i t, (φ i).stage.token = some t →
    s.world.entry.state = .prepared ∧ s.world.entry.generation = t.generation
  alone : ∀ i j, (φ i).stage.token ≠ none → (φ j).stage.token ≠ none → i = j
  clean : s.world.entry.state = .ready →
    ∀ x, s.world.rungs s.world.entry.tier = some x → Committed s.trace x
  views : ∀ i, Views s φ i (φ i).stage
  works : ∀ i, Works s (φ i).call (φ i).stage

variable {s : System V} {φ : ℕ → Phase V} {i j : ℕ} {c : Call V} {l : Fn} {q : Req V}
  {o : Outcome V} {a : q.Answer} {w : KeyWorld V}
  {rest : Prog Fn (Req V) Req.Answer (Option (Reply V))}

/-! ## Looking back along the trace -/

theorem shown_of_ne {it : Served V} (h : it.thread ≠ j) : shown j it = none := by
  unfold shown
  split
  · exact if_neg h
  · rfl

theorem lastShown_of_none {it : Served V} {trace : List (Served V)} (h : shown j it = none) :
    lastShown j (it :: trace) = lastShown j trace := by
  rw [lastShown, List.findSome?_cons, h]
  rfl

theorem undisturbed_cons {it : Served V} {trace : List (Served V)} (h : shown j it = none) :
    undisturbedSinceShown j (it :: trace) = true ↔
      givesIntentUp it = false ∧ undisturbedSinceShown j trace = true := by
  simp [undisturbedSinceShown, h]

theorem Tidy.free_of_not_prepared (h : Tidy s φ) (hs : s.world.entry.state ≠ .prepared) (j : ℕ) :
    (φ j).stage.token = none := by
  by_contra hne
  obtain ⟨t, ht⟩ := Option.ne_none_iff_exists'.1 hne
  exact hs (h.live j t ht).1

theorem Tidy.free_of_holder (h : Tidy s φ) (hi : (φ i).stage.token ≠ none) (hj : j ≠ i) :
    (φ j).stage.token = none := by
  by_contra hne
  exact hj (h.alone j i hne hi)

/-- What a thread knows as a reader survives a step after which every value is as sound as it was,
unless an intent was given up. -/
theorem Views.mono {s' : System V} {φ' : ℕ → Phase V} {st : Stage V}
    (hshown : lastShown j s'.trace = lastShown j s.trace)
    (hcommit : ∀ x, Committed s.trace x → Committed s'.trace x)
    (hquiet : undisturbedSinceShown j s'.trace = true → undisturbedSinceShown j s.trace = true ∧
      (∀ x, Sound s.trace φ x → Sound s'.trace φ' x) ∧
      ∀ rung x, s'.world.rungs rung = some x →
        s.world.rungs rung = some x ∨ Sound s'.trace φ' x)
    (h : Views s φ j st) : Views s' φ' j st := by
  cases st with
  | seen snapshot =>
    obtain ⟨hlast, hin, hprep, hready⟩ := h
    refine ⟨hshown.trans hlast, hin, hprep, fun hr hq x hx => ?_⟩
    obtain ⟨hq, hsound, hrungs⟩ := hquiet hq
    rcases hrungs _ x hx with hold | hnew
    · exact hsound x (hready hr hq x hold)
    · exact hnew
  | got snapshot v =>
    obtain ⟨hlast, hr, hread⟩ := h
    refine ⟨hshown.trans hlast, hr, fun hq x hx => ?_⟩
    obtain ⟨hq, hsound, -⟩ := hquiet hq
    exact hsound x (hread hq x hx)
  | checked v => exact fun x hx => hcommit x (h x hx)
  | _ => trivial

/-- What the holder of an intent knows survives a step that stores nothing. -/
theorem Works.mono {s' : System V} {st : Stage V}
    (hcommit : ∀ x, Committed s.trace x → Committed s'.trace x)
    (hrungs : st.token ≠ none → ∀ rung x, s'.world.rungs rung = some x →
      s.world.rungs rung = some x)
    (h : Works s c st) : Works s' c st := by
  cases st
  case wrote =>
    obtain ⟨ht, a, v, hc, hv⟩ := h
    exact ⟨ht, a, v, hc, fun x hx => hv x (hrungs (by simp) _ x hx)⟩
  case moving | copied | cleared =>
    exact ⟨h.1, fun x hx => hcommit x (h.2 x (hrungs (by simp) _ x hx))⟩
  case carrying => exact ⟨h.1, hcommit _ h.2⟩
  all_goals exact h

/-! ## One step -/

/-- A value stays sound while its `set` keeps the intent, and when it commits. -/
theorem sound_step (hserves : (readersAndWriters V).Serves s (φ i) i c l q o a w) {st : Stage V}
    (hheld : (φ i).stage.token ≠ none → st.token ≠ none ∨ ∀ a' x, c = .set a' x →
      Committed (⟨i, c, l, q, a, s.world, w⟩ :: s.trace) x) {x : V} (hx : Sound s.trace φ x) :
    Sound (⟨i, c, l, q, a, s.world, w⟩ :: s.trace) (Function.update φ i ⟨c, st⟩) x := by
  rcases hx with hx | ⟨j, a', hcall, htoken⟩
  · exact Or.inl (hx.cons _)
  by_cases hj : j = i
  · subst hj
    rw [hserves.call] at hcall
    rcases hheld htoken with hst | hcommit
    · exact Or.inr ⟨j, a', by rw [Function.update_self, hcall], by rwa [Function.update_self]⟩
    · exact Or.inl (hcommit a' x hcall)
  · exact Or.inr ⟨j, a', by rw [Function.update_of_ne hj, hcall], by rwa [Function.update_of_ne hj]⟩

section Step

variable (h : Tidy s φ) (hserves : (readersAndWriters V).Serves s (φ i) i c l q o a w)

include h hserves

/-- What a step of thread `i` has to show. -/
theorem Tidy.step {st : Stage V}
    (howned : w.entry.state ≠ .inFlight ∧
      (w.entry.state = .prepared → w.entry.populationOwner = true))
    (hentry : w.entry = s.world.entry ∨ ∀ j, j ≠ i → (φ j).stage.token = none)
    (hself : ∀ t, st.token = some t →
      w.entry.state = .prepared ∧ w.entry.generation = t.generation)
    (halone : st.token ≠ none → ∀ j, j ≠ i → (φ j).stage.token = none)
    (hclean : w.entry.state = .ready → ∀ x, w.rungs w.entry.tier = some x →
      Committed (⟨i, c, l, q, a, s.world, w⟩ :: s.trace) x)
    (hrungs : ∀ rung x, w.rungs rung = some x → s.world.rungs rung = some x ∨
      ((φ i).stage.token ≠ none ∧
        Sound (⟨i, c, l, q, a, s.world, w⟩ :: s.trace) (Function.update φ i ⟨c, st⟩) x))
    (hheld : givesIntentUp (⟨i, c, l, q, a, s.world, w⟩ : Served V) = true ∨
      ((φ i).stage.token ≠ none → st.token ≠ none ∨ ∀ a' x, c = .set a' x →
        Committed (⟨i, c, l, q, a, s.world, w⟩ :: s.trace) x))
    (hview : Views (s.answer i c l q a w rest) (Function.update φ i ⟨c, st⟩) i st)
    (hwork : Works (s.answer i c l q a w rest) c st) :
    Tidy (s.answer i c l q a w rest) (Function.update φ i ⟨c, st⟩) := by
  obtain ⟨cancel, k, hpend⟩ := hserves.pending
  have hcommit : ∀ x, Committed s.trace x → Committed (s.answer i c l q a w rest).trace x :=
    fun _ hx => hx.cons _
  refine ⟨?_, howned, ?_, ?_, hclean, ?_, ?_⟩
  · refine (Function.forall_update_iff s.tasks fun j x => ∀ t, x = some t → t.call.Plain).2
      ⟨?_, fun j _ => h.plain j⟩
    intro t ht
    obtain rfl := Option.some.inj ht
    exact (h.plain i _ hpend :)
  · refine (Function.forall_update_iff φ fun j ψ => ∀ t, ψ.stage.token = some t →
      w.entry.state = .prepared ∧ w.entry.generation = t.generation).2 ⟨hself, fun j hj t ht => ?_⟩
    rcases hentry with he | hfree
    · rw [he]
      exact h.live j t ht
    · exact absurd ((hfree j hj).symm.trans ht) (by simp)
  · intro j k hj hk
    by_cases hji : j = i <;> by_cases hki : k = i
    · rw [hji, hki]
    · subst hji
      rw [Function.update_self] at hj
      rw [Function.update_of_ne hki] at hk
      exact absurd (halone hj k hki) hk
    · subst hki
      rw [Function.update_self] at hk
      rw [Function.update_of_ne hji] at hj
      exact absurd (halone hk j hji) hj
    · rw [Function.update_of_ne hji] at hj
      rw [Function.update_of_ne hki] at hk
      exact h.alone j k hj hk
  · intro j
    by_cases hj : j = i
    · subst hj
      rw [Function.update_self]
      exact hview
    · rw [Function.update_of_ne hj]
      have hij : i ≠ j := fun e => hj e.symm
      refine (h.views j).mono (lastShown_of_none (shown_of_ne hij)) hcommit fun hq => ?_
      obtain ⟨hg, hq⟩ := (undisturbed_cons (shown_of_ne hij)).1 hq
      have hheld := hheld.resolve_left (by simp [hg])
      exact ⟨hq, fun x => sound_step hserves hheld,
        fun rung x hx => (hrungs rung x hx).imp_right And.right⟩
  · refine (Function.forall_update_iff φ fun j ψ => Works _ ψ.call ψ.stage).2
      ⟨hwork, fun j hj => (h.works j).mono hcommit fun htoken rung x hx => ?_⟩
    -- only the holder of the intent stores anything
    rcases hrungs rung x hx with hold | ⟨hi, -⟩
    · exact hold
    · exact absurd (h.free_of_holder hi hj) htoken

/-- A step that stores nothing, leaves the entry, and keeps the intent. -/
theorem Tidy.keep (hw : w.entry = s.world.entry)
    (hr : ∀ rung x, w.rungs rung = some x → s.world.rungs rung = some x) {st : Stage V}
    (htoken : st.token = (φ i).stage.token)
    (hview : Views (s.answer i c l q a w rest) (Function.update φ i ⟨c, st⟩) i st)
    (hwork : Works (s.answer i c l q a w rest) c st) :
    Tidy (s.answer i c l q a w rest) (Function.update φ i ⟨c, st⟩) := by
  refine h.step hserves ?_ (Or.inl hw) ?_ ?_ ?_ (fun rung x hx => Or.inl (hr rung x hx))
    (Or.inr fun hne => Or.inl (htoken ▸ hne)) hview hwork
  · rw [hw]
    exact h.owned
  · intro t ht
    rw [hw]
    exact h.live i t (htoken ▸ ht)
  · intro ht j hj
    exact h.free_of_holder (htoken ▸ ht) hj
  · intro hready x hx
    rw [hw] at hready hx
    exact (h.clean hready x (hr _ x hx)).cons _

/-- What the thread itself knows survives its own step, if that is neither a look at the entry nor
stores anything. -/
theorem Tidy.view_same (hr : ∀ rung x, w.rungs rung = some x → s.world.rungs rung = some x)
    (hq : shown i (⟨i, c, l, q, a, s.world, w⟩ : Served V) = none) :
    Views (s.answer i c l q a w rest) (Function.update φ i ⟨c, (φ i).stage⟩) i (φ i).stage := by
  refine (h.views i).mono (lastShown_of_none hq) (fun _ hx => hx.cons _) fun hquiet => ?_
  exact ⟨((undisturbed_cons hq).1 hquiet).2, fun x => sound_step hserves fun hne => Or.inl hne,
    fun rung x hx => Or.inl (hr rung x hx)⟩

theorem Tidy.work_same (hr : ∀ rung x, w.rungs rung = some x → s.world.rungs rung = some x) :
    Works (s.answer i c l q a w rest) c (φ i).stage := by
  have hwork := h.works i
  rw [hserves.call] at hwork
  exact hwork.mono (fun _ hx => hx.cons _) fun _ => hr

/-- A step that stores nothing, leaves the entry, and does not move the thread. -/
theorem Tidy.stay (hw : w.entry = s.world.entry)
    (hr : ∀ rung x, w.rungs rung = some x → s.world.rungs rung = some x)
    (hq : shown i (⟨i, c, l, q, a, s.world, w⟩ : Served V) = none) :
    Tidy (s.answer i c l q a w rest) (Function.update φ i ⟨c, (φ i).stage⟩) :=
  h.keep hserves hw hr rfl (h.view_same hserves hr hq) (h.work_same hserves hr)

/-- A step of a thread that takes an entry nobody has prepared to another state, and leaves the
thread where it was or lets it forget what it saw. -/
theorem Tidy.unready (hprep : s.world.entry.state ≠ .prepared) {e : ControlEntry}
    (hw : w = s.world.putEntry e) (he : e.state = .stale)
    (hq : shown i (⟨i, c, l, q, a, s.world, w⟩ : Served V) = none) {st : Stage V}
    (hst : st = .idle ∨ st = (φ i).stage) :
    Tidy (s.answer i c l q a w rest) (Function.update φ i ⟨c, st⟩) := by
  have hfree := h.free_of_not_prepared hprep
  have htoken : st.token = none := by
    rcases hst with rfl | rfl
    · rfl
    · exact hfree i
  have hr : ∀ rung x, w.rungs rung = some x → s.world.rungs rung = some x := by
    simp [hw]
  have he' : w.entry.state = .stale := by simp [hw, he]
  refine h.step hserves (by simp [he']) (Or.inr fun j _ => hfree j) ?_ ?_ (by simp [he'])
    (fun rung x hx => Or.inl (hr rung x hx)) (Or.inr fun hne => absurd (hfree i) hne) ?_ ?_
  · intro t ht
    exact absurd (htoken.symm.trans ht) (by simp)
  · intro hne
    exact absurd htoken hne
  · rcases hst with rfl | rfl
    · trivial
    · exact h.view_same hserves hr hq
  · rcases hst with rfl | rfl
    · trivial
    · exact h.work_same hserves hr

end Step

/-! ## The requests -/

theorem Tidy.peek (h : Tidy s φ) {a : ControlSnapshot}
    (hserves : (readersAndWriters V).Serves s (φ i) i c l .peek o a w) :
    Tidy (s.answer i c l .peek a w rest)
      (Function.update φ i ⟨c, Phase.next (φ i).stage l .peek a⟩) := by
  obtain ⟨hstate, -, htier, howner, rfl⟩ := KeyWorld.exec_peek hserves.exec
  have hworks := h.works i
  have hviews := h.views i
  rcases hserves.allows with hst | ⟨snapshot, v, hst⟩ | hst
  · rw [hst]
    refine h.keep hserves rfl (fun _ _ hx => hx) (by simp [hst, Phase.next]) ?_ trivial
    refine ⟨by simp [lastShown, shown], by rw [hstate]; exact h.owned.1, ?_, ?_⟩
    · rw [hstate, howner]
      exact h.owned.2
    · intro hr _ x hx
      rw [hstate] at hr
      rw [htier] at hx
      exact Or.inl ((h.clean hr x hx).cons _)
  · -- the second look of `get`
    rw [hst] at hviews ⊢
    obtain ⟨hlast, hr, hread⟩ := hviews
    simp only [Phase.next]
    split
    · rename_i hready
      rw [hstate] at hready
      have hquiet := hserves.good snapshot hlast hr hready
      refine h.keep hserves rfl (fun _ _ hx => hx) (by simp [hst]) ?_ trivial
      intro x hx
      rcases hread hquiet x hx with hcommit | ⟨j, a', -, htoken⟩
      · exact hcommit.cons _
      · refine absurd (h.free_of_not_prepared ?_ j) htoken
        simp [hready]
    · exact h.keep hserves rfl (fun _ _ hx => hx) (by simp [hst]) trivial trivial
  · rw [hst] at hworks
    exact hworks.elim

theorem Tidy.tierGet (h : Tidy s φ) {rung : TierId} {a : Except CacheError (Option V)}
    (hserves : (readersAndWriters V).Serves s (φ i) i c l (.tierGet rung) o a w) :
    Tidy (s.answer i c l (.tierGet rung) a w rest)
      (Function.update φ i ⟨c, Phase.next (φ i).stage l (.tierGet rung) a⟩) := by
  obtain ⟨ha, rfl⟩ := KeyWorld.exec_tierGet_exact hserves.outcome hserves.exec
  have hworks := h.works i
  rcases hserves.allows with ⟨snapshot, hst, -, hready, rfl, -⟩ | ⟨again, snapshot, hst, -⟩ | hst |
    ⟨hst, -⟩ | ⟨token, snapshot, dst, hst, rfl⟩
  · by_cases hl : l = .get
    · have hviews := h.views i
      rw [hst] at hviews
      obtain ⟨hlast, -, -, hsound⟩ := hviews
      subst ha
      simp only [hst, Phase.next, if_pos hl]
      refine h.keep hserves rfl (fun _ _ hx => hx) (by simp [hst]) ?_ trivial
      refine ⟨(lastShown_of_none rfl).trans hlast, hready hl, fun hquiet x hx => ?_⟩
      refine sound_step hserves (fun hne => ?_)
        (hsound (hready hl) ((undisturbed_cons rfl).1 hquiet).2 x hx)
      simp [hst] at hne
    · subst ha
      have hnext : Phase.next (φ i).stage l (.tierGet snapshot.tier)
          (.ok (s.world.rungs snapshot.tier)) = (φ i).stage := by
        simp only [hst, Phase.next, if_neg hl]
      rw [hnext]
      exact h.stay hserves rfl (fun _ _ hx => hx) rfl
  · rw [hst] at hworks
    exact hworks.elim
  · rw [hst] at hworks
    exact hworks.elim
  · rw [hst] at hworks
    exact hworks.elim
  · rw [hst] at hworks
    obtain ⟨htarget, hsource⟩ := hworks
    simp only [hst, Phase.next]
    rcases a with e | _ | v
    · exact h.keep hserves rfl (fun _ _ hx => hx) (by simp [hst]) trivial trivial
    · exact h.keep hserves rfl (fun _ _ hx => hx) (by simp [hst]) trivial trivial
    · exact h.keep hserves rfl (fun _ _ hx => hx) (by simp [hst]) trivial
        ⟨htarget, (hsource v (Except.ok.inj ha).symm).cons _⟩

theorem Tidy.tierSet (h : Tidy s φ) {rung : TierId} {v : V} {ttl : Option ℕ}
    {a : Except CacheError Unit}
    (hserves : (readersAndWriters V).Serves s (φ i) i c l (.tierSet rung v ttl) o a w) :
    Tidy (s.answer i c l (.tierSet rung v ttl) a w rest)
      (Function.update φ i ⟨c, Phase.next (φ i).stage l (.tierSet rung v ttl) a⟩) := by
  obtain ⟨rfl, rfl⟩ := KeyWorld.exec_tierSet_exact hserves.outcome hserves.exec
  have hworks := h.works i
  -- the holder of the intent stores a sound value, and keeps the intent
  have hstore : ∀ {st : Stage V} (token : CommitToken), (φ i).stage.token = some token →
      st.token = some token →
      Sound (⟨i, c, l, .tierSet rung v ttl, .ok (), s.world, s.world.store rung (some v)⟩ :: s.trace)
        (Function.update φ i ⟨c, st⟩) v →
      (∀ s' φ', Views s' φ' i st) →
      Works (s.answer i c l (.tierSet rung v ttl) (.ok ()) (s.world.store rung (some v)) rest) c st →
      Tidy (s.answer i c l (.tierSet rung v ttl) (.ok ()) (s.world.store rung (some v)) rest)
        (Function.update φ i ⟨c, st⟩) := by
    intro st token hold hnew hsound hview hwork
    have hlive := h.live i token hold
    have hheld : (φ i).stage.token ≠ none := Option.ne_none_iff_exists'.2 ⟨token, hold⟩
    refine h.step hserves h.owned (Or.inl rfl) ?_ (fun _ _ => h.free_of_holder hheld) ?_ ?_
      (Or.inr fun _ => Or.inl (Option.ne_none_iff_exists'.2 ⟨token, hnew⟩)) (hview _ _) hwork
    · intro t ht
      rw [hnew, Option.some.injEq] at ht
      exact ht ▸ hlive
    · intro hready
      exact absurd (hready.symm.trans hlive.1) (by simp)
    · intro r x hx
      by_cases hr : r = rung
      · subst hr
        rw [KeyWorld.store_rungs, Function.update_self, Option.some.injEq] at hx
        exact Or.inr ⟨hheld, hx ▸ hsound⟩
      · rw [KeyWorld.store_rungs, Function.update_of_ne hr] at hx
        exact Or.inl hx
  rcases hserves.allows with ⟨claimed, g, hst⟩ | ⟨token, lost, a', hst, hcall⟩ | ⟨token, snapshot, hst⟩
  · rw [hst] at hworks
    exact hworks.elim
  · rw [hst] at hworks ⊢
    rw [hserves.call] at hcall
    refine hstore token (by simp [hst]) rfl (Or.inr ⟨i, a', ?_, ?_⟩) (fun _ _ => trivial)
      ⟨hworks.1, a', v, hcall, ?_⟩
    · rw [Function.update_self, hcall]
    · rw [Function.update_self]
      exact Option.some_ne_none token
    · simp
  · rw [hst] at hworks ⊢
    refine hstore token (by simp [hst]) rfl (Or.inl (hworks.2.cons _))
      (fun _ _ => trivial) ⟨hworks.1, ?_⟩
    intro x hx
    rw [Sys.answer_world, KeyWorld.store_rungs, Function.update_self, Option.some.injEq] at hx
    exact hx ▸ hworks.2.cons _

theorem Tidy.tierRemove (h : Tidy s φ) {rung : TierId} {a : Except CacheError Unit}
    (hplain : c.Plain)
    (hserves : (readersAndWriters V).Serves s (φ i) i c l (.tierRemove rung) o a w) :
    Tidy (s.answer i c l (.tierRemove rung) a w rest)
      (Function.update φ i ⟨c, Phase.next (φ i).stage l (.tierRemove rung) a⟩) := by
  obtain ⟨rfl, rfl⟩ := KeyWorld.exec_tierRemove_exact hserves.outcome hserves.exec
  have hr : ∀ r x, (s.world.store rung none).rungs r = some x → s.world.rungs r = some x :=
    fun _ _ => KeyWorld.rungs_of_store_none
  have hworks := h.works i
  rcases hserves.allows with ⟨-, a', hcall⟩ | ⟨token, hst⟩ | ⟨token, snapshot, dst, v, hst, rfl⟩ |
    ⟨token, hst⟩
  · rw [hserves.call] at hcall
    rw [hcall] at hplain
    exact hplain.elim
  · rw [hst] at hworks
    exact hworks.elim
  · rw [hst] at hworks ⊢
    exact h.keep hserves rfl hr (by simp [hst, Phase.next]) trivial
      ⟨hworks.1, fun x hx => (hworks.2 x (hr _ x hx)).cons _⟩
  · rw [hst] at hworks
    exact hworks.elim

theorem Tidy.prepare (h : Tidy s φ) {rung : TierId} {kind : IntentKind}
    {a : Except CacheError CommitToken}
    (hserves : (readersAndWriters V).Serves s (φ i) i c l (.prepare rung kind) o a w) :
    Tidy (s.answer i c l (.prepare rung kind) a w rest)
      (Function.update φ i ⟨c, Phase.next (φ i).stage l (.prepare rung kind) a⟩) := by
  obtain ⟨hprep, hmove⟩ := hserves.good
  have hfree := h.free_of_not_prepared hprep
  rcases KeyWorld.exec_prepare hserves.exec with ⟨e, rfl, rfl, -⟩ | ⟨rfl, rfl⟩
  · exact h.keep hserves rfl (fun _ _ hx => hx) (hfree i).symm trivial trivial
  -- nobody else holds an intent when one is recorded
  have hrecord : ∀ {st : Stage V}, st.token = some (s.world.entry.tokenFor rung kind) →
      (∀ s' φ', Views s' φ' i st) →
      Works (s.answer i c l (.prepare rung kind) (.ok (s.world.entry.tokenFor rung kind))
        (s.world.putEntry (s.world.entry.preparedFor
          (s.world.entry.intentFor rung kind s.world.now))) rest) c st →
      Tidy (s.answer i c l (.prepare rung kind) (.ok (s.world.entry.tokenFor rung kind))
        (s.world.putEntry (s.world.entry.preparedFor
          (s.world.entry.intentFor rung kind s.world.now))) rest) (Function.update φ i ⟨c, st⟩) := by
    intro st htoken hview hwork
    refine h.step hserves (by simp) (Or.inr fun j _ => hfree j) ?_ (fun _ j _ => hfree j) (by simp)
      (fun _ _ hx => Or.inl hx) (Or.inr fun hne => absurd (hfree i) hne) (hview _ _) hwork
    intro t ht
    rw [htoken, Option.some.injEq] at ht
    simp [← ht, ControlEntry.tokenFor]
  have hworks := h.works i
  cases kind with
  | write =>
    obtain ⟨⟨a', v, hcall⟩, hst⟩ := hserves.allows
    rw [hserves.call] at hcall
    rcases hst with hst | ⟨snapshot, hst⟩ | ⟨lost, hst⟩
    · rw [hst]
      exact hrecord rfl (fun _ _ => trivial) ⟨rfl, a', v, hcall⟩
    · rw [hst]
      exact hrecord rfl (fun _ _ => trivial) ⟨rfl, a', v, hcall⟩
    · rw [hst] at hworks
      exact hworks.elim
  | move =>
    obtain ⟨-, snapshot, hst, -, -⟩ := hserves.allows
    have hviews := h.views i
    rw [hst] at hviews ⊢
    obtain ⟨hready, htier⟩ := hmove rfl
    rw [hviews.1, Option.map_some, Option.some.injEq] at htier
    refine hrecord rfl (fun _ _ => trivial) ⟨rfl, fun x hx => ?_⟩
    rw [htier] at hx
    exact (h.clean hready x hx).cons _

theorem Tidy.commit (h : Tidy s φ) {token : CommitToken} {ttl : Option ℕ}
    {a : Except CacheError Unit}
    (hserves : (readersAndWriters V).Serves s (φ i) i c l (.commit token ttl) o a w) :
    Tidy (s.answer i c l (.commit token ttl) a w rest)
      (Function.update φ i ⟨c, Phase.next (φ i).stage l (.commit token ttl) a⟩) := by
  have hheld : (φ i).stage.token = some token := by
    rcases hserves.allows with ⟨rung, lost, hst⟩ | ⟨snapshot, dst, v, hst⟩ <;> simp [hst]
  have hlive := h.live i token hheld
  rcases KeyWorld.exec_commit hserves.exec with ⟨e, -, -, hdead, -⟩ | ⟨rfl, -, -, rfl⟩
  · exact absurd ⟨hlive.2, hlive.1⟩ hdead
  have hcommits : ∀ a' x, c = .set a' x → Committed (⟨i, c, l, .commit token ttl, .ok (), s.world,
      s.world.putEntry (s.world.entry.committed token ttl s.world.now)⟩ :: s.trace) x := by
    intro a' x hcall
    exact ⟨_, List.mem_cons_self, by rw [hcall]; exact rfl⟩
  have hworks := h.works i
  refine h.step hserves (by simp) (Or.inr fun j => h.free_of_holder (Option.ne_none_iff_exists'.2 ⟨token, hheld⟩))
    (by rintro _ ⟨⟩)
    (fun hne => absurd rfl hne) ?_ (fun _ _ hx => Or.inl hx) (Or.inr fun _ => Or.inr hcommits)
    trivial trivial
  intro _ x hx
  rcases hserves.allows with ⟨rung, lost, hst⟩ | ⟨snapshot, dst, v, hst⟩
  · rw [hst] at hworks
    obtain ⟨htarget, a', v, hcall, hv⟩ := hworks
    simp only [KeyWorld.putEntry_rungs, KeyWorld.putEntry_entry, ControlEntry.committed_tier,
      htarget, TierId.fromIndex_asU8, Option.getD_some] at hx
    rw [hserves.call] at hcall
    obtain rfl := hv x hx
    exact hcommits a' x hcall
  · rw [hst] at hworks
    obtain ⟨htarget, hv⟩ := hworks
    simp only [KeyWorld.putEntry_rungs, KeyWorld.putEntry_entry, ControlEntry.committed_tier,
      htarget, TierId.fromIndex_asU8, Option.getD_some] at hx
    exact (hv x hx).cons _

theorem Tidy.abort (h : Tidy s φ) {token : CommitToken} {e : CacheError}
    {a : Except CacheError Unit}
    (hserves : (readersAndWriters V).Serves s (φ i) i c l (.abort token e) o a w) :
    Tidy (s.answer i c l (.abort token e) a w rest)
      (Function.update φ i ⟨c, Phase.next (φ i).stage l (.abort token e) a⟩) := by
  have hworks := h.works i
  have hheld : (φ i).stage.token = some token ∧
      Phase.next (φ i).stage l (.abort token e) a = .idle := by
    rcases hserves.allows with hst | ⟨rung, lost, hst⟩ | ⟨rung, e, hst⟩ | ⟨snapshot, dst, hst⟩
    · simp [hst, Phase.next]
    · rw [hst] at hworks
      exact hworks.elim
    · rw [hst] at hworks
      exact hworks.elim
    · simp [hst, Phase.next]
  have hlive := h.live i token hheld.1
  rw [hheld.2]
  rcases KeyWorld.exec_abort hserves.exec with ⟨hne, -⟩ | ⟨hprep, rfl⟩
  · exact absurd hlive.1 hne
  · exact h.step hserves (by simp) (Or.inr fun j => h.free_of_holder (Option.ne_none_iff_exists'.2 ⟨token, hheld.1⟩)) (by simp)
      (fun hne => absurd rfl hne) (by simp) (fun _ _ hx => Or.inl hx)
      (Or.inl (by simp [givesIntentUp, hprep])) trivial trivial

/-- Every orderly step keeps the key tidy. -/
theorem Tidy.answer (h : Tidy s φ) (hserves : (readersAndWriters V).Serves s (φ i) i c l q o a w) :
    Tidy (s.answer i c l q a w rest)
      (Function.update φ i ⟨c, Phase.next (φ i).stage l q a⟩) := by
  have hplain : c.Plain := by
    obtain ⟨cancel, k, hpend⟩ := hserves.pending
    exact h.plain i _ hpend
  have hallows := hserves.allows
  have hcall := hserves.call
  have hworks := h.works i
  cases q with
  | peek => exact h.peek hserves
  | tierGet rung => exact h.tierGet hserves
  | tierSet rung v ttl => exact h.tierSet hserves
  | tierRemove rung => exact h.tierRemove hplain hserves
  | prepare rung kind => exact h.prepare hserves
  | commit token ttl => exact h.commit hserves
  | abort token e => exact h.abort hserves
  | setState state =>
    have hprep : s.world.entry.state ≠ .prepared := hserves.good
    obtain ⟨rfl, ⟨snapshot, hst, -⟩ | ⟨snapshot, hst, -⟩⟩ := hallows
    · have hnext : Phase.next (φ i).stage l (.setState .stale) a = .idle ∨
          Phase.next (φ i).stage l (.setState .stale) a = (φ i).stage := by
        rw [hst]
        by_cases hl : l = .get
        · simp [Phase.next, hl]
        · right
          cases l <;> first | rfl | exact absurd rfl hl
      rcases KeyWorld.exec_setState hserves.exec with ⟨rfl, -⟩ | hw
      · rcases hnext with hnext | hnext
        · rw [hnext]
          exact h.keep hserves rfl (fun _ _ hx => hx) (by simp [hst]) trivial trivial
        · rw [hnext]
          exact h.stay hserves rfl (fun _ _ hx => hx) rfl
      · exact h.unready hserves hprep hw rfl rfl hnext
    · rw [hst] at hworks
      exact hworks.elim
  | reserveEviction address =>
    rcases KeyWorld.exec_reserveEviction hserves.exec with ⟨rfl, -⟩ | ⟨-, he, hw⟩
    · exact h.stay hserves rfl (fun _ _ hx => hx) rfl
    · exact h.unready hserves (by simp [he.1]) hw rfl rfl (Or.inr rfl)
  | removeIfAddress rung address =>
    have hr : ∀ r x, w.rungs r = some x → s.world.rungs r = some x := by
      rcases KeyWorld.exec_removeIfAddress hserves.exec with rfl | ⟨-, rfl⟩
      · exact fun _ _ hx => hx
      · exact fun _ _ => KeyWorld.rungs_of_store_none
    exact h.stay hserves (KeyWorld.exec_entry rfl hserves.exec) hr rfl
  | evictionCandidate | tierContains | tierHealth | record =>
    have hr := KeyWorld.exec_rungs rfl hserves.exec
    exact h.stay hserves (KeyWorld.exec_entry rfl hserves.exec) (fun _ _ hx => hr ▸ hx) rfl
  | acquire tier =>
    have hpop := hallows.1
    rw [hcall] at hpop
    cases c <;> first | exact hpop.elim | exact hplain.elim
  | invalidate | release =>
    obtain ⟨-, a', hc⟩ := hallows
    rw [hcall] at hc
    rw [hc] at hplain
    exact hplain.elim
  | publish g rung ttl =>
    obtain ⟨claimed, v, hst⟩ := hallows
    rw [hst] at hworks
    exact hworks.elim
  | failWithError e =>
    rcases hallows with hpop | ⟨snapshot, hst, -⟩ | ⟨snapshot, hst, -⟩
    · cases hst : (φ i).stage <;> rw [hst] at hpop hworks <;>
        first | exact hworks.elim | cases hpop
    · rw [hst] at hworks
      exact hworks.elim
    · rw [hst] at hworks
      exact hworks.elim
  | abortProvenClean token e =>
    obtain ⟨rung, hst, -⟩ := hallows
    rw [hst] at hworks
    exact hworks.elim
  | fetch =>
    rcases hallows with ⟨-, ⟨claimed, g, v, hst⟩ | ⟨snapshot, hst, -⟩ | ⟨snapshot, hst, -⟩⟩ <;>
      rw [hst] at hworks <;> exact hworks.elim
  | register notify =>
    rcases hallows with ⟨snapshot, hst, hs, howner, -⟩ | ⟨again, snapshot, hst, -⟩
    · -- an entry that is prepared has an owner, so nobody waits for it
      have hviews := h.views i
      rw [hst] at hviews
      obtain ⟨-, hin, hprep, -⟩ := hviews
      rcases hs with hs | hs
      · exact absurd hs hin
      · exact absurd (howner.symm.trans (hprep hs)) (by simp)
    · rw [hst] at hworks
      exact hworks.elim
  | notified epoch =>
    rw [show (φ i).stage = .waiting from hallows] at hworks
    exact hworks.elim
  | sleep =>
    obtain ⟨claimed, g, v, hst⟩ := hallows
    rw [hst] at hworks
    exact hworks.elim
  | yieldNow =>
    obtain ⟨token, rung, lost, hst⟩ := hallows
    rw [hst] at hworks
    exact hworks.elim

/-! ## All runs -/

/-- A value stays sound when a thread leaves its stage and keeps its intent. -/
theorem sound_update {st : Stage V} {x : V} (hi : (φ i).stage.token ≠ none →
    (φ i).call = c ∧ st.token ≠ none) (hx : Sound s.trace φ x) :
    Sound s.trace (Function.update φ i ⟨c, st⟩) x := by
  rcases hx with hx | ⟨j, a, hcall, htoken⟩
  · exact Or.inl hx
  · refine Or.inr ⟨j, a, ?_⟩
    by_cases hj : j = i
    · subst hj
      rw [Function.update_self]
      obtain ⟨rfl, hst⟩ := hi htoken
      exact ⟨hcall, hst⟩
    · rw [Function.update_of_ne hj]
      exact ⟨hcall, htoken⟩

/-- A thread takes up a call, or is dropped from one, with the intent it had. -/
theorem Tidy.leave (h : Tidy s φ) (hplain : c.Plain) {st : Stage V}
    (hi : (φ i).stage.token ≠ none → (φ i).call = c) (htoken : st.token = (φ i).stage.token)
    (hview : Views s φ i st) (hwork : Works s c st) :
    Tidy (s.leave i c rest) (Function.update φ i ⟨c, st⟩) := by
  have hview' : ∀ j st', Views s φ j st' →
      Views (s.leave i c rest) (Function.update φ i ⟨c, st⟩) j st' := by
    intro j st' hv
    refine hv.mono rfl (fun _ hx => hx) fun hq => ⟨hq, fun x hx => ?_, fun _ _ hx => Or.inl hx⟩
    exact sound_update (fun hne => ⟨hi hne, htoken ▸ hne⟩) hx
  have htokens : ∀ j, (Function.update φ i ⟨c, st⟩ j).stage.token = (φ j).stage.token :=
    (Function.forall_update_iff φ fun j ψ => ψ.stage.token = (φ j).stage.token).2
      ⟨htoken, fun _ _ => rfl⟩
  refine ⟨?_, h.owned, ?_, ?_, h.clean, ?_, ?_⟩
  · refine (Function.forall_update_iff s.tasks fun j x => ∀ t, x = some t → t.call.Plain).2
      ⟨?_, fun j _ => h.plain j⟩
    intro t ht
    obtain rfl := Option.some.inj ht
    exact hplain
  · intro j t ht
    rw [htokens] at ht
    exact h.live j t ht
  · intro j k hj hk
    rw [htokens] at hj hk
    exact h.alone j k hj hk
  · intro j
    by_cases hj : j = i
    · subst hj
      rw [Function.update_self]
      exact hview' j st hview
    · rw [Function.update_of_ne hj]
      exact hview' j _ (h.views j)
  · exact (Function.forall_update_iff φ fun j ψ => Works (s.leave i c rest) ψ.call ψ.stage).2
      ⟨hwork, fun j _ => h.works j⟩

theorem Tidy.drop (h : Tidy s φ) {cancel : Option (List (Req V))}
    {k : q.Answer → Prog Fn (Req V) Req.Answer (Option (Reply V))}
    (hpend : s.tasks i = some ⟨c, .req l q cancel k⟩) (hcall : (φ i).call = c) :
    Tidy (s.leave i c rest) (Function.update φ i ⟨c, (φ i).stage.cancel⟩) := by
  refine h.leave (h.plain i _ hpend) (fun _ => hcall) (Stage.cancel_token _) ?_ ?_
  · cases ht : (φ i).stage.token with
    | none =>
      rw [Stage.cancel_of_none ht]
      exact h.views i
    | some t =>
      rw [Stage.cancel_of_some ht]
      trivial
  · cases ht : (φ i).stage.token with
    | none =>
      rw [Stage.cancel_of_none ht, ← hcall]
      exact h.works i
    | some t =>
      rw [Stage.cancel_of_some ht]
      trivial

theorem upholds : Upholds (readersAndWriters V) Tidy where
  start h _ hc hst :=
    h.leave hc.2 (fun hne => absurd hst.1 hne) hst.1.symm trivial trivial
  answer _ h _ _ hserves := h.answer hserves
  drop _ h _ hpend hcall := h.drop hpend hcall
  env h := ⟨h.plain, h.owned, h.live, h.alone, h.clean, h.views, h.works⟩

theorem tidy_initial (address : KeyAddress) :
    Tidy (.initial (.empty address)) fun _ => (⟨.evict, .idle⟩ : Phase V) where
  plain _ _ := by rintro ⟨⟩
  owned := ⟨by rintro ⟨⟩, by rintro ⟨⟩⟩
  live _ _ := by rintro ⟨⟩
  alone _ _ h := absurd rfl h
  clean := by rintro ⟨⟩
  views _ := trivial
  works _ := trivial

end Visibility

/-- **No uncommitted value is visible**, in any interleaving whose steps are orderly: when a `get`
has returned a value, a `set` of it was committed before. -/
theorem committed_of_get {tiers : ℕ} {address : KeyAddress} {schedule : List (Turn V)}
    (hT : (readersAndWriters V).Hold tiers (.empty address) schedule) {i : ℕ} {x : V}
    (hget : ((manager V tiers).run (.empty address) schedule).result i =
      some (.read (.ok (some x)))) :
    ∃ it ∈ ((manager V tiers).run (.empty address) schedule).trace, Commits x it := by
  obtain ⟨φ, hr⟩ := Visibility.upholds.run (Visibility.tidy_initial address) (fun _ => rfl) hT
  obtain ⟨c, ht⟩ := Sys.result_eq_some hget
  rcases (hr.conforming.final ht rfl).2.1 x rfl with hst | hst
  · have hview := hr.inv.views i
    rw [hst] at hview
    exact hview x rfl
  · have hwork := hr.inv.works i
    rw [hst] at hwork
    exact hwork.elim

/-- A value is moved up between the two looks of a reader. -/
def readAcrossMove : List (Turn ℕ) :=
  [.start 0 (.set (.pinned .L1 none) 1),
    .run 0 {}, .run 0 {}, .run 0 {}, .run 0 {}, .run 0 {}, .run 0 {},
    .start 1 (.get (.pinned .L1 none)), .run 1 {}, .run 1 {}, .run 1 {},
    .start 2 (.promote (.pinned .L1 none)),
    .run 2 {}, .run 2 {}, .run 2 {}, .run 2 {}, .run 2 {}, .run 2 {}, .run 2 {}, .run 2 {},
    .run 1 {}]

theorem committed_of_get_readAcrossMove :
    (readersAndWriters ℕ).Hold 2 .unwritten readAcrossMove ∧
      ((manager ℕ 2).run .unwritten readAcrossMove).result 1 = some (.read (.ok (some 1))) ∧
      ∃ it ∈ ((manager ℕ 2).run .unwritten readAcrossMove).trace, Commits 1 it := by
  have hhold : (readersAndWriters ℕ).Hold 2 .unwritten readAcrossMove := by decide +kernel
  have hget : ((manager ℕ 2).run .unwritten readAcrossMove).result 1 =
      some (.read (.ok (some 1))) := by decide +kernel
  exact ⟨hhold, hget, committed_of_get hhold hget⟩

/-- Two writes overlap, and the first one commits when the bytes of the second are on the rung. -/
def racingWrites : List (Turn ℕ) :=
  [.start 0 (.set (.pinned .L0 none) 1), .start 1 (.set (.pinned .L0 none) 2),
    .run 0 {}, .run 0 {}, .run 0 {}, .run 0 {},
    .run 1 {}, .run 1 {}, .run 1 {}, .run 1 {},
    .run 0 {}, .run 0 {},
    .start 2 (.get (.pinned .L0 none)), .run 2 {}, .run 2 {}, .run 2 {}, .run 2 {}]

/-- A reader is served the value of the write that was not committed. -/
theorem racingWrites_show_uncommitted :
    (plainCalls ℕ).Hold 1 .unwritten racingWrites ∧
      ((manager ℕ 1).run .unwritten racingWrites).result 2 = some (.read (.ok (some 2))) ∧
      ¬∃ it ∈ ((manager ℕ 1).run .unwritten racingWrites).trace, Commits 2 it := by
  decide +kernel

end TheSix
