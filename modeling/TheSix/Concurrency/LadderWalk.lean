import TheSix.Manager.Upkeep
import TheSix.Lib.Requests

/-!
# The ladder walk of `set`

`set` has three loops inside one another: the passes, the rungs of one pass, and the commit races at
one rung. What its requests have done so far is read off its exchanges (`walked`): the rung the
present pass has come to, how many races were lost there, how the last attempt ended, and whether a
commit was answered `Ok`. `LadderWalk` is what every path of a `set` is, whatever it is answered.
-/

namespace TheSix

open Coroutine

variable {V : Type}

/-- How an attempt of a `set` to write its value ended. -/
inductive Attempt
  | lost
  | refused (e : CacheError)
  | unprepared (e : CacheError)
  | uncommitted (e : CacheError)
  deriving DecidableEq

/-- Where a `set` has come to: the rung that the present pass has visited last, the races lost there,
how the last attempt ended, and whether one of its commits was answered `Ok`. -/
structure Walked where
  rung : Option TierId := none
  lost : ℕ := 0
  last : Option Attempt := none
  committed : Bool := false

namespace Walked

/-- The `prepare` of an attempt at a rung. -/
def visit (w : Walked) (rung : TierId) (end? : Option Attempt) : Walked where
  rung := some rung
  lost := if w.rung = some rung then w.lost else 0
  last := end?
  committed := w.committed

/-- What an answered request changes. Eviction ends a pass, and the next one comes to its first rung. -/
def answered (w : Walked) : (q : Req V) → q.Answer → Walked
  | .prepare rung _, .ok _ => w.visit rung none
  | .prepare rung _, .error e => w.visit rung (some (.unprepared e))
  | .tierSet _ _ _, .error e => { w with last := some (.refused e) }
  | .commit _ _, .ok _ => { w with committed := true }
  | .commit _ _, .error e =>
    if e = .staleGeneration then { w with lost := w.lost + 1, last := some .lost }
    else { w with last := some (.uncommitted e) }
  | .evictionCandidate _, _ => { committed := w.committed }
  | _, _ => w

/-- What an exchange changes. -/
def after (w : Walked) (x : Exchange Fn (Req V) Req.Answer) : Walked := w.answered x.req x.ans

/-- The rung a pass may come to next: any rung when it begins, the same rung after a lost race, and
after a refusal that degrades the nearest bound rung below. -/
def Comes (tiers : ℕ) (w : Walked) (rung : TierId) : Prop :=
  match w.rung with
  | none => True
  | some r =>
    (w.last = some .lost ∧ rung = r) ∨
      (∃ e, w.last = some (.refused e) ∧ Manager.degrades e = true) ∧ rung.asUsize < r.asUsize ∧
        ∀ x : TierId, rung.asUsize < x.asUsize → x.asUsize < r.asUsize → Manager.hasTier tiers x = false

/-- The requests a `set` may make: none after its commit, only to give up its intent when it has lost
every race, a prepare at a bound rung that comes next, and a write at the rung it has prepared. -/
def Allows (tiers : ℕ) (w : Walked) (q : Req V) : Prop :=
  w.committed = false ∧ (w.lost = Manager.maxCommitAttempts → ∃ token e, q = .abort token e) ∧
    match q with
    | .prepare rung _ => Manager.hasTier tiers rung = true ∧ rung.isCacheRung = true ∧ w.Comes tiers rung
    | .tierSet rung _ _ => w.rung = some rung
    | .notified _ => False
    | _ => True

/-- What a `set` may return. -/
structure Returns (w : Walked) (r : Except CacheError Unit) : Prop where
  ok : r = .ok () ↔ w.committed = true
  contended : w.lost = Manager.maxCommitAttempts → r = .error .writeContended
  stale : r = .error .staleGeneration →
    w.last = some (.refused .staleGeneration) ∨ w.last = some (.unprepared .staleGeneration)

end Walked

/-- The walk as a discipline; the phase of a thread is where it has come to. -/
def walking (V : Type) (tiers : ℕ) : Discipline Walked Fn (Req V) Req.Answer where
  ok w _ q := w.Allows tiers q
  tr w l q a w' := w' = w.after ⟨l, q, a⟩
  cancel w := w

namespace Manager

variable {tiers : ℕ} {a : Args} {v : V} {rung : TierId} {token : CommitToken} {w : Walked}
  {R : Type} {Dn : Fn → Walked → Prop} {Post : Walked → R → Prop}

theorem walks_req {l : Fn} {q : Req V} {k : q.Answer → Step V R} :
    (Prog.req l q none k).wp (walking V tiers) Dn Post w ↔
      w.Allows tiers q ∧ ∀ a, (k a).wp (walking V tiers) Dn Post (w.after ⟨l, q, a⟩) := by
  simp [Prog.wp_req, walking]

theorem walks_susp {l : Fn} {q : Req V} {k : q.Answer → Step V R} :
    (Prog.req l q (some []) k).wp (walking V tiers) Dn Post w ↔
      w.Allows tiers q ∧ Dn l w ∧ ∀ a, (k a).wp (walking V tiers) Dn Post (w.after ⟨l, q, a⟩) ∧
        Dn l (w.after ⟨l, q, a⟩) := by
  simp only [Prog.wp_req, walking, Option.some.injEq, forall_eq, forall_eq', Discipline.unwinds,
    forall_and]
  exact and_congr_right fun _ => and_left_comm

/-- A dropped `set` may give up its intent. -/
theorem unwinds_abort (hDn : ∀ l w, w.committed = false → Dn l w) {l : Fn}
    (hc : w.committed = false) :
    (walking V tiers).unwinds Dn l [.abort token .cancelled] w := by
  refine ⟨⟨hc, fun _ => ⟨_, _, rfl⟩, trivial⟩, ?_⟩
  rintro r w' rfl
  exact hDn l _ hc

/-- How a write under its intent leaves the walk. -/
def Wrote (w w' : Walked) : WriteEnd → Prop
  | .committed => w' = { w with committed := true }
  | .lostRace => w' = { w with lost := w.lost + 1, last := some .lost }
  | .uncommitted e => e ≠ .staleGeneration ∧ w' = { w with last := some (.uncommitted e) }
  | .refused e => w' = { w with last := some (.refused e) }

theorem writeUnder_walks (hw : w.rung = some rung) (hc : w.committed = false)
    (hlost : w.lost < maxCommitAttempts) (hDn : ∀ l w, w.committed = false → Dn l w) :
    (writeUnder a v rung token).wp (walking V tiers) Dn (Wrote w) w := by
  have hraces : ∀ {P : Prop}, w.lost = maxCommitAttempts → P := fun h => absurd h hlost.ne
  simp only [writeUnder, call, noTelemetry_eq, await, Prog.req_bind, Prog.ret_bind, walks_susp,
    walks_req]
  refine ⟨⟨hc, hraces, hw⟩, hDn _ _ hc, ?_⟩
  rintro (e | u)
  · refine ⟨⟨⟨hc, hraces, trivial⟩, fun _ => ?_⟩, hDn _ _ hc⟩
    simp only [Prog.wp_ite, walks_susp]
    exact ⟨fun _ => ⟨⟨hc, hraces, trivial⟩, hDn _ _ hc, fun r => ⟨rfl, hDn _ _ hc⟩⟩, fun _ => rfl⟩
  · simp only [walks_req]
    refine ⟨⟨⟨hc, hraces, trivial⟩, fun _ => ⟨⟨hc, hraces, trivial⟩, ?_⟩⟩, hDn _ _ hc⟩
    rintro (e | u)
    · simp only [Prog.wp_ite, walks_susp]
      refine ⟨?_, fun he => ?_⟩
      · rintro rfl
        rfl
      · generalize hw' : Walked.after _ _ = w'
        obtain rfl : w' = { w with last := some (.uncommitted e) } := hw'.symm.trans (if_neg he)
        exact ⟨⟨hc, hraces, trivial⟩, hDn _ _ hc, fun r => ⟨⟨he, rfl⟩, hDn _ _ hc⟩⟩
    · rfl

/-- A walk that may try a rung, with the races that are left there. -/
structure Approaches (tiers : ℕ) (rung : TierId) (races : ℕ) (w : Walked) : Prop where
  bound : hasTier tiers rung = true
  cache : rung.isCacheRung = true
  comes : w.Comes tiers rung
  uncommitted : w.committed = false
  lost : w.lost < maxCommitAttempts
  races : (w.visit rung none).lost + races = maxCommitAttempts

/-- How a walk leaves a rung. -/
def LeavesRung (rung : TierId) (w : Walked) : RungEnd → Prop
  | .finished r => w.Returns r
  | .nextRung e =>
    w.rung = some rung ∧ w.last = some (.refused e) ∧ degrades e = true ∧
      w.lost < maxCommitAttempts ∧ w.committed = false

/-- A call that ends before its last race is lost, and without a commit. -/
theorem returns_error {e : CacheError} (hlost : w.lost < maxCommitAttempts)
    (hc : w.committed = false) (he : e = .staleGeneration →
      w.last = some (.refused .staleGeneration) ∨ w.last = some (.unprepared .staleGeneration)) :
    w.Returns (.error e) where
  ok := by simp [hc]
  contended h := absurd h hlost.ne
  stale h := he (by simpa using h)

theorem returns_contended (hc : w.committed = false) : w.Returns (.error .writeContended) where
  ok := by simp [hc]
  contended _ := rfl
  stale h := by cases h

theorem writeAt_walks {races : ℕ} (h : Approaches tiers rung races w)
    (hDn : ∀ l w, w.committed = false → Dn l w) :
    (writeAt a v rung races).wp (walking V tiers) Dn (LeavesRung rung) w := by
  induction races generalizing w with
  | zero =>
    -- the races of a rung are never used up before it is tried
    have hall := h.races
    have hlost := h.lost
    simp only [Walked.visit, Nat.add_zero] at hall
    split_ifs at hall
    · omega
    · cases hall
  | succ races ih =>
    have hc : (w.visit rung none).committed = false := h.uncommitted
    have hleft : (w.visit rung none).lost < maxCommitAttempts := by
      have hall := h.races
      omega
    rw [writeAt]
    simp only [call, noTelemetry_eq, Prog.req_bind, Prog.ret_bind, walks_req]
    refine ⟨⟨h.uncommitted, fun hl => absurd hl h.lost.ne, h.bound, h.cache, h.comes⟩, ?_⟩
    rintro (e | token)
    · refine returns_error hleft hc ?_
      rintro rfl
      exact Or.inr rfl
    · simp only [Prog.wp_bind, Prog.wp_guarded]
      have hguard : ∀ l w, w.committed = false →
          (walking V tiers).unwinds Dn l [.abort token .cancelled] w :=
        fun l w hw => unwinds_abort hDn hw
      refine Prog.wp_mono ?_ (writeUnder_walks rfl hc hleft hguard)
      rintro w' (_ | _ | e | e) hwrote
      · obtain rfl := hwrote
        refine ⟨⟨fun _ => rfl, fun _ => rfl⟩, fun hl => absurd hl hleft.ne, ?_⟩
        intro hr
        cases hr
      · obtain rfl := hwrote
        cases races with
        | zero =>
          exact walks_req.2 ⟨⟨hc, fun _ => ⟨_, _, rfl⟩, trivial⟩, fun _ => returns_contended hc⟩
        | succ races =>
          have hmore : (w.visit rung none).lost + 1 < maxCommitAttempts := by
            have hall := h.races
            omega
          simp only [await, Prog.wp_bind, Prog.wp_guarded, walks_susp, walks_req, Prog.wp_ret]
          refine ⟨⟨hc, fun hl => absurd hl hmore.ne, trivial⟩, hguard _ _ hc, fun _ => ⟨?_, hguard _ _ hc⟩⟩
          refine ⟨⟨hc, fun _ => ⟨_, _, rfl⟩, trivial⟩, fun _ => ih ?_⟩
          refine ⟨h.bound, h.cache, Or.inl ⟨rfl, rfl⟩, hc, hmore, ?_⟩
          have hall := h.races
          have hsame : (if some rung = some rung then (w.visit rung none).lost + 1 else 0) +
              (races + 1) = maxCommitAttempts := by
            rw [if_pos rfl]
            omega
          exact hsame
      · obtain ⟨he, rfl⟩ := hwrote
        refine walks_req.2 ⟨⟨hc, fun _ => ⟨_, _, rfl⟩, trivial⟩, fun _ => returns_error hleft hc ?_⟩
        exact fun h => absurd h he
      · obtain rfl := hwrote
        have hend : (degrades e = true → LeavesRung rung
              { w.visit rung none with last := some (.refused e) } (.nextRung e)) ∧
            (¬degrades e = true → LeavesRung rung
              { w.visit rung none with last := some (.refused e) } (.finished (.error e))) := by
          refine ⟨fun he => ⟨rfl, rfl, he, hleft, hc⟩, fun _ => returns_error hleft hc ?_⟩
          rintro rfl
          exact Or.inl rfl
        have hraces : ∀ {P : Prop}, (w.visit rung none).lost = maxCommitAttempts → P :=
          fun hl => absurd hl hleft.ne
        simp only [abortRefused, call, Prog.wp_bind, Prog.wp_ite, walks_req]
        exact ⟨fun _ => ⟨⟨hc, hraces, trivial⟩, fun _ => hend⟩,
          fun _ => ⟨⟨hc, hraces, trivial⟩, fun _ => hend⟩⟩

/-- The rungs a pass has left: from the hottest of them down to `L0`, without a gap. -/
structure Descends (rungs : List TierId) : Prop where
  sorted : rungs.Pairwise fun x y => y.asUsize < x.asUsize
  closed : ∀ x ∈ rungs, ∀ y : TierId, y.asUsize < x.asUsize → y ∈ rungs
  cache : ∀ x ∈ rungs, x.isCacheRung = true

theorem Descends.tail {rungs : List TierId} (h : Descends (rung :: rungs)) : Descends rungs where
  sorted := (List.pairwise_cons.1 h.sorted).2
  closed x hx y hy := by
    have hbelow := (List.pairwise_cons.1 h.sorted).1 x hx
    rcases List.mem_cons.1 (h.closed x (List.mem_cons_of_mem _ hx) y hy) with rfl | hmem
    · omega
    · exact hmem
  cache x hx := h.cache x (List.mem_cons_of_mem _ hx)

theorem descends_descent (tier : TierId) : Descends (descent tier) where
  sorted := by cases tier <;> decide
  closed x hx y hy := by
    revert hx hy
    cases tier <;> cases x <;> cases y <;> decide
  cache x hx := by
    revert hx
    cases tier <;> cases x <;> decide

/-- A pass that has come to the rungs that are left. -/
structure Ahead (tiers : ℕ) (rungs : List TierId) (w : Walked) : Prop where
  uncommitted : w.committed = false
  lost : w.lost < maxCommitAttempts
  refused : ∀ r, w.rung = some r → ∃ e, w.last = some (.refused e) ∧ degrades e = true
  below : ∀ r, w.rung = some r → ∀ x ∈ rungs, x.asUsize < r.asUsize
  bound : ∀ r, w.rung = some r → ∀ x : TierId, x.asUsize < r.asUsize →
    x ∈ rungs ∨ hasTier tiers x = false

theorem Ahead.approaches {rungs : List TierId} (h : Ahead tiers (rung :: rungs) w)
    (hd : Descends (rung :: rungs)) (hb : hasTier tiers rung = true) :
    Approaches tiers rung maxCommitAttempts w where
  bound := hb
  cache := hd.cache rung List.mem_cons_self
  comes := by
    unfold Walked.Comes
    split
    · trivial
    · rename_i r hr
      refine Or.inr ⟨h.refused r hr, h.below r hr rung List.mem_cons_self, fun x hx hxr => ?_⟩
      refine (h.bound r hr x hxr).resolve_left fun hmem => ?_
      rcases List.mem_cons.1 hmem with rfl | hmem
      · omega
      · have hlt := (List.pairwise_cons.1 hd.sorted).1 x hmem
        omega
  uncommitted := h.uncommitted
  lost := h.lost
  races := by
    have hne : w.rung ≠ some rung := by
      intro hr
      have hlt := h.below rung hr rung List.mem_cons_self
      omega
    simp only [Walked.visit, if_neg hne, Nat.zero_add]

/-- An unbound rung is passed over. -/
theorem Ahead.skip {rungs : List TierId} (h : Ahead tiers (rung :: rungs) w)
    (hb : hasTier tiers rung = false) : Ahead tiers rungs w where
  uncommitted := h.uncommitted
  lost := h.lost
  refused := h.refused
  below r hr x hx := h.below r hr x (List.mem_cons_of_mem _ hx)
  bound r hr x hx := by
    rcases h.bound r hr x hx with hmem | hx
    · rcases List.mem_cons.1 hmem with rfl | hmem
      · exact Or.inr hb
      · exact Or.inl hmem
    · exact Or.inr hx

/-- How a walk leaves the ladder. -/
def LeavesLadder (w : Walked) : RungEnd → Prop
  | .finished r => w.Returns r
  | .nextRung e => w.committed = false ∧ w.lost < maxCommitAttempts ∧ e ≠ .staleGeneration

theorem walk_walks {rungs : List TierId} {e : CacheError} (hd : Descends rungs)
    (h : Ahead tiers rungs w) (he : e ≠ .staleGeneration)
    (hDn : ∀ l w, w.committed = false → Dn l w) :
    (walk tiers a v rungs e).wp (walking V tiers) Dn LeavesLadder w := by
  induction rungs generalizing w e with
  | nil => exact ⟨h.uncommitted, h.lost, he⟩
  | cons rung rungs ih =>
    simp only [walk, Prog.wp_ite, Prog.wp_bind]
    refine ⟨fun hb => ih hd.tail (h.skip hb) he, fun hb => ?_⟩
    refine Prog.wp_mono ?_ (writeAt_walks (h.approaches hd (by simpa using hb)) hDn)
    rintro w' (r | e') hleft
    · exact hleft
    · obtain ⟨hr, hlast, hdeg, hlost, hc⟩ := hleft
      refine ih hd.tail ⟨hc, hlost, fun _ _ => ⟨e', hlast, hdeg⟩, ?_, ?_⟩ ?_
      · intro r hr' x hx
        obtain rfl : rung = r := Option.some.inj (hr.symm.trans hr')
        exact (List.pairwise_cons.1 hd.sorted).1 x hx
      · intro r hr' x hx
        obtain rfl : rung = r := Option.some.inj (hr.symm.trans hr')
        rcases List.mem_cons.1 (hd.closed rung List.mem_cons_self x hx) with rfl | hmem
        · omega
        · exact Or.inl hmem
      · rintro rfl
        cases hdeg

/-- Eviction leaves no rung visited. -/
def Evicted (freed : Bool) (w : Walked) : Prop :=
  w.committed = false ∧ w.lost < maxCommitAttempts ∧ (freed = true → w.rung = none)

theorem tryEvictAtRung_walks {attempts : ℕ} (h : Evicted false w) :
    (tryEvictAtRung rung attempts).wp (walking V tiers) Dn (fun w r => Evicted r.1 w) w := by
  induction attempts generalizing w with
  | zero => exact h
  | succ attempts ih =>
    have hraces : ∀ {P : Prop}, w.lost = maxCommitAttempts → P := fun hl => absurd hl h.2.1.ne
    have hpos : 0 < maxCommitAttempts := by decide
    simp only [tryEvictAtRung, call, Prog.req_bind, Prog.ret_bind, walks_req]
    refine ⟨⟨h.1, hraces, trivial⟩, ?_⟩
    rintro (_ | address)
    · exact ⟨h.1, hpos, fun _ => rfl⟩
    · refine walks_req.2 ⟨⟨h.1, fun hl => absurd hl hpos.ne, trivial⟩, ?_⟩
      rintro (_ | _)
      · exact ih ⟨h.1, hpos, fun _ => rfl⟩
      · refine walks_req.2 ⟨⟨h.1, fun hl => absurd hl hpos.ne, trivial⟩, ?_⟩
        exact fun freed => ⟨h.1, hpos, fun _ => rfl⟩

theorem tryFreeSomewhere_walks {rungs : List TierId} {attempts : ℕ} (h : Evicted false w) :
    (tryFreeSomewhere tiers rungs attempts).wp (walking V tiers) Dn (fun w r => Evicted r w) w := by
  induction rungs generalizing w attempts with
  | nil => exact h
  | cons rung rungs ih =>
    simp only [tryFreeSomewhere, Prog.wp_ite, Prog.wp_bind]
    refine ⟨fun _ => ih h, fun _ => Prog.wp_mono ?_ (tryEvictAtRung_walks h)⟩
    rintro w' ⟨_ | _, attempts⟩ hw
    · exact ih hw
    · exact hw

theorem setPasses_walks {tier : TierId} {passes : ℕ} {e : CacheError} (h : Evicted true w)
    (he : e ≠ .staleGeneration) (hDn : ∀ l w, w.committed = false → Dn l w) :
    (setPasses tiers a v tier passes e).wp (walking V tiers) Dn Walked.Returns w := by
  have herror : ∀ {w e}, Evicted false w → e ≠ .staleGeneration → w.Returns (.error e) :=
    fun hw he => returns_error hw.2.1 hw.1 fun h => absurd h he
  induction passes generalizing w e with
  | zero => exact herror ⟨h.1, h.2.1, by simp⟩ he
  | succ passes ih =>
    have hnone : w.rung = none := h.2.2 rfl
    have hahead : Ahead tiers (descent tier) w :=
      ⟨h.1, h.2.1, by simp [hnone], by simp [hnone], by simp [hnone]⟩
    rw [setPasses, Prog.wp_bind]
    refine Prog.wp_mono ?_ (walk_walks (descends_descent tier) hahead he hDn)
    rintro w' (r | e') hw
    · exact hw
    · obtain ⟨hc, hlost, he'⟩ := hw
      simp only [Prog.wp_ite, Prog.wp_bind]
      refine ⟨fun _ => ?_, fun _ => herror ⟨hc, hlost, by simp⟩ he'⟩
      refine Prog.wp_mono ?_ (tryFreeSomewhere_walks ⟨hc, hlost, by simp⟩)
      rintro w'' (_ | _) hw
      · exact herror hw he'
      · exact ih hw he'

theorem admitWrite_ne_stale (hkey : a.keyRef ≠ .error .staleGeneration) :
    a.admitWrite ≠ .error .staleGeneration := by
  unfold Args.admitWrite Args.checkAuth
  cases hk : a.keyRef with
  | error e =>
    rw [hk] at hkey
    split_ifs <;> simp_all [bind, Except.bind]
  | ok k => split_ifs <;> simp [bind, Except.bind, pure, Except.pure]

theorem authorize_ne_stale (d : PolicyDecision) : Args.authorize d ≠ .error .staleGeneration := by
  unfold Args.authorize
  split_ifs <;> simp

theorem set_walks (hkey : a.keyRef ≠ .error .staleGeneration)
    (hDn : ∀ l w, w.committed = false → Dn l w) :
    (Manager.set tiers a v).wp (walking V tiers) Dn Walked.Returns {} := by
  have hpos : 0 < maxCommitAttempts := by decide
  have herror : ∀ {e}, e ≠ .staleGeneration → ({} : Walked).Returns (.error e) :=
    fun he => returns_error hpos rfl fun h => absurd h he
  have hgate := admitWrite_ne_stale hkey
  unfold Manager.set
  cases hg : a.admitWrite with
  | error e =>
    rw [hg] at hgate
    exact herror fun he => hgate (by rw [he])
  | ok u =>
    simp only [call, noTelemetry_eq, Prog.req_bind, Prog.ret_bind, walks_req]
    refine ⟨⟨rfl, fun hl => absurd hl hpos.ne, trivial⟩, fun s => ?_⟩
    refine ⟨⟨rfl, fun hl => absurd hl hpos.ne, trivial⟩, fun failures => ?_⟩
    have hauth := authorize_ne_stale (a.select (.fromSnapshot s failures))
    cases hg : Args.authorize (a.select (.fromSnapshot s failures)) with
    | error e =>
      rw [hg] at hauth
      exact herror fun he => hauth (by rw [he])
    | ok u =>
      simp only [Prog.wp_ite]
      refine ⟨fun _ => herror (by simp), fun _ => ?_⟩
      exact setPasses_walks ⟨rfl, hpos, fun _ => rfl⟩ (by simp) hDn

/-! ## Budgets -/

section Budget

variable {P X : ℕ}

/-- What a request costs when a prepare costs `P` and any other request `X`. -/
def cost (P X : ℕ) : Req V → ℕ
  | .prepare _ _ => P
  | _ => X

theorem writeUnder_within : (writeUnder a v rung token).Within (cost P X) (4 * X) := by
  simp only [writeUnder, call, noTelemetry_eq, await, Prog.req_bind, Prog.ret_bind, Prog.within_req,
    cost]
  refine ⟨by omega, ?_⟩
  rintro (e | u)
  · refine ⟨by omega, fun _ => ?_⟩
    simp only [Prog.within_ite, Prog.within_req, cost]
    exact ⟨fun _ => ⟨by omega, fun _ => trivial⟩, fun _ => trivial⟩
  · refine ⟨by omega, fun _ => ⟨by simp only [cost]; omega, ?_⟩⟩
    rintro (e | u)
    · simp only [Prog.within_ite, Prog.within_req, cost]
      exact ⟨fun _ => trivial, fun _ => ⟨by omega, fun _ => trivial⟩⟩
    · trivial

theorem abortRefused_within (e : CacheError) :
    (abortRefused token e : Step V _).Within (cost P X) X := by
  simp [abortRefused, call, Prog.within_ite, Prog.within_req, cost]

theorem writeAt_within (races : ℕ) :
    (writeAt a v rung races).Within (cost P X) (races * (P + 6 * X)) := by
  induction races with
  | zero => trivial
  | succ races ih =>
    rw [writeAt, Nat.succ_mul]
    simp only [call, noTelemetry_eq, Prog.req_bind, Prog.ret_bind, Prog.within_req, cost]
    refine ⟨by omega, ?_⟩
    rintro (e | token)
    · trivial
    · refine (writeUnder_within.guarded.bind (n := 2 * X + races * (P + 6 * X)) ?_).mono (by omega)
      rintro (_ | _ | e | e)
      · trivial
      · cases races with
        | zero => exact ⟨by simp only [cost]; omega, fun _ => trivial⟩
        | succ races =>
          have hyield : (await .set .yieldNow : Step V Unit).Within (cost P X) X :=
            ⟨le_rfl, fun _ => trivial⟩
          refine (hyield.guarded.bind (n := X + (races + 1) * (P + 6 * X)) fun _ => ?_).mono (by omega)
          exact ⟨by simp only [cost]; omega, fun _ => ih.mono (by simp only [cost]; omega)⟩
      · exact ⟨by simp only [cost]; omega, fun _ => trivial⟩
      · refine ((abortRefused_within e).bind (n := 0) fun _ => ?_).mono (by omega)
        simp [Prog.within_ite]

theorem walk_within (rungs : List TierId) (e : CacheError) :
    (walk tiers a v rungs e).Within (cost P X)
      (rungs.length * (maxCommitAttempts * (P + 6 * X))) := by
  induction rungs generalizing e with
  | nil => trivial
  | cons rung rungs ih =>
    rw [List.length_cons, Nat.succ_mul]
    simp only [walk, Prog.within_ite]
    refine ⟨fun _ => (ih e).mono (by omega), fun _ => ?_⟩
    refine ((writeAt_within maxCommitAttempts).bind ?_).mono (Nat.add_comm _ _).le
    rintro (r | e)
    · trivial
    · exact ih e

theorem tryEvictAtRung_within (attempts : ℕ) :
    (tryEvictAtRung rung attempts : Step V _).Within (cost P X) (attempts * (2 * X) + X) := by
  induction attempts with
  | zero => trivial
  | succ attempts ih =>
    rw [Nat.succ_mul]
    simp only [tryEvictAtRung, call, Prog.req_bind, Prog.ret_bind, Prog.within_req, cost]
    refine ⟨by omega, ?_⟩
    rintro (_ | address)
    · trivial
    · refine ⟨by simp only [cost]; omega, ?_⟩
      rintro (_ | _)
      · exact ih.mono (by simp only [cost]; omega)
      · exact ⟨by simp only [cost]; omega, fun _ => trivial⟩

/-- The attempts of an eviction are shared by the rungs. -/
theorem tryEvictAtRung_attempts {attempts : ℕ} {log : List (Exchange Fn (Req V) Req.Answer)}
    {r : Bool × ℕ} (h : (tryEvictAtRung rung attempts).Leads log r) : r.2 ≤ attempts := by
  induction attempts generalizing log with
  | zero =>
    obtain ⟨-, rfl⟩ := Prog.leads_pure.1 h
    exact le_rfl
  | succ attempts ih =>
    simp only [tryEvictAtRung, call, Prog.req_bind, Prog.ret_bind, Prog.leads_req] at h
    obtain ⟨_ | address, rest, -, h⟩ := h
    · obtain ⟨-, rfl⟩ := Prog.leads_pure.1 h
      exact Nat.le_succ _
    · obtain ⟨_ | _, rest', -, h⟩ := Prog.leads_req.1 h
      · exact (ih h).trans (Nat.le_succ _)
      · obtain ⟨freed, rest'', -, h⟩ := Prog.leads_req.1 h
        obtain ⟨-, rfl⟩ := Prog.leads_pure.1 h
        exact Nat.le_succ _

theorem tryFreeSomewhere_within (rungs : List TierId) {attempts n : ℕ} (h : attempts ≤ n) :
    (tryFreeSomewhere tiers rungs attempts : Step V _).Within (cost P X)
      (rungs.length * (n * (2 * X) + X)) := by
  induction rungs generalizing attempts with
  | nil => trivial
  | cons rung rungs ih =>
    rw [List.length_cons, Nat.succ_mul]
    simp only [tryFreeSomewhere, Prog.within_ite]
    refine ⟨fun _ => (ih h).mono (by omega), fun _ => ?_⟩
    have hrung : (tryEvictAtRung rung attempts : Step V _).Within (cost P X) (n * (2 * X) + X) :=
      (tryEvictAtRung_within attempts).mono (Nat.add_le_add_right (Nat.mul_le_mul_right _ h) X)
    refine (hrung.bind_of_leads ?_).mono (Nat.add_comm _ _).le
    rintro log ⟨_ | _, left⟩ hleads
    · exact ih ((tryEvictAtRung_attempts hleads).trans h)
    · trivial

/-- What one pass of `set` may cost: six rungs, and the eviction after them. -/
def passCost (P X : ℕ) : ℕ :=
  6 * (maxCommitAttempts * (P + 6 * X)) + 6 * (maxEvictionAttempts * (2 * X) + X)

theorem setPasses_within {tier : TierId} (passes : ℕ) (e : CacheError) :
    (setPasses tiers a v tier passes e).Within (cost P X) (passes * passCost P X) := by
  have hlength : (descent tier).length ≤ 6 := by cases tier <;> decide
  induction passes generalizing e with
  | zero => trivial
  | succ passes ih =>
    have hwalk : (walk tiers a v (descent tier) e).Within (cost P X)
        (6 * (maxCommitAttempts * (P + 6 * X))) :=
      (walk_within (descent tier) e).mono (Nat.mul_le_mul_right _ hlength)
    have hfree : (tryFreeSomewhere tiers cacheLadder maxEvictionAttempts : Step V _).Within
        (cost P X) (6 * (maxEvictionAttempts * (2 * X) + X)) :=
      tryFreeSomewhere_within cacheLadder (le_refl maxEvictionAttempts)
    rw [setPasses]
    refine (hwalk.bind (n := 6 * (maxEvictionAttempts * (2 * X) + X) +
      passes * passCost P X) ?_).mono ?_
    · rintro (r | e)
      · trivial
      · simp only [Prog.within_ite]
        refine ⟨fun _ => hfree.bind ?_, fun _ => trivial⟩
        rintro (_ | _)
        · trivial
        · exact ih e
    · rw [Nat.add_one_mul passes]
      unfold passCost
      omega

theorem set_within : (Manager.set tiers a v).Within (cost P X) (2 * X + 17 * passCost P X) := by
  unfold Manager.set
  cases a.admitWrite with
  | error e => trivial
  | ok u =>
    simp only [call, noTelemetry_eq, Prog.req_bind, Prog.ret_bind, Prog.within_req]
    refine ⟨by simp only [cost]; omega, fun s => ⟨by simp only [cost]; omega, fun failures => ?_⟩⟩
    cases Args.authorize (a.select (.fromSnapshot s failures)) with
    | error e => trivial
    | ok u =>
      simp only [Prog.within_ite]
      exact ⟨fun _ => trivial, fun _ => (setPasses_within 17 _).mono (by simp only [cost]; omega)⟩

end Budget

end Manager

/-! ## What every path is -/

/-- How an exchange ends an attempt. -/
def Attempt.of : (q : Req V) → q.Answer → Option Attempt
  | .prepare _ _, .error e => some (.unprepared e)
  | .tierSet _ _ _, .error e => some (.refused e)
  | .commit _ _, .error e => some (if e = .staleGeneration then .lost else .uncommitted e)
  | _, _ => none

/-- Where a `set` has come to by its exchanges, oldest first. -/
def walked (log : List (Exchange Fn (Req V) Req.Answer)) : Walked := log.foldl Walked.after {}

/-- The exchange is a prepare. -/
def Prepares (x : Exchange Fn (Req V) Req.Answer) : Bool :=
  match x.req with
  | .prepare _ _ => true
  | _ => false

/-- The exchange is a commit that was answered `Ok`. -/
def Committing (x : Exchange Fn (Req V) Req.Answer) : Prop :=
  ∃ site token ttl, x = ⟨site, .commit token ttl, .ok ()⟩

/-- **A ladder walk**: at most `17 * 6 * 64` prepares among a bounded number of requests, each of
which the walk allows where it has come to, and nothing after a commit that was answered `Ok`. -/
structure LadderWalk (tiers : ℕ) (log : List (Exchange Fn (Req V) Req.Answer)) : Prop where
  prepares : log.countP Prepares ≤ 17 * 6 * 64
  requests : log.length ≤ 47432
  allowed : ∀ front x rest, log = front ++ x :: rest → (walked front).Allows tiers x.req
  last : ∀ front x rest, log = front ++ x :: rest → Committing x → rest = []

/-- What a walk may return: `Ok` exactly when a commit was answered `Ok`, `WriteContended` when it has
lost every race of its last rung, and `StaleGeneration` only as the answer of a tier's `set`. -/
structure Concludes (log : List (Exchange Fn (Req V) Req.Answer)) (r : Except CacheError Unit) :
    Prop where
  ok : r = .ok () ↔ ∃ x ∈ log, Committing x
  contended : (walked log).lost = Manager.maxCommitAttempts → r = .error .writeContended
  stale : r = .error .staleGeneration →
    ∃ x ∈ log, ∃ site rung value ttl, x = ⟨site, .tierSet rung value ttl, .error .staleGeneration⟩

section Reading

variable {log : List (Exchange Fn (Req V) Req.Answer)}

theorem walked_concat (x : Exchange Fn (Req V) Req.Answer) :
    walked (log ++ [x]) = (walked log).after x := by
  simp [walked]

theorem Walked.committed_after (w : Walked) (x : Exchange Fn (Req V) Req.Answer) :
    (w.after x).committed = true ↔ w.committed = true ∨ Committing x := by
  obtain ⟨site, q, a⟩ := x
  cases q with
  | commit token ttl =>
    cases a with
    | ok u => exact iff_of_true rfl (Or.inr ⟨site, token, ttl, rfl⟩)
    | error e =>
      have hno : ¬Committing (⟨site, .commit token ttl, .error e⟩ : Exchange Fn (Req V) Req.Answer) := by
        rintro ⟨site', token', ttl', hx⟩
        simp at hx
      simp only [hno, or_false, after, answered]
      split_ifs <;> rfl
  | prepare rung kind => cases a <;> simp [after, answered, visit, Committing]
  | tierSet rung value ttl => cases a <;> simp [after, answered, Committing]
  | _ => simp [after, answered, Committing]

theorem committed_walked : (walked log).committed = true ↔ ∃ x ∈ log, Committing x := by
  induction log using List.reverseRecOn with
  | nil => simp [walked]
  | append_singleton log x ih =>
    rw [walked_concat, Walked.committed_after, ih]
    simp [or_and_right, exists_or]

theorem Walked.last_after {w : Walked} {x : Exchange Fn (Req V) Req.Answer} {end? : Attempt}
    (h : (w.after x).last = some end?) :
    w.last = some end? ∨ Attempt.of x.req x.ans = some end? := by
  obtain ⟨site, q, a⟩ := x
  cases q with
  | commit token ttl =>
    cases a with
    | ok u => exact Or.inl h
    | error e =>
      right
      simp only [after, answered] at h
      simp only [Attempt.of]
      split_ifs at h ⊢ <;> exact h
  | prepare rung kind =>
    cases a with
    | ok token => cases h
    | error e => exact Or.inr h
  | tierSet rung value ttl =>
    cases a with
    | ok u => exact Or.inl h
    | error e => exact Or.inr h
  | evictionCandidate rung => cases h
  | _ => exact Or.inl h

theorem last_walked {end? : Attempt} (h : (walked log).last = some end?) :
    ∃ x ∈ log, Attempt.of x.req x.ans = some end? := by
  induction log using List.reverseRecOn with
  | nil => cases h
  | append_singleton log x ih =>
    rw [walked_concat] at h
    rcases Walked.last_after h with h | h
    · obtain ⟨y, hy, hend⟩ := ih h
      exact ⟨y, List.mem_append_left _ hy, hend⟩
    · exact ⟨x, by simp, h⟩

/-- An attempt is ended by an error of a `prepare`, of a tier's `set` or of a commit. -/
theorem Attempt.of_eq_some {x : Exchange Fn (Req V) Req.Answer} {ended : Attempt}
    (h : Attempt.of x.req x.ans = some ended) :
    (∃ site rung kind e, x = ⟨site, .prepare rung kind, .error e⟩ ∧ ended = .unprepared e) ∨
      (∃ site rung value ttl e, x = ⟨site, .tierSet rung value ttl, .error e⟩ ∧ ended = .refused e) ∨
      ∃ e, ended = if e = .staleGeneration then .lost else .uncommitted e := by
  obtain ⟨site, q, a⟩ := x
  cases q with
  | prepare rung kind =>
    cases a with
    | ok token => cases h
    | error e => exact .inl ⟨site, rung, kind, e, rfl, (Option.some.inj h).symm⟩
  | tierSet rung value ttl =>
    cases a with
    | ok u => cases h
    | error e => exact .inr (.inl ⟨site, rung, value, ttl, e, rfl, (Option.some.inj h).symm⟩)
  | commit token ttl =>
    cases a with
    | ok u => cases h
    | error e => exact .inr (.inr ⟨e, (Option.some.inj h).symm⟩)
  | _ => cases h

/-- A refusal is the answer of a tier's `set`. -/
theorem tierSet_of_refused {x : Exchange Fn (Req V) Req.Answer} {e : CacheError}
    (h : Attempt.of x.req x.ans = some (.refused e)) :
    ∃ site rung value ttl, x = ⟨site, .tierSet rung value ttl, .error e⟩ := by
  rcases Attempt.of_eq_some h with
    ⟨_, _, _, _, -, he⟩ | ⟨site, rung, value, ttl, _, rfl, he⟩ | ⟨e', he⟩
  · cases he
  · cases he
    exact ⟨site, rung, value, ttl, rfl⟩
  · split_ifs at he

theorem prepare_of_unprepared {x : Exchange Fn (Req V) Req.Answer} {e : CacheError}
    (h : Attempt.of x.req x.ans = some (.unprepared e)) :
    ∃ site rung kind, x = ⟨site, .prepare rung kind, .error e⟩ := by
  rcases Attempt.of_eq_some h with
    ⟨site, rung, kind, _, rfl, he⟩ | ⟨_, _, _, _, _, -, he⟩ | ⟨e', he⟩
  · cases he
    exact ⟨site, rung, kind, rfl⟩
  · cases he
  · split_ifs at he

end Reading

/-- Only a wait can be blocked. -/
theorem KeyWorld.exec_isSome_of_allows {w : Walked} {tiers : ℕ} {q : Req V} (h : w.Allows tiers q)
    (o : Outcome V) (world : KeyWorld V) : (world.exec q o).isSome = true := by
  cases q with
  | notified epoch => exact absurd h.2.2 id
  | tierGet | tierSet | tierRemove | tierContains => cases ho : o.error <;> simp [exec, ho]
  | reserveEviction | removeIfAddress =>
    simp only [exec]
    split <;> rfl
  | register notify => cases notify <;> rfl
  | _ => rfl

/-- Nobody who prepares without naming a generation finds that it is stale. -/
theorem KeyWorld.exec_prepare_ne_stale {w w' : KeyWorld V} {rung : TierId} {kind : IntentKind}
    {o : Outcome V} : w.exec (.prepare rung kind) o ≠ some (.error .staleGeneration, w') := by
  cases hs : w.slot <;> cases hr : o.room <;>
    simp [exec, onSlot, hs, hr, KeySlot.prepare, KeySlot.withOrCreate, ControlEntry.prepare_none]

theorem length_eq_sum (log : List (Exchange Fn (Req V) Req.Answer)) :
    log.length = (log.map (Manager.cost 1 1 ·.req)).sum := by
  induction log with
  | nil => rfl
  | cons x log ih =>
    have hx : Manager.cost 1 1 x.req = 1 := by cases x.req <;> rfl
    rw [List.map_cons, List.sum_cons, List.length_cons, ih, hx, Nat.add_comm]

theorem countP_prepares (log : List (Exchange Fn (Req V) Req.Answer)) :
    log.countP Prepares = (log.map (Manager.cost 1 0 ·.req)).sum := by
  induction log with
  | nil => rfl
  | cons x log ih =>
    have hx : Manager.cost 1 0 x.req = if Prepares x then 1 else 0 := by
      unfold Prepares
      cases x.req <;> rfl
    rw [List.map_cons, List.sum_cons, List.countP_cons, ih, hx, Nat.add_comm]

/-- What a `set` has exchanged is a ladder walk, and its next request is one that is answered. -/
theorem set_leaves {tiers : ℕ} {a : Args} {v : V} (hkey : a.keyRef ≠ .error .staleGeneration)
    {log : List (Exchange Fn (Req V) Req.Answer)} {p : Step V (Except CacheError Unit)}
    (h : (Manager.set tiers a v).Leaves log p) :
    LadderWalk tiers log ∧
      p.wp (walking V tiers) (fun _ w => w.committed = false) Walked.Returns (walked log) := by
  have hwalks : (Manager.set tiers a v).wp (walking V tiers) (fun _ w => w.committed = false)
      Walked.Returns {} := Manager.set_walks hkey fun _ _ h => h
  obtain ⟨hrest, hok⟩ := Prog.wp_leaves (fun _ _ => rfl) h hwalks
  refine ⟨⟨?_, ?_, fun front x rest hsplit => hok front x rest hsplit, ?_⟩, hrest⟩
  · rw [countP_prepares]
    exact Manager.set_within.leaves h
  · rw [length_eq_sum]
    exact Manager.set_within.leaves h
  · intro front x rest hsplit hx
    cases rest with
    | nil => rfl
    | cons y rest =>
      have hcommitted : (walked (front ++ [x])).committed = true :=
        committed_walked.2 ⟨x, by simp, hx⟩
      have hallowed := hok (front ++ [x]) y rest (by simp [hsplit])
      exact absurd (hcommitted.symm.trans hallowed.1) (by simp)

/-- **The ladder walk of `set`.** However it is answered, a `set` walks the ladder: it makes at most
`17 * 6 * 64` prepares, and what it asks for next is always answered. When it has returned in a run,
beside any other calls and sweeps, it returned what its walk says. An encoder of the caller's own
keys that answers `StaleGeneration` is left out. -/
theorem set_walks_the_ladder (tiers : ℕ) (a : Args) (v : V)
    (hkey : a.keyRef ≠ .error .staleGeneration) :
    (∀ log p, (Manager.set tiers a v).Leaves log p → LadderWalk tiers log ∧
      ((∃ r, p = .ret r) ∨ ∃ l q cancel k, p = .req l q cancel k ∧
        ∀ (o : Outcome V) (w : KeyWorld V), (w.exec q o).isSome = true)) ∧
    ∀ (w : Maintained V) (schedule : List (Duty V)) (i : ℕ) (r : Except CacheError Unit),
      ((maintained V tiers).run w schedule).tasks i = some ⟨.set a v, .ret (some (.done r))⟩ →
      ∃ mine older log, ofThread i ((maintained V tiers).run w schedule).trace = mine ++ older ∧
        (∀ it ∈ mine, it.call = .set a v) ∧ log = mine.reverse.map Item.exchange ∧
        (Manager.set tiers a v).Leads log r ∧ LadderWalk tiers log ∧ Concludes log r := by
  refine ⟨fun log p h => ?_, fun w schedule i r ht => ?_⟩
  · obtain ⟨hwalk, hrest⟩ := set_leaves hkey h
    refine ⟨hwalk, ?_⟩
    cases p with
    | ret r => exact Or.inl ⟨r, rfl⟩
    | req l q cancel k =>
      exact Or.inr ⟨l, q, cancel, k, rfl, fun o w => KeyWorld.exec_isSome_of_allows hrest.1 o w⟩
  · obtain ⟨mine, older, hown, hcall, hpath⟩ := Machine.leads_of_result ht
    obtain ⟨r', hset, hr⟩ := Prog.leads_map.1 hpath
    obtain rfl : r' = r := by simpa using hr
    obtain ⟨hwalk, hreturns⟩ := set_leaves hkey hset
    refine ⟨mine, older, _, hown, hcall, rfl, hset, hwalk, ?_, hreturns.contended, fun hstale => ?_⟩
    · rw [hreturns.ok, committed_walked]
    · rcases hreturns.stale hstale with hlast | hlast
      · obtain ⟨x, hx, hend⟩ := last_walked hlast
        exact ⟨x, hx, tierSet_of_refused hend⟩
      · obtain ⟨x, hx, hend⟩ := last_walked hlast
        obtain ⟨it, hit, rfl⟩ := mem_exchanges hx
        obtain ⟨site, rung, kind, hprepare⟩ := prepare_of_unprepared hend
        obtain ⟨o, hexec⟩ := (Machine.linked_run w schedule).exec_of_mem (mem_trace_of_mine hown hit)
        obtain ⟨thread, c, l, q, answer, pre, post⟩ := it
        cases hprepare
        have hstale : pre.exec (.prepare rung kind) o = some (.error .staleGeneration, post) := hexec
        exact absurd (Maintained.exec_eq_some hstale).1 KeyWorld.exec_prepare_ne_stale

/-- A `set` that loses a race to another one, and writes again. -/
def losesOnce : List (Duty ℕ) :=
  [.start 0 (.set (.pinned .L0 none) 1), .run 0 {}, .run 0 {}, .run 0 {}, .run 0 {}, .run 0 {},
    .start 1 (.set (.pinned .L0 none) 2), .run 1 {}, .run 1 {}, .run 1 {}, .run 1 {}, .run 1 {},
    .run 1 {}, .run 0 {}, .run 0 {}, .run 0 {}, .run 0 {}, .run 0 {}, .run 0 {}, .run 0 {}]

theorem set_walks_the_ladder_losesOnce :
    ∃ log, LadderWalk 1 log ∧ Concludes (V := ℕ) log (.ok ()) := by
  have hresult : ((maintained ℕ 1).run Maintained.unwritten losesOnce).result 0 =
      some (.done (.ok ())) := by decide +kernel
  obtain ⟨c, ht⟩ := Sys.result_eq_some hresult
  obtain rfl : c = .set (.pinned .L0 none) 1 := by
    simpa [losesOnce] using Machine.started_of_task ht
  obtain ⟨mine, older, log, -, -, -, -, hwalk, hends⟩ :=
    (set_walks_the_ladder 1 (.pinned .L0 none) 1 (by simp [Args.pinned])).2 _ _ _ _ ht
  exact ⟨log, hwalk, hends⟩

end TheSix
