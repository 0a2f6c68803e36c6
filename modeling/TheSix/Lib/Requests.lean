import TheSix.Lib.Trace
import TheSix.Lib.Paths

/-!
# What programs ask for

`Prog.Asks P G` says that every request a program makes meets `P`, the ones of its clean-ups included,
as long as the answers it is handed meet `G`. It is read off the program, piece by piece. In a machine
whose programs ask only for `P` and whose world answers only `G`, every request of every trace meets
`P`, and what the requests that meet `P` keep holds of the world of every run
(`Machine.keeps_run`). This is the part of a protocol that needs no phases.

`Prog.Within c n` says that the requests of no path cost more than `n` together, when `c` is what each
of them costs.
-/

namespace Coroutine

variable {C L Q R S W O E : Type} {A : Q → Type} {P : L → Q → Prop} {G : (q : Q) → A q → Prop}

namespace Prog

/-- Every request meets `P`, as long as the answers meet `G`. -/
def Asks (P : L → Q → Prop) (G : (q : Q) → A q → Prop) : Prog L Q A R → Prop
  | ret _ => True
  | req l q cancel k =>
    P l q ∧ (∀ a, G q a → (k a).Asks P G) ∧ ∀ cs ∈ cancel, ∀ c ∈ cs, P l c

@[simp] theorem asks_ret (r : R) : (ret r : Prog L Q A R).Asks P G := trivial

@[simp] theorem asks_pure (r : R) : (pure r : Prog L Q A R).Asks P G := trivial

theorem asks_req {l : L} {q : Q} {cancel : Option (List Q)} {k : A q → Prog L Q A R} :
    (req l q cancel k).Asks P G ↔
      P l q ∧ (∀ a, G q a → (k a).Asks P G) ∧ ∀ cs ∈ cancel, ∀ c ∈ cs, P l c := Iff.rfl

theorem asks_ite {b : Prop} [Decidable b] {p p' : Prog L Q A R} :
    (if b then p else p').Asks P G ↔ (b → p.Asks P G) ∧ (¬b → p'.Asks P G) := by
  split <;> simp_all

theorem Asks.bind {p : Prog L Q A R} {f : R → Prog L Q A S} (hp : p.Asks P G)
    (hf : ∀ r, (f r).Asks P G) : (p >>= f).Asks P G := by
  induction p with
  | ret r => exact hf r
  | req l q cancel k ih => exact ⟨hp.1, fun a ha => ih a (hp.2.1 a ha), hp.2.2⟩

theorem Asks.map {p : Prog L Q A R} {f : R → S} (hp : p.Asks P G) : (f <$> p).Asks P G :=
  hp.bind fun r => asks_ret (f r)

theorem Asks.guarded {cleanup : List Q} {p : Prog L Q A R} (hp : p.Asks P G)
    (hc : ∀ l, ∀ c ∈ cleanup, P l c) : (p.guarded cleanup).Asks P G := by
  induction p with
  | ret r => trivial
  | req l q cancel k ih =>
    refine ⟨hp.1, fun a ha => ih a (hp.2.1 a ha), ?_⟩
    intro cs hcs c hmem
    rw [Option.mem_def, Option.map_eq_some_iff] at hcs
    obtain ⟨cs', hcs', rfl⟩ := hcs
    rcases List.mem_append.1 hmem with hmem | hmem
    · exact hp.2.2 cs' hcs' c hmem
    · exact hc l c hmem

theorem asks_unwind {l : L} {cs : List Q} (h : ∀ c ∈ cs, P l c) :
    (unwind l cs : Prog L Q A (Option R)).Asks P G := by
  induction cs with
  | nil => trivial
  | cons c cs ih =>
    rw [List.forall_mem_cons] at h
    exact ⟨h.1, fun _ _ => ih h.2, by simp⟩

/-- The requests on a path whose answers meet `G`. -/
theorem Asks.leads {p : Prog L Q A R} (hp : p.Asks P G) {log : List (Exchange L Q A)} {r : R}
    (h : p.Leads log r) (hG : ∀ x ∈ log, G x.req x.ans) : ∀ x ∈ log, P x.site x.req := by
  induction p generalizing log with
  | ret r' =>
    obtain ⟨rfl, -⟩ := leads_ret.1 h
    simp
  | req l q cancel k ih =>
    obtain ⟨a, rest, rfl, hrest⟩ := leads_req.1 h
    rw [List.forall_mem_cons] at hG
    exact List.forall_mem_cons.2 ⟨hp.1, ih a (hp.2.1 a hG.1) hrest hG.2⟩

/-! ### Budgets -/

section Budget

variable {c : Q → ℕ} {m n : ℕ}

/-- No path costs more than `n`. -/
def Within (c : Q → ℕ) : Prog L Q A R → ℕ → Prop
  | ret _, _ => True
  | req _ q _ k, n => c q ≤ n ∧ ∀ a, (k a).Within c (n - c q)

@[simp] theorem within_ret (r : R) : (ret r : Prog L Q A R).Within c n := trivial

@[simp] theorem within_pure (r : R) : (pure r : Prog L Q A R).Within c n := trivial

theorem within_req {l : L} {q : Q} {cancel : Option (List Q)} {k : A q → Prog L Q A R} :
    (req l q cancel k).Within c n ↔ c q ≤ n ∧ ∀ a, (k a).Within c (n - c q) := Iff.rfl

theorem within_ite {b : Prop} [Decidable b] {p p' : Prog L Q A R} :
    (if b then p else p').Within c n ↔ (b → p.Within c n) ∧ (¬b → p'.Within c n) := by
  split <;> simp_all

theorem Within.mono {p : Prog L Q A R} (hp : p.Within c m) (h : m ≤ n) : p.Within c n := by
  induction p generalizing m n with
  | ret r => trivial
  | req l q cancel k ih => exact ⟨hp.1.trans h, fun a => ih a (hp.2 a) (by omega)⟩

/-- The second part counts only where the first one leads. -/
theorem Within.bind_of_leads {p : Prog L Q A R} {f : R → Prog L Q A S} (hp : p.Within c m)
    (hf : ∀ log r, p.Leads log r → (f r).Within c n) : (p >>= f).Within c (m + n) := by
  induction p generalizing m with
  | ret r => exact (hf [] r (leads_ret.2 ⟨rfl, rfl⟩)).mono (by omega)
  | req l q cancel k ih =>
    refine ⟨hp.1.trans (by omega), fun a => ?_⟩
    have hrest := ih a (hp.2 a) fun log r h => hf _ r (leads_req.2 ⟨a, log, rfl, h⟩)
    have hq := hp.1
    exact hrest.mono (by omega)

theorem Within.bind {p : Prog L Q A R} {f : R → Prog L Q A S} (hp : p.Within c m)
    (hf : ∀ r, (f r).Within c n) : (p >>= f).Within c (m + n) :=
  hp.bind_of_leads fun _ r _ => hf r

theorem Within.map {p : Prog L Q A R} {f : R → S} (hp : p.Within c n) : (f <$> p).Within c n :=
  hp.bind fun r => within_ret (n := 0) (f r)

theorem Within.guarded {cleanup : List Q} {p : Prog L Q A R} (hp : p.Within c n) :
    (p.guarded cleanup).Within c n := by
  induction p generalizing n with
  | ret r => trivial
  | req l q cancel k ih => exact ⟨hp.1, fun a => ih a (hp.2 a)⟩

/-- What a program has spent so far. -/
theorem Within.leaves {p p' : Prog L Q A R} (hp : p.Within c n) {log : List (Exchange L Q A)}
    (h : p.Leaves log p') : (log.map (c ·.req)).sum ≤ n := by
  induction h generalizing n with
  | nil p => simp
  | @cons l q cancel k a log p' h ih =>
    have hrest := ih (hp.2 a)
    have hq := hp.1
    rw [List.map_cons, List.sum_cons]
    change c q + _ ≤ n
    omega

end Budget

end Prog

namespace Machine

variable {M : Machine C L Q A R W O E}

/-- Every thread asks for `P` only. -/
def Asking (P : L → Q → Prop) (G : (q : Q) → A q → Prop) (s : Sys C L Q A R W) : Prop :=
  ∀ i t, s.tasks i = some t → t.rest.Asks P G

theorem Asking.update {s s' : Sys C L Q A R W} (h : Asking P G s) {i : ℕ} {c : C}
    {rest : Prog L Q A (Option R)}
    (htasks : s'.tasks = Function.update s.tasks i (some ⟨c, rest⟩)) (hrest : rest.Asks P G) :
    Asking P G s' := by
  intro j t ht
  rw [htasks, Function.update_apply] at ht
  split_ifs at ht
  · rw [← Option.some.inj ht]
    exact hrest
  · exact h j t ht

section

variable (hprog : ∀ c, (M.prog c).Asks P G)
  (hanswer : ∀ q o a w w', M.exec q o w = some (a, w') → G q a)

include hprog hanswer

theorem Asking.step {s : Sys C L Q A R W} (h : Asking P G s) (ev : Event C O E) :
    Asking P G (M.step s ev) := by
  cases ev with
  | env e => exact h
  | start i c =>
    simp only [Machine.step]
    split
    · exact h.update rfl (hprog c).map
    · exact h
  | run i o =>
    simp only [Machine.step]
    split
    · rename_i c l q cancel k ht
      split
      · rename_i a w he
        exact h.update rfl ((h i _ ht).2.1 a (hanswer _ _ _ _ _ he))
      · exact h
    · exact h
  | drop i o =>
    simp only [Machine.step]
    split
    · rename_i c l q cs k ht
      have hrest : (Prog.unwind l cs : Prog L Q A (Option R)).Asks P G :=
        Prog.asks_unwind ((h i _ ht).2.2 cs rfl)
      split
      · exact h.update rfl hrest
      · split
        · exact h.update rfl hrest
        · exact h
    · exact h

/-- **Every request of a run is one that the programs ask for**, and what such requests and the
environment keep holds of its world. -/
theorem keeps_run {J : W → Prop} (henv : ∀ e w, J w → J (M.env e w))
    (hexec : ∀ l q o a w w', P l q → M.exec q o w = some (a, w') → J w → J w') {w : W} (hw : J w)
    (events : List (Event C O E)) :
    (∀ it ∈ (M.run w events).trace, P it.site it.req) ∧ J (M.run w events).world := by
  have hstep : ∀ (s : Sys C L Q A R W) ev,
      (Asking P G s ∧ (∀ it ∈ s.trace, P it.site it.req) ∧ J s.world) →
      Asking P G (M.step s ev) ∧ (∀ it ∈ (M.step s ev).trace, P it.site it.req) ∧
        J (M.step s ev).world := by
    rintro s ev ⟨hasking, htrace, hJ⟩
    refine ⟨hasking.step hprog hanswer ev, ?_⟩
    by_cases hev : ∃ e, ev = .env e
    · obtain ⟨e, rfl⟩ := hev
      exact ⟨htrace, henv e _ hJ⟩
    · rcases step_cases_of_ne_env (M := M) s (not_exists.1 hev) with
        ⟨hworld, hsame⟩ | ⟨i, c, l, q, cancel, k, o, a, w', rest, ht, he, hs⟩
      · rw [hworld, hsame]
        exact ⟨htrace, hJ⟩
      · have hP := (hasking i _ ht).1
        rw [hs, Sys.answer_trace, Sys.answer_world]
        exact ⟨List.forall_mem_cons.2 ⟨hP, htrace⟩, hexec l q o a _ _ hP he hJ⟩
  have hinit : Asking P G (.initial w : Sys C L Q A R W) := by
    intro i t ht
    cases ht
  exact (Run.inv_run hstep ⟨hinit, by simp [Sys.initial], hw⟩ events).2

end

end Machine

end Coroutine
