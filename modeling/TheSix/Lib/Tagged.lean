import TheSix.Lib.Coroutine

/-!
# Programs about one thing among many

A program that is written for one key makes its requests about that key when it runs among others:
`Prog.tagged` writes the key on them. A discipline for one key is one for all of them, in which every
thread keeps to its key (`Discipline.tagged`), and two disciplines kept by one program are kept
together (`Discipline.prod`).
-/

namespace Coroutine

variable {K L Q R Φ Ψ : Type} {A : Q → Type}

/-- The requests of a program, about a key. -/
def Prog.tagged (key : K) : Prog L Q A R → Prog L (K × Q) (fun q => A q.2) R
  | .ret r => .ret r
  | .req l q cancel k =>
    .req l (key, q) (cancel.map fun cs => cs.map (key, ·)) fun a => (k a).tagged key

namespace Discipline

/-- The discipline, about the key of the thread. -/
def tagged (K : Type) (D : Discipline Φ L Q A) :
    Discipline (K × Φ) L (K × Q) (fun q => A q.2) where
  ok φ l q := q.1 = φ.1 ∧ D.ok φ.2 l q.2
  tr φ l q a φ' := φ'.1 = φ.1 ∧ D.tr φ.2 l q.2 a φ'.2
  cancel φ := (φ.1, D.cancel φ.2)

/-- Both disciplines, side by side. -/
def prod (D : Discipline Φ L Q A) (E : Discipline Ψ L Q A) : Discipline (Φ × Ψ) L Q A where
  ok φ l q := D.ok φ.1 l q ∧ E.ok φ.2 l q
  tr φ l q a φ' := D.tr φ.1 l q a φ'.1 ∧ E.tr φ.2 l q a φ'.2
  cancel φ := (D.cancel φ.1, E.cancel φ.2)

theorem unwinds_tagged {D : Discipline Φ L Q A} {Dn : L → K × Φ → Prop} {l : L} {key : K}
    {cs : List Q} {φ : Φ} (h : D.unwinds (fun l φ => Dn l (key, φ)) l cs φ) :
    (D.tagged K).unwinds Dn l (cs.map (key, ·)) (key, φ) := by
  induction cs generalizing φ with
  | nil => exact h
  | cons c cs ih =>
    refine ⟨⟨rfl, h.1⟩, ?_⟩
    rintro a ⟨key', φ'⟩ ⟨rfl, ht⟩
    exact ih (h.2 a φ' ht)

theorem unwinds_prod {D : Discipline Φ L Q A} {E : Discipline Ψ L Q A} {Dn : L → Φ → Prop}
    {En : L → Ψ → Prop} {l : L} {cs : List Q} {φ : Φ} {ψ : Ψ} (hD : D.unwinds Dn l cs φ)
    (hE : E.unwinds En l cs ψ) : (D.prod E).unwinds (fun l x => Dn l x.1 ∧ En l x.2) l cs (φ, ψ) := by
  induction cs generalizing φ ψ with
  | nil => exact ⟨hD, hE⟩
  | cons c cs ih =>
    refine ⟨⟨hD.1, hE.1⟩, ?_⟩
    rintro a ⟨φ', ψ'⟩ ⟨hφ, hψ⟩
    exact ih (hD.2 a φ' hφ) (hE.2 a ψ' hψ)

end Discipline

namespace Prog

theorem wp_tagged {D : Discipline Φ L Q A} {Dn : L → K × Φ → Prop} {Post : K × Φ → R → Prop}
    {p : Prog L Q A R} {key : K} {φ : Φ}
    (h : p.wp D (fun l φ => Dn l (key, φ)) (fun φ r => Post (key, φ) r) φ) :
    (p.tagged key).wp (D.tagged K) Dn Post (key, φ) := by
  induction p generalizing φ with
  | ret r => exact h
  | req l q cancel k ih =>
    obtain ⟨hok, hrest, hcancel⟩ := h
    refine ⟨⟨rfl, hok⟩, ?_, ?_⟩
    · rintro a ⟨key', φ'⟩ ⟨rfl, ht⟩
      exact ih a (hrest a φ' ht)
    · intro cs hcs
      obtain ⟨cs', hcs', rfl⟩ := Option.map_eq_some_iff.1 hcs
      refine ⟨Discipline.unwinds_tagged (hcancel cs' hcs').1, ?_⟩
      rintro a ⟨key', φ'⟩ ⟨rfl, ht⟩
      exact Discipline.unwinds_tagged ((hcancel cs' hcs').2 a φ' ht)

theorem wp_prod {D : Discipline Φ L Q A} {E : Discipline Ψ L Q A} {Dn : L → Φ → Prop}
    {En : L → Ψ → Prop} {Post : Φ → R → Prop} {Post' : Ψ → R → Prop} {p : Prog L Q A R} {φ : Φ}
    {ψ : Ψ} (hD : p.wp D Dn Post φ) (hE : p.wp E En Post' ψ) :
    p.wp (D.prod E) (fun l x => Dn l x.1 ∧ En l x.2) (fun x r => Post x.1 r ∧ Post' x.2 r) (φ, ψ) := by
  induction p generalizing φ ψ with
  | ret r => exact ⟨hD, hE⟩
  | req l q cancel k ih =>
    refine ⟨⟨hD.1, hE.1⟩, ?_, fun cs hcs => ⟨?_, ?_⟩⟩
    · rintro a ⟨φ', ψ'⟩ ⟨hφ, hψ⟩
      exact ih a (hD.2.1 a φ' hφ) (hE.2.1 a ψ' hψ)
    · exact Discipline.unwinds_prod (hD.2.2 cs hcs).1 (hE.2.2 cs hcs).1
    · rintro a ⟨φ', ψ'⟩ ⟨hφ, hψ⟩
      exact Discipline.unwinds_prod ((hD.2.2 cs hcs).2 a φ' hφ) ((hE.2.2 cs hcs).2 a ψ' hψ)

end Prog

end Coroutine
