import Mathlib.Algebra.Group.Nat.Even
import Mathlib.Data.List.Nodup
import Mathlib.Data.List.Basic

/-!
# Lines of text

A line of fields can be read back when no field holds the character that separates them
(`line_inj`), and its fields tell their values when each has a text of its own for each value
(`Word`). Words are made from names, from numbers in decimal or in a fixed number of hexadecimal
digits, from optional values and from pairs.
-/

namespace Text

/-- Fields without the separator are told apart by their line. -/
theorem line_inj {sep : Char} {l l' : List String} (hl : l ≠ []) (hl' : l' ≠ [])
    (hfree : ∀ s ∈ l, sep ∉ s.toList) (hfree' : ∀ s ∈ l', sep ∉ s.toList) :
    (String.singleton sep).intercalate l = (String.singleton sep).intercalate l' ↔ l = l' := by
  constructor
  · intro h
    have hsplit := String.toList_split_intercalate hfree
    rwa [h, String.toList_split_intercalate hfree', if_neg hl, if_neg hl', eq_comm] at hsplit
  · exact congrArg _

/-- A way of writing the values of a type: no two alike, and none with the character `sep`. -/
structure Word {α : Type} (sep : Char) (write : α → String) : Prop where
  injective : Function.Injective write
  free : ∀ a, sep ∉ (write a).toList

section

variable {α β : Type} {sep : Char} {write : α → String}

theorem Word.inj (h : Word sep write) {a b : α} : write a = write b ↔ a = b := h.injective.eq_iff

theorem Word.comp (h : Word sep write) {f : β → α} (hf : Function.Injective f) :
    Word sep fun b => write (f b) where
  injective := h.injective.comp hf
  free b := h.free (f b)

/-- A word between two fixed texts. -/
theorem Word.framed (h : Word sep write) {before after : String} (hbefore : sep ∉ before.toList)
    (hafter : sep ∉ after.toList) : Word sep fun a => before ++ write a ++ after where
  injective a b heq := by
    have := (String.append_left_inj after).mp heq
    exact h.injective ((String.append_right_inj before).mp this)
  free a := by
    simp only [String.toList_append, List.mem_append, not_or]
    exact ⟨⟨hbefore, h.free a⟩, hafter⟩

theorem Word.label (h : Word sep write) {label : String} (hlabel : sep ∉ label.toList) :
    Word sep fun a => label ++ write a := by
  have hempty : sep ∉ "".toList := by simp
  simpa using h.framed hlabel hempty

/-- The names of an enumeration. -/
theorem Word.ofNames {names : α → String} (all : List α) (hall : ∀ a, a ∈ all)
    (hnodup : (all.map names).Nodup) (hfree : ∀ a ∈ all, sep ∉ (names a).toList) :
    Word sep names where
  injective a b h := List.inj_on_of_nodup_map hnodup (hall a) (hall b) h
  free a := hfree a (hall a)

/-- An optional value: `none` has a text of its own, which no value has. -/
theorem Word.option (h : Word sep write) {absent : String} (habsent : sep ∉ absent.toList)
    (hne : ∀ a, write a ≠ absent) : Word sep fun o : Option α => o.elim absent write where
  injective o o' heq := by
    cases o with
    | none =>
      cases o' with
      | none => rfl
      | some b => exact absurd heq.symm (hne b)
    | some a =>
      cases o' with
      | none => exact absurd heq (hne a)
      | some b => exact congrArg some (h.injective heq)
  free o := by
    cases o with
    | none => exact habsent
    | some a => exact h.free a

/-- Two words, with a text between them that ends the first. -/
theorem Word.pair {other : Char} {write' : β → String} (h : Word sep write)
    (hends : ∀ a, other ∉ (write a).toList) (h' : Word sep write')
    (hends' : ∀ b, other ∉ (write' b).toList) (hne : sep ≠ other) :
    Word sep fun p : α × β => write p.1 ++ String.singleton other ++ write' p.2 where
  injective p q heq := by
    have hline : ∀ r : α × β, write r.1 ++ String.singleton other ++ write' r.2 =
        (String.singleton other).intercalate [write r.1, write' r.2] := fun r => by simp
    have hfree : ∀ r : α × β, ∀ s ∈ [write r.1, write' r.2], other ∉ s.toList := fun r s hs => by
      rcases List.mem_cons.mp hs with rfl | hs
      · exact hends r.1
      · exact List.mem_singleton.mp hs ▸ hends' r.2
    simp only [hline] at heq
    rw [line_inj (by simp) (by simp) (hfree p) (hfree q)] at heq
    obtain ⟨h1, h2⟩ := List.cons_eq_cons.mp heq
    exact Prod.ext (h.injective h1) (h'.injective (List.cons_eq_cons.mp h2).1)
  free p := by
    simp only [String.toList_append, String.toList_singleton, List.mem_append, List.mem_singleton,
      not_or]
    exact ⟨⟨h.free p.1, hne⟩, h'.free p.2⟩

/-- The `Debug` text of an optional value. -/
def debugOption (write : α → String) (o : Option α) : String :=
  o.elim "None" fun a => "Some(" ++ write a ++ ")"

theorem Word.debugOption (h : Word sep write)
    (hfree : ∀ s ∈ ["None", "Some(", ")"], sep ∉ s.toList) :
    Word sep (Text.debugOption write) := by
  have hsome : Word sep fun a => "Some(" ++ write a ++ ")" :=
    h.framed (hfree _ (by simp)) (hfree _ (by simp))
  refine hsome.option (hfree _ (by simp)) fun a heq => ?_
  have := congrArg String.toList heq
  simp at this

/-- The `Debug` text of a text that needs no escapes. -/
def quoted (s : String) : String := "\"" ++ s ++ "\""

theorem Word.quoted (h : Word sep write) (hsep : sep ≠ '"') :
    Word sep fun a => Text.quoted (write a) :=
  h.framed (by simpa using hsep) (by simpa using hsep)

end

/-! ## Numbers -/

theorem repr_injective : Function.Injective Nat.repr := by
  intro m n h
  have hdigits : Nat.toDigits 10 m = Nat.toDigits 10 n := by
    rw [← Nat.toList_repr, ← Nat.toList_repr, h]
  rw [← Nat.ofDigitChars_ten_toDigits (n := m), hdigits, Nat.ofDigitChars_ten_toDigits]

theorem word_decimal {sep : Char} (hsep : sep.isDigit = false) : Word sep Nat.repr where
  injective := repr_injective
  free n hmem := by
    rw [Nat.toList_repr] at hmem
    rw [Nat.isDigit_of_mem_toDigits (by decide) (by decide) hmem] at hsep
    cases hsep

/-- The last `k` hexadecimal digits of a number. -/
def hexDigits : ℕ → ℕ → List Char
  | 0, _ => []
  | k + 1, n => hexDigits k (n / 16) ++ [Nat.digitChar (n % 16)]

/-- A number in `k` hexadecimal digits. -/
def hex (k n : ℕ) : String := String.ofList (hexDigits k n)

theorem length_hexDigits (k n : ℕ) : (hexDigits k n).length = k := by
  induction k generalizing n with
  | zero => rfl
  | succ k ih => rw [hexDigits, List.length_append, ih, List.length_singleton]

theorem digitChar_inj : ∀ m < 16, ∀ n < 16, Nat.digitChar m = Nat.digitChar n → m = n := by
  decide

/-- `k` digits tell a number below `16 ^ k`. -/
theorem hexDigits_inj {k m n : ℕ} (hm : m < 16 ^ k) (hn : n < 16 ^ k)
    (h : hexDigits k m = hexDigits k n) : m = n := by
  induction k generalizing m n with
  | zero => omega
  | succ k ih =>
    rw [Nat.pow_succ] at hm hn
    obtain ⟨hfront, hlast⟩ := List.append_inj h (by rw [length_hexDigits, length_hexDigits])
    have hdigit := digitChar_inj _ (Nat.mod_lt m (by decide)) _ (Nat.mod_lt n (by decide))
      (List.cons_eq_cons.mp hlast).1
    have hrest := ih (by omega) (by omega) hfront
    omega

theorem mem_hexDigits {k n : ℕ} {c : Char} (h : c ∈ hexDigits k n) :
    ∃ d < 16, c = Nat.digitChar d := by
  induction k generalizing n with
  | zero => cases h
  | succ k ih =>
    rw [hexDigits, List.mem_append, List.mem_singleton] at h
    rcases h with h | rfl
    · exact ih h
    · exact ⟨n % 16, Nat.mod_lt n (by decide), rfl⟩

theorem word_hex {α : Type} {sep : Char} {k : ℕ} {value : α → ℕ} (hvalue : Function.Injective value)
    (hlt : ∀ a, value a < 16 ^ k) (hsep : ∀ d < 16, sep ≠ Nat.digitChar d) :
    Word sep fun a => hex k (value a) where
  injective a b h := hvalue (hexDigits_inj (hlt a) (hlt b) (String.ofList_injective h))
  free a hmem := by
    rw [hex, String.toList_ofList] at hmem
    obtain ⟨d, hd, hc⟩ := mem_hexDigits hmem
    exact hsep d hd hc

end Text
