import Mathlib

/-!
# Slices

A slice is a list no longer than a machine can hold. The operations on one check their bounds, and
stop the program where a bound is broken: that is `none` here.

An encoder fills the front of a buffer that it may find too short. `written` is what it then leaves:
the encoded bytes in front of an untouched rest, or the buffer as it was.
-/

/-- The longest allocation, in bytes. -/
def Slice.maxLength : ℕ := 2 ^ 63 - 1

/-- A slice of bytes, or of anything larger. -/
abbrev Slice (α : Type) := {l : List α // l.length ≤ Slice.maxLength}

namespace Slice

variable {α ε : Type}

/-- The lengths of two slices add up within a machine word. -/
theorem length_lt {l : List α} (h : l.length ≤ maxLength) : l.length < 2 ^ 63 := by
  unfold maxLength at h
  omega

/-- `usize::checked_add`. -/
def checkedAdd (a b : ℕ) : Option ℕ := if a + b < 2 ^ 64 then some (a + b) else none

/-- `split_at_mut`. -/
def splitAtMut (l : List α) (mid : ℕ) : Option (List α × List α) :=
  if mid ≤ l.length then some (l.take mid, l.drop mid) else none

/-- The slice with its element at `i` overwritten. -/
def store (l : List α) (i : ℕ) (a : α) : Option (List α) :=
  if i < l.length then some (l.set i a) else none

/-- The elements from `start` on, before `stop`. -/
def range (l : List α) (start stop : ℕ) : Option (List α) :=
  if start ≤ stop ∧ stop ≤ l.length then some ((l.take stop).drop start) else none

/-- `copy_from_slice`, into the elements from `start` on, before `stop`. -/
def copyRange (l : List α) (start stop : ℕ) (src : List α) : Option (List α) :=
  if start ≤ stop ∧ stop ≤ l.length ∧ src.length = stop - start then
    some (l.take start ++ src ++ l.drop stop)
  else none

theorem splitAtMut_append {front rest : List α} {mid : ℕ} (h : mid = front.length) :
    splitAtMut (front ++ rest) mid = some (front, rest) := by
  subst h
  rw [splitAtMut, if_pos (by simp), List.take_left, List.drop_left]

@[simp] theorem store_cons_zero (a b : α) (l : List α) : store (a :: l) 0 b = some (b :: l) := rfl

theorem copyRange_append {front old rest src : List α} {start stop : ℕ}
    (hstart : start = front.length)
    (hstop : stop = front.length + src.length) (hlength : src.length = old.length) :
    copyRange (front ++ old ++ rest) start stop src = some (front ++ src ++ rest) := by
  subst hstart hstop
  have hbounds : front.length ≤ front.length + src.length ∧
      front.length + src.length ≤ (front ++ old ++ rest).length ∧
      src.length = front.length + src.length - front.length := by
    simp only [List.length_append]
    omega
  have hfront : (front ++ old ++ rest).take front.length = front := by
    rw [List.append_assoc, List.take_left]
  have hrest : (front ++ old ++ rest).drop (front.length + src.length) = rest := by
    rw [hlength, ← List.length_append, List.drop_left]
  rw [copyRange, if_pos hbounds, hfront, hrest]

theorem range_append {front rest : List α} {stop : ℕ} (h : stop = front.length) :
    range (front ++ rest) 0 stop = some front := by
  subst h
  rw [range, if_pos (by simp), List.take_left, List.drop_zero]

/-- The front of a slice, and what is behind it. -/
theorem exists_append {l : List α} {n : ℕ} (h : n ≤ l.length) :
    ∃ front, front.length = n ∧ l = front ++ l.drop n :=
  ⟨l.take n, by simpa using h, (List.take_append_drop n l).symm⟩

/-- What an encoder answers and leaves of a buffer, when it has encoded, or refused to. -/
def written (buf : List α) : Except ε (List α) → Except ε ℕ × List α
  | .ok bytes => (.ok bytes.length, bytes ++ buf.drop bytes.length)
  | .error e => (.error e, buf)

end Slice
