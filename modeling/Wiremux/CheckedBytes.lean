import Mathlib.Data.Nat.Notation
import Mathlib.Order.Basic

set_option autoImplicit false

/-!
# Bytes read at offsets

A machine reads at offsets into a buffer, in numbers that end at a greatest
one. `none` is a read outside the buffer or a number that does not fit. What is
read at an offset is read from the rest of the buffer.
-/
namespace Wiremux.CheckedBytes

variable {α β ε : Type*}

section Numbers

-- The greatest number.
variable (greatest : ℕ)

def checkedAdd (a b : ℕ) : Option ℕ := if a + b ≤ greatest then some (a + b) else none

def saturatingAdd (a b : ℕ) : ℕ := min (a + b) greatest

theorem checkedAdd_some {a b : ℕ} (h : a + b ≤ greatest) : checkedAdd greatest a b = some (a + b) :=
  if_pos h

end Numbers

def checkedSub (a b : ℕ) : Option ℕ := if b ≤ a then some (a - b) else none

theorem checkedSub_some {a b : ℕ} (h : b ≤ a) : checkedSub a b = some (a - b) := if_pos h

/-- The elements from one offset up to another. -/
def range (buf : List α) (i j : ℕ) : Option (List α) :=
  if i ≤ j ∧ j ≤ buf.length then some ((buf.take j).drop i) else none

theorem range_some {buf : List α} {i j : ℕ} (hij : i ≤ j) (hj : j ≤ buf.length) :
    range buf i j = some ((buf.take j).drop i) := if_pos ⟨hij, hj⟩

theorem range_drop {buf : List α} {i n : ℕ} (h : i + n ≤ buf.length) :
    range buf i (i + n) = some ((buf.drop i).take n) := by
  rw [range_some (Nat.le_add_right i n) h, List.drop_take, Nat.add_sub_cancel_left]

def exactly (n : ℕ) (piece : List α) : Option (List α) := if piece.length = n then some piece else none

theorem exactly_some {n : ℕ} {piece : List α} (h : piece.length = n) : exactly n piece = some piece :=
  if_pos h

/-- A reading of the rest of the buffer, with the offset it stops at. -/
def located (buf : List α) (read : Except ε (β × List α)) : Except ε (β × ℕ) :=
  read.map fun r => (r.1, buf.length - r.2.length)

theorem located_error (buf : List α) (e : ε) :
    located buf (.error e : Except ε (β × List α)) = .error e := rfl

theorem located_drop (buf : List α) (b : β) {i : ℕ} (h : i ≤ buf.length) :
    located buf (.ok (b, buf.drop i) : Except ε (β × List α)) = .ok (b, i) := by
  rw [located, Except.map, List.length_drop, Nat.sub_sub_self h]

end Wiremux.CheckedBytes
