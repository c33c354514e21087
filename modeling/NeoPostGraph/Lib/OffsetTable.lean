import Mathlib.Algebra.BigOperators.Group.List.Basic
import Mathlib.Algebra.GroupWithZero.Nat
import Mathlib.Data.List.GetD

/-!
# Lengths with an offset at every stride

A table of the lengths of consecutive parts, in which every `stride`-th entry holds the end of its part
instead of the length. A reader that goes through the parts in order keeps the start of the part as it
goes.

* `entry stride lens j`: the `j`-th entry, whether it is an end, and its field.
* `advance offset e`: the start of the next part.

Results:
* `advance_eq`: it is the sum of the lengths before.
-/

namespace OffsetTable

variable {stride : Nat} {lens : List Nat} {j : Nat}

/-- The sum of the first `j` lengths. -/
def start (lens : List Nat) (j : Nat) : Nat := (lens.take j).sum

/-- The `j`-th entry: the end of its part, or its length. -/
def entry (stride : Nat) (lens : List Nat) (j : Nat) : Bool × Nat :=
  if j % stride = 0 then (true, start lens (j + 1)) else (false, lens.getD j 0)

/-- The start of the next part. -/
def advance (offset : Nat) (e : Bool × Nat) : Nat := if e.1 then e.2 else offset + e.2

@[simp] theorem start_zero (lens : List Nat) : start lens 0 = 0 := rfl

theorem start_succ (lens : List Nat) (j : Nat) :
    start lens (j + 1) = start lens j + lens.getD j 0 := by
  unfold start
  by_cases hj : j < lens.length
  · rw [List.take_add_one, List.sum_append, List.getElem?_eq_getElem hj,
      List.getD_eq_getElem _ _ hj]
    simp
  · have hle : lens.length ≤ j := Nat.not_lt.mp hj
    rw [List.take_of_length_le hle, List.take_of_length_le (by omega),
      List.getD_eq_default _ _ hle, Nat.add_zero]

theorem start_mono (lens : List Nat) {i : Nat} (h : i ≤ j) : start lens i ≤ start lens j := by
  induction j with
  | zero =>
    obtain rfl := Nat.le_zero.mp h
    exact Nat.le_refl _
  | succ j ih =>
    rcases Nat.lt_or_ge j i with hlt | hge
    · obtain rfl : i = j + 1 := by omega
      exact Nat.le_refl _
    · have hstep := ih hge
      rw [start_succ]
      omega

theorem start_le_sum (lens : List Nat) (j : Nat) : start lens j ≤ lens.sum := by
  have hsum := List.sum_take_add_sum_drop lens j
  unfold start
  omega

/-- **Going on from a start gives the next.** -/
theorem advance_eq (stride : Nat) (lens : List Nat) (j : Nat) :
    advance (start lens j) (entry stride lens j) = start lens (j + 1) := by
  unfold advance entry
  split_ifs with hstride
  · rfl
  · contradiction
  · contradiction
  · exact (start_succ lens j).symm

end OffsetTable
