import Mathlib.Data.Nat.Bitwise

/-!
# Bits of a list of bytes

Bit `i` of a list of bytes is bit `i % 8` of byte `i / 8`; past the end every bit is clear.

Results: the bits after setting one (`bit_modify_or`), after clearing one (`bit_modify_and`), and after
the list is cut or filled up with zeroes (`bit_resize`).
-/

namespace ByteBits

variable {bytes : List Nat} {i p : Nat}

/-- Bit `i` of the bytes. -/
def bit (bytes : List Nat) (i : Nat) : Bool := (bytes.getD (i / 8) 0).testBit (i % 8)

theorem bit_eq_false (h : bytes.length ≤ i / 8) : bit bytes i = false := by
  unfold bit
  rw [List.getD_eq_default _ _ h, Nat.zero_testBit]

theorem getD_modify (f : Nat → Nat) (j : Nat) (h : p / 8 < bytes.length) :
    (bytes.modify (p / 8) f).getD j 0 = if j = p / 8 then f (bytes.getD j 0) else bytes.getD j 0 := by
  rw [List.getD_eq_getElem?_getD, List.getElem?_modify, List.getD_eq_getElem?_getD]
  by_cases hj : j = p / 8
  · subst hj
    simp [h]
  · simp [hj, Ne.symm hj]

/-- **Setting a bit** changes that bit and no other. -/
theorem bit_modify_or (h : p / 8 < bytes.length) :
    bit (bytes.modify (p / 8) fun b => b ||| 2 ^ (p % 8)) i = (bit bytes i || decide (i = p)) := by
  unfold bit
  rw [getD_modify _ _ h]
  by_cases hj : i / 8 = p / 8
  · have hbit : decide (p % 8 = i % 8) = decide (i = p) := decide_eq_decide.mpr (by omega)
    rw [if_pos hj, Nat.testBit_or, Nat.testBit_two_pow, hbit]
  · have hne : i ≠ p := fun he => hj (congrArg (· / 8) he)
    rw [if_neg hj, decide_eq_false hne, Bool.or_false]

/-- **Clearing a bit** changes that bit and no other. -/
theorem bit_modify_and (h : p / 8 < bytes.length) :
    bit (bytes.modify (p / 8) fun b => b &&& (255 ^^^ 2 ^ (p % 8))) i =
      (bit bytes i && decide (i ≠ p)) := by
  unfold bit
  rw [getD_modify _ _ h]
  by_cases hj : i / 8 = p / 8
  · have hones : Nat.testBit 255 (i % 8) = true := by
      have hlt : i % 8 < 8 := Nat.mod_lt _ (by omega)
      rw [show 255 = 2 ^ 8 - 1 from rfl, Nat.testBit_two_pow_sub_one]
      exact decide_eq_true hlt
    have hbit : decide (p % 8 = i % 8) = decide (i = p) := decide_eq_decide.mpr (by omega)
    rw [if_pos hj, Nat.testBit_and, Nat.testBit_xor, hones, Nat.testBit_two_pow, hbit,
      Bool.true_xor, decide_not]
  · have hne : i ≠ p := fun he => hj (congrArg (· / 8) he)
    rw [if_neg hj, decide_eq_true hne, Bool.and_true]

/-- **A list cut to a length, or filled up to it with zeroes**, has the bits below that length. -/
theorem bit_resize (bytes : List Nat) (n i : Nat) :
    bit (bytes.take n ++ List.replicate (n - bytes.length) 0) i =
      (bit bytes i && decide (i / 8 < n)) := by
  unfold bit
  have hget : (bytes.take n ++ List.replicate (n - bytes.length) 0).getD (i / 8) 0 =
      if i / 8 < n then bytes.getD (i / 8) 0 else 0 := by
    simp only [List.getD_eq_getElem?_getD, List.getElem?_append, List.length_take,
      List.getElem?_take, List.getElem?_replicate]
    by_cases hn : i / 8 < n
    · by_cases hb : i / 8 < bytes.length
      · have hm : i / 8 < min n bytes.length := by omega
        simp [hn, hb, hm]
      · have hm : ¬ i / 8 < min n bytes.length := by omega
        simp only [hn, hm, if_true, if_false]
        split_ifs <;> simp [hb]
    · have hr : ¬ i / 8 - min n bytes.length < n - bytes.length := by omega
      simp [hn, hr]
  rw [hget]
  split_ifs with hn <;> simp [hn]

/-- A list resized to `n` bytes has `n`. -/
theorem length_resize (bytes : List Nat) (n : Nat) :
    (bytes.take n ++ List.replicate (n - bytes.length) 0).length = n := by
  rw [List.length_append, List.length_take, List.length_replicate]
  omega

end ByteBits
