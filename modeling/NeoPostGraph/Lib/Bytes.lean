import Mathlib.Data.List.Basic
import Mathlib.Tactic.Ring

/-!
# Bytes in a buffer

Little-endian numbers, and what a buffer holds at a position.

* `le k n`: the `k` low bytes of `n`. `value`: the number of some bytes.
* `slice buf p n`: the `n` bytes at `p`, if the buffer is that long.
* `Holds buf p bytes`: the buffer has these bytes at `p`.

Results:
* `value_le`: a number that fits is read back.
* `holds_append_iff`: a sequence is held part by part.
* `Holds.slice`: what is held is what is read.
-/

namespace Bytes

/-- The `k` low bytes of a number, the lowest first. -/
def le : Nat → Nat → List UInt8
  | 0, _ => []
  | k + 1, n => UInt8.ofNat (n % 256) :: le k (n / 256)

/-- The number of some bytes, the lowest first. -/
def value : List UInt8 → Nat
  | [] => 0
  | b :: bs => b.toNat + 256 * value bs

@[simp] theorem length_le (k n : Nat) : (le k n).length = k := by
  induction k generalizing n with
  | zero => rfl
  | succ k ih => simp [le, ih]

/-- **A number that fits is read back.** -/
theorem value_le {k n : Nat} (h : n < 256 ^ k) : value (le k n) = n := by
  induction k generalizing n with
  | zero =>
    have hn : n = 0 := by simpa using h
    rw [hn]
    rfl
  | succ k ih =>
    have hdiv : n / 256 < 256 ^ k := by
      rw [pow_succ] at h
      exact Nat.div_lt_of_lt_mul (by rwa [Nat.mul_comm])
    unfold le value
    rw [ih hdiv, UInt8.toNat_ofNat']
    omega

/-- The `n` bytes at `p`. -/
def slice (buf : List UInt8) (p n : Nat) : Option (List UInt8) :=
  if p + n ≤ buf.length then some ((buf.drop p).take n) else none

/-- The buffer has these bytes at `p`. -/
def Holds (buf : List UInt8) (p : Nat) (bytes : List UInt8) : Prop :=
  ∃ before behind, buf = before ++ (bytes ++ behind) ∧ before.length = p

section

variable {buf bs cs : List UInt8} {p n : Nat}

/-- **A sequence is held part by part.** -/
theorem holds_append_iff :
    Holds buf p (bs ++ cs) ↔ Holds buf p bs ∧ Holds buf (p + bs.length) cs := by
  constructor
  · rintro ⟨before, behind, rfl, rfl⟩
    exact ⟨⟨before, cs ++ behind, by rw [List.append_assoc], rfl⟩,
      ⟨before ++ bs, behind, by simp, by simp⟩⟩
  · rintro ⟨⟨before, behind, rfl, rfl⟩, ⟨before', behind', heq, hlen⟩⟩
    refine ⟨before, behind', ?_, rfl⟩
    rw [← List.append_assoc] at heq
    obtain ⟨rfl, hbehind⟩ := List.append_inj heq (by simp [hlen])
    rw [hbehind, List.append_assoc]

theorem Holds.slice (h : Holds buf p bs) : slice buf p bs.length = some bs := by
  obtain ⟨before, behind, rfl, rfl⟩ := h
  show (if _ then _ else _) = _
  rw [if_pos (by simp), List.drop_left, List.take_left]

theorem Holds.le_length (h : Holds buf p bs) : p + bs.length ≤ buf.length := by
  obtain ⟨before, behind, rfl, rfl⟩ := h
  simp only [List.length_append]
  omega

end

end Bytes
