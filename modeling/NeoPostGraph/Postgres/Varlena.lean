import NeoPostGraph.Lib.Bytes

/-!
# Values of variable length

A `varlena` starts with its own length: in four bytes, shifted by two bits, or in one odd byte
(`varatt.h`). Tables of array lists store what is behind the header and put one in front again.

Result:
* `vardataAny_withVarsize`: a header is taken off as it was put on.
-/

namespace NeoPostGraph

open Bytes

/-- `MaxAllocSize`. -/
def maxAllocSize : Nat := 0x3fffffff

/-- `VARHDRSZ`. -/
def varhdrsz : Nat := 4

/-- A value with a 4-byte header, as `SET_VARSIZE` makes it. -/
def withVarsize (data : List UInt8) : List UInt8 := le varhdrsz (4 * (varhdrsz + data.length)) ++ data

/-- `VARDATA_ANY`, as long as `VARSIZE_ANY_EXHDR` says: an odd first byte is a header of one byte. -/
def vardataAny : List UInt8 → List UInt8
  | [] => []
  | b :: bs =>
    if b.toNat % 2 = 1 then bs.take (b.toNat / 2 - 1)
    else ((b :: bs).drop varhdrsz).take (value ((b :: bs).take varhdrsz) / 4 - varhdrsz)

/-- The header of `SET_VARSIZE` is one of four bytes, and gives the length of the data. -/
theorem vardataAny_withVarsize {data : List UInt8} (h : varhdrsz + data.length < 2 ^ 30) :
    vardataAny (withVarsize data) = data := by
  have hlt : 4 * (varhdrsz + data.length) < 256 ^ varhdrsz := by
    unfold varhdrsz at h ⊢
    omega
  have hcons : withVarsize data = UInt8.ofNat (4 * (varhdrsz + data.length) % 256) ::
      (le 3 (4 * (varhdrsz + data.length) / 256) ++ data) := rfl
  have heven : (UInt8.ofNat (4 * (varhdrsz + data.length) % 256)).toNat % 2 ≠ 1 := by
    rw [UInt8.toNat_ofNat']
    omega
  have hvalue : value (le varhdrsz (4 * (varhdrsz + data.length))) / 4 - varhdrsz = data.length := by
    rw [value_le hlt]
    omega
  have hlen := length_le varhdrsz (4 * (varhdrsz + data.length))
  rw [hcons, vardataAny, if_neg heven, ← hcons]
  unfold withVarsize
  rw [List.drop_left' hlen, List.take_left' hlen, hvalue, List.take_length]

end NeoPostGraph
