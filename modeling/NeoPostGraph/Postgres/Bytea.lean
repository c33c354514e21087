import NeoPostGraph.Lib.Bytes
import NeoPostGraph.Lib.Traced
import NeoPostGraph.Postgres.Varlena
import Mathlib.Data.Nat.Digits.Defs

/-!
# `palloc` and `byteaout`

What `np_message_cb` calls of PostgreSQL, with the bytes that `byteaout` looks at. A datum is a pointer, so
it is a function from offsets to bytes here, with no end. `byteaout` goes by the header that it finds: a
compressed or external datum is given to `detoast_attr`, which is a parameter, and of another one it reads
as many bytes as the header says, unless `palloc` refuses the length of the result before.

The lengths are those of `varatt.h`: `VARSIZE_4B` less `VARHDRSZ` is a `uint32`, and what is computed from
it a `size_t`.

Result:
* `byteaout_within_iff`: for which headers only the first `len` bytes are read.
-/

namespace NeoPostGraph

open Bytes

/-- What `palloc`, `byteaout` and `detoast_attr` report. -/
inductive ByteaErr where
  | invalidAllocSize (size : Nat)
  | resultTooLarge
  | detoast (message : String)
deriving DecidableEq, Repr

def ByteaErr.message : ByteaErr → String
  | invalidAllocSize size => "invalid memory alloc request size " ++ toString size
  | resultTooLarge => "result of bytea output conversion is too large"
  | detoast message => message

/-- A computation that looks at bytes of one datum, by offset. -/
abbrev DatumRead := Traced Nat ByteaErr

/-- `palloc`, for its check of the size. -/
def palloc {ρ : Type} (size : Nat) : Traced ρ ByteaErr Unit :=
  if maxAllocSize < size then .fail (.invalidAllocSize size) else .ret ()

/-- `bytea_output`. -/
inductive ByteaOutput where
  | hex
  | escape
deriving DecidableEq, Repr

/-- `VARATT_IS_COMPRESSED` or `VARATT_IS_EXTERNAL`, by the first byte. -/
def varattIsToasted (b : UInt8) : Bool := b.toNat % 4 == 2 || b.toNat == 1

/-- `VARATT_IS_1B`. -/
def varattIs1B (b : UInt8) : Bool := b.toNat % 2 == 1

/-- The bytes at `start` to `start + n - 1`. -/
def readDatum (datum : Nat → UInt8) (start n : Nat) : DatumRead (List UInt8) :=
  .touch (List.range' start n) ((List.range' start n).map datum)

/-- `VARSIZE_ANY_EXHDR`, with the number of bytes in front of the data. -/
def varsizeAnyExhdr (datum : Nat → UInt8) : DatumRead (Nat × Nat) :=
  if varattIs1B (datum 0) then .touch [0] (1, (datum 0).toNat / 2 - 1)
  else do
    let header ← readDatum datum 0 varhdrsz
    .ret (varhdrsz, (value header / 4 + (2 ^ 32 - varhdrsz)) % 2 ^ 32)

/-- `hex_encode`. -/
def hexEncode (bytes : List UInt8) : String :=
  String.ofList (bytes.flatMap fun b => [Nat.digitChar (b.toNat / 16), Nat.digitChar (b.toNat % 16)])

/-- One byte in the escape format. -/
def byteaEscape (b : UInt8) : List Char :=
  if b.toNat = 92 then ['\\', '\\']
  else if b.toNat < 0x20 ∨ 0x7e < b.toNat then
    ['\\', Nat.digitChar (b.toNat / 64), Nat.digitChar (b.toNat / 8 % 8), Nat.digitChar (b.toNat % 8)]
  else [Char.ofNat b.toNat]

/-- The text of some data, with the checks of its length before (`hex`) or after (`escape`) it is read. -/
def byteaText (o : ByteaOutput) (n : Nat) (data : DatumRead (List UInt8)) : DatumRead String :=
  match o with
  | .hex => do
    palloc (n * 2 + 2 + 1)
    let bytes ← data
    .ret ("\\x" ++ hexEncode bytes)
  | .escape => do
    let bytes ← data
    let text := bytes.flatMap byteaEscape
    if maxAllocSize < text.length + 1 then .fail .resultTooLarge else .ret (String.ofList text)

/-- `byteaout`. What `detoast_attr` returns is read where it is put, and not in the datum. -/
def byteaout (o : ByteaOutput) (detoastAttr : (Nat → UInt8) → DatumRead (List UInt8))
    (datum : Nat → UInt8) : DatumRead String := do
  let first ← (.touch [0] (datum 0) : DatumRead UInt8)
  if varattIsToasted first then
    let bytes ← detoastAttr datum
    byteaText o bytes.length (.ret bytes)
  else
    let (start, n) ← varsizeAnyExhdr datum
    byteaText o n (readDatum datum start n)

/-- `VARSIZE_ANY` of a datum that is not toasted: the length its header gives, header included. -/
def varsizeAny (datum : Nat → UInt8) : Nat :=
  if varattIs1B (datum 0) then (datum 0).toNat / 2
  else varhdrsz + (value ((List.range' 0 varhdrsz).map datum) / 4 + (2 ^ 32 - varhdrsz)) % 2 ^ 32

/-- What a header has to be for `byteaout` to stay within the `len` bytes of a datum. -/
def FitsIn (o : ByteaOutput) (detoastAttr : (Nat → UInt8) → DatumRead (List UInt8))
    (datum : Nat → UInt8) (len : Nat) : Prop :=
  0 < len ∧
    if varattIsToasted (datum 0) then (detoastAttr datum).Within (· < len)
    else if varattIs1B (datum 0) then varsizeAny datum ≤ len
    else varhdrsz ≤ len ∧ (varsizeAny datum ≤ len ∨
      o = .hex ∧ maxAllocSize < (varsizeAny datum - varhdrsz) * 2 + 3)

section

variable {o : ByteaOutput} {detoastAttr : (Nat → UInt8) → DatumRead (List UInt8)} {datum : Nat → UInt8}
  {len start n : Nat} {data : DatumRead (List UInt8)}

theorem within_readDatum_iff (hstart : start ≤ len) :
    (readDatum datum start n).Within (· < len) ↔ start + n ≤ len := by
  unfold readDatum
  rw [Traced.within_touch_iff]
  simp only [List.mem_range'_1]
  constructor
  · intro h
    rcases Nat.eq_zero_or_pos n with rfl | hn
    · exact hstart
    · have hlast := h (start + n - 1) (by omega)
      omega
  · intro h i hi
    omega

@[simp] theorem within_palloc {ρ : Type} {P : ρ → Prop} (size : Nat) : (palloc size).Within P := by
  unfold palloc
  split <;> simp

theorem palloc_ok_iff {ρ : Type} {size : Nat} {u : Unit} :
    (palloc size : Traced ρ ByteaErr Unit).result = .ok u ↔ size ≤ maxAllocSize := by
  unfold palloc
  split
  case isTrue h => simp [Traced.fail]; omega
  case isFalse h => simp [Traced.ret]; omega

/-- The data is read unless its length is refused. -/
theorem within_byteaText_iff {P : Nat → Prop} : (byteaText o n data).Within P ↔
    data.Within P ∨ o = .hex ∧ maxAllocSize < n * 2 + 3 := by
  cases o with
  | escape =>
    unfold byteaText
    simp only [Traced.within_bind_iff, reduceCtorEq, false_and, or_false]
    constructor
    · rintro ⟨h, -⟩
      exact h
    · intro h
      refine ⟨h, fun bytes _ => ?_⟩
      split <;> simp
  | hex =>
    unfold byteaText
    simp only [Traced.within_bind_iff, within_palloc, true_and, Traced.within_ret, implies_true, and_true,
      palloc_ok_iff]
    constructor
    · intro h
      by_cases hn : n * 2 + 2 + 1 ≤ maxAllocSize
      · exact Or.inl (h () hn)
      · exact Or.inr (by omega)
    · rintro (h | h) - hn
      · exact h
      · omega

/-- The header is read first, and says how long the rest is. -/
theorem within_varsizeAnyExhdr_iff (hlen : 0 < len) : (varsizeAnyExhdr datum).Within (· < len) ↔
    varattIs1B (datum 0) ∨ varhdrsz ≤ len := by
  unfold varsizeAnyExhdr
  cases hb : varattIs1B (datum 0) with
  | true => simpa using hlen
  | false =>
    simp [Traced.within_bind_iff, within_readDatum_iff (Nat.zero_le len)]

theorem varsizeAnyExhdr_result : (varsizeAnyExhdr datum).result = .ok
    (if varattIs1B (datum 0) then (1, (datum 0).toNat / 2 - 1)
      else (varhdrsz, varsizeAny datum - varhdrsz)) := by
  unfold varsizeAnyExhdr varsizeAny
  cases varattIs1B (datum 0) with
  | true => rfl
  | false =>
    show Except.ok _ = Except.ok _
    simp

/-- **The bytes `byteaout` reads are those its header counts.** -/
theorem byteaout_within_iff :
    (byteaout o detoastAttr datum).Within (· < len) ↔ FitsIn o detoastAttr datum len := by
  unfold byteaout FitsIn
  rw [Traced.within_bind_iff, Traced.within_touch_iff]
  simp only [List.mem_singleton, forall_eq, Traced.touch, Except.ok.injEq, forall_eq']
  apply and_congr_right
  intro hlen
  cases ht : varattIsToasted (datum 0) with
  | true =>
    simp only [if_true, Traced.within_bind_iff, within_byteaText_iff, Traced.within_ret, true_or, implies_true,
      and_true]
  | false =>
    simp only [Bool.false_eq_true, if_false, Traced.within_bind_iff, within_varsizeAnyExhdr_iff hlen,
      varsizeAnyExhdr_result, Except.ok.injEq, forall_eq', within_byteaText_iff]
    cases hb : varattIs1B (datum 0) with
    | true =>
      have hsize : varsizeAny datum = (datum 0).toNat / 2 := by
        unfold varsizeAny
        rw [hb, if_pos rfl]
      simp only [if_true, true_or, true_and]
      rw [within_readDatum_iff (by omega), hsize]
      have hodd : (datum 0).toNat % 2 = 1 := by simpa [varattIs1B] using hb
      have hlt := UInt8.toNat_lt (datum 0)
      have h1 : (datum 0).toNat ≠ 1 := by
        intro h1
        simp [varattIsToasted, h1] at ht
      have hmax : maxAllocSize = 1073741823 := rfl
      omega
    | false =>
      simp only [Bool.false_eq_true, if_false, false_or]
      apply and_congr_right
      intro h4
      rw [within_readDatum_iff h4]
      have hsize : varhdrsz ≤ varsizeAny datum := by
        unfold varsizeAny
        rw [hb, if_neg (by decide)]
        omega
      rw [Nat.add_sub_cancel' hsize]

end

end NeoPostGraph
