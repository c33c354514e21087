import NeoPostGraph.Error
import Mathlib.Data.List.TakeWhile
import NeoPostGraph.Gtype.Entries

/-!
# Reading a child of a container

What `fill_gtype_value` makes of a child that is placed, and what the iterator makes of a header.

Results:
* `fillGtypeValue_scalar`: a scalar that is placed is read back.
* `fillGtypeValue_container`: a container that is placed is found where it starts.
* `iteratorFromContainer_array`, `iteratorFromContainer_object`: its header is read back.
-/

namespace NeoPostGraph

open Bytes

variable {g : Memory} {buf : List UInt8} {p n : Nat}

/-! ## Bytes -/

theorem readBytes_of_holds {bytes : List UInt8} (h : Holds buf p bytes) (hn : bytes.length = n) :
    readBytes buf p n = .ok bytes := by
  unfold readBytes
  rw [← hn, h.slice]

theorem readUInt64 {val : UInt64} (h : Holds buf p (le 8 val.toNat)) :
    readNumber buf p 8 = .ok val.toNat :=
  readNumber_of_holds h val.toNat_lt

theorem readUInt32 {val : UInt32} (h : Holds buf p (le 4 val.toNat)) :
    readNumber buf p 4 = .ok val.toNat :=
  readNumber_of_holds h val.toNat_lt

theorem pure_eq {α : Type} (a : α) : (pure a : Except GtypeErr α) = .ok a := rfl

/-- Behind the padding. -/
theorem holds_aligned {base pos : Nat} {bytes : List UInt8} (h : 4 ∣ base)
    (hholds : Holds buf (base + pos) (padding (base + pos) ++ bytes)) :
    Holds buf (base + intAlign pos) bytes := by
  have hbytes := (holds_append_iff.mp hholds).2
  have hle := le_intAlign pos
  rwa [length_padding, padding_add h, Nat.add_assoc, Nat.add_sub_cancel' hle] at hbytes

/-! ## Scalars -/

theorem GtypeScalar.extended_header_lt {s : GtypeScalar} {header numlen : Nat} {data : List UInt8}
    (he : s.extended = some (header, numlen, data)) : header < 256 ^ 4 := by
  cases s with
  | null | string val | numeric val | bool val => cases he
  | _ =>
    cases he
    decide

/-- **The kinds of `np_serialize_extended_type` are read back** from where their header is. -/
theorem npDeserializeExtendedType_ok {s : GtypeScalar} {header numlen base offset : Nat}
    {data behind : List UInt8} (hwf : s.WellFormed) (he : s.extended = some (header, numlen, data))
    (h : Holds buf (base + intAlign offset) (le 4 header ++ (data ++ behind))) :
    npDeserializeExtendedType buf base offset = .ok s := by
  obtain ⟨hheader, hdata⟩ := holds_append_iff.mp h
  replace hdata := (holds_append_iff.mp hdata).1
  rw [length_le] at hdata
  have hread := readNumber_of_holds hheader (GtypeScalar.extended_header_lt he)
  simp only [npDeserializeExtendedType, hread, ok_bind_eq]
  cases s with
  | null | string val | numeric val | bool val => cases he
  | integer val | float val | timestamp val | timestamptz val | time val =>
    cases he
    simp [gtHeaderInteger, gtHeaderFloat, gtHeaderTimestamp, gtHeaderTimestamptz, gtHeaderDate,
      gtHeaderTime, readUInt64 hdata, ok_bind_eq, pure_eq]
  | date val =>
    cases he
    simp [gtHeaderInteger, gtHeaderFloat, gtHeaderTimestamp, gtHeaderTimestamptz, gtHeaderDate,
      readUInt32 hdata, ok_bind_eq, pure_eq]
  | timetz time zone =>
    cases he
    obtain ⟨htime, hzone⟩ := holds_append_iff.mp hdata
    rw [length_le] at hzone
    simp [gtHeaderInteger, gtHeaderFloat, gtHeaderTimestamp, gtHeaderTimestamptz, gtHeaderDate,
      gtHeaderTime, gtHeaderTimetz, readUInt64 htime, readUInt32 hzone, ok_bind_eq, pure_eq]
  | interval time day month =>
    cases he
    obtain ⟨htime, hdays⟩ := holds_append_iff.mp hdata
    obtain ⟨hday, hmonth⟩ := holds_append_iff.mp hdays
    rw [length_le] at hday hmonth
    rw [length_le] at hmonth
    simp [gtHeaderInteger, gtHeaderFloat, gtHeaderTimestamp, gtHeaderTimestamptz, gtHeaderDate,
      gtHeaderTime, gtHeaderTimetz, gtHeaderInterval, readUInt64 htime, readUInt32 hday,
      readUInt32 hmonth, ok_bind_eq, pure_eq]
  | inet val | cidr val | mac val | mac8 val =>
    cases he
    simp [gtHeaderInteger, gtHeaderFloat, gtHeaderTimestamp, gtHeaderTimestamptz, gtHeaderDate,
      gtHeaderTime, gtHeaderTimetz, gtHeaderInterval, gtHeaderInet, gtHeaderCidr, gtHeaderMac,
      gtHeaderMac8, readBytes_of_holds hdata hwf, ok_bind_eq, pure_eq]

/-- The type bits are those of one of the kinds. -/
theorem GtypeScalar.typeBits_eq (s : GtypeScalar) : ∃ a < 8, s.typeBits = a * 2 ^ 28 := by
  cases s with
  | null => exact ⟨4, by decide, rfl⟩
  | string val => exact ⟨0, by decide, rfl⟩
  | numeric val => exact ⟨1, by decide, rfl⟩
  | bool val =>
    cases val with
    | false => exact ⟨2, by decide, rfl⟩
    | true => exact ⟨3, by decide, rfl⟩
  | _ => exact ⟨6, by decide, rfl⟩

theorem GtypeValue.typeBits_eq (v : GtypeValue) : ∃ a < 8, v.typeBits = a * 2 ^ 28 := by
  cases v with
  | scalar s => exact s.typeBits_eq
  | array rawScalar elems => exact ⟨5, by decide, rfl⟩
  | object pairs => exact ⟨5, by decide, rfl⟩

section

variable {v : GtypeValue}

theorem entry_typeBits (h : v.reported p ≤ gtentryOfflenmask) :
    gteTypeBits (v.entry p) = v.typeBits := by
  obtain ⟨a, ha, htype⟩ := v.typeBits_eq
  unfold gtentryOfflenmask at h
  unfold GtypeValue.entry gteTypeBits
  rw [htype, typeBits_or (by omega)]
  omega

theorem entry_offlen (h : v.reported p ≤ gtentryOfflenmask) :
    gteOfflenfld (v.entry p) = v.reported p := by
  obtain ⟨a, ha, htype⟩ := v.typeBits_eq
  unfold gtentryOfflenmask at h
  unfold GtypeValue.entry gteOfflenfld
  rw [htype, typeBits_or (by omega)]
  omega

theorem entry_lt (h : v.reported p ≤ gtentryOfflenmask) : v.entry p < 2 ^ 31 := by
  obtain ⟨a, ha, htype⟩ := v.typeBits_eq
  unfold gtentryOfflenmask at h
  unfold GtypeValue.entry
  rw [htype, typeBits_or (by omega)]
  omega

end

/-- A child of a container: its entry, and where it is stored. -/
structure ChildAt (g : Memory) (buf : List UInt8) (container base i t : Nat) (entries : List Nat)
    (v : GtypeValue) : Prop where
  table : EntriesAt buf container entries
  lt : i < entries.length
  entry : entries.getD i 0 = v.entry t
  aligned : 4 ∣ base
  holds : Holds buf (base + t) (layout g (base + t) v).1
  fits : v.size t ≤ gtentryOfflenmask

namespace ChildAt

variable {container base i t d : Nat} {entries : List Nat} {v : GtypeValue}

theorem reported_fits (h : ChildAt g buf container base i t entries v) :
    v.reported t ≤ gtentryOfflenmask :=
  Nat.le_trans (v.reported_le t) h.fits

theorem readEntry_spec (h : ChildAt g buf container base i t entries v) :
    ∃ entry, readEntry buf container i = .ok entry ∧ gteTypeBits entry = v.typeBits ∧
      gteOffset entry = OffsetTable.entry gtOffsetStride (reportedLens entries) i := by
  obtain ⟨entry, hread, htype, hoffset⟩ := h.table.readEntry_spec h.lt
  rw [h.entry, entry_typeBits h.reported_fits] at htype
  exact ⟨entry, hread, htype, hoffset⟩

theorem getGtypeLength_eq (h : ChildAt g buf container base i t entries v) :
    getGtypeLength buf container i = .ok (v.reported t) := by
  rw [h.table.getGtypeLength_eq h.lt, h.entry, entry_offlen h.reported_fits]

/-- **A scalar that is placed is read back.** -/
theorem fillGtypeValue_scalar {s : GtypeScalar}
    (h : ChildAt g buf container base i t entries (.scalar s)) (hwf : s.WellFormed)
    (hplaced : s.Placed t d) (hd : d ≤ t) :
    fillGtypeValue buf container i base d = .ok (.scalar s) := by
  obtain ⟨entry, hread, htype, -⟩ := h.readEntry_spec
  have hholds := h.holds
  have hlength := h.getGtypeLength_eq
  unfold fillGtypeValue
  rw [hread, ok_bind_eq]
  cases s with
  | null =>
    replace htype : gteTypeBits entry = gtentryIsNull := htype
    simp only [htype, if_true]
    rfl
  | bool val =>
    cases val with
    | false =>
      replace htype : gteTypeBits entry = gtentryIsBoolFalse := htype
      rw [if_neg (by rw [htype]; decide), if_neg (by rw [htype]; decide),
        if_neg (by rw [htype]; decide), if_neg (by rw [htype]; decide),
        if_neg (by rw [htype]; decide), if_pos htype]
      rfl
    | true =>
      replace htype : gteTypeBits entry = gtentryIsBoolTrue := htype
      rw [if_neg (by rw [htype]; decide), if_neg (by rw [htype]; decide),
        if_neg (by rw [htype]; decide), if_neg (by rw [htype]; decide), if_pos htype]
      rfl
  | string val =>
    have hbytes : readBytes buf (base + d) val.length = .ok val := by
      rcases hplaced with rfl | rfl
      · refine readBytes_of_holds ⟨buf.take (base + d), buf.drop (base + d), ?_, ?_⟩ rfl
        · rw [List.nil_append, List.take_append_drop]
        · have hle := hholds.le_length
          rw [List.length_take]
          omega
      · exact readBytes_of_holds hholds rfl
    have hzero : val.takeWhile (· ≠ 0) = val := by
      refine List.takeWhile_eq_self_iff.mpr fun b hb => ?_
      simp only [decide_eq_true_eq]
      rintro rfl
      exact hwf hb
    have hreported : (GtypeValue.scalar (.string val)).reported t = val.length := rfl
    rw [hreported] at hlength
    replace htype : gteTypeBits entry = gtentryIsString := htype
    rw [if_neg (by rw [htype]; decide), if_pos htype, hlength, ok_bind_eq, hbytes, ok_bind_eq, hzero]
    rfl
  | numeric val =>
    have hval : Holds buf (base + intAlign d) val := by
      rw [← hplaced]
      exact holds_aligned h.aligned hholds
    have hheader : readNumber buf (base + intAlign d) 4 = .ok (value (val.take 4)) := by
      have hsplit := hval
      rw [← List.take_append_drop 4 val, holds_append_iff] at hsplit
      unfold readNumber
      rw [readBytes_of_holds hsplit.1 (by rw [List.length_take]; exact Nat.min_eq_left hwf.1.le)]
      rfl
    replace htype : gteTypeBits entry = gtentryIsNumeric := htype
    simp only [hheader, ok_bind_eq, readBytes_of_holds hval hwf.2.symm]
    rw [if_neg (by rw [htype]; decide), if_neg (by rw [htype]; decide), if_pos htype]
    rfl
  | _ =>
    have hserialized := holds_aligned h.aligned hholds
    rw [hplaced] at hserialized
    replace htype : gteTypeBits entry = gtentryIsGtype := htype
    rw [if_neg (by rw [htype]; decide), if_neg (by rw [htype]; decide),
      if_neg (by rw [htype]; decide), if_pos htype, npDeserializeExtendedType_ok hwf rfl hserialized,
      ok_bind_eq]
    rfl

/-- **A container that is placed is found where it starts.** -/
theorem fillGtypeValue_container (h : ChildAt g buf container base i t entries v)
    (hv : v.IsContainer) (hplaced : v.Placed t d) :
    ∃ len, fillGtypeValue buf container i base d = .ok (.binary (base + intAlign t) len) := by
  obtain ⟨entry, hread, htype, -⟩ := h.readEntry_spec
  have halign : intAlign t = intAlign d := by
    cases v with
    | scalar s => exact hv.elim
    | array rawScalar elems => exact hplaced.1
    | object pairs => exact hplaced.1
  have hbits : v.typeBits = gtentryIsContainer := by
    cases v with
    | scalar s => exact hv.elim
    | array rawScalar elems => rfl
    | object pairs => rfl
  rw [hbits] at htype
  unfold fillGtypeValue
  rw [hread, ok_bind_eq, if_neg (by rw [htype]; decide), if_neg (by rw [htype]; decide),
    if_neg (by rw [htype]; decide), if_neg (by rw [htype]; decide), if_neg (by rw [htype]; decide),
    if_neg (by rw [htype]; decide), h.getGtypeLength_eq, ok_bind_eq, halign]
  exact ⟨_, rfl⟩

end ChildAt

/-! ## Headers -/

theorem arrayHeader_eq {rawScalar : Bool} (h : n < 2 ^ 27) :
    arrayHeader rawScalar n = 2 ^ 30 + ((if rawScalar then 2 ^ 28 else 0) + n) := by
  have hor : ∀ m < 2 ^ 30, m ||| gtFarray = 2 ^ 30 + m := by
    intro m hm
    have hadd := Nat.two_pow_add_eq_or_of_lt hm 1
    rw [Nat.or_comm]
    simpa [gtFarray] using hadd.symm
  unfold arrayHeader
  cases rawScalar with
  | false =>
    simp only [Bool.false_eq_true, if_false, Nat.or_zero, Nat.zero_add]
    exact hor n (by omega)
  | true =>
    have hadd := Nat.two_pow_add_eq_or_of_lt (show n < 2 ^ 28 by omega) 1
    have hscalar : n ||| gtFscalar = 2 ^ 28 + n := by
      rw [Nat.or_comm]
      simpa [gtFscalar] using hadd.symm
    simp only [if_true]
    rw [Nat.or_assoc, Nat.or_comm gtFarray, ← Nat.or_assoc, hscalar, hor (2 ^ 28 + n) (by omega)]

theorem objectHeader_eq (h : n < 2 ^ 27) : objectHeader n = 2 ^ 29 + n := by
  have hadd := Nat.two_pow_add_eq_or_of_lt (show n < 2 ^ 29 by omega) 1
  unfold objectHeader
  rw [Nat.or_comm]
  simpa [gtFobject] using hadd.symm

/-- An iterator in the elements of an array. -/
def elemIterator (container numElems : Nat) (rawScalar : Bool) (i offset : Nat) : GtypeIterator where
  container := container
  numElems := numElems
  isScalar := rawScalar
  dataProper := container + 4 + 4 * numElems
  currIndex := i
  currDataOffset := offset
  currValueOffset := 0
  state := .arrayElem

/-- An iterator before a key of an object. -/
def keyIterator (container numPairs : Nat) (i offset valueOffset : Nat) : GtypeIterator where
  container := container
  numElems := numPairs
  isScalar := false
  dataProper := container + 4 + 4 * numPairs * 2
  currIndex := i
  currDataOffset := offset
  currValueOffset := valueOffset
  state := .objectKey

/-- **The header of an array is read back.** -/
theorem iteratorFromContainer_array {rawScalar : Bool}
    (h : Holds buf p (le 4 (arrayHeader rawScalar n))) (hn : n < 2 ^ 27) :
    iteratorFromContainer buf p =
      .ok { elemIterator p n rawScalar 0 0 with state := .arrayStart } := by
  rw [arrayHeader_eq hn] at h
  unfold iteratorFromContainer
  rw [readNumber_of_holds h (by cases rawScalar <;> simp <;> omega)]
  have hsize : containerSize (2 ^ 30 + ((if rawScalar then 2 ^ 28 else 0) + n)) = n := by
    unfold containerSize
    cases rawScalar <;> simp <;> omega
  have hflags : containerFlags (2 ^ 30 + ((if rawScalar then 2 ^ 28 else 0) + n)) = gtFarray := by
    unfold containerFlags gtFarray
    cases rawScalar <;> simp <;> omega
  have hscalar : containerIsScalar (2 ^ 30 + ((if rawScalar then 2 ^ 28 else 0) + n)) = rawScalar := by
    unfold containerIsScalar
    cases rawScalar <;> simp <;> omega
  rw [ok_bind_eq, hflags, if_pos rfl, hsize, hscalar]
  rfl

/-- **The header of an object is read back.** -/
theorem iteratorFromContainer_object (h : Holds buf p (le 4 (objectHeader n))) (hn : n < 2 ^ 27) :
    iteratorFromContainer buf p = .ok { keyIterator p n 0 0 0 with state := .objectStart } := by
  rw [objectHeader_eq hn] at h
  unfold iteratorFromContainer
  rw [readNumber_of_holds h (by omega)]
  have hsize : containerSize (2 ^ 29 + n) = n := by
    unfold containerSize
    omega
  have hflags : containerFlags (2 ^ 29 + n) = gtFobject := by
    unfold containerFlags gtFobject
    omega
  rw [ok_bind_eq, hflags, if_neg (by decide), if_pos rfl, hsize]
  rfl

end NeoPostGraph
