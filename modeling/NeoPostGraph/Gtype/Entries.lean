import NeoPostGraph.Gtype.Placement
import NeoPostGraph.Gtype.Iterate

/-!
# Reading the entries of a container

An entry is its type bits above its length field, and the highest bit says that the field is an offset.

* `EntriesAt buf container entries`: the container holds these entries, as the encoder fills them in.
* `reportedLens entries`: the lengths in them.

Results:
* `EntriesAt.getGtypeOffset_eq`: the offset of a child is the sum of the lengths before it.
* `EntriesAt.getGtypeLength_eq`: its length is the one its conversion reported.
* `EntriesAt.gteAdvanceOffset_eq`: a reader that adds them up stays in step.
-/

namespace NeoPostGraph

open Bytes

/-! ## Fields -/

/-- Type bits above a length. -/
theorem typeBits_or {a len : Nat} (h : len < 2 ^ 28) : a * 2 ^ 28 ||| len = a * 2 ^ 28 + len := by
  rw [Nat.mul_comm, Nat.two_pow_add_eq_or_of_lt h]

theorem or_hasOff {n : Nat} (h : n < 2 ^ 31) : n ||| gtentryHasOff = 2 ^ 31 + n := by
  have hadd := Nat.two_pow_add_eq_or_of_lt h 1
  rw [Nat.or_comm]
  simpa [gtentryHasOff] using hadd.symm

/-- An entry as the loop fills it in, by whether it gets the offset. -/
theorem storedEntry_eq {i total entry : Nat} (htotal : total ≤ gtentryOfflenmask) :
    storedEntry i total entry = if i % gtOffsetStride = 0
      then 2 ^ 31 + (entry / 2 ^ 28 % 8 * 2 ^ 28 + total) else entry := by
  have hlt : total < 2 ^ 28 := by
    unfold gtentryOfflenmask at htotal
    omega
  unfold storedEntry
  split_ifs with hstride
  · rw [gteTypeBits, typeBits_or hlt, or_hasOff (by omega)]
  · rfl

section

variable {i total entry : Nat}

theorem storedEntry_lt (htotal : total ≤ gtentryOfflenmask) (hentry : entry < 2 ^ 31) :
    storedEntry i total entry < 2 ^ 32 := by
  rw [storedEntry_eq htotal]
  unfold gtentryOfflenmask at htotal
  split_ifs
  · omega
  · omega

/-- The kind of a child is not touched. -/
theorem storedEntry_typeBits (htotal : total ≤ gtentryOfflenmask) :
    gteTypeBits (storedEntry i total entry) = gteTypeBits entry := by
  rw [storedEntry_eq htotal]
  unfold gtentryOfflenmask at htotal
  unfold gteTypeBits
  split_ifs
  · omega
  · rfl

theorem storedEntry_hasOff (htotal : total ≤ gtentryOfflenmask) (hentry : entry < 2 ^ 31) :
    gteHasOff (storedEntry i total entry) = decide (i % gtOffsetStride = 0) := by
  rw [storedEntry_eq htotal]
  unfold gtentryOfflenmask at htotal
  unfold gteHasOff
  split_ifs with hstride
  · simp only [hstride, decide_true, decide_eq_true_eq]
    omega
  · simp only [hstride, decide_false, decide_eq_false_iff_not]
    omega

theorem storedEntry_offlen (htotal : total ≤ gtentryOfflenmask) :
    gteOfflenfld (storedEntry i total entry) =
      if i % gtOffsetStride = 0 then total else gteOfflenfld entry := by
  rw [storedEntry_eq htotal]
  unfold gtentryOfflenmask at htotal
  unfold gteOfflenfld
  split_ifs with hstride
  · omega
  · rfl

end

/-! ## The entries of a container -/

/-- The lengths the entries were made with. -/
def reportedLens (entries : List Nat) : List Nat := entries.map gteOfflenfld

/-- The container holds these entries, and their lengths fit together. -/
structure EntriesAt (buf : List UInt8) (container : Nat) (entries : List Nat) : Prop where
  holds : Holds buf (container + 4) (entryBytes 0 0 entries)
  lt : ∀ entry ∈ entries, entry < 2 ^ 31
  fits : (reportedLens entries).sum ≤ gtentryOfflenmask

section

variable {buf : List UInt8} {p i total : Nat} {entries : List Nat}

theorem readNumber_of_holds {n k : Nat} (h : Holds buf p (le k n)) (hn : n < 256 ^ k) :
    readNumber buf p k = .ok n := by
  have hslice := h.slice
  rw [length_le] at hslice
  unfold readNumber readBytes
  rw [hslice]
  exact congrArg Except.ok (value_le hn)

/-- One entry out of all. -/
theorem entryBytes_holds {j : Nat} (h : Holds buf p (entryBytes i total entries))
    (hj : j < entries.length) :
    Holds buf (p + 4 * j) (le 4 (storedEntry (i + j)
      (total + OffsetTable.start (reportedLens entries) (j + 1)) (entries.getD j 0))) := by
  induction entries generalizing p i total j with
  | nil => cases hj
  | cons entry entries ih =>
    rw [entryBytes, holds_append_iff, length_le] at h
    cases j with
    | zero => simpa [OffsetTable.start, reportedLens] using h.1
    | succ j =>
      have hrest := ih h.2 (Nat.lt_of_succ_lt_succ hj)
      have hplace : p + 4 + 4 * j = p + 4 * (j + 1) := by omega
      have hindex : i + 1 + j = i + (j + 1) := by omega
      have hsum : total + gteOfflenfld entry + OffsetTable.start (reportedLens entries) (j + 1) =
          total + OffsetTable.start (reportedLens (entry :: entries)) (j + 1 + 1) := by
        simp [OffsetTable.start, reportedLens, Nat.add_assoc]
      rw [hplace, hindex, hsum] at hrest
      simpa using hrest

end

namespace EntriesAt

variable {buf : List UInt8} {container i : Nat} {entries : List Nat}

theorem getD_lt (h : EntriesAt buf container entries) (i : Nat) : entries.getD i 0 < 2 ^ 31 := by
  by_cases hi : i < entries.length
  · rw [List.getD_eq_getElem _ _ hi]
    exact h.lt _ (List.getElem_mem hi)
  · rw [List.getD_eq_default _ _ (Nat.not_lt.mp hi)]
    decide

theorem start_le (h : EntriesAt buf container entries) (i : Nat) :
    OffsetTable.start (reportedLens entries) i ≤ gtentryOfflenmask :=
  Nat.le_trans (OffsetTable.start_le_sum _ _) h.fits

theorem readEntry_eq (h : EntriesAt buf container entries) (hi : i < entries.length) :
    readEntry buf container i = .ok (storedEntry i
      (OffsetTable.start (reportedLens entries) (i + 1)) (entries.getD i 0)) := by
  have hholds := entryBytes_holds h.holds hi
  rw [Nat.zero_add, Nat.zero_add] at hholds
  exact readNumber_of_holds hholds (storedEntry_lt (h.start_le _) (h.getD_lt i))

theorem getD_reportedLens (entries : List Nat) (i : Nat) :
    (reportedLens entries).getD i 0 = gteOfflenfld (entries.getD i 0) := by
  by_cases hi : i < entries.length
  · rw [List.getD_eq_getElem _ _ (by simpa [reportedLens] using hi), List.getD_eq_getElem _ _ hi]
    simp [reportedLens]
  · rw [List.getD_eq_default _ _ (by simpa [reportedLens] using hi),
      List.getD_eq_default _ _ (Nat.not_lt.mp hi)]
    rfl

/-- **What is read is an entry of the table of offsets**, with the child's type bits. -/
theorem readEntry_spec (h : EntriesAt buf container entries) (hi : i < entries.length) :
    ∃ entry, readEntry buf container i = .ok entry ∧
      gteTypeBits entry = gteTypeBits (entries.getD i 0) ∧
      gteOffset entry = OffsetTable.entry gtOffsetStride (reportedLens entries) i := by
  refine ⟨_, h.readEntry_eq hi, storedEntry_typeBits (h.start_le _), ?_⟩
  unfold gteOffset OffsetTable.entry
  rw [storedEntry_hasOff (h.start_le _) (h.getD_lt i), storedEntry_offlen (h.start_le _),
    getD_reportedLens]
  split_ifs with hstride
  · simp [hstride]
  · simp [hstride]

/-- **A reader that adds up the entries stays in step.** -/
theorem gteAdvanceOffset_eq (h : EntriesAt buf container entries) {entry : Nat}
    (hentry : gteOffset entry = OffsetTable.entry gtOffsetStride (reportedLens entries) i) :
    gteAdvanceOffset (OffsetTable.start (reportedLens entries) i) entry =
      OffsetTable.start (reportedLens entries) (i + 1) := by
  have hle := h.start_le (i + 1)
  unfold gteAdvanceOffset
  rw [hentry, OffsetTable.advance_eq]
  unfold gtentryOfflenmask at hle
  omega

/-- **The offset of a child is the sum of the lengths before it.** -/
theorem getGtypeOffset_eq (h : EntriesAt buf container entries) (hi : i ≤ entries.length) :
    getGtypeOffset buf container i = .ok (OffsetTable.start (reportedLens entries) i) := by
  induction i with
  | zero => rfl
  | succ i ih =>
    obtain ⟨entry, hread, -, hentry⟩ := h.readEntry_spec hi
    have hadvance := h.gteAdvanceOffset_eq hentry
    have hle := h.start_le (i + 1)
    unfold gteAdvanceOffset OffsetTable.advance gteOffset at hadvance
    rw [getGtypeOffset, hread, ih (Nat.le_of_succ_le hi), ← hadvance]
    show (if gteHasOff entry = true then _ else _) = _
    split_ifs with hoff
    · refine congrArg Except.ok ?_
      unfold gteOfflenfld
      omega
    · rfl

/-- **The length of a child is the one its conversion reported.** -/
theorem getGtypeLength_eq (h : EntriesAt buf container entries) (hi : i < entries.length) :
    getGtypeLength buf container i = .ok (gteOfflenfld (entries.getD i 0)) := by
  obtain ⟨entry, hread, -, hentry⟩ := h.readEntry_spec hi
  have hle := h.start_le (i + 1)
  have hsucc := OffsetTable.start_succ (reportedLens entries) i
  rw [getD_reportedLens] at hsucc
  unfold gtentryOfflenmask at hle
  unfold gteOffset OffsetTable.entry at hentry
  rw [getGtypeLength, hread]
  show (if gteHasOff entry = true then _ else _) = _
  split_ifs at hentry with hstride
  · obtain ⟨hoff, hfield⟩ := Prod.mk.inj hentry
    rw [if_pos hoff, h.getGtypeOffset_eq (Nat.le_of_lt hi), hfield, hsucc]
    refine congrArg Except.ok ?_
    omega
  · obtain ⟨hoff, hfield⟩ := Prod.mk.inj hentry
    rw [if_neg (by rw [hoff]; exact Bool.false_ne_true), hfield, getD_reportedLens]
    rfl

end EntriesAt

end NeoPostGraph
