import Mathlib.Algebra.BigOperators.Group.List.Basic
import Mathlib.Algebra.GroupWithZero.Nat
import Mathlib.Data.List.Sigma

/-!
# Slotted pages and the tables made of them

A PostgreSQL page is a 24-byte header, an array of 4-byte line pointers growing up from it, and
the items themselves growing down from the end of the page. `Page α` keeps the line pointers in
order, each with the stored length and the value of its item, so that `pd_lower` and `pd_upper`
are computed rather than stored. A line pointer is normal (`some`) or unused (`none`): no caller
ever prunes, so redirected and dead ones do not arise.

* `Page.addItem` is `PageAddItemExtended` with `InvalidOffsetNumber`, `Page.addItemAt` with an
  offset and `PAI_OVERWRITE`; both return `none` where the C function returns
  `InvalidOffsetNumber`.
* `Table α` is the main fork of a relation, its pages in block order. `Table.write` appends a
  record to the last page, or to a new one when the last has no room.

Results:
* `write_get`, `write_fresh`, `write_ne`: a write fills one empty slot and touches no other.
* `write_isSome`: it succeeds exactly when the record fits on an empty page.
* `before_write`: the slot is behind every filled one.
* `get_modify`, `get_modify_ne`: an in-place update changes one slot.
* `mem_entries`, `sorted_entries`: a sequential scan returns every filled slot, in physical order.
-/

namespace SlottedPage

/-- `BLCKSZ`. -/
def blcksz : Nat := 8192

/-- `SizeOfPageHeaderData`. -/
def sizeOfPageHeaderData : Nat := 24

/-- `sizeof(ItemIdData)`. -/
def sizeOfItemIdData : Nat := 4

/-- `MAXALIGN`: the next multiple of 8. -/
def maxAlign (n : Nat) : Nat := (n + 7) / 8 * 8

theorem le_maxAlign (n : Nat) : n ≤ maxAlign n := by
  unfold maxAlign
  omega

/-- `ItemPointerData`: a block number and a 1-based line-pointer offset. -/
structure ItemPointer where
  block : Nat
  offset : Nat
deriving DecidableEq, Repr

/-- `ItemPointerSetInvalid`. -/
def ItemPointer.invalid : ItemPointer := ⟨0xFFFFFFFF, 0⟩

/-- `ItemPointerIsValid`: the offset is not 0. -/
def ItemPointer.isValid (p : ItemPointer) : Bool := decide (p.offset ≠ 0)

@[simp] theorem ItemPointer.isValid_invalid : ItemPointer.invalid.isValid = false := rfl

/-- Physical order: by block, then by offset. -/
def ItemPointer.Before (p q : ItemPointer) : Prop :=
  p.block < q.block ∨ p.block = q.block ∧ p.offset < q.offset

instance (p q : ItemPointer) : Decidable (p.Before q) := inferInstanceAs (Decidable (_ ∨ _))

theorem ItemPointer.Before.trans {p q r : ItemPointer} (h₁ : p.Before q) (h₂ : q.Before r) :
    p.Before r := by
  unfold ItemPointer.Before at *
  omega

theorem ItemPointer.Before.irrefl (p : ItemPointer) : ¬ p.Before p := by
  unfold ItemPointer.Before
  omega

theorem ItemPointer.before_trichotomy (p q : ItemPointer) : p.Before q ∨ p = q ∨ q.Before p := by
  cases p
  cases q
  simp only [ItemPointer.Before, ItemPointer.mk.injEq]
  omega

instance : Std.Irrefl ItemPointer.Before := ⟨ItemPointer.Before.irrefl⟩

instance : Std.Antisymm ItemPointer.Before := ⟨fun p _ h h' => absurd (h.trans h') (ItemPointer.Before.irrefl p)⟩

theorem ItemPointer.isValid_iff {p : ItemPointer} : p.isValid = true ↔ p.offset ≠ 0 := by
  simp [ItemPointer.isValid]

/-! ## Pages -/

/-- A page: its line pointers in order, each with the length and the value of its item. -/
structure Page (α : Type) where
  lps : List (Option (Nat × α))
deriving DecidableEq, Repr

namespace Page

variable {α : Type}

/-- `PageInit`. -/
def init : Page α := ⟨[]⟩

/-- `PageGetMaxOffsetNumber`. -/
def maxOffset (p : Page α) : Nat := p.lps.length

/-- The bytes an item takes at the end of the page. -/
def itemSpace : Option (Nat × α) → Nat
  | none => 0
  | some (len, _) => maxAlign len

/-- The bytes all items take. -/
def used (p : Page α) : Nat := (p.lps.map itemSpace).sum

/-- `pd_lower`. -/
def lower (p : Page α) : Nat := sizeOfPageHeaderData + sizeOfItemIdData * p.maxOffset

/-- `pd_upper`. -/
def upper (p : Page α) : Nat := blcksz - p.used

/-- `PageGetFreeSpace`: the gap between `pd_lower` and `pd_upper`, less one line pointer. -/
def freeSpace (p : Page α) : Nat := p.upper - p.lower - sizeOfItemIdData

/-- The item behind a line pointer, when the offset exists and its pointer is normal. -/
def lp (p : Page α) (off : Nat) : Option (Nat × α) :=
  if off = 0 then none else (p.lps[off - 1]?).join

/-- `PageGetItem` behind `ItemIdIsNormal`. -/
def get (p : Page α) (off : Nat) : Option α := (p.lp off).map Prod.snd

/-- Overwrite the value of the item at an offset in place. -/
def modify (p : Page α) (off : Nat) (f : α → α) : Page α :=
  if off = 0 then p else ⟨p.lps.modify (off - 1) (Option.map (Prod.map id f))⟩

/-- `PageAddItemExtended` at `InvalidOffsetNumber`: a new line pointer after the last, when the
item and the pointer fit between `pd_lower` and `pd_upper`. -/
def addItem (p : Page α) (len : Nat) (a : α) : Option (Page α × Nat) :=
  if p.lower + sizeOfItemIdData + maxAlign len ≤ p.upper then
    some (⟨p.lps ++ [some (len, a)]⟩, p.maxOffset + 1)
  else none

/-- `PageAddItemExtended` at a given offset with `PAI_OVERWRITE`: it refuses a used line pointer
and an offset beyond the first free one, and reuses an unused pointer in place. -/
def addItemAt (p : Page α) (off len : Nat) (a : α) : Option (Page α) :=
  if p.maxOffset + 1 < off ∨ off = 0 then none
  else if off = p.maxOffset + 1 then (p.addItem len a).map Prod.fst
  else if (p.lp off).isSome then none
  else if p.lower + maxAlign len ≤ p.upper then
    some ⟨p.lps.set (off - 1) (some (len, a))⟩
  else none

@[simp] theorem get_init (off : Nat) : (init : Page α).get off = none := by
  simp [get, lp, init]

theorem get_zero (p : Page α) : p.get 0 = none := by simp [get, lp]

theorem le_maxOffset_of_get {p : Page α} {off : Nat} {a : α} (h : p.get off = some a) :
    1 ≤ off ∧ off ≤ p.maxOffset := by
  unfold get lp at h
  split at h
  · simp at h
  · next h0 =>
    have hlt : off - 1 < p.lps.length := by
      by_contra hc
      simp [List.getElem?_eq_none (Nat.le_of_not_lt hc)] at h
    exact ⟨Nat.one_le_iff_ne_zero.mpr h0, by unfold maxOffset; omega⟩

theorem get_append (p : Page α) (x : Option (Nat × α)) (off : Nat) :
    (⟨p.lps ++ [x]⟩ : Page α).get off =
      if off = p.maxOffset + 1 then x.map Prod.snd else p.get off := by
  unfold get lp maxOffset
  by_cases h0 : off = 0
  · simp [h0]
  rcases Nat.lt_trichotomy (off - 1) p.lps.length with h | h | h
  · have hne : off ≠ p.lps.length + 1 := by omega
    simp [h0, hne, List.getElem?_append_left h]
  · have heq : off = p.lps.length + 1 := by omega
    simp [heq]
  · have hne : off ≠ p.lps.length + 1 := by omega
    have h1 : (p.lps ++ [x])[off - 1]? = none :=
      List.getElem?_eq_none (by rw [List.length_append, List.length_singleton]; exact h)
    simp [h0, hne, h1, Nat.le_of_lt h]

/-- **A page takes an item into the next offset** and keeps every other one. -/
theorem addItem_get {p p' : Page α} {len off : Nat} {a : α}
    (h : p.addItem len a = some (p', off)) (off' : Nat) :
    p'.get off' = if off' = off then some a else p.get off' := by
  unfold addItem at h
  split at h
  · simp only [Option.some.injEq, Prod.mk.injEq] at h
    obtain ⟨rfl, rfl⟩ := h
    rw [get_append]
    rfl
  · cases h

theorem addItem_off {p p' : Page α} {len off : Nat} {a : α}
    (h : p.addItem len a = some (p', off)) : off = p.maxOffset + 1 := by
  unfold addItem at h
  split at h
  · simp only [Option.some.injEq, Prod.mk.injEq] at h
    exact h.2.symm
  · cases h

theorem get_modify (p : Page α) (off off' : Nat) (f : α → α) :
    (p.modify off f).get off' = if off' = off then (p.get off').map f else p.get off' := by
  unfold modify
  by_cases h0 : off = 0
  · subst h0
    by_cases h : off' = 0
    · simp [h, get_zero]
    · simp [h]
  unfold get lp
  by_cases h0' : off' = 0
  · simp [h0']
  by_cases h : off' = off
  · subst h
    simp only [h0, if_false, if_true, List.getElem?_modify]
    cases hx : p.lps[off' - 1]? with
    | none => simp
    | some x => cases x <;> simp
  · have hne : off - 1 ≠ off' - 1 := by omega
    simp [h0, h0', h, hne]

@[simp] theorem maxOffset_modify (p : Page α) (off : Nat) (f : α → α) :
    (p.modify off f).maxOffset = p.maxOffset := by
  unfold modify maxOffset
  split <;> simp

end Page

/-! ## Tables -/

/-- The main fork of a relation: its pages in block order. -/
structure Table (α : Type) where
  pages : List (Page α)
deriving DecidableEq, Repr

/-- A record of this length fits on an empty page. -/
def Fits (len : Nat) : Prop := sizeOfPageHeaderData + sizeOfItemIdData + maxAlign len ≤ blcksz

instance (len : Nat) : Decidable (Fits len) := inferInstanceAs (Decidable (_ ≤ _))

namespace Table

variable {α : Type}

/-- A relation of no blocks. -/
def empty : Table α := ⟨[]⟩

/-- `RelationGetNumberOfBlocks`. -/
def nblocks (t : Table α) : Nat := t.pages.length

/-- The item at a tid, when the block exists and the line pointer is normal. -/
def get (t : Table α) (tid : ItemPointer) : Option α :=
  (t.pages[tid.block]?).bind (·.get tid.offset)

/-- Overwrite the item at a tid in place. -/
def modify (t : Table α) (tid : ItemPointer) (f : α → α) : Table α :=
  ⟨t.pages.modify tid.block (·.modify tid.offset f)⟩

/-- Extend the relation with initialised pages until the block exists. -/
def extendThrough (t : Table α) (block : Nat) : Table α :=
  ⟨t.pages ++ List.replicate (block + 1 - t.nblocks) Page.init⟩

/-- The page a record of this length is written to, and the pages before it: the last page of the
relation unless `PageGetFreeSpace` is too small, then a new one. -/
def writeTarget (t : Table α) (len : Nat) : List (Page α) × Page α :=
  match t.pages.getLast? with
  | some last =>
    if last.freeSpace < maxAlign len + sizeOfItemIdData then (t.pages, Page.init)
    else (t.pages.dropLast, last)
  | none => (t.pages, Page.init)

/-- Append a record of this length; `none` when it does not fit on an empty page. -/
def write (t : Table α) (len : Nat) (a : α) : Option (Table α × ItemPointer) :=
  ((t.writeTarget len).2.addItem len a).map fun x =>
    (⟨(t.writeTarget len).1 ++ [x.1]⟩, ⟨(t.writeTarget len).1.length, x.2⟩)

/-- A sequential scan: every filled slot with its tid, in physical order. -/
def entries (t : Table α) : List (ItemPointer × α) :=
  t.pages.zipIdx.flatMap fun (p, b) =>
    p.lps.zipIdx.filterMap fun (lp, i) => lp.map fun x => (⟨b, i + 1⟩, x.2)

@[simp] theorem get_empty (tid : ItemPointer) : (empty : Table α).get tid = none := by
  simp [get, empty]

theorem get_offset_pos {t : Table α} {tid : ItemPointer} {a : α} (h : t.get tid = some a) :
    1 ≤ tid.offset := by
  unfold get at h
  obtain ⟨p, -, hp⟩ := Option.bind_eq_some_iff.mp h
  exact (Page.le_maxOffset_of_get hp).1

theorem isValid_of_get {t : Table α} {tid : ItemPointer} {a : α} (h : t.get tid = some a) :
    tid.isValid = true :=
  ItemPointer.isValid_iff.mpr (Nat.one_le_iff_ne_zero.mp (get_offset_pos h))

theorem get_concat (front : List (Page α)) (p : Page α) (tid : ItemPointer) :
    (⟨front ++ [p]⟩ : Table α).get tid =
      if tid.block = front.length then p.get tid.offset else (⟨front⟩ : Table α).get tid := by
  unfold get
  rcases Nat.lt_trichotomy tid.block front.length with h | h | h
  · have hne : tid.block ≠ front.length := by omega
    simp [hne, List.getElem?_append_left h]
  · simp [h]
  · have hne : tid.block ≠ front.length := by omega
    have h1 : (front ++ [p])[tid.block]? = none :=
      List.getElem?_eq_none (by rw [List.length_append, List.length_singleton]; exact h)
    simp [hne, h1, Nat.le_of_lt h]

theorem get_extendThrough (t : Table α) (block : Nat) (tid : ItemPointer) :
    (t.extendThrough block).get tid = t.get tid := by
  unfold extendThrough get
  by_cases h : tid.block < t.pages.length
  · rw [List.getElem?_append_left h]
  · rw [List.getElem?_append_right (by omega), List.getElem?_replicate,
      List.getElem?_eq_none (by omega)]
    split <;> simp

theorem lt_nblocks_extendThrough (t : Table α) (block : Nat) :
    block < (t.extendThrough block).nblocks := by
  unfold extendThrough nblocks
  simp only [List.length_append, List.length_replicate]
  omega

/-! ## In-place updates -/

/-- **An in-place update changes the one slot it is given.** -/
theorem get_modify (t : Table α) (tid tid' : ItemPointer) (f : α → α) :
    (t.modify tid f).get tid' = if tid' = tid then (t.get tid').map f else t.get tid' := by
  unfold modify get
  simp only [List.getElem?_modify]
  cases hp : t.pages[tid'.block]? with
  | none => simp
  | some p =>
    by_cases hb : tid.block = tid'.block
    · simp only [hb, if_true, Option.map_eq_map, Option.map_some, Option.bind_some]
      rw [Page.get_modify]
      by_cases ho : tid'.offset = tid.offset
      · have heq : tid' = tid := by
          cases tid
          cases tid'
          simp_all
        simp [heq]
      · have hne : tid' ≠ tid := fun h => ho (by rw [h])
        simp [ho, hne]
    · have hne : tid' ≠ tid := fun h => hb (by rw [h])
      simp [hb, hne]

theorem get_modify_self {t : Table α} {tid : ItemPointer} {a : α} (f : α → α)
    (h : t.get tid = some a) : (t.modify tid f).get tid = some (f a) := by
  rw [get_modify, if_pos rfl, h]
  rfl

theorem get_modify_ne (t : Table α) {tid tid' : ItemPointer} (f : α → α) (h : tid' ≠ tid) :
    (t.modify tid f).get tid' = t.get tid' := by
  rw [get_modify, if_neg h]

@[simp] theorem nblocks_modify (t : Table α) (tid : ItemPointer) (f : α → α) :
    (t.modify tid f).nblocks = t.nblocks := by
  simp [modify, nblocks]

/-! ## Appending a record -/

theorem get_writeTarget (t : Table α) (len : Nat) (tid : ItemPointer) :
    (⟨(t.writeTarget len).1 ++ [(t.writeTarget len).2]⟩ : Table α).get tid = t.get tid := by
  have hnew : (⟨t.pages ++ [Page.init]⟩ : Table α).get tid = t.get tid := by
    rw [get_concat]
    split
    · next h =>
      rw [Page.get_init]
      unfold get
      rw [h, List.getElem?_eq_none (Nat.le_refl _)]
      rfl
    · rfl
  unfold writeTarget
  cases hl : t.pages.getLast? with
  | none => exact hnew
  | some last =>
    by_cases hs : last.freeSpace < maxAlign len + sizeOfItemIdData
    · simp only [hs, if_true]
      exact hnew
    · simp only [hs, if_false]
      rw [List.dropLast_append_getLast? last hl]

/-- **A write fills the slot it returns** and leaves every other slot as it was. -/
theorem get_write {t t' : Table α} {len : Nat} {a : α} {tid : ItemPointer}
    (h : t.write len a = some (t', tid)) (tid' : ItemPointer) :
    t'.get tid' = if tid' = tid then some a else t.get tid' := by
  unfold write at h
  obtain ⟨⟨p', off⟩, hadd, heq⟩ := Option.map_eq_some_iff.mp h
  simp only [Prod.mk.injEq] at heq
  obtain ⟨rfl, rfl⟩ := heq
  rw [← get_writeTarget t len tid', get_concat, get_concat, Page.addItem_get hadd]
  cases tid' with
  | mk b o =>
    by_cases hb : b = (t.writeTarget len).1.length
    · by_cases ho : o = off <;> simp [hb, ho]
    · simp [hb]

theorem write_get {t t' : Table α} {len : Nat} {a : α} {tid : ItemPointer}
    (h : t.write len a = some (t', tid)) : t'.get tid = some a := by
  rw [get_write h, if_pos rfl]

theorem write_ne {t t' : Table α} {len : Nat} {a : α} {tid tid' : ItemPointer}
    (h : t.write len a = some (t', tid)) (hne : tid' ≠ tid) : t'.get tid' = t.get tid' := by
  rw [get_write h, if_neg hne]

/-- A write never reuses a filled slot. -/
theorem write_fresh {t t' : Table α} {len : Nat} {a : α} {tid : ItemPointer}
    (h : t.write len a = some (t', tid)) : t.get tid = none := by
  unfold write at h
  obtain ⟨⟨p', off⟩, hadd, heq⟩ := Option.map_eq_some_iff.mp h
  simp only [Prod.mk.injEq] at heq
  obtain ⟨-, rfl⟩ := heq
  rw [← get_writeTarget t len, get_concat, if_pos rfl]
  cases hg : (t.writeTarget len).2.get off with
  | none => rfl
  | some b =>
    have hle := (Page.le_maxOffset_of_get hg).2
    have hoff := Page.addItem_off hadd
    omega

theorem write_valid {t t' : Table α} {len : Nat} {a : α} {tid : ItemPointer}
    (h : t.write len a = some (t', tid)) : tid.isValid = true :=
  isValid_of_get (write_get h)

/-- **A write goes behind everything written so far.** -/
theorem before_write {t t' : Table α} {len : Nat} {a b : α} {tid tid' : ItemPointer}
    (h : t.write len a = some (t', tid)) (hb : t.get tid' = some b) : tid'.Before tid := by
  unfold write at h
  obtain ⟨⟨p', off⟩, hadd, heq⟩ := Option.map_eq_some_iff.mp h
  simp only [Prod.mk.injEq] at heq
  obtain ⟨-, rfl⟩ := heq
  rw [← get_writeTarget t len, get_concat] at hb
  split at hb
  · next hblk =>
    have hle := (Page.le_maxOffset_of_get hb).2
    have hoff := Page.addItem_off hadd
    exact Or.inr ⟨hblk, by show tid'.offset < off; omega⟩
  · obtain ⟨p, hp, -⟩ := Option.bind_eq_some_iff.mp hb
    exact Or.inl (List.getElem?_eq_some_iff.mp hp).1

/-- **A write succeeds exactly when the record fits on an empty page.** -/
theorem write_isSome (t : Table α) (len : Nat) (a : α) :
    (t.write len a).isSome ↔ Fits len := by
  have hinit : ((Page.init : Page α).addItem len a).isSome ↔ Fits len := by
    unfold Page.addItem Page.lower Page.upper Page.used Page.maxOffset Page.init Fits
    simp only [List.length_nil, List.map_nil, List.sum_nil]
    split <;> simp <;> omega
  unfold write writeTarget
  rw [Option.isSome_map]
  cases hl : t.pages.getLast? with
  | none => exact hinit
  | some last =>
    by_cases hs : last.freeSpace < maxAlign len + sizeOfItemIdData
    · simp only [hs, if_true]
      exact hinit
    · simp only [hs, if_false]
      -- enough free space on the last page is more than the item needs
      unfold Page.freeSpace sizeOfItemIdData at hs
      have hfit : last.lower + sizeOfItemIdData + maxAlign len ≤ last.upper := by
        unfold sizeOfItemIdData
        omega
      have hlow : sizeOfPageHeaderData ≤ last.lower := Nat.le_add_right _ _
      have hup : last.upper ≤ blcksz := Nat.sub_le _ _
      unfold Page.addItem Fits
      rw [if_pos hfit]
      simp only [Option.isSome_some, true_iff]
      omega

theorem write_of_fits (t : Table α) {len : Nat} (a : α) (h : Fits len) :
    ∃ t' tid, t.write len a = some (t', tid) := by
  obtain ⟨⟨t', tid⟩, hw⟩ := Option.isSome_iff_exists.mp ((write_isSome t len a).mpr h)
  exact ⟨t', tid, hw⟩

/-! ## Sequential scans -/

theorem mem_entries {t : Table α} {tid : ItemPointer} {a : α} :
    (tid, a) ∈ t.entries ↔ t.get tid = some a := by
  cases tid with
  | mk b o =>
    unfold entries get Page.get Page.lp
    simp only [List.mem_flatMap, List.mem_filterMap, Option.map_eq_some_iff, Prod.exists,
      Prod.mk.injEq, ItemPointer.mk.injEq, List.mem_zipIdx_iff_getElem?, Option.bind_eq_some_iff]
    constructor
    · rintro ⟨p, b', hp, lp, i, hlp, len, x, hx, ⟨rfl, rfl⟩, rfl⟩
      exact ⟨p, hp, len, x, by simp [hlp, hx], rfl⟩
    · rintro ⟨p, hp, len, x, hx, rfl⟩
      by_cases h0 : o = 0
      · simp [h0] at hx
      · rw [if_neg h0] at hx
        have hlp := Option.join_eq_some_iff.mp hx
        exact ⟨p, b, hp, some (len, x), o - 1, hlp, len, x, rfl, ⟨rfl, by omega⟩, rfl⟩

/-- A scan meets the slots in physical order. -/
theorem sorted_entries (t : Table α) : t.entries.Pairwise fun x y => x.1.Before y.1 := by
  have hidx : ∀ {β : Type} (l : List β), l.zipIdx.Pairwise fun x y => x.2 < y.2 := fun l => by
    refine List.pairwise_map.mp ?_
    rw [List.zipIdx_map_snd]
    exact List.pairwise_lt_range'
  unfold entries
  rw [List.pairwise_flatMap]
  constructor
  · rintro ⟨p, b⟩ -
    rw [List.pairwise_filterMap]
    refine (hidx p.lps).imp fun {x y} hlt u hu v hv => ?_
    obtain ⟨_, _, rfl⟩ := Option.map_eq_some_iff.mp hu
    obtain ⟨_, _, rfl⟩ := Option.map_eq_some_iff.mp hv
    exact Or.inr ⟨rfl, Nat.succ_lt_succ hlt⟩
  · refine (hidx t.pages).imp fun {x y} hlt u hu v hv => ?_
    obtain ⟨_, _, hu⟩ := List.mem_filterMap.mp hu
    obtain ⟨_, _, rfl⟩ := Option.map_eq_some_iff.mp hu
    obtain ⟨_, _, hv⟩ := List.mem_filterMap.mp hv
    obtain ⟨_, _, rfl⟩ := Option.map_eq_some_iff.mp hv
    exact Or.inl hlt

theorem nodup_entries (t : Table α) : (t.entries.map Prod.fst).Nodup :=
  List.pairwise_map.mpr (t.sorted_entries.imp fun {x y} h he => by
    rw [he] at h
    exact ItemPointer.Before.irrefl _ h)

end Table

end SlottedPage
