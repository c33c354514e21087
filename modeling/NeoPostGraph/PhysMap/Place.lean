import Mathlib.Data.List.Induction
import Mathlib.Tactic.Ring
import NeoPostGraph.PhysMap.Slot

/-!
# Placing records in the physical map

`np_place_physmap_record` (`np_label.c:104-164`) and `np_set_edge_physmap_record`
(`np_phys_map.c:151-222`) are one function at two record types: extend the file to the block, then
overwrite the slot, or pad the page with empty records up to it and append. `placeRecord` is that
function; the two keep their own names, sizes and pads. The last block `np_id_to_tid` can name is
`InvalidBlockNumber`, which no relation has: there the loop that extends the file ends in an error.

`PageAddItemExtended` fails when the page has no room for the aligned item and a line pointer, and
both functions ignore the failure. So `pageAdd` leaves such a page as it was.

Results:
* `get_extendAndPlace`: what every slot reads after a placement, on pages of equal-sized records.
* `placeLaw_iff`: a sequence of placements reads back, whatever the records, exactly when each id's
  block is one a relation can have, its offset is within the page's capacity, and different ids have
  different slots.
* `physMap_law_iff`: the two maps. A page takes 291 vertex records where
  `np_id_to_tid` addresses 314, and 408 edge records where it addresses 510.
-/

namespace NeoPostGraph

open SlottedPage

section Place

variable {α : Type}

/-- `PageAddItemExtended` at `InvalidOffsetNumber`, its failure ignored. -/
def pageAdd (p : Page α) (len : Nat) (a : α) : Page α := ((p.addItem len a).map Prod.fst).getD p

/-- The padding loop: `n` calls that add the empty record, whether or not they fit. -/
def padPage (p : Page α) (len : Nat) (pad : α) : Nat → Page α
  | 0 => p
  | n + 1 => padPage (pageAdd p len pad) len pad n

/-- The work on the target page once the file has been extended. -/
def placeOnPage (p : Page α) (len : Nat) (pad : α) (targetOffset : Nat) (newData : α) : Page α :=
  let maxoff := p.maxOffset
  if maxoff < targetOffset then
    pageAdd (padPage p len pad (targetOffset - 1 - maxoff)) len newData
  else if (p.get targetOffset).isSome then p.modify targetOffset fun _ => newData
  else (p.addItemAt targetOffset len newData).getD p

/-- Extend the file to a block a relation can have, and place the record there. -/
def extendAndPlace (t : Table α) (len : Nat) (pad : α) (tid : ItemPointer) (newData : α) : Table α :=
  let t' := t.extendThrough tid.block
  ⟨t'.pages.modify tid.block fun p => placeOnPage p len pad tid.offset newData⟩

/-- Place a record at a tid: the body shared by the vertex and the edge map. With `nblocks <=
target_block` the loop comes to no end at `InvalidBlockNumber`, but to the error of a file that cannot
be extended any more. -/
def placeRecord (t : Table α) (len : Nat) (pad : α) (tid : ItemPointer) (newData : α) :
    Option (Table α) :=
  if tid.block < invalidBlockNumber then some (extendAndPlace t len pad tid newData) else none

end Place

/-- The record `np_place_physmap_record` pads with. -/
def emptyPad : NeoPhysMapRecord := ⟨.invalid, 0, .invalid, .invalid⟩

/-- The record `np_set_edge_physmap_record` pads with: only `e_itemptr` is set invalid, the
annotation pointer keeps the zeroes of `memset`. -/
def emptyEdgePad : NeoEdgePhysMapRecord := ⟨.invalid, ⟨0, 0⟩⟩

/-- `np_place_physmap_record` (`np_label.c:104-164`). -/
def npPlacePhysmapRecord (rel : Table NeoPhysMapRecord) (tid : ItemPointer)
    (newData : NeoPhysMapRecord) : Option (Table NeoPhysMapRecord) :=
  placeRecord rel sizeOfNeoPhysMapRecord emptyPad tid newData

/-- `np_set_edge_physmap_record` (`np_phys_map.c:151-222`). -/
def npSetEdgePhysmapRecord (rel : Table NeoEdgePhysMapRecord) (tid : ItemPointer)
    (newData : NeoEdgePhysMapRecord) : Option (Table NeoEdgePhysMapRecord) :=
  placeRecord rel sizeOfNeoEdgePhysMapRecord emptyEdgePad tid newData

/-! ## Pages of equal-sized records -/

section Uniform

variable {α : Type}

/-- Every line pointer of the page is normal and its item has this length. -/
def Uniform (len : Nat) (p : Page α) : Prop := ∀ lp ∈ p.lps, ∃ a, lp = some (len, a)

/-- How many records of this length a page takes. -/
def pageCapacity (len : Nat) : Nat :=
  (blcksz - sizeOfPageHeaderData) / (maxAlign len + sizeOfItemIdData)

theorem uniform_init (len : Nat) : Uniform len (Page.init : Page α) := by
  intro lp h
  cases h

theorem uniform_used {len : Nat} {p : Page α} (h : Uniform len p) :
    p.used = p.maxOffset * maxAlign len := by
  have hrep : p.lps.map Page.itemSpace = List.replicate p.lps.length (maxAlign len) := by
    rw [← List.map_const', List.map_inj_left]
    intro lp hlp
    obtain ⟨a, rfl⟩ := h lp hlp
    rfl
  unfold Page.used Page.maxOffset
  rw [hrep, List.sum_replicate_nat]

theorem uniform_get {len : Nat} {p : Page α} (h : Uniform len p) (off : Nat) :
    (p.get off).isSome ↔ 1 ≤ off ∧ off ≤ p.maxOffset := by
  constructor
  · intro hs
    obtain ⟨a, ha⟩ := Option.isSome_iff_exists.mp hs
    exact Page.le_maxOffset_of_get ha
  · rintro ⟨h1, h2⟩
    have h0 : off ≠ 0 := by omega
    have hlt : off - 1 < p.lps.length := by
      unfold Page.maxOffset at h2
      omega
    obtain ⟨a, ha⟩ := h _ (List.getElem_mem hlt)
    simp [Page.get, Page.lp, h0, List.getElem?_eq_getElem hlt, ha]

/-- A uniform page takes one more record exactly while it holds fewer than its capacity. -/
theorem uniform_addItem {len : Nat} {p : Page α} (h : Uniform len p) (a : α) :
    (p.addItem len a).isSome ↔ p.maxOffset < pageCapacity len := by
  unfold Page.addItem Page.lower Page.upper pageCapacity
  rw [uniform_used h]
  have hs : sizeOfItemIdData = 4 := rfl
  have hpos : 0 < maxAlign len + sizeOfItemIdData := by omega
  rw [← Nat.succ_le_iff, Nat.le_div_iff_mul_le hpos]
  have hexp : (p.maxOffset + 1) * (maxAlign len + sizeOfItemIdData) =
      p.maxOffset * maxAlign len + maxAlign len + sizeOfItemIdData * p.maxOffset
        + sizeOfItemIdData := by ring
  rw [Nat.succ_eq_add_one, hexp]
  have hb : blcksz = 8192 := rfl
  have hh : sizeOfPageHeaderData = 24 := rfl
  split <;> simp <;> omega

theorem uniform_pageAdd {len : Nat} {p : Page α} (h : Uniform len p) (a : α) :
    Uniform len (pageAdd p len a) := by
  unfold pageAdd Page.addItem
  split
  · intro lp hlp
    rcases List.mem_append.mp hlp with hlp | hlp
    · exact h lp hlp
    · exact ⟨a, List.mem_singleton.mp hlp⟩
  · exact h

theorem maxOffset_pageAdd {len : Nat} {p : Page α} (h : Uniform len p) (a : α) :
    (pageAdd p len a).maxOffset =
      if p.maxOffset < pageCapacity len then p.maxOffset + 1 else p.maxOffset := by
  have hiff := uniform_addItem h a
  unfold pageAdd
  cases hadd : p.addItem len a with
  | none =>
    rw [hadd] at hiff
    have hn : ¬ p.maxOffset < pageCapacity len := fun hlt => by simpa using hiff.mpr hlt
    simp [hn]
  | some x =>
    rw [hadd] at hiff
    have hlt := hiff.mp rfl
    unfold Page.addItem at hadd
    split at hadd
    · obtain rfl := Option.some.inj hadd
      rw [if_pos hlt]
      simp [Page.maxOffset]
    · cases hadd

theorem get_pageAdd {len : Nat} {p : Page α} (h : Uniform len p) (a : α) (off : Nat) :
    (pageAdd p len a).get off =
      if off = p.maxOffset + 1 ∧ p.maxOffset < pageCapacity len then some a else p.get off := by
  have hiff := uniform_addItem h a
  unfold pageAdd
  cases hadd : p.addItem len a with
  | none =>
    rw [hadd] at hiff
    have hn : ¬ p.maxOffset < pageCapacity len := fun hlt => by simpa using hiff.mpr hlt
    simp [hn]
  | some x =>
    rw [hadd] at hiff
    have hlt := hiff.mp rfl
    have hoff := Page.addItem_off hadd
    simp only [Option.map_some, Option.getD_some, Page.addItem_get hadd, hoff, hlt, and_true]

/-- A page of records of one length, no more of them than fit. -/
structure FixedPage (len : Nat) (p : Page α) : Prop where
  uniform : Uniform len p
  maxOffset_le : p.maxOffset ≤ pageCapacity len

theorem fixedPage_init (len : Nat) : FixedPage len (Page.init : Page α) :=
  ⟨uniform_init len, Nat.zero_le _⟩

theorem fixedPage_pageAdd {len : Nat} {p : Page α} (h : FixedPage len p) (a : α) :
    FixedPage len (pageAdd p len a) := by
  refine ⟨uniform_pageAdd h.uniform a, ?_⟩
  rw [maxOffset_pageAdd h.uniform]
  have := h.maxOffset_le
  split <;> omega

/-- Adding a record keeps every slot that already holds one. -/
theorem get_pageAdd_old {len : Nat} {p : Page α} (h : FixedPage len p) (a : α) {off : Nat}
    (hs : (p.get off).isSome) : (pageAdd p len a).get off = p.get off := by
  have hle := ((uniform_get h.uniform off).mp hs).2
  rw [get_pageAdd h.uniform, if_neg]
  omega

theorem fixedPage_padPage {len : Nat} (pad : α) :
    ∀ (n : Nat) {p : Page α}, FixedPage len p → FixedPage len (padPage p len pad n)
  | 0, _, h => h
  | n + 1, _, h => fixedPage_padPage pad n (fixedPage_pageAdd h pad)

/-- The padding loop stops short when the page is full. -/
theorem maxOffset_padPage {len : Nat} (pad : α) :
    ∀ (n : Nat) {p : Page α}, FixedPage len p →
      (padPage p len pad n).maxOffset = min (p.maxOffset + n) (pageCapacity len)
  | 0, p, h => by
    rw [Nat.add_zero, Nat.min_eq_left h.maxOffset_le]
    rfl
  | n + 1, p, h => by
    show (padPage (pageAdd p len pad) len pad n).maxOffset = _
    rw [maxOffset_padPage pad n (fixedPage_pageAdd h pad), maxOffset_pageAdd h.uniform]
    have := h.maxOffset_le
    split <;> omega

theorem get_padPage_old {len : Nat} (pad : α) {off : Nat} :
    ∀ (n : Nat) {p : Page α}, FixedPage len p → (p.get off).isSome →
      (padPage p len pad n).get off = p.get off
  | 0, _, _, _ => rfl
  | n + 1, p, h, hs => by
    have hold := get_pageAdd_old h pad hs
    show (padPage (pageAdd p len pad) len pad n).get off = _
    rw [get_padPage_old pad n (fixedPage_pageAdd h pad) (by rw [hold]; exact hs), hold]

/-- An empty slot stays empty or is padded. -/
theorem get_padPage {len : Nat} (pad : α) (off : Nat) :
    ∀ (n : Nat) {p : Page α}, FixedPage len p →
      (padPage p len pad n).get off = p.get off ∨
        p.get off = none ∧ (padPage p len pad n).get off = some pad
  | 0, _, _ => Or.inl rfl
  | n + 1, p, h => by
    show (padPage (pageAdd p len pad) len pad n).get off = _ ∨
      _ ∧ (padPage (pageAdd p len pad) len pad n).get off = _
    cases hp : p.get off with
    | some b =>
      have hs : (p.get off).isSome := by rw [hp]; rfl
      have hold := get_pageAdd_old h pad hs
      rw [get_padPage_old pad n (fixedPage_pageAdd h pad) (by rw [hold]; exact hs), hold]
      exact Or.inl hp
    | none =>
      have hadd := get_pageAdd h.uniform pad off
      rw [hp] at hadd
      rcases get_padPage pad off n (fixedPage_pageAdd h pad) with heq | ⟨-, heq⟩
      · rw [heq, hadd]
        split
        · exact Or.inr ⟨rfl, rfl⟩
        · exact Or.inl rfl
      · exact Or.inr ⟨rfl, heq⟩

/-! ## One placement -/

theorem fixedPage_modify {len : Nat} {p : Page α} (h : FixedPage len p) (off : Nat) (f : α → α) :
    FixedPage len (p.modify off f) := by
  refine ⟨?_, by rw [Page.maxOffset_modify]; exact h.maxOffset_le⟩
  unfold Page.modify
  split
  · exact h.uniform
  · intro lp hlp
    obtain ⟨i, hi⟩ := List.mem_iff_getElem?.mp hlp
    rw [List.getElem?_modify] at hi
    obtain ⟨lp', hlp', rfl⟩ := Option.map_eq_some_iff.mp hi
    obtain ⟨b, rfl⟩ := h.uniform lp' (List.mem_of_getElem? hlp')
    split
    · exact ⟨f b, rfl⟩
    · exact ⟨b, rfl⟩

/-- On a page of equal-sized records the `PAI_OVERWRITE` branch is never taken. -/
theorem placeOnPage_eq {len : Nat} {p : Page α} (h : FixedPage len p) (pad : α) {off : Nat}
    (h1 : 1 ≤ off) (a : α) :
    placeOnPage p len pad off a =
      if p.maxOffset < off then pageAdd (padPage p len pad (off - 1 - p.maxOffset)) len a
      else p.modify off fun _ => a := by
  unfold placeOnPage
  by_cases hlt : p.maxOffset < off
  · simp [hlt]
  · have hs : (p.get off).isSome := (uniform_get h.uniform off).mpr ⟨h1, Nat.not_lt.mp hlt⟩
    simp [hlt, hs]

theorem fixedPage_placeOnPage {len : Nat} {p : Page α} (h : FixedPage len p) (pad : α) (off : Nat)
    (a : α) : FixedPage len (placeOnPage p len pad off a) := by
  rcases Nat.eq_zero_or_pos off with rfl | h1
  · have h0 : placeOnPage p len pad 0 a = p := by
      simp [placeOnPage, Page.get_zero, Page.addItemAt]
    rw [h0]
    exact h
  · rw [placeOnPage_eq h pad h1]
    split
    · exact fixedPage_pageAdd (fixedPage_padPage pad _ h) a
    · exact fixedPage_modify h off _

/-- **The placed slot reads back the record when its offset is within the capacity**, and nothing
at all when it is not: the add fails and the failure is ignored. -/
theorem get_placeOnPage {len : Nat} {p : Page α} (h : FixedPage len p) (pad : α) {off : Nat}
    (h1 : 1 ≤ off) (a : α) :
    (placeOnPage p len pad off a).get off = if off ≤ pageCapacity len then some a else none := by
  have hcap := h.maxOffset_le
  rw [placeOnPage_eq h pad h1]
  by_cases hlt : p.maxOffset < off
  · have hpad := fixedPage_padPage pad (off - 1 - p.maxOffset) h
    have hmax := maxOffset_padPage pad (off - 1 - p.maxOffset) h
    rw [if_pos hlt, get_pageAdd hpad.uniform, hmax]
    by_cases hle : off ≤ pageCapacity len
    · rw [if_pos hle, if_pos (by omega)]
    · rw [if_neg hle, if_neg (by omega)]
      have hnone := uniform_get hpad.uniform off
      rw [hmax] at hnone
      exact Option.not_isSome_iff_eq_none.mp fun hs => by have := hnone.mp hs; omega
  · have hs : (p.get off).isSome := (uniform_get h.uniform off).mpr ⟨h1, Nat.not_lt.mp hlt⟩
    obtain ⟨b, hb⟩ := Option.isSome_iff_exists.mp hs
    rw [if_neg hlt, Page.get_modify, if_pos rfl, if_pos (by omega), hb]
    rfl

/-- Every other slot keeps what it holds, or was empty and is padded. -/
theorem get_placeOnPage_other {len : Nat} {p : Page α} (h : FixedPage len p) (pad : α)
    {off off' : Nat} (h1 : 1 ≤ off) (hne : off' ≠ off) (a : α) :
    (placeOnPage p len pad off a).get off' = p.get off' ∨
      p.get off' = none ∧ (placeOnPage p len pad off a).get off' = some pad := by
  rw [placeOnPage_eq h pad h1]
  split
  · next hlt =>
    have hpad := fixedPage_padPage pad (off - 1 - p.maxOffset) h
    have hmax := maxOffset_padPage pad (off - 1 - p.maxOffset) h
    -- the new record goes to its own offset or nowhere
    have hoff : ¬ (off' = (padPage p len pad (off - 1 - p.maxOffset)).maxOffset + 1 ∧
        (padPage p len pad (off - 1 - p.maxOffset)).maxOffset < pageCapacity len) := by
      rw [hmax]
      omega
    rw [get_pageAdd hpad.uniform, if_neg hoff]
    exact get_padPage pad off' _ h
  · rw [Page.get_modify, if_neg hne]
    exact Or.inl rfl

/-- Every page of the map holds records of one length. -/
def FixedTable (len : Nat) (t : Table α) : Prop := ∀ p ∈ t.pages, FixedPage len p

theorem fixedTable_empty (len : Nat) : FixedTable len (Table.empty : Table α) := by
  intro p h
  cases h

theorem fixedTable_extendThrough {len : Nat} {t : Table α} (h : FixedTable len t) (block : Nat) :
    FixedTable len (t.extendThrough block) := by
  intro p hp
  rcases List.mem_append.mp hp with hp | hp
  · exact h p hp
  · obtain ⟨-, rfl⟩ := List.mem_replicate.mp hp
    exact fixedPage_init len

theorem fixedTable_extendAndPlace {len : Nat} {t : Table α} (h : FixedTable len t) (pad : α)
    (tid : ItemPointer) (a : α) : FixedTable len (extendAndPlace t len pad tid a) := by
  intro p hp
  obtain ⟨i, hi⟩ := List.mem_iff_getElem?.mp hp
  unfold extendAndPlace at hi
  rw [List.getElem?_modify] at hi
  obtain ⟨q, hq, rfl⟩ := Option.map_eq_some_iff.mp hi
  have hfix := fixedTable_extendThrough h tid.block q (List.mem_of_getElem? hq)
  split
  · exact fixedPage_placeOnPage hfix pad _ a
  · exact hfix

theorem fixedTable_modify {len : Nat} {t : Table α} (h : FixedTable len t) (tid : ItemPointer)
    (f : α → α) : FixedTable len (t.modify tid f) := by
  intro p hp
  obtain ⟨i, hi⟩ := List.mem_iff_getElem?.mp hp
  unfold Table.modify at hi
  rw [List.getElem?_modify] at hi
  obtain ⟨q, hq, rfl⟩ := Option.map_eq_some_iff.mp hi
  have hfix := h q (List.mem_of_getElem? hq)
  split
  · exact fixedPage_modify hfix _ f
  · exact hfix

/-- A filled slot is within the capacity of its page. -/
theorem fixedTable_offset_le {len : Nat} {t : Table α} (h : FixedTable len t) {tid : ItemPointer}
    {a : α} (ha : t.get tid = some a) : tid.offset ≤ pageCapacity len := by
  unfold Table.get at ha
  obtain ⟨p, hp, hget⟩ := Option.bind_eq_some_iff.mp ha
  have hfix := h p (List.mem_of_getElem? hp)
  exact Nat.le_trans (Page.le_maxOffset_of_get hget).2 hfix.maxOffset_le

/-- The page a placement works on is there once the file has been extended. -/
theorem extendAndPlace_page (t : Table α) (len : Nat) (pad : α) (tid : ItemPointer) (a : α) :
    ∃ p, (t.extendThrough tid.block).pages[tid.block]? = some p ∧
      ∀ tid' : ItemPointer, (extendAndPlace t len pad tid a).get tid' =
        if tid'.block = tid.block then (placeOnPage p len pad tid.offset a).get tid'.offset
        else t.get tid' := by
  have hlt := Table.lt_nblocks_extendThrough t tid.block
  have hp := List.getElem?_eq_getElem hlt
  refine ⟨_, hp, fun tid' => ?_⟩
  unfold extendAndPlace
  show (((t.extendThrough tid.block).pages.modify tid.block _)[tid'.block]?).bind _ = _
  rw [List.getElem?_modify]
  by_cases hb : tid'.block = tid.block
  · rw [hb, hp]
    simp
  · rw [if_neg hb, ← Table.get_extendThrough t tid.block tid']
    simp [Ne.symm hb, Table.get]

/-- A placement takes no block away. -/
theorem nblocks_le_extendAndPlace (t : Table α) (len : Nat) (pad : α) (tid : ItemPointer) (a : α) :
    t.nblocks ≤ (extendAndPlace t len pad tid a).nblocks := by
  unfold extendAndPlace Table.nblocks Table.extendThrough
  simp only [List.length_modify, List.length_append]
  omega

/-- **A placement reads back exactly when the offset is within the page's capacity.** -/
theorem get_extendAndPlace {len : Nat} {t : Table α} (h : FixedTable len t) (pad : α)
    {tid : ItemPointer} (h1 : 1 ≤ tid.offset) (a : α) :
    (extendAndPlace t len pad tid a).get tid =
      if tid.offset ≤ pageCapacity len then some a else none := by
  obtain ⟨p, hp, hget⟩ := extendAndPlace_page t len pad tid a
  have hfix := fixedTable_extendThrough h tid.block p (List.mem_of_getElem? hp)
  rw [hget, if_pos rfl, get_placeOnPage hfix pad h1]

/-- A placement fills or pads empty slots, and keeps every other record but the one it replaces. -/
theorem get_extendAndPlace_other {len : Nat} {t : Table α} (h : FixedTable len t) (pad : α)
    {tid tid' : ItemPointer} (h1 : 1 ≤ tid.offset) (hne : tid' ≠ tid) (a : α) :
    (extendAndPlace t len pad tid a).get tid' = t.get tid' ∨
      t.get tid' = none ∧ (extendAndPlace t len pad tid a).get tid' = some pad := by
  obtain ⟨p, hp, hget⟩ := extendAndPlace_page t len pad tid a
  have hfix := fixedTable_extendThrough h tid.block p (List.mem_of_getElem? hp)
  rw [hget]
  split
  · next hb =>
    have hold : t.get tid' = p.get tid'.offset := by
      rw [← Table.get_extendThrough t tid.block tid']
      unfold Table.get
      rw [hb, hp]
      rfl
    have ho : tid'.offset ≠ tid.offset := by
      intro ho
      cases tid
      cases tid'
      simp_all
    rw [hold]
    exact get_placeOnPage_other hfix pad h1 ho a
  · exact Or.inl rfl

/-- A placement keeps every other slot that holds a record. -/
theorem get_extendAndPlace_ne {len : Nat} {t : Table α} (h : FixedTable len t) (pad : α)
    {tid tid' : ItemPointer} (h1 : 1 ≤ tid.offset) (hne : tid' ≠ tid) (hs : (t.get tid').isSome)
    (a : α) : (extendAndPlace t len pad tid a).get tid' = t.get tid' := by
  rcases get_extendAndPlace_other h pad h1 hne a with heq | ⟨hnone, -⟩
  · exact heq
  · rw [hnone] at hs
    cases hs

end Uniform

/-- A physical map: a table whose pages hold records of one length, no more than fit. -/
structure PhysMap (α : Type) (len : Nat) where
  table : Table α
  fixed : FixedTable len table

namespace PhysMap

variable {α : Type} {len : Nat}

/-- A map of no blocks. -/
def empty : PhysMap α len := ⟨Table.empty, fixedTable_empty len⟩

/-- A placement on a block a relation can have: it keeps the pages well formed. Vertex ids come to the
block after the last one at 314 * (2^32 - 1), edge ids at 510 * (2^32 - 1). -/
def place (m : PhysMap α len) (pad : α) (tid : ItemPointer) (newData : α) : PhysMap α len :=
  ⟨extendAndPlace m.table len pad tid newData, fixedTable_extendAndPlace m.fixed pad tid newData⟩

/-- So does an in-place update. -/
def modify (m : PhysMap α len) (tid : ItemPointer) (f : α → α) : PhysMap α len :=
  ⟨m.table.modify tid f, fixedTable_modify m.fixed tid f⟩

end PhysMap

/-! ## Sequences of placements -/

section Law

variable {α : Type}

/-- Place each record of a list at the slot of its id, in order, as long as no placement fails. -/
def placeAll (place : Table α → ItemPointer → α → Option (Table α)) (slot : Nat → ItemPointer)
    (l : List (Nat × α)) : Option (Table α) :=
  l.foldlM (fun t x => place t (slot x.1) x.2) Table.empty

/-- The store law for a sequence of ids: whatever the records are, each placement goes through, after it
the slot of its id reads back the record, and the slots of the ids placed before read as they did. -/
def PlaceLaw (place : Table α → ItemPointer → α → Option (Table α)) (slot : Nat → ItemPointer)
    (ids : List Nat) : Prop :=
  ∀ l : List (Nat × α), l.map Prod.fst = ids →
    ∀ (pre : List (Nat × α)) (id : Nat) (r : α) (post : List (Nat × α)), l = pre ++ (id, r) :: post →
      ∃ t t', placeAll place slot pre = some t ∧ place t (slot id) r = some t' ∧
        t'.get (slot id) = some r ∧
        ∀ id' ∈ pre.map Prod.fst, id' ≠ id → t'.get (slot id') = t.get (slot id')

theorem placeAll_concat (place : Table α → ItemPointer → α → Option (Table α))
    (slot : Nat → ItemPointer) (l : List (Nat × α)) (id : Nat) (r : α) :
    placeAll place slot (l ++ [(id, r)]) =
      (placeAll place slot l).bind fun t => place t (slot id) r := by
  unfold placeAll
  rw [List.foldlM_append]
  simp

variable {len : Nat} {pad : α} {slot : Nat → ItemPointer} {l : List (Nat × α)} {t t' : Table α}
  {tid : ItemPointer} {a : α}

theorem placeRecord_eq_some_iff : placeRecord t len pad tid a = some t' ↔
    tid.block < invalidBlockNumber ∧ extendAndPlace t len pad tid a = t' := by
  unfold placeRecord
  split_ifs with hb
  · simp [hb]
  · simp [hb]

theorem fixedTable_placeAll (h : placeAll (placeRecord · len pad) slot l = some t) :
    FixedTable len t := by
  induction l using List.reverseRecOn generalizing t with
  | nil =>
    obtain rfl := Option.some.inj h
    exact fixedTable_empty len
  | append_singleton l x ih =>
    rw [placeAll_concat] at h
    obtain ⟨t₀, h₀, hx⟩ := Option.bind_eq_some_iff.mp h
    obtain ⟨-, rfl⟩ := placeRecord_eq_some_iff.mp hx
    exact fixedTable_extendAndPlace (ih h₀) pad _ x.2

/-- As long as every block is one a relation can have, no placement fails. -/
theorem exists_placeAll (l : List (Nat × α))
    (hblock : ∀ id ∈ l.map Prod.fst, (slot id).block < invalidBlockNumber) :
    ∃ t, placeAll (placeRecord · len pad) slot l = some t := by
  induction l using List.reverseRecOn with
  | nil => exact ⟨_, rfl⟩
  | append_singleton l x ih =>
    obtain ⟨t, ht⟩ := ih fun id h => hblock id (by simp [List.mem_map.mp h])
    refine ⟨extendAndPlace t len pad (slot x.1) x.2, ?_⟩
    rw [placeAll_concat, ht]
    exact placeRecord_eq_some_iff.mpr ⟨hblock x.1 (by simp), rfl⟩

/-- While every offset is within the capacity, every placed slot holds some record. -/
theorem isSome_placeAll (hslot : ∀ id, 1 ≤ (slot id).offset)
    (h : placeAll (placeRecord · len pad) slot l = some t)
    (hcap : ∀ id ∈ l.map Prod.fst, (slot id).offset ≤ pageCapacity len) :
    ∀ id ∈ l.map Prod.fst, (t.get (slot id)).isSome := by
  induction l using List.reverseRecOn generalizing t with
  | nil => simp
  | append_singleton l x ih =>
    intro id hid
    rw [placeAll_concat] at h
    obtain ⟨t₀, h₀, hx⟩ := Option.bind_eq_some_iff.mp h
    obtain ⟨-, rfl⟩ := placeRecord_eq_some_iff.mp hx
    have hfix := fixedTable_placeAll h₀
    by_cases he : slot id = slot x.1
    · have hx : (slot x.1).offset ≤ pageCapacity len := hcap x.1 (by simp)
      rw [he, get_extendAndPlace hfix pad (hslot x.1), if_pos hx]
      rfl
    · have hid' : id ∈ l.map Prod.fst := by
        rw [List.map_append, List.mem_append] at hid
        rcases hid with hid | hid
        · exact hid
        · exact absurd (by rw [List.mem_singleton.mp hid]) he
      have hs := ih h₀ (fun id h => hcap id (by simp [List.mem_map.mp h])) id hid'
      rw [get_extendAndPlace_ne hfix pad (hslot x.1) he hs]
      exact hs

/-- Under the law a sequence reads back, at its end, the record of every id it placed, when the
records are a function of the id. -/
theorem placeLaw_get {place : Table α → ItemPointer → α → Option (Table α)} {ids : List Nat}
    (h : PlaceLaw place slot ids) (ρ : Nat → α) :
    ∀ pre post, ids = pre ++ post → ∃ t, placeAll place slot (pre.map fun i => (i, ρ i)) = some t ∧
      ∀ id ∈ pre, t.get (slot id) = some (ρ id) := by
  intro pre
  induction pre using List.reverseRecOn with
  | nil => exact fun post _ => ⟨_, rfl, by simp⟩
  | append_singleton pre x ih =>
    intro post hids
    have hmap : ∀ l : List Nat, (l.map fun i => (i, ρ i)).map Prod.fst = l := by
      simp [Function.comp_def]
    obtain ⟨t, t', ht, hx, hget, hold⟩ := h (ids.map fun i => (i, ρ i)) (hmap ids)
      (pre.map fun i => (i, ρ i)) x (ρ x) (post.map fun i => (i, ρ i)) (by simp [hids])
    obtain ⟨t₀, ht₀, hpre⟩ := ih (x :: post) (by simp [hids])
    obtain rfl := Option.some.inj (ht.symm.trans ht₀)
    refine ⟨t', ?_, fun id hid => ?_⟩
    · rw [List.map_append, List.map_singleton, placeAll_concat, ht]
      exact hx
    · by_cases he : id = x
      · rw [he]
        exact hget
      · have hid' : id ∈ pre := by simpa [he] using hid
        rw [hold id (by rw [hmap]; exact hid') he]
        exact hpre id hid'

/-- **The store law holds of a sequence of ids exactly when each block is one a relation can have, each
offset is within the capacity of a page and different ids have different slots.** -/
theorem placeLaw_iff (len : Nat) (pad : α) {slot : Nat → ItemPointer}
    (hslot : ∀ id, 1 ≤ (slot id).offset) {a b : α} (hab : a ≠ b) (ids : List Nat) :
    PlaceLaw (placeRecord · len pad) slot ids ↔
      (∀ id ∈ ids, (slot id).block < invalidBlockNumber ∧ (slot id).offset ≤ pageCapacity len) ∧
      ∀ id ∈ ids, ∀ id' ∈ ids, slot id = slot id' → id = id' := by
  constructor
  · intro h
    refine ⟨fun id hid => ?_, fun id hid id' hid' he => ?_⟩
    · -- an id whose slot cannot be filled reads back nothing where it is placed
      obtain ⟨pre, post, rfl⟩ := List.append_of_mem hid
      obtain ⟨t', h', hget⟩ := placeLaw_get h (fun _ => a) (pre ++ [id]) post (by simp)
      rw [List.map_append, List.map_singleton, placeAll_concat] at h'
      obtain ⟨t, ht, hx⟩ := Option.bind_eq_some_iff.mp h'
      obtain ⟨hblock, rfl⟩ := placeRecord_eq_some_iff.mp hx
      refine ⟨hblock, by_contra fun hc => ?_⟩
      have hid := hget id (by simp)
      rw [get_extendAndPlace (fixedTable_placeAll ht) pad (hslot id), if_neg hc] at hid
      cases hid
    · -- two ids on one slot cannot both read back their own record
      by_contra hne
      obtain ⟨t, -, hget⟩ := placeLaw_get h (fun i => if i = id then a else b) ids [] (by simp)
      have h1 := hget id hid
      have h2 := hget id' hid'
      rw [he, h2] at h1
      simp only [if_neg (Ne.symm hne), if_true, Option.some.injEq] at h1
      exact hab h1.symm
  · rintro ⟨hcap, hinj⟩ l rfl pre id r post rfl
    have hpre : ∀ i ∈ pre.map Prod.fst, i ∈ (pre ++ (id, r) :: post).map Prod.fst := fun i hi => by
      rw [List.map_append]
      exact List.mem_append_left _ hi
    have hplaced : ∃ t, placeAll (placeRecord · len pad) slot pre = some t :=
      exists_placeAll pre fun i hi => (hcap i (hpre i hi)).1
    obtain ⟨t, ht⟩ := hplaced
    have hfix := fixedTable_placeAll ht
    have hid := hcap id (by simp)
    refine ⟨t, _, ht, placeRecord_eq_some_iff.mpr ⟨hid.1, rfl⟩, ?_, fun id' hid' hne => ?_⟩
    · rw [get_extendAndPlace hfix pad (hslot id), if_pos hid.2]
    · have hs : slot id' ≠ slot id := fun he => hne (hinj id' (hpre id' hid') id (by simp) he)
      exact get_extendAndPlace_ne hfix pad (hslot id) hs
        (isSome_placeAll hslot ht (fun i hi => (hcap i (hpre i hi)).2) id' hid') r

end Law

/-! ## The two maps -/

theorem pageCapacity_vertex : pageCapacity sizeOfNeoPhysMapRecord = 291 := rfl

theorem pageCapacity_edge : pageCapacity sizeOfNeoEdgePhysMapRecord = 408 := rfl

theorem one_le_npIdToTid (id : Nat) {tpp : Nat} (h0 : 0 < tpp) (h : tpp < 2 ^ 16) :
    1 ≤ (npIdToTid id tpp).offset := by
  rw [npIdToTid_offset id h0 h]
  omega

/-- **The store law of the two physical maps.** A sequence of vertex ids reads back exactly when
no id falls on the last 23 of the 314 slots of its page or on the block `InvalidBlockNumber`, and no two
ids are `314 * 2 ^ 32` apart; a sequence of edge ids exactly when none falls on the last 102 of 510 or on
that block. -/
theorem physMap_law_iff (vertexIds edgeIds : List Nat) :
    (PlaceLaw npPlacePhysmapRecord entitySlot vertexIds ↔
      (∀ id ∈ vertexIds, (id - 1) / 314 % 2 ^ 32 < 2 ^ 32 - 1 ∧ (id - 1) % 314 < 291) ∧
      ∀ id ∈ vertexIds, ∀ id' ∈ vertexIds,
        (id - 1) % (314 * 2 ^ 32) = (id' - 1) % (314 * 2 ^ 32) → id = id') ∧
    (PlaceLaw npSetEdgePhysmapRecord edgeSlot edgeIds ↔
      (∀ id ∈ edgeIds, (id - 1) / 510 % 2 ^ 32 < 2 ^ 32 - 1 ∧ (id - 1) % 510 < 408) ∧
      ∀ id ∈ edgeIds, ∀ id' ∈ edgeIds,
        (id - 1) % (510 * 2 ^ 32) = (id' - 1) % (510 * 2 ^ 32) → id = id') := by
  have hinv : invalidBlockNumber = 2 ^ 32 - 1 := rfl
  constructor
  · have hblock : ∀ id, (entitySlot id).block = (id - 1) / 314 % 2 ^ 32 := fun id =>
      npIdToTid_block id 314
    have hoff : ∀ id, (entitySlot id).offset = (id - 1) % 314 + 1 := fun id =>
      npIdToTid_offset id (by decide) (by decide)
    have heq : ∀ id id', entitySlot id = entitySlot id' ↔
        (id - 1) % (314 * 2 ^ 32) = (id' - 1) % (314 * 2 ^ 32) := fun id id' =>
      npIdToTid_eq_iff (by decide) (by decide)
    have hne : emptyPad ≠ { emptyPad with eTblId := 1 } := by decide
    have hslot : ∀ id, 1 ≤ (entitySlot id).offset := fun id =>
      one_le_npIdToTid id (by decide) (by decide)
    have hlaw := placeLaw_iff sizeOfNeoPhysMapRecord emptyPad hslot hne vertexIds
    simp only [hblock, hoff, heq, hinv, pageCapacity_vertex, Nat.succ_le_iff] at hlaw
    exact hlaw
  · have hblock : ∀ id, (edgeSlot id).block = (id - 1) / 510 % 2 ^ 32 := fun id =>
      npIdToTid_block id 510
    have hoff : ∀ id, (edgeSlot id).offset = (id - 1) % 510 + 1 := fun id =>
      npIdToTid_offset id (by decide) (by decide)
    have heq : ∀ id id', edgeSlot id = edgeSlot id' ↔
        (id - 1) % (510 * 2 ^ 32) = (id' - 1) % (510 * 2 ^ 32) := fun id id' =>
      npIdToTid_eq_iff (by decide) (by decide)
    have hne : emptyEdgePad ≠ ⟨⟨0, 1⟩, ⟨0, 0⟩⟩ := by decide
    have hslot : ∀ id, 1 ≤ (edgeSlot id).offset := fun id =>
      one_le_npIdToTid id (by decide) (by decide)
    have hlaw := placeLaw_iff sizeOfNeoEdgePhysMapRecord emptyEdgePad hslot hne edgeIds
    simp only [hblock, hoff, heq, hinv, pageCapacity_edge, Nat.succ_le_iff] at hlaw
    exact hlaw

/-- The record of vertex 292 and that of edge 409 are lost where they are placed: `np_id_to_tid`
addresses more slots on a page than the page takes records. -/
theorem physMap_law_fails :
    ¬ PlaceLaw npPlacePhysmapRecord entitySlot [292] ∧
    ¬ PlaceLaw npSetEdgePhysmapRecord edgeSlot [409] ∧
    pageCapacity sizeOfNeoPhysMapRecord < pmapTuplesPerPage sizeOfNeoPhysMapRecord ∧
    pageCapacity sizeOfNeoEdgePhysMapRecord < pmapTuplesPerPage sizeOfNeoEdgePhysMapRecord := by
  refine ⟨fun h => ?_, fun h => ?_, by decide, by decide⟩
  · obtain ⟨t, t', ht, ht', hget, -⟩ := h [(292, emptyPad)] rfl [] 292 emptyPad [] rfl
    obtain rfl := Option.some.inj ht
    obtain rfl := Option.some.inj ht'
    exact absurd hget (by decide +kernel)
  · obtain ⟨t, t', ht, ht', hget, -⟩ := h [(409, emptyEdgePad)] rfl [] 409 emptyEdgePad [] rfl
    obtain rfl := Option.some.inj ht
    obtain rfl := Option.some.inj ht'
    exact absurd hget (by decide +kernel)

end NeoPostGraph
