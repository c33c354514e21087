import Mathlib.Data.Set.Insert
import NeoPostGraph.Error
import NeoPostGraph.Lib.SlottedPage

/-!
# The physical map: one slot per id

`access/np_phys_map.c`, with the call sites of `np_id_to_tid` over the vertex map. The map of a
label is a table of fixed-width records, and the record of an id is found by arithmetic alone:
`np_id_to_tid` divides the id by the number of records per page.

* `npIdToTid` keeps the C widths: `BlockNumber` is 32 bits, `OffsetNumber` 16.
* Two numbers of records per page are in use. The entity paths compute
  `(BLCKSZ - SizeOfPageHeaderData) / (sizeof(NeoPhysMapRecord) + sizeof(ItemIdData))` inline
  (`pmapTuplesPerPage`). `update_vertex_phys_map` and `get_current_head_tid` call
  `np_calculate_tuples_per_page`, which adds a heap tuple header the map does not store.
* A line pointer past `pd_lower` is read as not normal. In the file it is a zeroed word, or, far
  enough out on a full page, bytes of an item.

Results:
* `headSlot_eq_entitySlot_iff`: the two computations agree exactly on the ids in the first 157
  slots of block 0.
* `slots_agree_iff`: the same for all twelve call sites, together with what the adjacency head
  write then does to the records of the vertices of the label.
* `idsPlaced_iff`: `np_tid_to_id` undoes `np_id_to_tid`, and no two ids share a slot, exactly as far
  as the blocks of a relation go.
-/

namespace NeoPostGraph

open SlottedPage

/-- A relation's object id; `InvalidOid` is 0. -/
abbrev Oid := Nat

/-- `OidIsValid`. -/
def oidIsValid (o : Oid) : Bool := decide (o ≠ 0)

/-- `NeoPhysMapRecord` (`np_phys_map.h`): the vertex tuple, the adjacency head, the annotation. -/
structure NeoPhysMapRecord where
  vItemptr : ItemPointer
  eTblId : Oid
  eItemptr : ItemPointer
  aItemptr : ItemPointer
deriving DecidableEq, Repr

/-- `NeoEdgePhysMapRecord` (`np_phys_map.h`): the edge tuple and the annotation. -/
structure NeoEdgePhysMapRecord where
  eItemptr : ItemPointer
  aItemptr : ItemPointer
deriving DecidableEq, Repr

/-- `sizeof(NeoPhysMapRecord)`: packed, three 6-byte item pointers and an oid. -/
def sizeOfNeoPhysMapRecord : Nat := 22

/-- `sizeof(NeoEdgePhysMapRecord)`: packed, two 6-byte item pointers. -/
def sizeOfNeoEdgePhysMapRecord : Nat := 12

/-- `SizeofHeapTupleHeader`. -/
def sizeofHeapTupleHeader : Nat := 23

/-! ## Slot arithmetic -/

/-- `np_calculate_tuples_per_page` (`np_phys_map.c:315-329`). -/
def npCalculateTuplesPerPage (payloadSize : Nat) : Nat :=
  let tupleSize := maxAlign (sizeofHeapTupleHeader + payloadSize)
  let spacePerItem := tupleSize + sizeOfItemIdData
  let availableSpace := blcksz - sizeOfPageHeaderData
  availableSpace / spacePerItem

/-- The expression every entity path writes out for itself: records of this size per page. -/
def pmapTuplesPerPage (recordSize : Nat) : Nat :=
  (blcksz - sizeOfPageHeaderData) / (recordSize + sizeOfItemIdData)

/-- `np_id_to_tid` (`np_phys_map.c:331-342`), for `id > 0`. -/
def npIdToTid (id tuplesPerPage : Nat) : ItemPointer :=
  let zeroBasedId := id - 1
  ⟨zeroBasedId / tuplesPerPage % 2 ^ 32, (zeroBasedId % tuplesPerPage + 1) % 2 ^ 16⟩

/-- `np_tid_to_id` (`dml_labels.c:1176-1185`). `offset - 1` is an `int`, the sum a `uint64`. -/
def npTidToId (tid : ItemPointer) (tuplesPerPage : Nat) : Nat :=
  let zeroBasedId := ((tid.block * tuplesPerPage : Nat) + ((tid.offset : Int) - 1)) % 2 ^ 64
  (zeroBasedId.toNat + 1) % 2 ^ 64

/-- `InvalidBlockNumber`. -/
def invalidBlockNumber : Nat := 0xFFFFFFFF

/-- `MaxOffsetNumber`. -/
def maxOffsetNumber : Nat := blcksz / sizeOfItemIdData

/-- `BlockNumberIsValid` and `OffsetNumberIsValid`. -/
def HasValidNumbers (tid : ItemPointer) : Prop :=
  tid.block < invalidBlockNumber ∧ 1 ≤ tid.offset ∧ tid.offset ≤ maxOffsetNumber

/-- The code that turns a vertex id into a slot of the vertex map, one case per call site. -/
inductive VertexSlotSite where
  /-- `np_internal_insert_vertex`, `dml_insert.c:258-260`. -/
  | npInternalInsertVertex
  /-- `update_vertex`, `dml_update.c:208-211`. -/
  | updateVertex
  /-- `delete_vertex`, `dml_delete.c:192-194`. -/
  | deleteVertex
  /-- `np_fetch_vertex_properties`, `np_entity_store.c:695-696`. -/
  | npFetchVertexProperties
  /-- `np_internal_fetch_vertex`, `dml_labels.c:272-274`. -/
  | npInternalFetchVertex
  /-- `set_vertex_label`, `dml_labels.c:566-568`. -/
  | setVertexLabel
  /-- `remove_vertex_label`, `dml_labels.c:796-798`. -/
  | removeVertexLabel
  /-- `add_vertex_annotation_label`, `np_label.c:1455-1457`. -/
  | addVertexAnnotationLabel
  /-- `remove_vertex_annotation_label`, `np_label.c:1671-1673`. -/
  | removeVertexAnnotationLabel
  /-- The vertex output function, `vertex.c:130-132`. -/
  | vertexOut
  /-- `update_vertex_phys_map`, `np_phys_map.c:353-357`. -/
  | updateVertexPhysMap
  /-- `get_current_head_tid`, `dml_insert.c:518-522`. -/
  | getCurrentHeadTid
deriving DecidableEq, Repr

/-- The records per page a call site passes to `np_id_to_tid`. -/
def VertexSlotSite.tuplesPerPage : VertexSlotSite → Nat
  | npInternalInsertVertex => pmapTuplesPerPage sizeOfNeoPhysMapRecord
  | updateVertex => pmapTuplesPerPage sizeOfNeoPhysMapRecord
  | deleteVertex => pmapTuplesPerPage sizeOfNeoPhysMapRecord
  | npFetchVertexProperties => pmapTuplesPerPage sizeOfNeoPhysMapRecord
  | npInternalFetchVertex => pmapTuplesPerPage sizeOfNeoPhysMapRecord
  | setVertexLabel => pmapTuplesPerPage sizeOfNeoPhysMapRecord
  | removeVertexLabel => pmapTuplesPerPage sizeOfNeoPhysMapRecord
  | addVertexAnnotationLabel => pmapTuplesPerPage sizeOfNeoPhysMapRecord
  | removeVertexAnnotationLabel => pmapTuplesPerPage sizeOfNeoPhysMapRecord
  | vertexOut => pmapTuplesPerPage sizeOfNeoPhysMapRecord
  | updateVertexPhysMap => npCalculateTuplesPerPage sizeOfNeoPhysMapRecord
  | getCurrentHeadTid => npCalculateTuplesPerPage sizeOfNeoPhysMapRecord

/-- The slot a call site addresses for a vertex id. -/
def VertexSlotSite.slot (s : VertexSlotSite) (id : Nat) : ItemPointer :=
  npIdToTid id s.tuplesPerPage

/-- The slot of a vertex for insert, update, delete, fetch and annotations. -/
def entitySlot (id : Nat) : ItemPointer :=
  npIdToTid id (pmapTuplesPerPage sizeOfNeoPhysMapRecord)

/-- The slot of a vertex for the reads and writes of its adjacency head. -/
def headSlot (id : Nat) : ItemPointer :=
  npIdToTid id (npCalculateTuplesPerPage sizeOfNeoPhysMapRecord)

/-- The slot of an edge: every path over the edge map computes it the same way. -/
def edgeSlot (id : Nat) : ItemPointer :=
  npIdToTid id (pmapTuplesPerPage sizeOfNeoEdgePhysMapRecord)

@[simp] theorem pmapTuplesPerPage_vertex : pmapTuplesPerPage sizeOfNeoPhysMapRecord = 314 := rfl

@[simp] theorem pmapTuplesPerPage_edge : pmapTuplesPerPage sizeOfNeoEdgePhysMapRecord = 510 := rfl

@[simp] theorem npCalculateTuplesPerPage_vertex :
    npCalculateTuplesPerPage sizeOfNeoPhysMapRecord = 157 := rfl

theorem npIdToTid_block (id tpp : Nat) : (npIdToTid id tpp).block = (id - 1) / tpp % 2 ^ 32 := rfl

/-- The 16-bit offset never wraps for the sizes in use. -/
theorem npIdToTid_offset (id : Nat) {tpp : Nat} (h0 : 0 < tpp) (h : tpp < 2 ^ 16) :
    (npIdToTid id tpp).offset = (id - 1) % tpp + 1 := by
  have hlt : (id - 1) % tpp < tpp := Nat.mod_lt _ h0
  show ((id - 1) % tpp + 1) % 2 ^ 16 = _
  rw [Nat.mod_eq_of_lt (by omega)]

theorem npIdToTid_isValid (id : Nat) {tpp : Nat} (h0 : 0 < tpp) (h : tpp < 2 ^ 16) :
    (npIdToTid id tpp).isValid = true := by
  rw [ItemPointer.isValid_iff, npIdToTid_offset id h0 h]
  omega

/-- Two ids share a slot exactly when they lie a multiple of `tpp * 2 ^ 32` apart. -/
theorem npIdToTid_eq_iff {id id' tpp : Nat} (h0 : 0 < tpp) (h : tpp < 2 ^ 16) :
    npIdToTid id tpp = npIdToTid id' tpp ↔
      (id - 1) % (tpp * 2 ^ 32) = (id' - 1) % (tpp * 2 ^ 32) := by
  have ho := npIdToTid_offset id h0 h
  have ho' := npIdToTid_offset id' h0 h
  rw [Nat.mod_mul, Nat.mod_mul]
  constructor
  · intro he
    have hb : (id - 1) / tpp % 2 ^ 32 = (id' - 1) / tpp % 2 ^ 32 := congrArg ItemPointer.block he
    have hm : (id - 1) % tpp + 1 = (id' - 1) % tpp + 1 := by rw [← ho, ← ho', he]
    rw [hb, Nat.add_right_cancel hm]
  · intro he
    -- the remainder is below `tpp`, so quotient and remainder can be read off the sum
    have hm : (id - 1) % tpp = (id' - 1) % tpp := by
      have := congrArg (· % tpp) he
      simpa [Nat.add_mul_mod_self_left] using this
    have hb : (id - 1) / tpp % 2 ^ 32 = (id' - 1) / tpp % 2 ^ 32 := by
      rw [hm] at he
      exact Nat.eq_of_mul_eq_mul_left h0 (Nat.add_left_cancel he)
    unfold npIdToTid
    simp only [hb, hm]

/-! ## The id of a slot -/

/-- For an offset a slot can have the sum does not wrap. -/
theorem npTidToId_eq {tid : ItemPointer} {tpp : Nat} (hb : tid.block < 2 ^ 32)
    (ht : tpp ≤ maxOffsetNumber) (h1 : 1 ≤ tid.offset) (h2 : tid.offset ≤ tpp) :
    npTidToId tid tpp = tid.block * tpp + tid.offset := by
  have hmax : maxOffsetNumber = 2048 := rfl
  have hmul : tid.block * tpp ≤ 2 ^ 32 * 2048 := Nat.mul_le_mul (by omega) (by omega)
  unfold npTidToId
  generalize tid.block * tpp = n at hmul
  dsimp only
  omega

/-- `np_id_to_tid` undoes `np_tid_to_id` on every slot. -/
theorem npIdToTid_npTidToId {tid : ItemPointer} {tpp : Nat} (hb : tid.block < 2 ^ 32)
    (ht : tpp ≤ maxOffsetNumber) (h1 : 1 ≤ tid.offset) (h2 : tid.offset ≤ tpp) :
    npIdToTid (npTidToId tid tpp) tpp = tid := by
  have hmax : maxOffsetNumber = 2048 := rfl
  have hid : npTidToId tid tpp - 1 = tid.offset - 1 + tid.block * tpp := by
    rw [npTidToId_eq hb ht h1 h2]
    omega
  have hdiv : (npTidToId tid tpp - 1) / tpp = tid.block := by
    rw [hid, Nat.add_mul_div_right _ _ (by omega), Nat.div_eq_of_lt (by omega), Nat.zero_add]
  have hmod : (npTidToId tid tpp - 1) % tpp = tid.offset - 1 := by
    rw [hid, Nat.add_mul_mod_self_right, Nat.mod_eq_of_lt (by omega)]
  unfold npIdToTid
  simp only [hdiv, hmod]
  rw [Nat.mod_eq_of_lt hb, Nat.mod_eq_of_lt (by omega), Nat.sub_add_cancel h1]

/-- The other way round, the block number keeps 32 bits of the quotient. -/
theorem npTidToId_npIdToTid (id : Nat) {tpp : Nat} (h0 : 1 ≤ tpp) (ht : tpp ≤ maxOffsetNumber) :
    npTidToId (npIdToTid id tpp) tpp = (id - 1) / tpp % 2 ^ 32 * tpp + (id - 1) % tpp + 1 := by
  have hmax : maxOffsetNumber = 2048 := rfl
  have ho : (npIdToTid id tpp).offset = (id - 1) % tpp + 1 :=
    npIdToTid_offset id (by omega) (by omega)
  have hlt : (id - 1) % tpp < tpp := Nat.mod_lt _ (by omega)
  rw [npTidToId_eq (Nat.mod_lt _ (by decide)) ht (by omega) (by omega), ho, npIdToTid_block]
  rfl

/-- The id comes back, and its slot has a valid block and a valid offset. -/
def IdRoundTrips (tpp id : Nat) : Prop :=
  npTidToId (npIdToTid id tpp) tpp = id ∧ HasValidNumbers (npIdToTid id tpp)

/-- Both ids come back from valid slots, and they do not share one. -/
def IdsPlaced (tpp id id' : Nat) : Prop :=
  IdRoundTrips tpp id ∧ IdRoundTrips tpp id' ∧ (npIdToTid id tpp = npIdToTid id' tpp → id = id')

theorem idRoundTrips_iff {id tpp : Nat} (hid : 1 ≤ id) (h0 : 1 ≤ tpp)
    (ht : tpp ≤ maxOffsetNumber) : IdRoundTrips tpp id ↔ (id - 1) / tpp < invalidBlockNumber := by
  have hmax : maxOffsetNumber = 2048 := rfl
  have hinv : invalidBlockNumber = 2 ^ 32 - 1 := rfl
  have ho : (npIdToTid id tpp).offset = (id - 1) % tpp + 1 :=
    npIdToTid_offset id (by omega) (by omega)
  have hlt : (id - 1) % tpp < tpp := Nat.mod_lt _ (by omega)
  have hdiv : (id - 1) / tpp * tpp + (id - 1) % tpp = id - 1 := by
    rw [Nat.mul_comm]
    exact Nat.div_add_mod _ _
  unfold IdRoundTrips HasValidNumbers
  rw [npTidToId_npIdToTid id h0 ht, ho, npIdToTid_block]
  constructor
  · rintro ⟨hback, hvalid, -⟩
    -- what comes back has the quotient cut to 32 bits in the place of the quotient
    have hcut : (id - 1) / tpp % 2 ^ 32 = (id - 1) / tpp :=
      Nat.eq_of_mul_eq_mul_right (show 0 < tpp by omega) (by omega)
    omega
  · intro hfits
    rw [Nat.mod_eq_of_lt (by omega)]
    omega

/-- **Ids and slots determine each other as far as the blocks go.** Two ids come back from slots of
their own exactly if both quotients are valid block numbers; every slot comes back from its id. -/
theorem idsPlaced_iff {tpp : Nat} (h0 : 1 ≤ tpp) (ht : tpp ≤ maxOffsetNumber) :
    (∀ id id', 1 ≤ id → id < 2 ^ 63 → 1 ≤ id' → id' < 2 ^ 63 →
      (IdsPlaced tpp id id' ↔
        (id - 1) / tpp < invalidBlockNumber ∧ (id' - 1) / tpp < invalidBlockNumber)) ∧
    ∀ tid : ItemPointer, tid.block < 2 ^ 32 → 1 ≤ tid.offset → tid.offset ≤ tpp →
      npIdToTid (npTidToId tid tpp) tpp = tid := by
  constructor
  · intro id id' hid _ hid' _
    have hr := idRoundTrips_iff hid h0 ht
    have hr' := idRoundTrips_iff hid' h0 ht
    constructor
    · rintro ⟨h, h', -⟩
      exact ⟨hr.mp h, hr'.mp h'⟩
    · rintro ⟨h, h'⟩
      refine ⟨hr.mpr h, hr'.mpr h', fun hshared => ?_⟩
      rw [← (hr.mpr h).1, hshared, (hr'.mpr h').1]
  · intro tid hb h1 h2
    exact npIdToTid_npTidToId hb ht h1 h2

theorem idsPlaced_iff_example :
    (∀ id id', 1 ≤ id → id < 2 ^ 63 → 1 ≤ id' → id' < 2 ^ 63 →
      (IdsPlaced 314 id id' ↔
        (id - 1) / 314 < invalidBlockNumber ∧ (id' - 1) / 314 < invalidBlockNumber)) ∧
    ∀ tid : ItemPointer, tid.block < 2 ^ 32 → 1 ≤ tid.offset → tid.offset ≤ 314 →
      npIdToTid (npTidToId tid 314) 314 = tid :=
  idsPlaced_iff (by decide) (by decide)

/-- The id 314 * 2^32 + 1 of a vertex gets the slot of vertex 1, and comes back as 1. -/
theorem idsPlaced_fails :
    npIdToTid (314 * 2 ^ 32 + 1) 314 = npIdToTid 1 314 ∧
    npTidToId (npIdToTid (314 * 2 ^ 32 + 1) 314) 314 = 1 ∧
    ¬ IdsPlaced 314 (314 * 2 ^ 32 + 1) 1 := by
  have hshared : npIdToTid (314 * 2 ^ 32 + 1) 314 = npIdToTid 1 314 := by decide
  refine ⟨hshared, by decide, ?_⟩
  rintro ⟨-, -, h⟩
  exact absurd (h hshared) (by decide)

/-! ## The adjacency head -/

/-- **Where the two slot computations agree**: the first 157 slots of block 0. -/
theorem headSlot_eq_entitySlot_iff (id : Nat) :
    headSlot id = entitySlot id ↔ (id - 1) % 314 < 157 ∧ (id - 1) / 314 % 2 ^ 32 = 0 := by
  have hh := npIdToTid_offset id (show 0 < 157 by decide) (by decide)
  have he := npIdToTid_offset id (show 0 < 314 by decide) (by decide)
  unfold headSlot entitySlot
  rw [npCalculateTuplesPerPage_vertex, pmapTuplesPerPage_vertex]
  constructor
  · intro h
    have hb : (id - 1) / 157 % 2 ^ 32 = (id - 1) / 314 % 2 ^ 32 := congrArg ItemPointer.block h
    have ho : (id - 1) % 157 + 1 = (id - 1) % 314 + 1 := by rw [← hh, ← he, h]
    omega
  · rintro ⟨ho, hb⟩
    have hb' : (id - 1) / 157 % 2 ^ 32 = (id - 1) / 314 % 2 ^ 32 := by omega
    have ho' : (id - 1) % 157 = (id - 1) % 314 := by omega
    unfold npIdToTid
    simp only [hb', ho']

/-- `update_vertex_phys_map` (`np_phys_map.c:350-382`): set the adjacency head of a vertex. -/
def updateVertexPhysMap (pmap : Table NeoPhysMapRecord) (vertexId : Nat) (newEdgeTableOid : Oid)
    (newEdgeTid : ItemPointer) : Except Err (Table NeoPhysMapRecord) :=
  let targetTid := npIdToTid vertexId (npCalculateTuplesPerPage sizeOfNeoPhysMapRecord)
  if pmap.nblocks ≤ targetTid.block then .error (.couldNotReadBlock targetTid.block)
  else if (pmap.get targetTid).isNone then .error .physMapPositionalUpdateFailed
  else .ok (pmap.modify targetTid fun diskRec =>
    { diskRec with eTblId := newEdgeTableOid, eItemptr := newEdgeTid })

/-- `get_current_head_tid` (`dml_insert.c:511-541`): the adjacency head of a vertex, invalid when
its slot is missing. -/
def getCurrentHeadTid (pmap : Table NeoPhysMapRecord) (vertexId : Nat) : Oid × ItemPointer :=
  let targetTid := npIdToTid vertexId (npCalculateTuplesPerPage sizeOfNeoPhysMapRecord)
  match pmap.get targetTid with
  | none => (0, ItemPointer.invalid)
  | some diskRec => (diskRec.eTblId, diskRec.eItemptr)

theorem nblocks_of_get {α : Type} {t : Table α} {tid : ItemPointer} {a : α}
    (h : t.get tid = some a) : tid.block < t.nblocks := by
  unfold Table.get at h
  obtain ⟨p, hp, -⟩ := Option.bind_eq_some_iff.mp h
  exact (List.getElem?_eq_some_iff.mp hp).1

/-- The head write succeeds on a slot that holds a record, and changes that record's head. -/
theorem updateVertexPhysMap_of_get {pmap : Table NeoPhysMapRecord} {id : Nat}
    {r : NeoPhysMapRecord} (h : pmap.get (headSlot id) = some r) (tbl : Oid) (tid : ItemPointer) :
    updateVertexPhysMap pmap id tbl tid =
      .ok (pmap.modify (headSlot id) fun r => { r with eTblId := tbl, eItemptr := tid }) := by
  have hb : ¬ pmap.nblocks ≤ (headSlot id).block := Nat.not_le.mpr (nblocks_of_get h)
  have hn : (pmap.get (headSlot id)).isNone = false := by rw [h]; rfl
  show (if pmap.nblocks ≤ (headSlot id).block then _
    else if (pmap.get (headSlot id)).isNone = true then _ else _) = _
  rw [if_neg hb, hn]
  rfl

/-- Whatever a successful head write does, it does to the head slot. -/
theorem updateVertexPhysMap_ok {pmap pmap' : Table NeoPhysMapRecord} {id : Nat} {tbl : Oid}
    {tid : ItemPointer} (h : updateVertexPhysMap pmap id tbl tid = .ok pmap') :
    ∃ r, pmap.get (headSlot id) = some r ∧
      pmap' = pmap.modify (headSlot id) fun r => { r with eTblId := tbl, eItemptr := tid } := by
  cases hr : pmap.get (headSlot id) with
  | none =>
    have hn : (pmap.get (headSlot id)).isNone = true := by rw [hr]; rfl
    change (if pmap.nblocks ≤ (headSlot id).block then _
      else if (pmap.get (headSlot id)).isNone = true then _ else _) = _ at h
    rw [if_pos hn] at h
    split at h <;> cases h
  | some r =>
    rw [updateVertexPhysMap_of_get hr] at h
    exact ⟨r, rfl, (Except.ok.inj h).symm⟩

/-- Every call site addresses the same slot for this id. -/
def SlotsAgree (id : Nat) : Prop := ∀ s s' : VertexSlotSite, s.slot id = s'.slot id

/-- In a label whose vertices have these ids, the head write of this id lands in the record the entity
paths keep for it and changes the record of no other vertex, in every map that holds such a record. -/
def HeadWriteOwn (vertexIds : Set Nat) (id : Nat) : Prop :=
  ∀ (pmap : Table NeoPhysMapRecord) (r : NeoPhysMapRecord) (tbl : Oid) (tid : ItemPointer),
    pmap.get (entitySlot id) = some r →
    ∃ pmap', updateVertexPhysMap pmap id tbl tid = .ok pmap' ∧
      pmap'.get (entitySlot id) = some { r with eTblId := tbl, eItemptr := tid } ∧
      ∀ id' ∈ vertexIds, id' ≠ id → pmap'.get (entitySlot id') = pmap.get (entitySlot id')

/-- No other vertex of the label has the slot of this id. -/
def OwnSlot (vertexIds : Set Nat) (id : Nat) : Prop :=
  ∀ id' ∈ vertexIds, (id' - 1) % (314 * 2 ^ 32) = (id - 1) % (314 * 2 ^ 32) → id' = id

theorem slotsAgree_iff_headSlot (id : Nat) : SlotsAgree id ↔ headSlot id = entitySlot id := by
  constructor
  · intro h
    exact h .updateVertexPhysMap .updateVertex
  · intro h s s'
    have hs : ∀ s : VertexSlotSite, s.slot id = entitySlot id := by
      intro s
      cases s with
      | updateVertexPhysMap => exact h
      | getCurrentHeadTid => exact h
      | _ => rfl
    rw [hs s, hs s']

/-- Some map holds a record in any valid slot. -/
theorem exists_get {α : Type} (tid : ItemPointer) (a : α) (h : tid.isValid = true) :
    ∃ t : Table α, t.get tid = some a := by
  have h0 : tid.offset ≠ 0 := ItemPointer.isValid_iff.mp h
  refine ⟨⟨List.replicate tid.block Page.init ++ [⟨List.replicate tid.offset (some (0, a))⟩]⟩, ?_⟩
  rw [Table.get_concat, List.length_replicate, if_pos rfl]
  have hlt : tid.offset - 1 < tid.offset := by omega
  simp [Page.get, Page.lp, h0, hlt]

theorem entitySlot_eq_iff (id id' : Nat) : entitySlot id' = entitySlot id ↔
    (id' - 1) % (314 * 2 ^ 32) = (id - 1) % (314 * 2 ^ 32) :=
  npIdToTid_eq_iff (by decide) (by decide)

theorem headWriteOwn_iff_headSlot (vertexIds : Set Nat) (id : Nat) :
    HeadWriteOwn vertexIds id ↔ headSlot id = entitySlot id ∧ OwnSlot vertexIds id := by
  constructor
  · intro h
    have hv : (entitySlot id).isValid = true := npIdToTid_isValid id (by decide) (by decide)
    let r : NeoPhysMapRecord := ⟨.invalid, 0, .invalid, .invalid⟩
    obtain ⟨pmap, hr⟩ := exists_get (entitySlot id) r hv
    obtain ⟨pmap', hok, hget, hothers⟩ := h pmap r 1 .invalid hr
    obtain ⟨-, -, rfl⟩ := updateVertexPhysMap_ok hok
    -- the record of the vertex has a new table id, so whatever still has the old one is another's
    have hnew : some r ≠ some { r with eTblId := 1, eItemptr := .invalid } := by decide
    refine ⟨by_contra fun hne => hnew ?_, fun id' hid' hshared => by_contra fun hne => hnew ?_⟩
    · rw [← hget, Table.get_modify_ne _ _ (Ne.symm hne), hr]
    · have hsame := hothers id' hid' hne
      rw [(entitySlot_eq_iff id id').mpr hshared, hget, hr] at hsame
      exact hsame.symm
  · rintro ⟨he, hown⟩ pmap r tbl tid hr
    rw [← he] at hr ⊢
    refine ⟨_, updateVertexPhysMap_of_get hr tbl tid, Table.get_modify_self _ hr, ?_⟩
    intro id' hid' hne
    refine Table.get_modify_ne _ _ fun hshared => hne (hown id' hid' ?_)
    exact (entitySlot_eq_iff id id').mp (hshared.trans he)

/-- **The slots of a vertex id agree exactly in the first 157 slots of block 0**, and there its head
write changes its own record and no other vertex's exactly if no other vertex of the label has a slot
in common with it. From id 158 on `update_vertex_phys_map` and `get_current_head_tid` use the slot of
another vertex. -/
theorem slots_agree_iff (vertexIds : Set Nat) (id : Nat) :
    (SlotsAgree id ↔ (id - 1) % 314 < 157 ∧ (id - 1) / 314 % 2 ^ 32 = 0) ∧
    (HeadWriteOwn vertexIds id ↔ ((id - 1) % 314 < 157 ∧ (id - 1) / 314 % 2 ^ 32 = 0) ∧
      ∀ id' ∈ vertexIds, (id' - 1) % (314 * 2 ^ 32) = (id - 1) % (314 * 2 ^ 32) → id' = id) := by
  rw [slotsAgree_iff_headSlot, headWriteOwn_iff_headSlot, headSlot_eq_entitySlot_iff]
  exact ⟨Iff.rfl, Iff.rfl⟩

/-- Vertex 158 keeps its record at (0, 158) and its adjacency head at (1, 1), the slot of
vertex 315. Vertex 1 has its head in its own record, which vertex 314 * 2^32 + 1 shares. -/
theorem slots_disagree_158 :
    ¬ SlotsAgree 158 ∧ ¬ HeadWriteOwn {158, 315} 158 ∧ headSlot 158 = entitySlot 315 ∧
      ¬ HeadWriteOwn {1, 314 * 2 ^ 32 + 1} 1 := by
  rw [slotsAgree_iff_headSlot, headWriteOwn_iff_headSlot, headWriteOwn_iff_headSlot]
  refine ⟨by decide, fun h => absurd h.1 (by decide), by decide, fun h => ?_⟩
  exact absurd (h.2 (314 * 2 ^ 32 + 1) (by simp) (by decide)) (by decide)

end NeoPostGraph
