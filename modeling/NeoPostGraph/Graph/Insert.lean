import NeoPostGraph.Graph.State

/-!
# Inserting vertices and edges

`dml_insert.c`. A vertex insert appends its tuple to the entity table and places a fresh physical
map record. An edge insert appends its tuple, sets its edge map record, and then links one
adjacency record at each end: `insert_edge_one_direction` reads the owner's head, appends a record
that points to it, makes the old head point back, and moves the head to the new record.
-/

namespace NeoPostGraph

open SlottedPage

/-- A tuple as every writer builds it: created here and now, deleted by no one. -/
def newEntityTuple {μ : Type} (s : Session) (id : Nat) (prev : ItemPointer) (entity : μ)
    (props : Gtype) : EntityTuple μ where
  hdr :=
    { xmin := s.fxid
      xmax := invalidFullTransactionId
      cmin := s.cid
      cmax := invalidCommandId
      prevItemptr := prev
      flags := 0
      id := id }
  entity := entity
  props := props

/-- Append a vertex tuple to the label's entity table. -/
def writeVertexTuple (l : Nat) (tuple : EntityTuple Vertex) : Op ItemPointer :=
  onVertexLabel l (.labelNotFound l) fun _ lab => do
    let (t, tid) ← npWriteRecordToPage lab.vertexTbl tuple (totalTupleSize sizeOfVertex tuple.props)
    return (tid, { lab with vertexTbl := t })

/-- Append an edge tuple to the label's entity table. -/
def writeEdgeTuple (l : Nat) (e : Err) (tuple : EntityTuple Edge) : Op ItemPointer :=
  onEdgeLabel l e fun _ lab => do
    let (t, tid) ← npWriteRecordToPage lab.vertexTbl tuple (totalTupleSize sizeOfEdge tuple.props)
    return (tid, { lab with vertexTbl := t })

/-- `np_place_physmap_record` on the slot of a vertex. -/
def placeVertexSlot (l id : Nat) (rec : NeoPhysMapRecord) : Op Unit :=
  onVertexLabel l (.labelNotFound l) fun _ lab =>
    return ((), { lab with physMap := lab.physMap.place emptyPad (entitySlot id) rec })

/-- `np_set_edge_physmap_record` on the slot of an edge. -/
def setEdgeSlot (l id : Nat) (e : Err) (rec : NeoEdgePhysMapRecord) : Op Unit :=
  onEdgeLabel l e fun _ lab =>
    return ((), { lab with physMap := lab.physMap.place emptyEdgePad (edgeSlot id) rec })

/-- `np_internal_insert_vertex` (`dml_insert.c:80-265`), without annotations. -/
def npInternalInsertVertex (s : Session) (v : Vertex) (props : Gtype) : Op Unit := do
  let vItemptr ← writeVertexTuple v.labelId (newEntityTuple s v.id .invalid v props)
  placeVertexSlot v.labelId v.id ⟨vItemptr, 0, .invalid, .invalid⟩

/-- `insert_vertex` (`dml_insert.c`). -/
def insertVertex (s : Session) (v : Vertex) (props : Gtype) : Op Unit :=
  npInternalInsertVertex s v props

/-! ## The adjacency record of one direction -/

/-- The scan of `get_active_linked_list_oid` (`dml_insert.c:477-509`): the first active row. -/
def activeLinkedList (rows : List LinkedListMeta) : Option Oid :=
  (rows.find? fun row => row.active).map LinkedListMeta.tbl

/-- `get_active_linked_list_oid`, with the checks `insert_edge_one_direction` makes around it. -/
def getActiveLinkedListOid (l : Nat) : Op Oid :=
  readVertexLabel l .missingPhysMap fun _ lab =>
    match activeLinkedList lab.linkedListMeta with
    | none => .error .noActiveLinkedList
    | some o => if oidIsValid o then .ok o else .error .noActiveLinkedList

/-- The record `insert_edge_one_direction` appends for the owner, in front of the old head. -/
def newLinkedListRecord (s : Session) (ownerV otherV : Vertex) (e : Edge) (direction : Nat)
    (oldHeadTbl : Oid) (oldHead : ItemPointer) : NeoLinkedListRecord where
  xmin := s.fxid
  xmax := invalidFullTransactionId
  cmin := s.cid
  cmax := invalidCommandId
  id := e.id
  edgeLid := e.labelId
  dir := direction
  ownerId := ownerV.id
  otherId := otherV.id
  otherLid := otherV.labelId
  nextTbl := if oldHead.isValid then oldHeadTbl else 0
  nextItemptr := if oldHead.isValid then oldHead else .invalid
  prevTbl := 0
  prevItemptr := .invalid

/-- `np_linked_list_tableam_tuple_insert` (`np_linked_list.c:147-187`). -/
def insertLinkedListRecord (o : Oid) (rec : NeoLinkedListRecord) : Op ItemPointer :=
  onRel o fun r =>
    match r with
    | .linkedList t => do
      let (t', tid) ← npWriteRecordToPage t rec sizeOfNeoLinkedListRecord
      return (tid, .linkedList t')
    | .arrayList _ => .error (.couldNotOpenRelation o)

/-- `update_edge_prev_pointer` and `np_update_arraylist_prev_pointer_inplace`
(`dml_insert.c:332-357, 448-475`), by the format of the relation. -/
def updatePrevPointer (o : Oid) (tid : ItemPointer) (newPrevTbl : Oid) (newPrevTid : ItemPointer) :
    Op Unit :=
  onRel o fun r =>
    match r with
    | .linkedList t => do
      let _ ← readItem t tid .prevOnInvalidTuple
      return ((), .linkedList (t.modify tid fun rec =>
        { rec with prevTbl := newPrevTbl, prevItemptr := newPrevTid }))
    | .arrayList t => do
      let _ ← readItem t tid .prevOnInvalidArraylist
      return ((), .arrayList (t.modify tid fun rec =>
        { rec with prevTbl := newPrevTbl, prevItemptr := newPrevTid }))

/-- The block of `insert_edge_one_direction` that makes the old head, if there is one, point back to
the new record. -/
def updateOldHead (oldHeadTbl : Oid) (oldHead : ItemPointer) (newTbl : Oid) (newTid : ItemPointer) :
    Op Unit :=
  if oldHead.isValid && oidIsValid oldHeadTbl then
    updatePrevPointer oldHeadTbl oldHead newTbl newTid
  else return ()

theorem fixedTable_updateVertexPhysMap {pmap pmap' : Table NeoPhysMapRecord} {len id : Nat}
    {tbl : Oid} {tid : ItemPointer} (hfix : FixedTable len pmap)
    (h : updateVertexPhysMap pmap id tbl tid = .ok pmap') : FixedTable len pmap' := by
  obtain ⟨-, -, rfl⟩ := updateVertexPhysMap_ok h
  exact fixedTable_modify hfix _ _

/-- The step that reads the head of a vertex. -/
def readHead (l id : Nat) : Op (Oid × ItemPointer) :=
  readVertexLabel l .missingPhysMap fun _ lab => return getCurrentHeadTid lab.physMap.table id

/-- The step that moves the head of a vertex, `update_vertex_phys_map`. -/
def writeHead (l id : Nat) (tbl : Oid) (tid : ItemPointer) : Op Unit :=
  onVertexLabel l .missingPhysMap fun _ lab =>
    match h : updateVertexPhysMap lab.physMap.table id tbl tid with
    | .error e => .error e
    | .ok pmap => .ok ((), { lab with
        physMap := ⟨pmap, fixedTable_updateVertexPhysMap lab.physMap.fixed h⟩ })

/-- `insert_edge_one_direction` (`dml_insert.c:359-446`). -/
def insertEdgeOneDirection (s : Session) (ownerV otherV : Vertex) (e : Edge) (direction : Nat) :
    Op Unit := do
  let activeListOid ← getActiveLinkedListOid ownerV.labelId
  let (oldHeadTbl, oldHead) ← readHead ownerV.labelId ownerV.id
  let newTid ← insertLinkedListRecord activeListOid
    (newLinkedListRecord s ownerV otherV e direction oldHeadTbl oldHead)
  updateOldHead oldHeadTbl oldHead activeListOid newTid
  writeHead ownerV.labelId ownerV.id activeListOid newTid

/-- `np_internal_insert_edge` (`dml_insert.c:267-330`). -/
def npInternalInsertEdge (u : Unspecified) (s : Session) (startV endV : Vertex) (e : Edge)
    (props : Gtype) : Op Unit := do
  let edgeTid ← writeEdgeTuple e.labelId .edgeLabelTableNotFound
    (newEntityTuple s e.id .invalid e props)
  setEdgeSlot e.labelId e.id .edgeLabelTableNotFound ⟨edgeTid, u.stackItemptr e⟩
  insertEdgeOneDirection s startV endV e 0
  insertEdgeOneDirection s endV startV e 1

/-- `insert_edge` (`dml_insert.c:66-78`). -/
def insertEdge (u : Unspecified) (s : Session) (startV endV : Vertex) (e : Edge) (props : Gtype) :
    Op Unit :=
  npInternalInsertEdge u s startV endV e props

end NeoPostGraph
