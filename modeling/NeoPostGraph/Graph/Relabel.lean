import NeoPostGraph.Graph.Delete

/-!
# Changing the label of a vertex

`set_vertex_label` and `remove_vertex_label` (`dml_labels.c:528-1056`). A vertex cannot change its
label in place: the code inserts a new vertex under the target label, moves every edge of the old
vertex to it (`migrate_vertex_edges`), stamps the old tuple and clears the old slot.

The target label is an argument: the code finds or creates it from the label path, which is not
part of this model. `migrate_vertex_edges` walks the chain of the old vertex. Each undeleted edge is
fetched, deleted and inserted again with the old vertex replaced by the new one; an array block is
copied first and handled in two passes, all deletes before all inserts.
-/

namespace NeoPostGraph

open SlottedPage

/-- `np_internal_fetch_vertex` (`dml_labels.c:266-302`). -/
def npInternalFetchVertex (s : Session) (l vId : Nat) : Op Vertex := do
  let rec' ← readVertexLabel l .undefinedRead fun _ lab =>
    readItem lab.physMap.table (entitySlot vId) .undefinedRead
  readVertexLabel l .undefinedRead fun x lab => do
    let tuple ← readItem lab.vertexTbl rec'.vItemptr .undefinedRead
    if !npEntityTupleIsLive x s.own tuple.hdr.toRecordHeader then .error (.vertexNotLive vId)
    else return tuple.entity

/-- `np_internal_fetch_edge` (`dml_labels.c:304-338`). -/
def npInternalFetchEdge (s : Session) (l eId : Nat) : Op (Edge × Gtype) := do
  let rec' ← readEdgeLabel l .undefinedRead fun _ lab =>
    readItem lab.physMap.table (edgeSlot eId) .undefinedRead
  readEdgeLabel l .undefinedRead fun x lab => do
    let tuple ← readItem lab.vertexTbl rec'.eItemptr .undefinedRead
    if !npEntityTupleIsLive x s.own tuple.hdr.toRecordHeader then .error (.edgeNotLive eId)
    else return (tuple.entity, tuple.props)

/-- Replace the old vertex by the new one in both positions of an edge. -/
def redirectEdge (oldV newV : Vertex) (e : Edge) : Edge :=
  let e := if e.startId = oldV.id ∧ e.startLabel = oldV.labelId then
    { e with startId := newV.id, startLabel := newV.labelId } else e
  if e.endId = oldV.id ∧ e.endLabel = oldV.labelId then
    { e with endId := newV.id, endLabel := newV.labelId } else e

/-- Insert a migrated edge at the new vertex. `oId` and `oLid` name the other end as the caller
knows it, `neighborV` is the vertex fetched there. -/
def insertMigrated (u : Unspecified) (s : Session) (oldV newV neighborV : Vertex) (oId oLid : Nat)
    (e : Edge) (props : Gtype) : Op Unit :=
  let e := redirectEdge oldV newV e
  let actualNeighbor := if oId = oldV.id ∧ oLid = oldV.labelId then newV else neighborV
  if e.startId = newV.id ∧ e.startLabel = newV.labelId then
    npInternalInsertEdge u s newV actualNeighbor e props
  else npInternalInsertEdge u s actualNeighbor newV e props

/-- The linked-list branch of the walk, for one record. -/
def migrateRecord (u : Unspecified) (fuel : Nat) (s : Session) (oldV newV : Vertex)
    (rec : NeoLinkedListRecord) : Op Unit :=
  if fullXidIsValid rec.xmax then return ()
  else do
    let neighborV ← npInternalFetchVertex s rec.otherLid rec.otherId
    let (e, props) ← npInternalFetchEdge s rec.edgeLid rec.id
    npInternalDeleteEdge fuel s rec.edgeLid rec.id
    insertMigrated u s oldV newV neighborV rec.otherId rec.otherLid e props

/-- Pass 1 over a copied block: fetch and delete each undeleted edge. -/
def migrateFetch (fuel : Nat) (s : Session) : List AdjListMember → Op (List (Vertex × Edge × Gtype))
  | [] => return []
  | m :: ms =>
    if fullXidIsValid m.xmax then migrateFetch fuel s ms
    else do
      let neighborV ← npInternalFetchVertex s m.otherLid m.otherId
      let (e, props) ← npInternalFetchEdge s m.edgeLid m.edgeId
      npInternalDeleteEdge fuel s m.edgeLid m.edgeId
      let rest ← migrateFetch fuel s ms
      return (neighborV, e, props) :: rest

/-- Pass 2: insert the saved edges. -/
def migrateInsert (u : Unspecified) (s : Session) (oldV newV : Vertex) :
    List (Vertex × Edge × Gtype) → Op Unit
  | [] => return ()
  | (neighborV, e, props) :: rest => do
    insertMigrated u s oldV newV neighborV neighborV.id neighborV.labelId e props
    migrateInsert u s oldV newV rest

/-- The node the walk of `migrate_vertex_edges` stands on; `none` where the walk breaks off: the
block does not exist, or the line pointer is not normal. -/
def migrateNode (currTblId : Oid) (currTid : ItemPointer) :
    Op (Option (NeoLinkedListRecord ⊕ NeoArrayListRecord)) :=
  readRel currTblId fun r =>
    match r with
    | .linkedList t => return (t.get currTid).map Sum.inl
    | .arrayList t => return (t.get currTid).map Sum.inr

/-- The walk of `migrate_vertex_edges` (`dml_labels.c:340-527`). -/
def migrateWalk (u : Unspecified) (fuel : Nat) (s : Session) (oldV newV : Vertex) :
    Nat → Oid → ItemPointer → Op Unit
  | 0, _, _ => Prog.fail .outOfFuel
  | n + 1, currTblId, currTid =>
    if oidIsValid currTblId && currTid.isValid then do
      match ← migrateNode currTblId currTid with
      | none => return ()
      | some (.inl rec) => do
        migrateRecord u fuel s oldV newV rec
        migrateWalk u fuel s oldV newV n rec.nextTbl rec.nextItemptr
      | some (.inr rec) => do
        let fetched ← migrateFetch fuel s rec.adjList
        migrateInsert u s oldV newV fetched
        migrateWalk u fuel s oldV newV n currTblId rec.nextItemptr
    else return ()

/-- `nextval` on the vertex id sequence of a label. -/
def nextVertexId (l : Nat) : Op Nat :=
  onVertexLabel l (.labelIdNotFound l) fun _ lab =>
    return (lab.vertexIdSeq, { lab with vertexIdSeq := lab.vertexIdSeq + 1 })

/-- Step 8: clear the vertex pointer of the old slot. -/
def clearVertexSlot (l id : Nat) : Op Unit :=
  onVertexLabel l (.labelIdNotFound l) fun _ lab => do
    let _ ← readItem lab.physMap.table (entitySlot id) .undefinedRead
    return ((), { lab with
      physMap := lab.physMap.modify (entitySlot id) fun rec => { rec with vItemptr := .invalid } })

/-- Steps 4 to 8, which `set_vertex_label` and `remove_vertex_label` share, from the slot read
before. -/
def relabelVertex (u : Unspecified) (fuel : Nat) (s : Session) (oldVid currentLabelId targetLabelId :
    Nat) (pmapRec : NeoPhysMapRecord) : Op Vertex := do
  let oldTuple ← readVertexLabel currentLabelId (.labelIdNotFound currentLabelId) fun x lab =>
    checkTuple x s.own lab.vertexTbl pmapRec.vItemptr .undefinedRead
      (.vertexConcurrentlyUpdated oldVid)
  let newVertexId ← nextVertexId targetLabelId
  let newV : Vertex := { oldTuple.entity with id := newVertexId, labelId := targetLabelId }
  npInternalInsertVertex s newV oldTuple.props
  migrateWalk u fuel s oldTuple.entity newV fuel pmapRec.eTblId pmapRec.eItemptr
  stampVertexTuple s currentLabelId pmapRec.vItemptr
  clearVertexSlot currentLabelId oldVid
  return newV

/-- The read of the old slot, which does not check its line pointer. -/
def readOldSlot (l id : Nat) : Op NeoPhysMapRecord :=
  readVertexLabel l (.labelIdNotFound l) fun _ lab =>
    readItem lab.physMap.table (entitySlot id) .undefinedRead

/-- `set_vertex_label` (`dml_labels.c:528-746`): nothing to do when the target is the current
label. -/
def setVertexLabel (u : Unspecified) (fuel : Nat) (s : Session)
    (oldVid currentLabelId targetLabelId : Nat) : Op (Option Vertex) := do
  readVertexLabel currentLabelId (.labelIdNotFound currentLabelId) fun _ _ => return ()
  if targetLabelId = currentLabelId then return none
  else do
    let pmapRec ← readOldSlot currentLabelId oldVid
    let newV ← relabelVertex u fuel s oldVid currentLabelId targetLabelId pmapRec
    return some newV

/-- `remove_vertex_label` (`dml_labels.c:750-1078`): the sibling, which checks that the old slot
still has a vertex and has no early return. -/
def removeVertexLabel (u : Unspecified) (fuel : Nat) (s : Session)
    (oldVid currentLabelId targetLabelId : Nat) : Op Vertex := do
  let pmapRec ← readOldSlot currentLabelId oldVid
  if !pmapRec.vItemptr.isValid then Prog.fail (.alreadyMigrated oldVid)
  else relabelVertex u fuel s oldVid currentLabelId targetLabelId pmapRec

end NeoPostGraph
