import NeoPostGraph.Graph.Insert

/-!
# Reading and updating entities

`np_fetch_vertex_properties` and `np_fetch_edge_properties` (`np_entity_store.c:671-797`),
`update_vertex` and `update_edge` (`dml_update.c`). An update checks that the tuple its slot points
to is live, appends the new version with a pointer back to it, overwrites the slot, and stamps the
old tuple deleted. Nothing undoes the slot when the transaction aborts.
-/

namespace NeoPostGraph

open SlottedPage

/-! ## Slots and tuples -/

/-- Read a slot behind the two checks every DML path makes: the block exists, the line pointer is
normal. -/
def readSlot {α : Type} (pmap : Table α) (tid : ItemPointer) : Except Err α :=
  if pmap.nblocks ≤ tid.block then .error .physMapTableEmpty
  else match pmap.get tid with
    | none => .error .physMapNotFound
    | some rec => .ok rec

/-- Read a tuple and check that it is live and not being deleted by another transaction. -/
def checkTuple {μ : Type} (x : XactState) (own : List Nat) (t : Table (EntityTuple μ))
    (tid : ItemPointer) (corrupted updated : Err) : Except Err (EntityTuple μ) := do
  let tuple ← readItem t tid corrupted
  if !npEntityTupleIsLive x own tuple.hdr.toRecordHeader ||
      npEntityTupleXmaxOther x own tuple.hdr.toRecordHeader then
    .error updated
  else return tuple

/-- Stamp a tuple deleted. -/
def stampTuple {μ : Type} (s : Session) (tuple : EntityTuple μ) : EntityTuple μ :=
  { tuple with hdr := { tuple.hdr with xmax := s.fxid, cmax := s.cid } }

/-- Stamp the vertex tuple at a tid, which the caller has checked before. -/
def stampVertexTuple (s : Session) (l : Nat) (tid : ItemPointer) : Op Unit :=
  onVertexLabel l (.labelNotFound l) fun _ lab => do
    let _ ← readItem lab.vertexTbl tid .undefinedRead
    return ((), { lab with vertexTbl := lab.vertexTbl.modify tid (stampTuple s) })

/-- Stamp the edge tuple at a tid, which the caller has checked before. -/
def stampEdgeTuple (s : Session) (l : Nat) (tid : ItemPointer) : Op Unit :=
  onEdgeLabel l (.edgeLabelNotFound l) fun _ lab => do
    let _ ← readItem lab.vertexTbl tid .undefinedRead
    return ((), { lab with vertexTbl := lab.vertexTbl.modify tid (stampTuple s) })

/-! ## Reads -/

/-- `np_fetch_vertex_properties` (`np_entity_store.c:671-739`), for the transaction ids `own`. -/
def npFetchVertexProperties (own : List Nat) (l id : Nat) : Op Gtype := do
  let vTid ← Prog.read fun db =>
    match db.vlabels l with
    | none => .ok none
    | some lab =>
      if l = 0 ∨ lab.physMap.table.nblocks ≤ (entitySlot id).block then .ok none
      else match lab.physMap.table.get (entitySlot id) with
        | none => .ok none
        | some rec => .ok (if rec.vItemptr.isValid then some rec.vItemptr else none)
  match vTid with
  | none => return npEmptyGtypeObject
  | some vTid =>
    readVertexLabel l (.labelNotFound l) fun x lab => do
      let tuple ← readItem lab.vertexTbl vTid .undefinedRead
      return if npEntityTupleIsLive x own tuple.hdr.toRecordHeader then tuple.props
        else npEmptyGtypeObject

/-- `np_fetch_edge_properties` (`np_entity_store.c:741-797`). It does not check that the line
pointer of the slot is normal. -/
def npFetchEdgeProperties (own : List Nat) (l id : Nat) : Op Gtype := do
  let eTid ← Prog.read fun db =>
    match db.elabels l with
    | none => .ok none
    | some lab =>
      if l = 0 ∨ lab.physMap.table.nblocks ≤ (edgeSlot id).block then .ok none
      else match lab.physMap.table.get (edgeSlot id) with
        | none => .error .undefinedRead
        | some rec => .ok (if rec.eItemptr.isValid then some rec.eItemptr else none)
  match eTid with
  | none => return npEmptyGtypeObject
  | some eTid =>
    readEdgeLabel l (.edgeLabelNotFound l) fun x lab => do
      let tuple ← readItem lab.vertexTbl eTid .undefinedRead
      return if npEntityTupleIsLive x own tuple.hdr.toRecordHeader then tuple.props
        else npEmptyGtypeObject

/-! ## Updates -/

/-- `np_overwrite_physmap_in_page` (`np_phys_map.c:224-258`). -/
def npOverwritePhysmapInPage (l : Nat) (tid : ItemPointer) (newData : NeoPhysMapRecord) : Op Unit :=
  onVertexLabel l (.labelNotFound l) fun _ lab => do
    let _ ← readItem lab.physMap.table tid .physMapOverwriteFailed
    return ((), { lab with physMap := lab.physMap.modify tid fun _ => newData })

/-- `update_vertex` (`dml_update.c:186-307`). -/
def updateVertex (s : Session) (l id : Nat) (newProperties : Gtype) : Op Unit := do
  let currentPmapRec ← readVertexLabel l (.labelNotFound l) fun _ lab =>
    readSlot lab.physMap.table (entitySlot id)
  let oldTuple ← readVertexLabel l (.labelNotFound l) fun x lab =>
    checkTuple x s.own lab.vertexTbl currentPmapRec.vItemptr .corruptedPhysMap
      (.vertexConcurrentlyUpdated id)
  let newV : Vertex := ⟨id, l, oldTuple.entity.dictionaryId⟩
  let newVertexTid ← writeVertexTuple l
    (newEntityTuple s id currentPmapRec.vItemptr newV newProperties)
  npOverwritePhysmapInPage l (entitySlot id) { currentPmapRec with vItemptr := newVertexTid }
  stampVertexTuple s l currentPmapRec.vItemptr

/-- `update_edge` (`dml_update.c:55-184`). -/
def updateEdge (u : Unspecified) (s : Session) (l id : Nat) (newProperties : Gtype) : Op Unit := do
  let pmapRec ← readEdgeLabel l (.edgeLabelNotFound l) fun _ lab =>
    readSlot lab.physMap.table (edgeSlot id)
  let oldTuple ← readEdgeLabel l (.edgeLabelNotFound l) fun x lab =>
    checkTuple x s.own lab.vertexTbl pmapRec.eItemptr (.corruptedPhysMapEdge id)
      (.edgeConcurrentlyUpdated id)
  let newEdgeTid ← writeEdgeTuple l (.edgeLabelNotFound l)
    (newEntityTuple s id pmapRec.eItemptr oldTuple.entity newProperties)
  setEdgeSlot l id (.edgeLabelNotFound l) ⟨newEdgeTid, u.stackItemptr oldTuple.entity⟩
  stampEdgeTuple s l pmapRec.eItemptr

end NeoPostGraph
