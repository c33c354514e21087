import NeoPostGraph.Graph.Update

/-!
# Deleting edges and vertices

`dml_delete.c`. `np_internal_delete_edge` stamps the edge tuple, then walks the chain of each
endpoint for the first undeleted record with the edge's id and stamps that. `delete_vertex` walks
the chain of the vertex itself, collects the undeleted edges it finds, deletes each of them, and
stamps the vertex tuple.

The walks loop until the chain ends. A model walk has fuel, one unit for each record it visits, and
fails with `outOfFuel` when a chain is longer.

`delete_vertex` reads an array block with `heap_deform_tuple`, as if the block were a heap tuple.
The column count then comes from the upper half of the block's `cmin`: 0 while fewer than 65536
commands had run in the compacting transaction, and a tuple of no columns has nothing in it but
nulls. What it makes of other blocks is left open.
-/

namespace NeoPostGraph

open SlottedPage

/-! ## Edges -/

/-- The test both branches of the walk make: this id, not deleted. The label is not compared. -/
def matchesEdge (targetEdgeId id : Nat) (hdr : RecordHeader) : Bool :=
  id == targetEdgeId && !fullXidIsValid hdr.xmax

/-- Stamp a record deleted. -/
def stampRecord (s : Session) (rec : NeoLinkedListRecord) : NeoLinkedListRecord :=
  { rec with xmax := s.fxid, cmax := s.cid }

/-- Stamp a member deleted. -/
def stampMember (s : Session) (m : AdjListMember) : AdjListMember :=
  { m with xmax := s.fxid, cmax := s.cid }

/-- Stamp the first member that matches. -/
def stampFirstMember (s : Session) (targetEdgeId : Nat) : List AdjListMember → List AdjListMember
  | [] => []
  | m :: ms =>
    if matchesEdge targetEdgeId m.edgeId m.toRecordHeader then stampMember s m :: ms
    else m :: stampFirstMember s targetEdgeId ms

/-- One turn of the walk of `np_delete_edge_from_adj_list`: stamp a match and stop, or go on to the
next node. -/
def unlinkAt (s : Session) (targetEdgeId : Nat) (currentTbl : Oid) (currentTid : ItemPointer) :
    Op (Option (Oid × ItemPointer)) :=
  onRel currentTbl fun r =>
    match r with
    | .linkedList t => do
      let rec ← readItem t currentTid .invalidLinePointer
      if matchesEdge targetEdgeId rec.id rec.toRecordHeader then
        return (none, .linkedList (t.modify currentTid (stampRecord s)))
      else return (some (rec.nextTbl, rec.nextItemptr), r)
    | .arrayList t => do
      let rec ← readItem t currentTid .invalidLinePointer
      if rec.adjList.any fun m => matchesEdge targetEdgeId m.edgeId m.toRecordHeader then
        return (none, .arrayList (t.modify currentTid fun rec =>
          { rec with adjList := stampFirstMember s targetEdgeId rec.adjList }))
      else return (some (currentTbl, rec.nextItemptr), r)

/-- The walk of `np_delete_edge_from_adj_list` (`dml_delete.c:386-503`). -/
def unlinkWalk (s : Session) (targetEdgeId : Nat) : Nat → Oid → ItemPointer → Op Unit
  | 0, _, _ => Prog.fail .outOfFuel
  | fuel + 1, currentTbl, currentTid =>
    if currentTid.isValid && oidIsValid currentTbl then do
      let next ← unlinkAt s targetEdgeId currentTbl currentTid
      match next with
      | none => return ()
      | some (nextTbl, nextTid) => unlinkWalk s targetEdgeId fuel nextTbl nextTid
    else return ()

/-- `np_delete_edge_from_adj_list` (`dml_delete.c:374-503`). -/
def npDeleteEdgeFromAdjList (fuel : Nat) (s : Session) (vertexId vertexLabelId targetEdgeId : Nat) :
    Op Unit := do
  let head ← Prog.read fun db =>
    match db.vlabels vertexLabelId with
    | none => .ok none
    | some lab => .ok (some (getCurrentHeadTid lab.physMap.table vertexId))
  match head with
  | none => return ()
  | some (tbl, tid) => unlinkWalk s targetEdgeId fuel tbl tid

/-- The step of `np_internal_delete_edge` that checks the edge tuple and stamps it. -/
def tombstoneEdge (s : Session) (l edgeId : Nat) (tid : ItemPointer) : Op Edge :=
  onEdgeLabel l (.edgeLabelNotFound l) fun x lab => do
    let tuple ← checkTuple x s.own lab.vertexTbl tid (.corruptedPhysMapEdge edgeId)
      (.edgeConcurrentlyUpdated edgeId)
    return (tuple.entity, { lab with vertexTbl := lab.vertexTbl.modify tid (stampTuple s) })

/-- `np_internal_delete_edge` (`dml_delete.c:73-164`). -/
def npInternalDeleteEdge (fuel : Nat) (s : Session) (l edgeId : Nat) : Op Unit := do
  let pmapRec ← readEdgeLabel l (.edgeLabelNotFound l) fun _ lab =>
    readSlot lab.physMap.table (edgeSlot edgeId)
  let deletedE ← tombstoneEdge s l edgeId pmapRec.eItemptr
  npDeleteEdgeFromAdjList fuel s deletedE.startId deletedE.startLabel edgeId
  npDeleteEdgeFromAdjList fuel s deletedE.endId deletedE.endLabel edgeId

/-- `delete_edge` (`dml_delete.c:56-71`). -/
def deleteEdge (fuel : Nat) (s : Session) (edgeId l : Nat) : Op Unit :=
  npInternalDeleteEdge fuel s l edgeId

/-! ## Vertices -/

/-- `HeapTupleHeaderGetNatts` of an array block: bits 16 to 26 of its `cmin`. -/
def blockNatts (rec : NeoArrayListRecord) : Nat := rec.cmin / 2 ^ 16 % 2 ^ 11

/-- `heap_deform_tuple` on an array block: the payload and the next pointer, if not null. -/
def deformBlock (u : Unspecified) (rec : NeoArrayListRecord) :
    Option (List AdjListMember) × Option ItemPointer :=
  if blockNatts rec = 0 then (none, none) else u.deformBlock rec

/-- Add the undeleted members of a block to the edges collected so far. The array of collected
edges is allocated with `repalloc` here, which fails when there is none yet. -/
def collectMembers (detach : Bool) (vertexId : Nat) (edges : List (Nat × Nat)) :
    List AdjListMember → Except Err (List (Nat × Nat))
  | [] => .ok edges
  | m :: ms =>
    if !fullXidIsValid m.xmax then
      if !detach then .error (.activeEdges vertexId)
      else if edges.isEmpty then .error .invalidChunk
      else collectMembers detach vertexId (edges ++ [(m.edgeId, m.edgeLid)]) ms
    else collectMembers detach vertexId edges ms

/-- One turn of the walk of `delete_vertex` on an array block. -/
def collectAtBlock (u : Unspecified) (detach : Bool) (vertexId : Nat) (currentTbl : Oid)
    (currentTid : ItemPointer) (edges : List (Nat × Nat)) :
    Op (List (Nat × Nat) × Oid × ItemPointer) :=
  readRel currentTbl fun r =>
    match r with
    | .linkedList _ => .error .undefinedRead
    | .arrayList t => do
      let rec ← readItem t currentTid .undefinedRead
      let edges' ← collectMembers detach vertexId edges ((deformBlock u rec).1.getD [])
      return (edges', currentTbl, (deformBlock u rec).2.getD .invalid)

/-- One turn of the walk of `delete_vertex` on a linked-list record. -/
def collectAtRecord (detach : Bool) (vertexId : Nat) (currentTbl : Oid) (currentTid : ItemPointer)
    (edges : List (Nat × Nat)) : Op (List (Nat × Nat) × Oid × ItemPointer) :=
  readRel currentTbl fun r =>
    match r with
    | .arrayList _ => .error .undefinedRead
    | .linkedList t => do
      let rec ← readItem t currentTid .undefinedRead
      if !fullXidIsValid rec.xmax then
        if !detach then .error (.activeEdges vertexId)
        else return (edges ++ [(rec.id, rec.edgeLid)], rec.nextTbl, rec.nextItemptr)
      else return (edges, rec.nextTbl, rec.nextItemptr)

/-- One turn of the walk of `delete_vertex`, by the relation it stands in. -/
def collectAt (u : Unspecified) (arraylist : Oid) (detach : Bool) (vertexId : Nat) (currentTbl : Oid)
    (currentTid : ItemPointer) (edges : List (Nat × Nat)) :
    Op (List (Nat × Nat) × Oid × ItemPointer) :=
  if currentTbl = arraylist then collectAtBlock u detach vertexId currentTbl currentTid edges
  else collectAtRecord detach vertexId currentTbl currentTid edges

/-- The walk of `delete_vertex` (`dml_delete.c:225-335`): the undeleted edges of the chain, in
order. -/
def collectWalk (u : Unspecified) (arraylist : Oid) (detach : Bool) (vertexId : Nat) :
    Nat → Oid → ItemPointer → List (Nat × Nat) → Op (List (Nat × Nat))
  | 0, _, _, _ => Prog.fail .outOfFuel
  | fuel + 1, currentTbl, currentTid, edges =>
    if currentTid.isValid && oidIsValid currentTbl then do
      let (edges', nextTbl, nextTid) ←
        collectAt u arraylist detach vertexId currentTbl currentTid edges
      collectWalk u arraylist detach vertexId fuel nextTbl nextTid edges'
    else return edges

/-- Delete the collected edges, in order. -/
def deleteCollected (fuel : Nat) (s : Session) : List (Nat × Nat) → Op Unit
  | [] => return ()
  | (edgeId, edgeLid) :: rest => do
    npInternalDeleteEdge fuel s edgeLid edgeId
    deleteCollected fuel s rest

/-- The step of `delete_vertex` that checks the vertex tuple and stamps it. -/
def tombstoneVertex (s : Session) (l vertexId : Nat) (tid : ItemPointer) : Op Unit :=
  onVertexLabel l (.vertexLabelNotFound l) fun x lab => do
    let _ ← checkTuple x s.own lab.vertexTbl tid (.corruptedPhysMapVertex vertexId)
      (.vertexConcurrentlyUpdated vertexId)
    return ((), { lab with vertexTbl := lab.vertexTbl.modify tid (stampTuple s) })

/-- `delete_vertex` (`dml_delete.c:173-373`). -/
def deleteVertex (u : Unspecified) (fuel : Nat) (s : Session) (vertexId l : Nat) (detach : Bool) :
    Op Unit := do
  let (pmapRec, arraylist) ← readVertexLabel l (.vertexLabelNotFound l) fun _ lab => do
    let rec ← readSlot lab.physMap.table (entitySlot vertexId)
    return (rec, lab.arraylist)
  let edges ← collectWalk u arraylist detach vertexId fuel pmapRec.eTblId pmapRec.eItemptr []
  deleteCollected fuel s edges
  tombstoneVertex s l vertexId pmapRec.vItemptr

end NeoPostGraph
