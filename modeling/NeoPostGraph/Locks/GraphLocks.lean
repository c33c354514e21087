import NeoPostGraph.Lib.ContentLock
import NeoPostGraph.Graph.Relabel
import NeoPostGraph.Graph.Unlink
import NeoPostGraph.Annotation.Bitset

/-!
# The content locks of the DML functions

`dml_insert.c`, `dml_update.c`, `dml_delete.c` and the migration of `dml_labels.c` with the content locks
they take. Every look at a page is under the lock of its buffer. A writer locks the last page or, when
that has no room, a page behind it; a writer of a physical map locks the pages it adds before the page
of the slot. What a cached label row was read from is unknown: a lookup may visit any pages of the
catalog. PostgreSQL's own functions (`nextval`, the scan of a heap table, the creation of a relation)
take no lock here.

A function keeps its name from the model without locks, in a namespace of its own.

Results: `guards_updateVertex`, `guards_updateEdge`, `guards_deleteEdge`, `guards_migrateWalk`: each of
them is the function of the model with locks around its steps.
-/

namespace NeoPostGraph

open SlottedPage LockProg

/-! ## Buffers -/

/-- A relation whose pages this extension locks. -/
inductive BufferRel where
  | entities (kind : LabelKind) (labelId : Nat)
  | physMap (kind : LabelKind) (labelId : Nat)
  | annotations (kind : LabelKind) (labelId : Nat)
  | adjacency (o : Oid)
  | annotSchemaTbl
  | annotSchemaPhysMap
  | labels (kind : LabelKind)
  | labelCatalog
deriving DecidableEq, Repr

/-- A buffer: a block of a relation. -/
abbrev Buffer := BufferRel × Nat

/-- The pages of the catalogs, which the model has no tables for. -/
structure CatalogPages where
  /-- The pages a search comes to look at. -/
  visited : BufferRel → List Nat
  nblocks : BufferRel → Nat
  /-- The last page has no room for the next row. -/
  full : BufferRel → Bool

namespace Locking

section Writers

variable {β σ ε α γ : Type} [DecidableEq β]

/-- A value the code looks up without a lock. -/
def look (f : σ → γ) : LockProg β σ ε γ := lift (Prog.read fun m => .ok (f m))

/-- Look at pages, one after the other, each under its lock. -/
def readBuffers (bufs : σ → List β) (p : Prog σ ε α) : LockProg β σ ε α := do
  let visited ← look bufs
  visitBuffers visited
  lift p

/-- Look at a page under its lock, if the relation has it. -/
def readBlock (buf : β) (inRange : σ → Bool) (p : Prog σ ε α) : LockProg β σ ε α := do
  if ← look inRange then underLock buf p else lift p

/-- `np_write_record_to_page` (`np_entity_store.c:322-376`): the last page, or a new one. -/
def npWriteRecordToPage (buf : Nat → β) (nblocks : σ → Nat) (full : σ → Bool)
    (write : Prog σ ε α) : LockProg β σ ε α := do
  let blockNum ← look nblocks
  let block ← (if blockNum = 0 then look nblocks else pure (blockNum - 1))
  lockBuffer (buf block)
  if ← look full then do
    unlockBuffer (buf block)
    let new ← look nblocks
    underLock (buf new) write
  else do
    let tid ← lift write
    unlockBuffer (buf block)
    return tid

/-- `np_place_physmap_record` and `np_set_edge_physmap_record` (`np_phys_map.c:36-222`): add the pages
up to the one of the slot, one by one, then lock that one. -/
def placeRecord (buf : Nat → β) (nblocks : σ → Nat) (targetBlock : Nat) (place : Prog σ ε α) :
    LockProg β σ ε α := do
  let n ← look nblocks
  visitBuffers ((List.range' n (targetBlock + 1 - n)).map buf)
  underLock (buf targetBlock) place

variable {held : List β} {p : Prog σ ε α}

theorem guards_readBuffers (bufs : σ → List β) (p : Prog σ ε α) : Guards (readBuffers bufs p) p :=
  guards_look fun visited => (guards_visitBuffers visited).preceded (guards_lift p)

theorem guards_readBlock (buf : β) (inRange : σ → Bool) (p : Prog σ ε α) :
    Guards (readBlock buf inRange p) p := by
  refine guards_look fun c => ?_
  cases c with
  | false => exact guards_lift p
  | true => exact guards_underLock List.not_mem_nil p

/-- **The writer holds one lock at a time.** -/
theorem guards_npWriteRecordToPage {buf : Nat → β} (nblocks : σ → Nat) (full : σ → Bool)
    (write : Prog σ ε α) : Guards (npWriteRecordToPage buf nblocks full write) write := by
  have hpage : ∀ block, Guards (do
      lockBuffer (buf block)
      if ← look full then do
        unlockBuffer (buf block)
        let new ← look nblocks
        underLock (buf new) write
      else do
        let tid ← lift write
        unlockBuffer (buf block)
        return tid) write := by
    intro block
    refine (guards_lockBuffer List.not_mem_nil).preceded (guards_look fun c => ?_)
    cases c with
    | false =>
      have h : GuardsFrom [buf block] [] (do let tid ← lift write; unlockBuffer (buf block); return tid)
          (write >>= fun a => .ret a) :=
        (guards_lift write).bind fun a => guards_unlockBuffer.bind fun _ => guards_ret a
      rw [show (write >>= fun a => .ret a) = write from bind_pure write] at h
      exact h
    | true =>
      exact guards_unlockBuffer.preceded (guards_look fun new =>
        guards_underLock List.not_mem_nil write)
  refine guards_look fun blockNum => ?_
  by_cases h : blockNum = 0
  · rw [if_pos h]
    exact guards_look hpage
  · rw [if_neg h]
    exact hpage (blockNum - 1)

theorem guards_placeRecord (buf : Nat → β) (nblocks : σ → Nat) (targetBlock : Nat)
    (place : Prog σ ε α) : Guards (placeRecord buf nblocks targetBlock place) place :=
  guards_look fun _ =>
    (guards_visitBuffers _).preceded (guards_underLock List.not_mem_nil place)

end Writers

/-! ## Relations of a graph -/

/-- A program over a graph, with its locks. -/
abbrev LockOp := LockProg Buffer Db Err

/-- `PageGetFreeSpace(page) < space_needed`, on the last page. -/
def lastPageFull {α : Type} (t : Table α) (len : Nat) : Bool :=
  t.pages.getLast?.any fun last => last.freeSpace < maxAlign len + sizeOfItemIdData

/-- A lookup of a cached label row. -/
def searchLabelCache {σ ε : Type} (pages : CatalogPages) (kind : LabelKind) :
    LockProg Buffer σ ε Unit :=
  visitBuffers ((pages.visited (.labels kind)).map fun block => (.labels kind, block))

def writeVertexTuple (l : Nat) (tuple : EntityTuple Vertex) : LockOp ItemPointer :=
  npWriteRecordToPage (.entities .vertex l, ·)
    (fun db => (db.vlabels l).elim 0 fun lab => lab.vertexTbl.nblocks)
    (fun db => (db.vlabels l).any fun lab =>
      lastPageFull lab.vertexTbl (totalTupleSize sizeOfVertex tuple.props))
    (NeoPostGraph.writeVertexTuple l tuple)

def writeEdgeTuple (l : Nat) (e : Err) (tuple : EntityTuple Edge) : LockOp ItemPointer :=
  npWriteRecordToPage (.entities .edge l, ·)
    (fun db => (db.elabels l).elim 0 fun lab => lab.vertexTbl.nblocks)
    (fun db => (db.elabels l).any fun lab =>
      lastPageFull lab.vertexTbl (totalTupleSize sizeOfEdge tuple.props))
    (NeoPostGraph.writeEdgeTuple l e tuple)

def placeVertexSlot (l id : Nat) (rec : NeoPhysMapRecord) : LockOp Unit :=
  placeRecord (.physMap .vertex l, ·)
    (fun db => (db.vlabels l).elim 0 fun lab => lab.physMap.table.nblocks) (entitySlot id).block
    (NeoPostGraph.placeVertexSlot l id rec)

def setEdgeSlot (l id : Nat) (e : Err) (rec : NeoEdgePhysMapRecord) : LockOp Unit :=
  placeRecord (.physMap .edge l, ·)
    (fun db => (db.elabels l).elim 0 fun lab => lab.physMap.table.nblocks) (edgeSlot id).block
    (NeoPostGraph.setEdgeSlot l id e rec)

/-- The slot of a vertex, when its block exists. -/
def readVertexSlot {α : Type} (l id : Nat) (read : Op α) : LockOp α :=
  readBlock (.physMap .vertex l, (entitySlot id).block)
    (fun db => (db.vlabels l).any fun lab => (entitySlot id).block < lab.physMap.table.nblocks) read

/-- The slot of an edge, when its block exists. -/
def readEdgeSlot {α : Type} (l id : Nat) (read : Op α) : LockOp α :=
  readBlock (.physMap .edge l, (edgeSlot id).block)
    (fun db => (db.elabels l).any fun lab => (edgeSlot id).block < lab.physMap.table.nblocks) read

/-- The page of a vertex tuple. -/
def onVertexTuple {α : Type} (l : Nat) (tid : ItemPointer) (p : Op α) : LockOp α :=
  underLock (.entities .vertex l, tid.block) p

/-- The page of an edge tuple. -/
def onEdgeTuple {α : Type} (l : Nat) (tid : ItemPointer) (p : Op α) : LockOp α :=
  underLock (.entities .edge l, tid.block) p

def npOverwritePhysmapInPage (l : Nat) (tid : ItemPointer) (newData : NeoPhysMapRecord) :
    LockOp Unit :=
  underLock (.physMap .vertex l, tid.block) (NeoPostGraph.npOverwritePhysmapInPage l tid newData)

/-! ## Updates -/

/-- `update_vertex` (`dml_update.c:186-307`). -/
def updateVertex (pages : CatalogPages) (s : Session) (l id : Nat) (newProperties : Gtype) :
    LockOp Unit := do
  searchLabelCache pages .vertex
  let currentPmapRec ← readVertexSlot l id
    (readVertexLabel l (.labelNotFound l) fun _ lab => readSlot lab.physMap.table (entitySlot id))
  let oldTuple ← onVertexTuple l currentPmapRec.vItemptr
    (readVertexLabel l (.labelNotFound l) fun x lab =>
      checkTuple x s.own lab.vertexTbl currentPmapRec.vItemptr .corruptedPhysMap
        (.vertexConcurrentlyUpdated id))
  let newV : Vertex := ⟨id, l, oldTuple.entity.dictionaryId⟩
  let newVertexTid ← writeVertexTuple l
    (newEntityTuple s id currentPmapRec.vItemptr newV newProperties)
  npOverwritePhysmapInPage l (entitySlot id) { currentPmapRec with vItemptr := newVertexTid }
  onVertexTuple l currentPmapRec.vItemptr (stampVertexTuple s l currentPmapRec.vItemptr)

/-- `update_edge` (`dml_update.c:55-184`). -/
def updateEdge (pages : CatalogPages) (u : Unspecified) (s : Session) (l id : Nat)
    (newProperties : Gtype) : LockOp Unit := do
  searchLabelCache pages .edge
  let pmapRec ← readEdgeSlot l id
    (readEdgeLabel l (.edgeLabelNotFound l) fun _ lab => readSlot lab.physMap.table (edgeSlot id))
  let oldTuple ← onEdgeTuple l pmapRec.eItemptr
    (readEdgeLabel l (.edgeLabelNotFound l) fun x lab =>
      checkTuple x s.own lab.vertexTbl pmapRec.eItemptr (.corruptedPhysMapEdge id)
        (.edgeConcurrentlyUpdated id))
  let newEdgeTid ← writeEdgeTuple l (.edgeLabelNotFound l)
    (newEntityTuple s id pmapRec.eItemptr oldTuple.entity newProperties)
  setEdgeSlot l id (.edgeLabelNotFound l) ⟨newEdgeTid, u.stackItemptr oldTuple.entity⟩
  onEdgeTuple l pmapRec.eItemptr (stampEdgeTuple s l pmapRec.eItemptr)

/-! ## The adjacency records of an edge -/

def insertLinkedListRecord (o : Oid) (rec : NeoLinkedListRecord) : LockOp ItemPointer :=
  npWriteRecordToPage (.adjacency o, ·)
    (fun db => match db.rels o with
      | some (.linkedList t) => t.nblocks
      | _ => 0)
    (fun db => match db.rels o with
      | some (.linkedList t) => lastPageFull t sizeOfNeoLinkedListRecord
      | _ => false)
    (NeoPostGraph.insertLinkedListRecord o rec)

def updateOldHead (oldHeadTbl : Oid) (oldHead : ItemPointer) (newTbl : Oid) (newTid : ItemPointer) :
    LockOp Unit :=
  if oldHead.isValid && oidIsValid oldHeadTbl then
    underLock (.adjacency oldHeadTbl, oldHead.block)
      (updatePrevPointer oldHeadTbl oldHead newTbl newTid)
  else return ()

/-- `get_current_head_tid` (`dml_insert.c:511-541`), for the map slot of a vertex. -/
def getCurrentHeadTid {α : Type} (l id : Nat) (read : Op α) : LockOp α :=
  readBlock (.physMap .vertex l, (headSlot id).block)
    (fun db => (db.vlabels l).any fun lab => (headSlot id).block < lab.physMap.table.nblocks) read

/-- `insert_edge_one_direction` (`dml_insert.c:359-446`). -/
def insertEdgeOneDirection (pages : CatalogPages) (s : Session) (ownerV otherV : Vertex) (e : Edge)
    (direction : Nat) : LockOp Unit := do
  searchLabelCache pages .vertex
  let activeListOid ← lift (getActiveLinkedListOid ownerV.labelId)
  let (oldHeadTbl, oldHead) ← getCurrentHeadTid ownerV.labelId ownerV.id
    (readHead ownerV.labelId ownerV.id)
  let newTid ← insertLinkedListRecord activeListOid
    (newLinkedListRecord s ownerV otherV e direction oldHeadTbl oldHead)
  updateOldHead oldHeadTbl oldHead activeListOid newTid
  underLock (.physMap .vertex ownerV.labelId, (headSlot ownerV.id).block)
    (writeHead ownerV.labelId ownerV.id activeListOid newTid)

/-- `np_internal_insert_edge` (`dml_insert.c:267-330`). -/
def npInternalInsertEdge (pages : CatalogPages) (u : Unspecified) (s : Session) (startV endV : Vertex)
    (e : Edge) (props : Gtype) : LockOp Unit := do
  searchLabelCache pages .edge
  let edgeTid ← writeEdgeTuple e.labelId .edgeLabelTableNotFound
    (newEntityTuple s e.id .invalid e props)
  setEdgeSlot e.labelId e.id .edgeLabelTableNotFound ⟨edgeTid, u.stackItemptr e⟩
  insertEdgeOneDirection pages s startV endV e 0
  insertEdgeOneDirection pages s endV startV e 1

/-! ## Deletes -/

/-- The walk of `np_delete_edge_from_adj_list` (`dml_delete.c:386-503`). -/
def unlinkWalk (s : Session) (targetEdgeId : Nat) : Nat → Oid → ItemPointer → LockOp Unit
  | 0, _, _ => lift (Prog.fail .outOfFuel)
  | fuel + 1, currentTbl, currentTid =>
    if currentTid.isValid && oidIsValid currentTbl then do
      let next ← underLock (.adjacency currentTbl, currentTid.block)
        (unlinkAt s targetEdgeId currentTbl currentTid)
      match next with
      | none => return ()
      | some (nextTbl, nextTid) => unlinkWalk s targetEdgeId fuel nextTbl nextTid
    else return ()

/-- `np_delete_edge_from_adj_list` (`dml_delete.c:374-503`). -/
def npDeleteEdgeFromAdjList (pages : CatalogPages) (fuel : Nat) (s : Session)
    (vertexId vertexLabelId targetEdgeId : Nat) : LockOp Unit := do
  searchLabelCache pages .vertex
  let head ← getCurrentHeadTid vertexLabelId vertexId (Prog.read fun db =>
    match db.vlabels vertexLabelId with
    | none => .ok none
    | some lab => .ok (some (NeoPostGraph.getCurrentHeadTid lab.physMap.table vertexId)))
  match head with
  | none => return ()
  | some (tbl, tid) => unlinkWalk s targetEdgeId fuel tbl tid

/-- `np_internal_delete_edge` (`dml_delete.c:73-164`). -/
def npInternalDeleteEdge (pages : CatalogPages) (fuel : Nat) (s : Session) (l edgeId : Nat) :
    LockOp Unit := do
  searchLabelCache pages .edge
  let pmapRec ← readEdgeSlot l edgeId
    (readEdgeLabel l (.edgeLabelNotFound l) fun _ lab => readSlot lab.physMap.table (edgeSlot edgeId))
  let deletedE ← onEdgeTuple l pmapRec.eItemptr (tombstoneEdge s l edgeId pmapRec.eItemptr)
  npDeleteEdgeFromAdjList pages fuel s deletedE.startId deletedE.startLabel edgeId
  npDeleteEdgeFromAdjList pages fuel s deletedE.endId deletedE.endLabel edgeId

/-- `delete_edge` (`dml_delete.c:56-71`). -/
def deleteEdge (pages : CatalogPages) (fuel : Nat) (s : Session) (edgeId l : Nat) : LockOp Unit :=
  npInternalDeleteEdge pages fuel s l edgeId

/-! ## The migration of the edges of a vertex -/

/-- `np_internal_fetch_vertex` (`dml_labels.c:266-302`). -/
def npInternalFetchVertex (pages : CatalogPages) (s : Session) (l vId : Nat) : LockOp Vertex := do
  searchLabelCache pages .vertex
  let rec' ← underLock (.physMap .vertex l, (entitySlot vId).block)
    (readVertexLabel l .undefinedRead fun _ lab =>
      readItem lab.physMap.table (entitySlot vId) .undefinedRead)
  onVertexTuple l rec'.vItemptr (readVertexLabel l .undefinedRead fun x lab => do
    let tuple ← readItem lab.vertexTbl rec'.vItemptr .undefinedRead
    if !npEntityTupleIsLive x s.own tuple.hdr.toRecordHeader then .error (.vertexNotLive vId)
    else return tuple.entity)

/-- `np_internal_fetch_edge` (`dml_labels.c:304-338`). -/
def npInternalFetchEdge (pages : CatalogPages) (s : Session) (l eId : Nat) :
    LockOp (Edge × Gtype) := do
  searchLabelCache pages .edge
  let rec' ← underLock (.physMap .edge l, (edgeSlot eId).block)
    (readEdgeLabel l .undefinedRead fun _ lab =>
      readItem lab.physMap.table (edgeSlot eId) .undefinedRead)
  onEdgeTuple l rec'.eItemptr (readEdgeLabel l .undefinedRead fun x lab => do
    let tuple ← readItem lab.vertexTbl rec'.eItemptr .undefinedRead
    if !npEntityTupleIsLive x s.own tuple.hdr.toRecordHeader then .error (.edgeNotLive eId)
    else return (tuple.entity, tuple.props))

def insertMigrated (pages : CatalogPages) (u : Unspecified) (s : Session)
    (oldV newV neighborV : Vertex) (oId oLid : Nat) (e : Edge) (props : Gtype) : LockOp Unit :=
  let e := redirectEdge oldV newV e
  let actualNeighbor := if oId = oldV.id ∧ oLid = oldV.labelId then newV else neighborV
  if e.startId = newV.id ∧ e.startLabel = newV.labelId then
    npInternalInsertEdge pages u s newV actualNeighbor e props
  else npInternalInsertEdge pages u s actualNeighbor newV e props

def migrateRecord (pages : CatalogPages) (u : Unspecified) (fuel : Nat) (s : Session)
    (oldV newV : Vertex) (rec : NeoLinkedListRecord) : LockOp Unit :=
  if fullXidIsValid rec.xmax then return ()
  else do
    let neighborV ← npInternalFetchVertex pages s rec.otherLid rec.otherId
    let (e, props) ← npInternalFetchEdge pages s rec.edgeLid rec.id
    npInternalDeleteEdge pages fuel s rec.edgeLid rec.id
    insertMigrated pages u s oldV newV neighborV rec.otherId rec.otherLid e props

def migrateFetch (pages : CatalogPages) (fuel : Nat) (s : Session) :
    List AdjListMember → LockOp (List (Vertex × Edge × Gtype))
  | [] => return []
  | m :: ms =>
    if fullXidIsValid m.xmax then migrateFetch pages fuel s ms
    else do
      let neighborV ← npInternalFetchVertex pages s m.otherLid m.otherId
      let (e, props) ← npInternalFetchEdge pages s m.edgeLid m.edgeId
      npInternalDeleteEdge pages fuel s m.edgeLid m.edgeId
      let rest ← migrateFetch pages fuel s ms
      return (neighborV, e, props) :: rest

def migrateInsert (pages : CatalogPages) (u : Unspecified) (s : Session) (oldV newV : Vertex) :
    List (Vertex × Edge × Gtype) → LockOp Unit
  | [] => return ()
  | (neighborV, e, props) :: rest => do
    insertMigrated pages u s oldV newV neighborV neighborV.id neighborV.labelId e props
    migrateInsert pages u s oldV newV rest

/-- The node the walk stands on, when its block exists. The block is copied before its lock is
released. -/
def migrateNode (currTblId : Oid) (currTid : ItemPointer) :
    LockOp (Option (NeoLinkedListRecord ⊕ NeoArrayListRecord)) :=
  readBlock (.adjacency currTblId, currTid.block)
    (fun db => (db.rels currTblId).any fun r => match r with
      | .linkedList t => currTid.block < t.nblocks
      | .arrayList t => currTid.block < t.nblocks)
    (NeoPostGraph.migrateNode currTblId currTid)

/-- The walk of `migrate_vertex_edges` (`dml_labels.c:340-527`). -/
def migrateWalk (pages : CatalogPages) (u : Unspecified) (fuel : Nat) (s : Session)
    (oldV newV : Vertex) : Nat → Oid → ItemPointer → LockOp Unit
  | 0, _, _ => lift (Prog.fail .outOfFuel)
  | n + 1, currTblId, currTid =>
    if oidIsValid currTblId && currTid.isValid then do
      match ← migrateNode currTblId currTid with
      | none => return ()
      | some (.inl rec) => do
        migrateRecord pages u fuel s oldV newV rec
        migrateWalk pages u fuel s oldV newV n rec.nextTbl rec.nextItemptr
      | some (.inr rec) => do
        let fetched ← migrateFetch pages fuel s rec.adjList
        migrateInsert pages u s oldV newV fetched
        migrateWalk pages u fuel s oldV newV n currTblId rec.nextItemptr
    else return ()

/-! ## Each is the function of the model, with locks -/

section Guards

variable {α : Type} (pages : CatalogPages) (u : Unspecified) (s : Session) (l id fuel : Nat)

theorem guards_searchLabelCache {σ ε : Type} (kind : LabelKind) :
    Guards (searchLabelCache pages kind : LockProg Buffer σ ε Unit) (.ret ()) :=
  guards_visitBuffers _

/-- A lookup of the cache before a program. -/
theorem guards_afterLookup {σ ε : Type} {kind : LabelKind} {lp : LockProg Buffer σ ε α}
    {p : Prog σ ε α} (h : Guards lp p) : Guards (do searchLabelCache pages kind; lp) p :=
  (guards_searchLabelCache pages kind).preceded h

theorem guards_writeVertexTuple (tuple : EntityTuple Vertex) :
    Guards (writeVertexTuple l tuple) (NeoPostGraph.writeVertexTuple l tuple) :=
  guards_npWriteRecordToPage _ _ _

theorem guards_writeEdgeTuple (e : Err) (tuple : EntityTuple Edge) :
    Guards (writeEdgeTuple l e tuple) (NeoPostGraph.writeEdgeTuple l e tuple) :=
  guards_npWriteRecordToPage _ _ _

theorem guards_placeVertexSlot (rec : NeoPhysMapRecord) :
    Guards (placeVertexSlot l id rec) (NeoPostGraph.placeVertexSlot l id rec) :=
  guards_placeRecord _ _ _ _

theorem guards_setEdgeSlot (e : Err) (rec : NeoEdgePhysMapRecord) :
    Guards (setEdgeSlot l id e rec) (NeoPostGraph.setEdgeSlot l id e rec) :=
  guards_placeRecord _ _ _ _

theorem guards_readVertexSlot (read : Op α) : Guards (readVertexSlot l id read) read :=
  guards_readBlock _ _ _

theorem guards_readEdgeSlot (read : Op α) : Guards (readEdgeSlot l id read) read :=
  guards_readBlock _ _ _

theorem guards_getCurrentHeadTid (read : Op α) : Guards (getCurrentHeadTid l id read) read :=
  guards_readBlock _ _ _

theorem guards_onVertexTuple (tid : ItemPointer) (p : Op α) : Guards (onVertexTuple l tid p) p :=
  guards_underLock List.not_mem_nil p

theorem guards_onEdgeTuple (tid : ItemPointer) (p : Op α) : Guards (onEdgeTuple l tid p) p :=
  guards_underLock List.not_mem_nil p

/-- **`update_vertex`**: the page of the old tuple is locked twice, and released before the new version
is written. -/
theorem guards_updateVertex (newProperties : Gtype) :
    Guards (updateVertex pages s l id newProperties)
      (NeoPostGraph.updateVertex s l id newProperties) := by
  refine guards_afterLookup pages ((guards_readVertexSlot l id _).bind fun rec => ?_)
  refine (guards_onVertexTuple l rec.vItemptr _).bind fun old => ?_
  refine (guards_writeVertexTuple l _).bind fun tid => ?_
  refine (guards_underLock List.not_mem_nil _).bind fun _ => ?_
  exact guards_onVertexTuple l rec.vItemptr _

theorem guards_updateEdge (newProperties : Gtype) :
    Guards (updateEdge pages u s l id newProperties)
      (NeoPostGraph.updateEdge u s l id newProperties) := by
  refine guards_afterLookup pages ((guards_readEdgeSlot l id _).bind fun rec => ?_)
  refine (guards_onEdgeTuple l rec.eItemptr _).bind fun old => ?_
  refine (guards_writeEdgeTuple l _ _).bind fun tid => ?_
  refine (guards_setEdgeSlot l id _ _).bind fun _ => ?_
  exact guards_onEdgeTuple l rec.eItemptr _

theorem guards_insertLinkedListRecord (o : Oid) (rec : NeoLinkedListRecord) :
    Guards (insertLinkedListRecord o rec) (NeoPostGraph.insertLinkedListRecord o rec) :=
  guards_npWriteRecordToPage _ _ _

theorem guards_updateOldHead (oldHeadTbl newTbl : Oid) (oldHead newTid : ItemPointer) :
    Guards (updateOldHead oldHeadTbl oldHead newTbl newTid)
      (NeoPostGraph.updateOldHead oldHeadTbl oldHead newTbl newTid) := by
  unfold updateOldHead NeoPostGraph.updateOldHead
  split
  · exact guards_underLock List.not_mem_nil _
  · exact guards_ret ()

theorem guards_insertEdgeOneDirection (ownerV otherV : Vertex) (e : Edge) (direction : Nat) :
    Guards (insertEdgeOneDirection pages s ownerV otherV e direction)
      (NeoPostGraph.insertEdgeOneDirection s ownerV otherV e direction) := by
  refine guards_afterLookup pages ((guards_lift _).bind fun o => ?_)
  refine (guards_getCurrentHeadTid _ _ _).bind fun hd => ?_
  refine (guards_insertLinkedListRecord o _).bind fun tid => ?_
  refine (guards_updateOldHead _ _ _ _).bind fun _ => ?_
  exact guards_underLock List.not_mem_nil _

theorem guards_npInternalInsertEdge (startV endV : Vertex) (e : Edge) (props : Gtype) :
    Guards (npInternalInsertEdge pages u s startV endV e props)
      (NeoPostGraph.npInternalInsertEdge u s startV endV e props) := by
  refine guards_afterLookup pages ((guards_writeEdgeTuple _ _ _).bind fun tid => ?_)
  refine (guards_setEdgeSlot _ _ _ _).bind fun _ => ?_
  refine (guards_insertEdgeOneDirection pages s startV endV e 0).bind fun _ => ?_
  exact guards_insertEdgeOneDirection pages s endV startV e 1

theorem guards_unlinkWalk (targetEdgeId : Nat) (tbl : Oid) (tid : ItemPointer) :
    Guards (unlinkWalk s targetEdgeId fuel tbl tid)
      (NeoPostGraph.unlinkWalk s targetEdgeId fuel tbl tid) := by
  induction fuel generalizing tbl tid with
  | zero => exact guards_lift _
  | succ fuel ih =>
    unfold unlinkWalk NeoPostGraph.unlinkWalk
    split
    · refine (guards_underLock List.not_mem_nil _).bind fun next => ?_
      cases next with
      | none => exact guards_ret ()
      | some next => exact ih next.1 next.2
    · exact guards_ret ()

theorem guards_npDeleteEdgeFromAdjList (vertexId vertexLabelId targetEdgeId : Nat) :
    Guards (npDeleteEdgeFromAdjList pages fuel s vertexId vertexLabelId targetEdgeId)
      (NeoPostGraph.npDeleteEdgeFromAdjList fuel s vertexId vertexLabelId targetEdgeId) := by
  refine guards_afterLookup pages ((guards_getCurrentHeadTid _ _ _).bind fun head => ?_)
  cases head with
  | none => exact guards_ret ()
  | some head => exact guards_unlinkWalk s fuel targetEdgeId head.1 head.2

theorem guards_npInternalDeleteEdge (edgeId : Nat) :
    Guards (npInternalDeleteEdge pages fuel s l edgeId)
      (NeoPostGraph.npInternalDeleteEdge fuel s l edgeId) := by
  refine guards_afterLookup pages ((guards_readEdgeSlot l edgeId _).bind fun rec => ?_)
  refine (guards_onEdgeTuple l rec.eItemptr _).bind fun e => ?_
  refine (guards_npDeleteEdgeFromAdjList pages s fuel _ _ _).bind fun _ => ?_
  exact guards_npDeleteEdgeFromAdjList pages s fuel _ _ _

theorem guards_deleteEdge (edgeId : Nat) :
    Guards (deleteEdge pages fuel s edgeId l) (NeoPostGraph.deleteEdge fuel s edgeId l) :=
  guards_npInternalDeleteEdge pages s l fuel edgeId

theorem guards_npInternalFetchVertex (vId : Nat) :
    Guards (npInternalFetchVertex pages s l vId) (NeoPostGraph.npInternalFetchVertex s l vId) :=
  guards_afterLookup pages
    ((guards_underLock List.not_mem_nil _).bind fun rec => guards_onVertexTuple l rec.vItemptr _)

theorem guards_npInternalFetchEdge (eId : Nat) :
    Guards (npInternalFetchEdge pages s l eId) (NeoPostGraph.npInternalFetchEdge s l eId) :=
  guards_afterLookup pages
    ((guards_underLock List.not_mem_nil _).bind fun rec => guards_onEdgeTuple l rec.eItemptr _)

theorem guards_insertMigrated (oldV newV neighborV : Vertex) (oId oLid : Nat) (e : Edge)
    (props : Gtype) : Guards (insertMigrated pages u s oldV newV neighborV oId oLid e props)
      (NeoPostGraph.insertMigrated u s oldV newV neighborV oId oLid e props) := by
  unfold insertMigrated NeoPostGraph.insertMigrated
  dsimp only
  split <;> exact guards_npInternalInsertEdge pages u s _ _ _ props

theorem guards_migrateRecord (oldV newV : Vertex) (rec : NeoLinkedListRecord) :
    Guards (migrateRecord pages u fuel s oldV newV rec)
      (NeoPostGraph.migrateRecord u fuel s oldV newV rec) := by
  unfold migrateRecord NeoPostGraph.migrateRecord
  split
  · exact guards_ret ()
  · refine (guards_npInternalFetchVertex pages s _ _).bind fun v => ?_
    refine (guards_npInternalFetchEdge pages s _ _).bind fun e => ?_
    refine (guards_npInternalDeleteEdge pages s _ fuel _).bind fun _ => ?_
    exact guards_insertMigrated pages u s oldV newV v _ _ _ _

theorem guards_migrateFetch (ms : List AdjListMember) :
    Guards (migrateFetch pages fuel s ms) (NeoPostGraph.migrateFetch fuel s ms) := by
  induction ms with
  | nil => exact guards_ret _
  | cons m ms ih =>
    unfold migrateFetch NeoPostGraph.migrateFetch
    split
    · exact ih
    · refine (guards_npInternalFetchVertex pages s _ _).bind fun v => ?_
      refine (guards_npInternalFetchEdge pages s _ _).bind fun e => ?_
      refine (guards_npInternalDeleteEdge pages s _ fuel _).bind fun _ => ?_
      exact ih.bind fun rest => guards_ret _

theorem guards_migrateInsert (oldV newV : Vertex) (saved : List (Vertex × Edge × Gtype)) :
    Guards (migrateInsert pages u s oldV newV saved)
      (NeoPostGraph.migrateInsert u s oldV newV saved) := by
  induction saved with
  | nil => exact guards_ret ()
  | cons x rest ih => exact (guards_insertMigrated pages u s oldV newV x.1 _ _ _ _).bind fun _ => ih

/-- **The migration of the edges**: by the nodes it visits. -/
theorem guards_migrateWalk (oldV newV : Vertex) (n : Nat) (tbl : Oid) (tid : ItemPointer) :
    Guards (migrateWalk pages u fuel s oldV newV n tbl tid)
      (NeoPostGraph.migrateWalk u fuel s oldV newV n tbl tid) := by
  induction n generalizing tbl tid with
  | zero => exact guards_lift _
  | succ n ih =>
    unfold migrateWalk NeoPostGraph.migrateWalk
    split
    · refine (guards_readBlock _ _ _).bind fun node => ?_
      rcases node with - | rec | rec
      · exact guards_ret ()
      · exact (guards_migrateRecord pages u s fuel oldV newV rec).bind fun _ => ih _ _
      · refine (guards_migrateFetch pages s fuel rec.adjList).bind fun saved => ?_
        exact (guards_migrateInsert pages u s oldV newV saved).bind fun _ => ih _ _
    · exact guards_ret ()

end Guards

end Locking

end NeoPostGraph
