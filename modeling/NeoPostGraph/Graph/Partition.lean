import NeoPostGraph.Graph.Insert

/-!
# Linked-list partitions: rotation and compaction

`create_new_active_linked_list` (`np_label.c:2940-3001`) gives a label a new partition and makes it
the active one. `compact_oldest_linked_list_table` (`np_adj_list.c:378-570`) takes the oldest
inactive partition, groups its records by owner, and rewrites each group as array blocks between
the owner's newer records and its older blocks.

The hash table of the compaction maps each owner to an entry that is filled in scan order.
`hashEntry` computes the entry of an owner from the scanned records, and the owners are visited in
the order `Unspecified.hashOrder` gives them.
-/

namespace NeoPostGraph

open SlottedPage

/-! ## Rotation -/

/-- The meta update of `create_new_active_linked_list`: the first active row becomes inactive. -/
def deactivate : List LinkedListMeta → List LinkedListMeta
  | [] => []
  | row :: rows => if row.active then { row with active := false } :: rows else row :: deactivate rows

/-- The rows of a label after a rotation: those before, but for the active mark. -/
theorem exists_mem_deactivate {rows : List LinkedListMeta} {row : LinkedListMeta} (h : row ∈ rows) :
    ∃ row' ∈ deactivate rows, row'.id = row.id ∧ row'.tbl = row.tbl ∧
      row'.compacted = row.compacted := by
  induction rows with
  | nil => cases h
  | cons r rows ih =>
    unfold deactivate
    split
    · rcases List.mem_cons.mp h with rfl | h
      · exact ⟨_, List.mem_cons_self, rfl, rfl, rfl⟩
      · exact ⟨row, List.mem_cons_of_mem _ h, rfl, rfl, rfl⟩
    · rcases List.mem_cons.mp h with rfl | h
      · exact ⟨_, List.mem_cons_self, rfl, rfl, rfl⟩
      · obtain ⟨row', hr, he⟩ := ih h
        exact ⟨row', List.mem_cons_of_mem _ hr, he⟩

theorem exists_of_mem_deactivate {rows : List LinkedListMeta} {row' : LinkedListMeta}
    (h : row' ∈ deactivate rows) : ∃ row ∈ rows, row.id = row'.id ∧ row.tbl = row'.tbl ∧
      row.compacted = row'.compacted := by
  induction rows with
  | nil => cases h
  | cons r rows ih =>
    unfold deactivate at h
    split at h
    · rcases List.mem_cons.mp h with rfl | h
      · exact ⟨r, List.mem_cons_self, rfl, rfl, rfl⟩
      · exact ⟨row', List.mem_cons_of_mem _ h, rfl, rfl, rfl⟩
    · rcases List.mem_cons.mp h with rfl | h
      · exact ⟨_, List.mem_cons_self, rfl, rfl, rfl⟩
      · obtain ⟨row, hr, he⟩ := ih h
        exact ⟨row, List.mem_cons_of_mem _ hr, he⟩

/-- `nextval` on `linked_list_seq`. -/
def nextPartitionId (l : Nat) : Op Nat :=
  onVertexLabel l .noLinkedListSetup fun _ lab =>
    return (lab.linkedListSeq, { lab with linkedListSeq := lab.linkedListSeq + 1 })

/-- `create_vertex_label_linked_list_table`: an empty linked-list relation under a new oid. -/
def createLinkedListTable : Op Oid :=
  Prog.step fun db =>
    return (db.nextOid, { db.setRel db.nextOid (.linkedList Table.empty) with
      nextOid := db.nextOid + 1 })

/-- `create_new_active_linked_list` (`np_label.c:2940-3001`). -/
def createNewActiveLinkedList (l : Nat) : Op Oid := do
  let partitionId ← nextPartitionId l
  let newListOid ← createLinkedListTable
  onVertexLabel l .noLinkedListSetup fun _ lab =>
    return ((), { lab with
      linkedListMeta := deactivate lab.linkedListMeta ++ [⟨partitionId, newListOid, true, false⟩] })
  return newListOid

/-- `rotate_active_linked_list_table` (`np_label.c:3003-3056`). -/
def rotateActiveLinkedListTable (l : Nat) : Op Unit := do
  let _ ← createNewActiveLinkedList l

/-! ## The scan of a compaction -/

/-- One turn of the scan of `get_oldest_inactive_linked_list` (`np_adj_list.c:240-271`). -/
def olderInactive (best : Option LinkedListMeta) (row : LinkedListMeta) : Option LinkedListMeta :=
  if !row.active && !row.compacted then
    match best with
    | none => some row
    | some b => if row.id < b.id then some row else best
  else best

/-- That scan: the row of the least id among the inactive, uncompacted ones, the first such row on
equal ids. -/
def oldestInactive (rows : List LinkedListMeta) : Option LinkedListMeta := rows.foldl olderInactive none

/-- `get_oldest_inactive_linked_list`. -/
def getOldestInactiveLinkedList (l : Nat) : Op (Option Oid) :=
  readVertexLabel l (.labelNotFoundForGraph l) fun _ lab =>
    return (oldestInactive lab.linkedListMeta).map LinkedListMeta.tbl

/-- `CompactedVertexEntry`, less the owner it is stored under. -/
structure CompactedVertexEntry where
  adj : List AdjListMember
  upstreamTbl : Oid
  upstreamTid : ItemPointer
  downstreamTbl : Oid
  downstreamTid : ItemPointer
deriving DecidableEq, Repr

/-- The array member a linked-list record becomes. -/
def NeoLinkedListRecord.toMember (rec : NeoLinkedListRecord) : AdjListMember where
  xmin := rec.xmin
  xmax := rec.xmax
  cmin := rec.cmin
  cmax := rec.cmax
  flags := 0
  dir := rec.dir
  edgeId := rec.id
  edgeLid := rec.edgeLid
  otherId := rec.otherId
  otherLid := rec.otherLid

/-- A fresh entry. -/
def emptyEntry : CompactedVertexEntry := ⟨[], 0, .invalid, 0, .invalid⟩

/-- Add one scanned record to its owner's entry. -/
def addToEntry (oldestLlOid : Oid) (entry : CompactedVertexEntry) (rec : NeoLinkedListRecord) :
    CompactedVertexEntry :=
  let entry := { entry with adj := entry.adj ++ [rec.toMember] }
  let entry := if rec.prevTbl ≠ oldestLlOid then
    { entry with upstreamTbl := rec.prevTbl, upstreamTid := rec.prevItemptr } else entry
  if rec.nextTbl ≠ oldestLlOid ∧ rec.nextTbl ≠ 0 then
    { entry with downstreamTbl := rec.nextTbl, downstreamTid := rec.nextItemptr } else entry

/-- The entry of an owner after a scan that met these records. -/
def hashEntry (oldestLlOid : Oid) (recs : List NeoLinkedListRecord) (ownerId : Nat) :
    CompactedVertexEntry :=
  (recs.filter fun rec => rec.ownerId = ownerId).foldl (addToEntry oldestLlOid) emptyEntry

/-- The keys of the hash table, each once. -/
def hashOwners (recs : List NeoLinkedListRecord) : List Nat :=
  (recs.map NeoLinkedListRecord.ownerId).dedup

/-- The records on one block of a partition, in offset order. -/
def scanBlock (o : Oid) (blk : Nat) : Op (List NeoLinkedListRecord) :=
  readRel o fun r =>
    match r with
    | .linkedList t =>
      return (t.entries.filter fun x => x.1.block = blk).map Prod.snd
    | .arrayList _ => .error (.couldNotOpenRelation o)

/-- The scan of the partition, block by block. -/
def scanBlocks (o : Oid) : List Nat → Op (List NeoLinkedListRecord)
  | [] => return []
  | blk :: blks => do
    let recs ← scanBlock o blk
    let rest ← scanBlocks o blks
    return recs ++ rest

/-- The number of blocks of a partition. -/
def relationBlocks (o : Oid) : Op Nat :=
  readRel o fun r =>
    match r with
    | .linkedList t => return t.nblocks
    | .arrayList t => return t.nblocks

/-! ## Rewriting one owner's records -/

/-- `np_merge_existing_arraylist` (`np_adj_list.c:82-119`), its read: the block's members and next
pointer, nothing when the line pointer is not normal. -/
def readArraylistBlock (o : Oid) (targetTid : ItemPointer) :
    Op (List AdjListMember × ItemPointer) :=
  readRel o fun r =>
    match r with
    | .linkedList _ => .error (.couldNotOpenRelation o)
    | .arrayList t =>
      if t.nblocks ≤ targetTid.block then .error (.couldNotReadBlock targetTid.block)
      else match t.get targetTid with
        | none => return ([], .invalid)
        | some rec => return (rec.adjList, rec.nextItemptr)

/-- `delete_arraylist_record` (`np_adj_list.c:53-74`). -/
def deleteArraylistRecord (s : Session) (o : Oid) (targetTid : ItemPointer) : Op Unit :=
  onRel o fun r =>
    match r with
    | .linkedList _ => .error (.couldNotOpenRelation o)
    | .arrayList t =>
      return ((), .arrayList (t.modify targetTid fun rec =>
        { rec with xmax := s.fxid, cmax := s.cid }))

/-- `np_merge_existing_arraylist` (`np_adj_list.c:82-119`): the members the list grows by, and the
block after the merged one. -/
def npMergeExistingArraylist (s : Session) (o : Oid) (targetTid : ItemPointer)
    (adj : List AdjListMember) : Op (List AdjListMember × ItemPointer) := do
  let (oldAdj, nextTid) ← readArraylistBlock o targetTid
  deleteArraylistRecord s o targetTid
  return (adj ++ oldAdj, nextTid)

/-- An item pointer as `np_insert_arraylist_block` stores it: a null column when invalid. -/
def storedItemPointer (p : ItemPointer) : ItemPointer := if p.isValid then p else .invalid

/-- `np_insert_arraylist_block` (`np_adj_list.c:125-165`). -/
def npInsertArraylistBlock (s : Session) (o : Oid) (vertexId : Nat) (adj : List AdjListMember)
    (prevTbl : Oid) (prevTid nextTid : ItemPointer) : Op ItemPointer :=
  onRel o fun r =>
    match r with
    | .linkedList _ => .error (.couldNotOpenRelation o)
    | .arrayList t => do
      let newRec : NeoArrayListRecord :=
        { xmin := s.fxid
          xmax := invalidFullTransactionId
          cmin := s.cid
          cmax := invalidCommandId
          flags := 0
          ownerId := vertexId
          prevTbl := prevTbl
          prevItemptr := storedItemPointer prevTid
          nextItemptr := storedItemPointer nextTid
          adjList := adj }
      let (t', tid) ← npWriteRecordToPage t newRec (arrayListSize adj.length)
      return (tid, .arrayList t')

/-- `np_update_arraylist_next_pointer_inplace` (`np_adj_list.c:279-309`). -/
def npUpdateArraylistNextPointerInplace (o : Oid) (tid newNextTid : ItemPointer) : Op Unit :=
  onRel o fun r =>
    match r with
    | .linkedList _ => .error .unknownUpstreamFormat
    | .arrayList t => do
      let _ ← readItem t tid .nextOnInvalidArraylist
      return ((), .arrayList (t.modify tid fun rec => { rec with nextItemptr := newNextTid }))

/-- The chunks `np_insert_chunked_arraylist` cuts a list into. -/
def chunks (adj : List AdjListMember) : List (List AdjListMember) :=
  (List.range ((adj.length + maxEdgesPerBlock - 1) / maxEdgesPerBlock)).map fun i =>
    (adj.drop (i * maxEdgesPerBlock)).take maxEdgesPerBlock

/-- The loop of `np_insert_chunked_arraylist`: insert each chunk behind the one before it, the last
one in front of the downstream block. `first` is the tid of the first chunk, once inserted. -/
def insertChunks (s : Session) (o : Oid) (vertexId : Nat) (downstreamTid : ItemPointer) :
    List (List AdjListMember) → Oid → ItemPointer → Option ItemPointer → Op ItemPointer
  | [], _, _, first => return first.getD .invalid
  | chunk :: rest, currentPrevTbl, currentPrevTid, first => do
    let nextTid := if rest.isEmpty then downstreamTid else .invalid
    let newTid ← npInsertArraylistBlock s o vertexId chunk currentPrevTbl currentPrevTid nextTid
    match first with
    | none => insertChunks s o vertexId downstreamTid rest o newTid (some newTid)
    | some firstTid => do
      npUpdateArraylistNextPointerInplace o currentPrevTid newTid
      insertChunks s o vertexId downstreamTid rest o newTid (some firstTid)

/-- `np_insert_chunked_arraylist` (`np_adj_list.c:311-376`). -/
def npInsertChunkedArraylist (s : Session) (o : Oid) (vertexId : Nat) (adj : List AdjListMember)
    (prevTbl : Oid) (prevTid downstreamTid : ItemPointer) : Op ItemPointer :=
  insertChunks s o vertexId downstreamTid (chunks adj) prevTbl prevTid none

/-- Step 4 of the compaction: point the upstream record, block or physical map at the new chain,
by the format of the upstream relation. -/
def wireUpstream (l ownerId : Nat) (arraylistOid upstreamTbl : Oid)
    (upstreamTid newArrayTid : ItemPointer) : Op Unit :=
  if oidIsValid upstreamTbl then
    onRel upstreamTbl fun r =>
      match r with
      | .linkedList t => do
        let _ ← readItem t upstreamTid .nextOnInvalidTuple
        return ((), .linkedList (t.modify upstreamTid fun rec =>
          { rec with nextTbl := arraylistOid, nextItemptr := newArrayTid }))
      | .arrayList t => do
        let _ ← readItem t upstreamTid .nextOnInvalidArraylist
        return ((), .arrayList (t.modify upstreamTid fun rec =>
          { rec with nextItemptr := newArrayTid }))
  else writeHead l ownerId arraylistOid newArrayTid

/-- Step 1 of the compaction of an entry: append the downstream block, if there is one, to the
list. -/
def mergeDownstream (s : Session) (arraylistOid : Oid) (entry : CompactedVertexEntry) :
    Op (List AdjListMember × ItemPointer) :=
  if entry.downstreamTid.isValid then
    npMergeExistingArraylist s arraylistOid entry.downstreamTid entry.adj
  else return (entry.adj, .invalid)

/-- The rewrite of one owner's entry. -/
def compactEntry (s : Session) (l : Nat) (arraylistOid : Oid) (ownerId : Nat)
    (entry : CompactedVertexEntry) : Op Unit := do
  let (adj, nextArrayTid) ← mergeDownstream s arraylistOid entry
  let newArrayTid ← npInsertChunkedArraylist s arraylistOid ownerId adj entry.upstreamTbl
    entry.upstreamTid nextArrayTid
  wireUpstream l ownerId arraylistOid entry.upstreamTbl entry.upstreamTid newArrayTid

/-- Rewrite the entries of these owners, in order. -/
def compactOwners (s : Session) (l : Nat) (arraylistOid oldestLlOid : Oid)
    (recs : List NeoLinkedListRecord) : List Nat → Op Unit
  | [] => return ()
  | ownerId :: rest => do
    compactEntry s l arraylistOid ownerId (hashEntry oldestLlOid recs ownerId)
    compactOwners s l arraylistOid oldestLlOid recs rest

/-- The last update of the compaction: the partition's row is marked compacted. -/
def markCompacted (oldestLlOid : Oid) : List LinkedListMeta → List LinkedListMeta
  | [] => []
  | row :: rows =>
    if row.tbl = oldestLlOid then { row with compacted := true } :: rows
    else row :: markCompacted oldestLlOid rows

/-- Find the partition to compact, rotating first when there is none. -/
def chooseOldest (l : Nat) : Op Oid := do
  match ← getOldestInactiveLinkedList l with
  | some o => return o
  | none =>
    let _ ← createNewActiveLinkedList l
    match ← getOldestInactiveLinkedList l with
    | some o => return o
    | none => Prog.fail .compactionRotateFailed

/-- `compact_oldest_linked_list_table` (`np_adj_list.c:378-570`). -/
def compactOldestLinkedListTable (u : Unspecified) (s : Session) (l : Nat) : Op Unit := do
  let arraylistOid ← readVertexLabel l (.labelNotFoundForGraph l) fun _ lab => return lab.arraylist
  let oldestLlOid ← chooseOldest l
  let nblocks ← relationBlocks oldestLlOid
  let recs ← scanBlocks oldestLlOid (List.range nblocks)
  compactOwners s l arraylistOid oldestLlOid recs (u.hashOrder (hashOwners recs))
  onVertexLabel l (.labelNotFoundForGraph l) fun _ lab =>
    return ((), { lab with linkedListMeta := markCompacted oldestLlOid lab.linkedListMeta })

end NeoPostGraph
