import Mathlib.Logic.Function.Basic
import NeoPostGraph.Adjacency.Record
import NeoPostGraph.Lib.Program
import NeoPostGraph.PhysMap.Place

/-!
# The graph store

The relations of one graph, as the DML functions see them, and the atomic steps those functions are
made of. The graph id is fixed, so it is left out of the records.

* A vertex label owns an entity table, a physical map, an array-list relation, the meta table of
  its linked-list partitions and two sequences. An edge label owns an entity table and a physical
  map. Annotations are not modelled here: no label has an annotation table, so every `a_itemptr`
  that is written is invalid.
* The partitions and array lists of all labels live in one space of relations by oid, because an
  adjacency pointer names its relation by oid. `AdjRelation` tells the two formats apart as
  `natts` does: 10 columns for a linked list, 5 for an array list.
* The meta table is an ordinary catalog. Its rows are kept in one list; where a scan finds them
  does not matter, since at most one row is active and the ids are distinct.

Each step below is one buffer-locked section of the source: `Op` is a program of such steps.
-/

namespace NeoPostGraph

open SlottedPage

/-! ## Entities -/

/-- `vertex` (`vertex.h`). -/
structure Vertex where
  id : Nat
  labelId : Nat
  dictionaryId : Nat
deriving DecidableEq, Repr

/-- `edge` (`edge.h`). -/
structure Edge where
  id : Nat
  labelId : Nat
  dictionaryId : Nat
  startLabel : Nat
  startId : Nat
  endLabel : Nat
  endId : Nat
deriving DecidableEq, Repr

/-- `sizeof(vertex)`. -/
def sizeOfVertex : Nat := 32

/-- `sizeof(edge)`. -/
def sizeOfEdge : Nat := 56

/-- A `gtype` varlena: its content bytes. -/
structure Gtype where
  bytes : List Nat
deriving DecidableEq, Repr

/-- `VARSIZE`: the content and its 4-byte header. -/
def Gtype.varsize (g : Gtype) : Nat := 4 + g.bytes.length

/-- `np_empty_gtype_object`: an object container of no pairs (`GT_FOBJECT`, little-endian). -/
def npEmptyGtypeObject : Gtype := ⟨[0, 0, 0, 0x20]⟩

/-- `NPEntityTupleHeaderData`, less the serialized entity. -/
structure EntityHeader extends RecordHeader where
  prevItemptr : ItemPointer
  flags : Nat
  id : Nat
deriving DecidableEq, Repr

/-- An entity-store tuple: the header, then the packed vertex or edge and its properties. -/
structure EntityTuple (μ : Type) where
  hdr : EntityHeader
  entity : μ
  props : Gtype
deriving DecidableEq, Repr

/-- `SizeOfNPEntityTupleHeader`. -/
def sizeOfNPEntityTupleHeader : Nat := 40

/-- `np_entity_pack_size` (`np_entity_store.c:612-616`). -/
def npEntityPackSize (metaSize : Nat) (props : Gtype) : Nat := maxAlign metaSize + props.varsize

/-- The stored length of an entity tuple. -/
def totalTupleSize (metaSize : Nat) (props : Gtype) : Nat :=
  maxAlign (sizeOfNPEntityTupleHeader + npEntityPackSize metaSize props)

/-- `np_entity_tuple_is_live` (`np_entity_store.c:574-610`), for the transaction ids `own`. -/
def npEntityTupleIsLive (x : XactState) (own : List Nat) (hdr : RecordHeader) : Bool :=
  let xmin := xidFromFull hdr.xmin
  let xmax := xidFromFull hdr.xmax
  if !fullXidIsValid hdr.xmin then false
  else if transactionIdIsCurrent own xmin then
    !(fullXidIsValid hdr.xmax && transactionIdIsCurrent own xmax)
  else if transactionIdIsInProgress x xmin || !transactionIdDidCommit x xmin then false
  else if !fullXidIsValid hdr.xmax then true
  else if transactionIdIsCurrent own xmax then false
  else transactionIdIsInProgress x xmax || !transactionIdDidCommit x xmax

/-- `np_entity_tuple_xmax_other` (`np_entity_store.c:612-626`). -/
def npEntityTupleXmaxOther (x : XactState) (own : List Nat) (hdr : RecordHeader) : Bool :=
  let xmax := xidFromFull hdr.xmax
  if !fullXidIsValid hdr.xmax then false
  else if transactionIdIsCurrent own xmax then false
  else transactionIdIsInProgress x xmax

/-! ## Relations -/

/-- A row of a label's `linked_list_meta`: a partition and its state. -/
structure LinkedListMeta where
  id : Nat
  tbl : Oid
  active : Bool
  compacted : Bool
deriving DecidableEq, Repr

/-- The relations and sequences of a vertex label. -/
structure VertexLabel where
  vertexTbl : Table (EntityTuple Vertex)
  physMap : PhysMap NeoPhysMapRecord sizeOfNeoPhysMapRecord
  arraylist : Oid
  linkedListMeta : List LinkedListMeta
  /-- The next value of `linked_list_seq`. -/
  linkedListSeq : Nat
  /-- The next value of `np_vertex_id_seq`. -/
  vertexIdSeq : Nat

/-- The relations of an edge label. The label cache calls its entity table `vertex_tbl` too. -/
structure EdgeLabel where
  vertexTbl : Table (EntityTuple Edge)
  physMap : PhysMap NeoEdgePhysMapRecord sizeOfNeoEdgePhysMapRecord

/-- An adjacency relation, by the number of its columns. -/
inductive AdjRelation where
  /-- 10 columns. -/
  | linkedList (t : Table NeoLinkedListRecord)
  /-- 5 columns. -/
  | arrayList (t : Table NeoArrayListRecord)

/-- The state of one graph and of the transaction manager. -/
structure Db where
  xacts : XactState
  vlabels : Nat → Option VertexLabel
  elabels : Nat → Option EdgeLabel
  rels : Oid → Option AdjRelation
  /-- The next oid a new relation gets. -/
  nextOid : Oid

/-- The transaction and the command a session runs. -/
structure Session where
  /-- `GetTopFullTransactionId()`. -/
  fxid : Nat
  /-- `GetCurrentCommandId(true)`. -/
  cid : Nat
deriving DecidableEq, Repr

/-- The transaction ids of a session that has been assigned one. -/
def Session.own (s : Session) : List Nat := [s.fxid]

/-- What a session has just written is live to it. -/
theorem npEntityTupleIsLive_self {s : Session} (x : XactState) (hs : fullXidIsValid s.fxid = true)
    {hdr : RecordHeader} (hmin : hdr.xmin = s.fxid) (hmax : hdr.xmax = invalidFullTransactionId) :
    npEntityTupleIsLive x s.own hdr = true := by
  have hcur : transactionIdIsCurrent s.own (xidFromFull s.fxid) = true := by
    simp [transactionIdIsCurrent, Session.own]
  have hinv : fullXidIsValid invalidFullTransactionId = false := rfl
  unfold npEntityTupleIsLive
  simp only [hmin, hmax, hs, hcur, hinv, Bool.not_true, Bool.false_and, Bool.not_false, if_true]
  rfl

/-- What the source leaves to chance: the contents of uninitialised memory, the result of reading a
record through the wrong type, and the order of a hash table scan. -/
structure Unspecified where
  /-- The `a_itemptr` of the edge map record built on the stack for this edge. -/
  stackItemptr : Edge → ItemPointer
  /-- What `heap_deform_tuple` makes of an array block whose bytes give it some columns: the
  payload column and the next-pointer column, each possibly null. -/
  deformBlock : NeoArrayListRecord → Option (List AdjListMember) × Option ItemPointer
  /-- The order in which `hash_seq_search` returns the keys of a table filled in this order. -/
  hashOrder : List Nat → List Nat
  hashOrder_perm : ∀ l, (hashOrder l).Perm l

/-- One way to leave it to chance: invalid pointers, null columns, the keys as they come. -/
def exampleUnspecified : Unspecified where
  stackItemptr := fun _ => .invalid
  deformBlock := fun _ => (none, none)
  hashOrder := id
  hashOrder_perm := fun l => List.Perm.refl l

/-- A program over the graph. -/
abbrev Op := Prog Db Err

/-- Run programs one after the other, each by itself. -/
def execAll : List (Op Unit) → Db → Db
  | [], db => db
  | p :: ps, db => execAll ps (p.exec db).2

namespace Db

def setVertexLabel (db : Db) (l : Nat) (v : VertexLabel) : Db :=
  { db with vlabels := Function.update db.vlabels l (some v) }

def setEdgeLabel (db : Db) (l : Nat) (e : EdgeLabel) : Db :=
  { db with elabels := Function.update db.elabels l (some e) }

def setRel (db : Db) (o : Oid) (r : AdjRelation) : Db :=
  { db with rels := Function.update db.rels o (some r) }

end Db

/-! ## Steps -/

/-- A step on the relations of a vertex label; `e` is raised when there is no such label. -/
def onVertexLabel {α : Type} (l : Nat) (e : Err)
    (f : XactState → VertexLabel → Except Err (α × VertexLabel)) : Op α :=
  Prog.step fun db =>
    match db.vlabels l with
    | none => .error e
    | some v => (f db.xacts v).map fun x => (x.1, db.setVertexLabel l x.2)

/-- A step that reads the relations of a vertex label. -/
def readVertexLabel {α : Type} (l : Nat) (e : Err)
    (f : XactState → VertexLabel → Except Err α) : Op α :=
  Prog.read fun db =>
    match db.vlabels l with
    | none => .error e
    | some v => f db.xacts v

/-- A step on the relations of an edge label. -/
def onEdgeLabel {α : Type} (l : Nat) (e : Err)
    (f : XactState → EdgeLabel → Except Err (α × EdgeLabel)) : Op α :=
  Prog.step fun db =>
    match db.elabels l with
    | none => .error e
    | some v => (f db.xacts v).map fun x => (x.1, db.setEdgeLabel l x.2)

/-- A step that reads the relations of an edge label. -/
def readEdgeLabel {α : Type} (l : Nat) (e : Err)
    (f : XactState → EdgeLabel → Except Err α) : Op α :=
  Prog.read fun db =>
    match db.elabels l with
    | none => .error e
    | some v => f db.xacts v

/-- A step on an adjacency relation; opening a relation that does not exist is an error. -/
def onRel {α : Type} (o : Oid) (f : AdjRelation → Except Err (α × AdjRelation)) : Op α :=
  Prog.step fun db =>
    match db.rels o with
    | none => .error (.couldNotOpenRelation o)
    | some r => (f r).map fun x => (x.1, db.setRel o x.2)

/-- A step that reads an adjacency relation. -/
def readRel {α : Type} (o : Oid) (f : AdjRelation → Except Err α) : Op α :=
  Prog.read fun db =>
    match db.rels o with
    | none => .error (.couldNotOpenRelation o)
    | some r => f r

/-- `ReadBuffer`, then `ItemIdIsNormal`: a block past the end is PostgreSQL's error, a line pointer
that is not normal the caller's. -/
def readItem {α : Type} (t : Table α) (tid : ItemPointer) (e : Err) : Except Err α :=
  if t.nblocks ≤ tid.block then .error (.couldNotReadBlock tid.block)
  else match t.get tid with
    | none => .error e
    | some a => .ok a

/-- `np_write_record_to_page` (`np_entity_store.c:323-377`). -/
def npWriteRecordToPage {α : Type} (t : Table α) (data : α) (dataSize : Nat) :
    Except Err (Table α × ItemPointer) :=
  match t.write dataSize data with
  | none => .error .addTupleFailed
  | some x => .ok x

theorem readItem_of_get {α : Type} {t : Table α} {tid : ItemPointer} {a : α}
    (h : t.get tid = some a) (e : Err) : readItem t tid e = .ok a := by
  unfold readItem
  rw [if_neg (Nat.not_le.mpr (nblocks_of_get h)), h]

theorem readItem_ok {α : Type} {t : Table α} {tid : ItemPointer} {a : α} {e : Err}
    (h : readItem t tid e = .ok a) : t.get tid = some a := by
  unfold readItem at h
  split at h
  · cases h
  · cases hg : t.get tid with
    | none => simp [hg] at h
    | some b => simpa [hg] using h

end NeoPostGraph
