import NeoPostGraph.Graph.Store
import NeoPostGraph.Visibility.Snapshot

/-!
# The catalog access method

`np_catalog_heap.c`: the tables behind the graph's own catalogs. An item is a heap tuple behind the
header the entity store has, and the tests on it are the ones of the entity store, but for a scan
with an MVCC snapshot.

The heap tuple is kept as its bytes. Its own transaction fields and its `t_ctid`, which the access
method fills in and never asks for, are left out.
-/

namespace NeoPostGraph

open SlottedPage

/-! ## Items -/

/-- `NPCatalogItemHeaderData`, with the bytes of the heap tuple. -/
structure CatalogItem extends RecordHeader where
  prevItemptr : ItemPointer
  flags : Nat
  heapTuple : List Nat
deriving DecidableEq, Repr

/-- `SizeOfNPCatalogItemHeader`. -/
def sizeOfNPCatalogItemHeader : Nat := 32

/-- `np_catalog_pack_size` (`np_catalog_heap.c:204-208`). -/
def npCatalogPackSize (tuple : List Nat) : Nat := sizeOfNPCatalogItemHeader + tuple.length

/-- `np_catalog_pack_item` (`np_catalog_heap.c:210-228`), as the writers call it: created here and
now, deleted by no one. -/
def npCatalogPackItem (s : Session) (prev : ItemPointer) (tuple : List Nat) : CatalogItem where
  xmin := s.fxid
  xmax := invalidFullTransactionId
  cmin := s.cid
  cmax := invalidCommandId
  prevItemptr := prev
  flags := 0
  heapTuple := tuple

/-- The kinds of snapshot a scan may come with, as far as the test tells them apart. -/
inductive SnapshotType where
  | mvcc
  | self
  | any
  | toast
  | dirty
deriving DecidableEq, Repr

/-- The MVCC branch of `np_catalog_tuple_visible`. -/
def catalogMvccVisible (x : XactState) (own : List Nat) (hdr : RecordHeader) (snapshot : Snapshot) :
    Bool :=
  let xmin := xidFromFull hdr.xmin
  let xmax := xidFromFull hdr.xmax
  if !fullXidIsValid hdr.xmin then false
  else if transactionIdIsCurrent own xmin then
    if snapshot.curcid ≤ hdr.cmin then false
    else if fullXidIsValid hdr.xmax && transactionIdIsCurrent own xmax then
      decide (snapshot.curcid ≤ hdr.cmax)
    else true
  else if xidInMVCCSnapshot xmin snapshot then false
  else if transactionIdIsInProgress x xmin || !transactionIdDidCommit x xmin then false
  else if !fullXidIsValid hdr.xmax then true
  else if transactionIdIsCurrent own xmax then decide (snapshot.curcid ≤ hdr.cmax)
  else if xidInMVCCSnapshot xmax snapshot then true
  else transactionIdIsInProgress x xmax || !transactionIdDidCommit x xmax

/-- `np_catalog_tuple_visible` (`np_catalog_heap.c:76-136`): every kind of snapshot but MVCC asks
`np_entity_tuple_is_live`, and so does no snapshot at all. -/
def npCatalogTupleVisible (x : XactState) (own : List Nat) (hdr : RecordHeader) :
    Option (SnapshotType × Snapshot) → Bool
  | some (.mvcc, snapshot) => catalogMvccVisible x own hdr snapshot
  | _ => npEntityTupleIsLive x own hdr

/-! ## Writes -/

/-- A graph with its catalogs. -/
structure Instance where
  db : Db
  catalogs : Oid → Option (Table CatalogItem)

/-- A step on a catalog. -/
def onCatalog {α : Type} (rel : Oid)
    (f : XactState → Table CatalogItem → Except Err (α × Table CatalogItem)) :
    Prog Instance Err α :=
  Prog.step fun i =>
    match i.catalogs rel with
    | none => .error (.couldNotOpenRelation rel)
    | some t => (f i.db.xacts t).map fun r =>
        (r.1, { i with catalogs := Function.update i.catalogs rel (some r.2) })

/-- `TM_Result`, as far as the writers return it. -/
inductive TmResult where
  | ok
  | invisible
  | updated
deriving DecidableEq, Repr

/-- Append an item. -/
def writeCatalogItem (rel : Oid) (item : CatalogItem) : Prog Instance Err ItemPointer :=
  onCatalog rel fun _ t => do
    let (t', tid) ← npWriteRecordToPage t item (npCatalogPackSize item.heapTuple)
    return (tid, t')

/-- `np_catalog_tuple_insert` (`np_catalog_heap.c:367-397`). -/
def npCatalogTupleInsert (s : Session) (rel : Oid) (tuple : List Nat) :
    Prog Instance Err ItemPointer :=
  writeCatalogItem rel (npCatalogPackItem s .invalid tuple)

/-- Stamp an item deleted. -/
def stampItem (s : Session) (item : CatalogItem) : CatalogItem :=
  { item with xmax := s.fxid, cmax := s.cid }

/-- The test `np_catalog_tuple_update` and `np_catalog_tuple_delete` begin with. -/
def checkItem (x : XactState) (own : List Nat) (item : CatalogItem) : TmResult :=
  if !npEntityTupleIsLive x own item.toRecordHeader then .invisible
  else if npEntityTupleXmaxOther x own item.toRecordHeader then .updated
  else .ok

/-- The first section of `np_catalog_tuple_update`: look at the old item. -/
def checkCatalogItem (s : Session) (rel : Oid) (otid : ItemPointer) : Prog Instance Err TmResult :=
  onCatalog rel fun x t => do
    let item ← readItem t otid .undefinedRead
    return (checkItem x s.own item, t)

/-- Its last section: stamp the old item. -/
def stampCatalogItem (s : Session) (rel : Oid) (otid : ItemPointer) : Prog Instance Err Unit :=
  onCatalog rel fun _ t => do
    let _ ← readItem t otid .undefinedRead
    return ((), t.modify otid (stampItem s))

/-- `np_catalog_tuple_update` (`np_catalog_heap.c:426-502`). -/
def npCatalogTupleUpdate (s : Session) (rel : Oid) (otid : ItemPointer) (tuple : List Nat) :
    Prog Instance Err TmResult := do
  match ← checkCatalogItem s rel otid with
  | .ok => do
    let _ ← writeCatalogItem rel (npCatalogPackItem s otid tuple)
    stampCatalogItem s rel otid
    return .ok
  | r => return r

/-- `np_catalog_tuple_delete` (`np_catalog_heap.c:504-542`): the test and the stamp are one
section. -/
def npCatalogTupleDelete (s : Session) (rel : Oid) (tid : ItemPointer) :
    Prog Instance Err TmResult :=
  onCatalog rel fun x t => do
    let item ← readItem t tid .undefinedRead
    match checkItem x s.own item with
    | .ok => return (.ok, t.modify tid (stampItem s))
    | r => return (r, t)

end NeoPostGraph
