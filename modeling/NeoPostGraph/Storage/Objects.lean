import NeoPostGraph.Graph.Partition
import NeoPostGraph.Storage.RelName

/-!
# The relations a graph is stored in

`create_graph` makes the catalogs of a graph, and the calls that make labels, rotate partitions or add
annotations make tables, sequences and indexes as they need them. `drop_graph` (`np_graph.c:490-562`)
finds them again: by the oids in the row of the graph and in the rows of its label catalogs, through the
partitions' `linked_list_meta`, and some by their names.

* `ObjectDb`: the relations, `np_graph`, and the rows of catalogs that name relations.
* `createGraph`, `buildVertexLabelInfrastructure`, `buildEdgeLabel`, …: the calls, as far as they make
  relations. Which labels a call makes is decided by paths, see `createVlabel` and `createElabel`; each label is
  made by one of these routines.
* `dropGraph`: what finds and drops them.
* `StorageRun`: calls in commands and transactions.

A row of an edge label that is written anew is read as it was until the next command: all other writes
end with a `CommandCounterIncrement`.
-/

namespace NeoPostGraph.Storage

/-- The schema of the extension. -/
def npNamespaceId : Oid := 1

/-- A row of `pg_class`. -/
structure PgClass where
  oid : Oid
  relname : RelName
  relnamespace : Oid
  /-- The table an index is on. -/
  indrelid : Option Oid
deriving DecidableEq, Repr

/-- A row of `np_vertex_label_%d`: the columns that name relations. -/
structure VertexLabelRow where
  id : Nat
  tbl : Oid
  physMap : Oid
  linkedListMeta : Oid
  linkedListSeq : Oid
  arraylist : Oid
  annotationsTbl : Oid
deriving DecidableEq, Repr

/-- A row of `np_edge_label_%d`: the columns that name relations. -/
structure EdgeLabelRow where
  id : Nat
  tbl : Oid
  physMap : Oid
  annotationsTbl : Option Oid
  /-- The column as the running command reads it. -/
  annotationsSeen : Option Oid
deriving DecidableEq, Repr

/-- A row of `np_graph`. -/
structure NpGraphRow where
  id : Nat
  name : String
  namespaceOid : Oid
  vertexLabels : Oid
  vertexIdSeq : Oid
  edgeLabels : Oid
  edgeIdSeq : Oid
  annotSchemaTbl : Oid
  annotSchemaPhysMap : Oid
deriving DecidableEq, Repr

/-- The relations, and what the catalogs say about them. -/
structure ObjectDb where
  pgClass : List PgClass
  npGraph : List NpGraphRow
  vertexLabels : Oid → List VertexLabelRow
  edgeLabels : Oid → List EdgeLabelRow
  linkedListMeta : Oid → List LinkedListMeta
  /-- The last value of a sequence. -/
  seqs : Oid → Nat
  npGraphIdSeq : Nat
  nextOid : Oid

inductive StorageErr where
  /-- Raised by `CREATE TABLE`, `CREATE SEQUENCE` and `CREATE INDEX`. -/
  | relationExists (name : RelName)
  | couldNotOpenRelation (o : Oid)
  /-- `np_relation_id`. -/
  | undefinedTable (name : RelName)
  /-- `create_graph`. -/
  | graphExists (name : String)
  | graphDoesNotExist (name : String)
  | graphIdNotFound (graphId : Nat)
  /-- `rotate_active_linked_list_table_internal`. -/
  | noLinkedListSetup
  /-- `compact_oldest_linked_list_table`. -/
  | labelNotFoundForGraph (labelId : Nat)
  | compactionRotateFailed
deriving DecidableEq, Repr

/-- A program on the relations. -/
abbrev StorageOp := Prog ObjectDb StorageErr

/-! ## Relations -/

/-- The row as a new command reads it. -/
def EdgeLabelRow.see (row : EdgeLabelRow) : EdgeLabelRow := { row with annotationsSeen := row.annotationsTbl }

namespace ObjectDb

/-- `CommandCounterIncrement`. -/
def commandCounterIncrement (db : ObjectDb) : ObjectDb :=
  { db with edgeLabels := fun o => (db.edgeLabels o).map EdgeLabelRow.see }

/-- There is a relation of this oid. -/
def Exists (db : ObjectDb) (o : Oid) : Prop := ∃ c ∈ db.pgClass, c.oid = o

instance (db : ObjectDb) : DecidablePred db.Exists := fun o =>
  inferInstanceAs (Decidable (∃ c ∈ db.pgClass, c.oid = o))

/-- `get_relname_relid`. -/
def getRelnameRelid (db : ObjectDb) (name : RelName) (ns : Oid) : Option Oid :=
  (db.pgClass.find? fun c => c.relname = name ∧ c.relnamespace = ns).map PgClass.oid

/-- The rows of a catalog of vertex labels, of edge labels, of the partitions of a label. -/
def setVertexLabels (rel : Oid) (rows : List VertexLabelRow) (db : ObjectDb) : ObjectDb :=
  { db with vertexLabels := Function.update db.vertexLabels rel rows }

def setEdgeLabels (rel : Oid) (rows : List EdgeLabelRow) (db : ObjectDb) : ObjectDb :=
  { db with edgeLabels := Function.update db.edgeLabels rel rows }

def setLinkedListMeta (rel : Oid) (rows : List LinkedListMeta) (db : ObjectDb) : ObjectDb :=
  { db with linkedListMeta := Function.update db.linkedListMeta rel rows }

/-- A sequence gives its next value. -/
def advance (seq : Oid) (db : ObjectDb) : ObjectDb :=
  { db with seqs := Function.update db.seqs seq (db.seqs seq + 1) }

section Rows

variable (db : ObjectDb) {rel o : Oid}

theorem setVertexLabels_self (rows : List VertexLabelRow) :
    (db.setVertexLabels rel rows).vertexLabels rel = rows := Function.update_self ..

theorem setVertexLabels_of_ne (rows : List VertexLabelRow) (h : o ≠ rel) :
    (db.setVertexLabels rel rows).vertexLabels o = db.vertexLabels o := Function.update_of_ne h ..

theorem setEdgeLabels_self (rows : List EdgeLabelRow) :
    (db.setEdgeLabels rel rows).edgeLabels rel = rows := Function.update_self ..

theorem setEdgeLabels_of_ne (rows : List EdgeLabelRow) (h : o ≠ rel) :
    (db.setEdgeLabels rel rows).edgeLabels o = db.edgeLabels o := Function.update_of_ne h ..

theorem setLinkedListMeta_self (rows : List LinkedListMeta) :
    (db.setLinkedListMeta rel rows).linkedListMeta rel = rows := Function.update_self ..

theorem setLinkedListMeta_of_ne (rows : List LinkedListMeta) (h : o ≠ rel) :
    (db.setLinkedListMeta rel rows).linkedListMeta o = db.linkedListMeta o := Function.update_of_ne h ..

theorem seqs_advance_self (s : Oid) : (db.advance s).seqs s = db.seqs s + 1 := Function.update_self ..

theorem seqs_le_advance (s o : Oid) : db.seqs o ≤ (db.advance s).seqs o := by
  unfold advance
  dsimp only
  by_cases ho : o = s
  · subst ho
    rw [Function.update_self]
    omega
  · rw [Function.update_of_ne ho]

end Rows

/-- A relation is added under the next oid. -/
def addRelation (name : RelName) (ns : Oid) (indrelid : Option Oid) (db : ObjectDb) : ObjectDb :=
  commandCounterIncrement { db with
    pgClass := db.pgClass ++ [⟨db.nextOid, name, ns, indrelid⟩]
    nextOid := db.nextOid + 1 }

/-- `performDeletion` of a relation: its indexes go with it, and its rows. -/
def dropRelation (o : Oid) (db : ObjectDb) : ObjectDb :=
  commandCounterIncrement { db with
    pgClass := db.pgClass.filter fun c => c.oid ≠ o ∧ c.indrelid ≠ some o
    vertexLabels := Function.update db.vertexLabels o []
    edgeLabels := Function.update db.edgeLabels o []
    linkedListMeta := Function.update db.linkedListMeta o [] }

end ObjectDb

/-- Make a relation. -/
def createRelation (name : RelName) (ns : Oid) (indrelid : Option Oid) : StorageOp Oid :=
  Prog.step fun db =>
    if ∃ c ∈ db.pgClass, c.relname = name ∧ c.relnamespace = ns then .error (.relationExists name)
    else .ok (db.nextOid, db.addRelation name ns indrelid)

/-- `np_relation_id`. -/
def npRelationId (name : RelName) : StorageOp Oid :=
  Prog.read fun db =>
    match db.getRelnameRelid name npNamespaceId with
    | some o => .ok o
    | none => .error (.undefinedTable name)

/-- `execute_internal_create_index`, on a table of the extension's schema. -/
def createIndex (tblName name : RelName) : StorageOp Unit := do
  let tbl ← npRelationId tblName
  let _ ← createRelation name npNamespaceId (some tbl)

/-- A table or a sequence. -/
def createTable (name : RelName) (ns : Oid) : StorageOp Oid := createRelation name ns none

/-- `nextval_oid`. -/
def nextval (seq : Oid) : StorageOp Nat :=
  Prog.step fun db =>
    if db.Exists seq then .ok (db.seqs seq + 1, db.advance seq)
    else .error (.couldNotOpenRelation seq)

/-! ## Labels -/

/-- `insert_vertex_ll_meta` (`np_label.c:542-561`). -/
def insertVertexLlMeta (g l : Nat) (ns : Oid) (row : LinkedListMeta) : StorageOp Unit :=
  Prog.write fun db =>
    match db.getRelnameRelid (.vertex g l .linkedListMeta) ns with
    | some o => .ok (db.setLinkedListMeta o (db.linkedListMeta o ++ [row])).commandCounterIncrement
    | none => .error (.couldNotOpenRelation 0)

/-- `insert_vertex_label` (`np_label.c:567-629`). -/
def insertVertexLabel (g : Nat) (row : VertexLabelRow) : StorageOp Unit := do
  let rel ← npRelationId (.graph g .vertexLabel)
  Prog.write fun db =>
    .ok (db.setVertexLabels rel (db.vertexLabels rel ++ [row])).commandCounterIncrement

/-- `insert_label` (`np_label.c:631-690`). -/
def insertLabel (g : Nat) (row : EdgeLabelRow) : StorageOp Unit := do
  let rel ← npRelationId (.graph g .edgeLabel)
  Prog.write fun db => .ok (db.setEdgeLabels rel (db.edgeLabels rel ++ [row])).commandCounterIncrement

/-- `create_vertex_property_dictionary` and its index (`dictionary.c:106-204`). -/
def createVertexPropertyDictionary (g l : Nat) : StorageOp Unit := do
  let _ ← createTable (.vertex g l .dictionary) npNamespaceId
  let _ ← createTable (.vertex g l .dictionarySeq) npNamespaceId
  createIndex (.vertex g l .dictionary) (.vertex g l .dictionaryIndex)

/-- `build_vertex_label_infrastructure` (`label_commands.c:184-241`). -/
def buildVertexLabelInfrastructure (g l : Nat) (ns : Oid) : StorageOp Unit := do
  let vertexTbl ← createTable (.vertex g l .tbl) ns
  let physMap ← createTable (.vertex g l .physMap) ns
  let arraylist ← createTable (.vertex g l .arraylist) ns
  let llSeq ← createTable (.vertex g l .linkedListSeq) npNamespaceId
  let llId ← nextval llSeq
  let llTable ← createTable (.vertex g l (.linkedList llId)) ns
  let llMeta ← createTable (.vertex g l .linkedListMeta) ns
  insertVertexLlMeta g l ns ⟨llId, llTable, true, false⟩
  let annotationsTbl ← createTable (.vertex g l .annotations) ns
  insertVertexLabel g ⟨l, vertexTbl, physMap, llMeta, llSeq, arraylist, annotationsTbl⟩
  let _ ← createTable (.vertex g l .idSeq) npNamespaceId
  createVertexPropertyDictionary g l

/-- A table for annotations, where the label has any. -/
def createEdgeAnnotations (g l : Nat) (ns : Oid) (annotated : Bool) : StorageOp (Option Oid) :=
  if annotated then do
    let o ← createTable (.edge g l .annotations) ns
    return some o
  else return none

/-- The tables and the sequence of an edge label, with a table for annotations or without
(`np_label.c:225-298, 399-481`, `label_commands.c:154-183`, `dml_labels.c:2061-2110, 2171-2216`). -/
def buildEdgeLabel (g l : Nat) (ns : Oid) (annotated : Bool) : StorageOp Unit := do
  let edgeTbl ← createTable (.edge g l .tbl) ns
  let physMap ← createTable (.edge g l .physMap) ns
  let annotTbl ← createEdgeAnnotations g l ns annotated
  insertLabel g ⟨l, edgeTbl, physMap, annotTbl, annotTbl⟩
  let _ ← createTable (.edge g l .idSeq) npNamespaceId

/-! ## Creating a graph -/

/-- `search_graph_name_namespace_cache`. -/
def ObjectDb.searchGraph (db : ObjectDb) (name : String) (ns : Oid) : Option NpGraphRow :=
  db.npGraph.find? fun graph => graph.name = name ∧ graph.namespaceOid = ns

/-- The graph of a name, or an error. -/
def findGraph (name : String) (ns : Oid) : StorageOp NpGraphRow :=
  Prog.read fun db =>
    match db.searchGraph name ns with
    | some graph => .ok graph
    | none => .error (.graphDoesNotExist name)

/-- `search_graph_id_cache`. -/
def findGraphById (graphId : Nat) : StorageOp NpGraphRow :=
  Prog.read fun db =>
    match db.npGraph.find? fun graph => graph.id = graphId with
    | some graph => .ok graph
    | none => .error (.graphIdNotFound graphId)

/-- `setup_vertex_label_catalog` (`label_commands.c:114-126`): the sequence and the catalog. -/
def setupVertexLabelCatalog (g : Nat) (ns : Oid) : StorageOp (Oid × Oid) := do
  let seq ← createTable (.graph g .vertexLabelIdSeq) ns
  let labels ← createTable (.graph g .vertexLabel) npNamespaceId
  createIndex (.graph g .vertexLabel) (.graph g .vertexLabelBtreeIdx)
  createIndex (.graph g .vertexLabel) (.graph g .vertexLabelGistIdx)
  let l ← nextval seq
  buildVertexLabelInfrastructure g l ns
  return (seq, labels)

/-- `setup_edge_label_catalog` (`label_commands.c:128-140`). -/
def setupEdgeLabelCatalog (g : Nat) (ns : Oid) : StorageOp (Oid × Oid) := do
  let seq ← createTable (.graph g .edgeLabelIdSeq) ns
  let labels ← createTable (.graph g .edgeLabel) npNamespaceId
  createIndex (.graph g .edgeLabel) (.graph g .edgeLabelBtreeIdx)
  createIndex (.graph g .edgeLabel) (.graph g .edgeLabelGistIdx)
  let l ← nextval seq
  buildEdgeLabel g l ns false
  return (seq, labels)

/-- `create_label_catalog_table`. -/
def createLabelCatalogTable (g : Nat) : StorageOp Unit := do
  let _ ← createTable (.graph g .labelCatalog) npNamespaceId
  createIndex (.graph g .labelCatalog) (.graph g .labelCatalogIdx)

/-- `nextval` on `np_graph_id_seq`. -/
def nextGraphId : StorageOp Nat :=
  Prog.step fun db => .ok (db.npGraphIdSeq + 1, { db with npGraphIdSeq := db.npGraphIdSeq + 1 })

/-- `insert_graph`. -/
def insertGraph (row : NpGraphRow) : StorageOp Unit :=
  Prog.write fun db => .ok (.commandCounterIncrement { db with npGraph := db.npGraph ++ [row] })

/-- The check of `create_graph` that there is no graph of the name. -/
def checkNoGraph (name : String) (ns : Oid) : StorageOp Unit :=
  Prog.read fun db =>
    match db.searchGraph name ns with
    | some _ => .error (.graphExists name)
    | none => .ok ()

/-- `create_graph` (`np_graph.c:46-96`). -/
def createGraph (name : String) (ns : Oid) : StorageOp Unit := do
  checkNoGraph name ns
  let g ← nextGraphId
  let (vertexIdSeq, vertexLabels) ← setupVertexLabelCatalog g ns
  let (edgeIdSeq, edgeLabels) ← setupEdgeLabelCatalog g ns
  let schemaTbl ← createTable (.graph g .annotationSchema) ns
  let schemaPmap ← createTable (.graph g .annotationSchemaPhysMap) ns
  createLabelCatalogTable g
  insertGraph ⟨g, name, ns, vertexLabels, vertexIdSeq, edgeLabels, edgeIdSeq, schemaTbl, schemaPmap⟩

/-! ## The calls that make relations later -/

/-- `create_vlabel_internal` and `merge_vlabels_internal` (`label_commands.c:386-440, 526-640`). -/
def createVlabel (name : String) (ns : Oid) : StorageOp Unit := do
  let graph ← findGraph name ns
  let l ← nextval graph.vertexIdSeq
  buildVertexLabelInfrastructure graph.id l ns

/-- `RangeVarGetRelid` of a name without a schema, whatever the search path has found. -/
def rangeVarGetRelid (name : RelName) : StorageOp Oid :=
  Prog.read fun db =>
    match db.pgClass.find? fun c => c.relname = name with
    | some c => .ok c.oid
    | none => .error (.undefinedTable name)

/-- `create_vlabel_from_path_internal` (`dml_labels.c:1081-1112`): the label's relations are in the
extension's schema. -/
def createVlabelFromPath (graphId : Nat) : StorageOp Unit := do
  let graph ← findGraphById graphId
  let seq ← rangeVarGetRelid (.graph graph.id .vertexLabelIdSeq)
  let l ← nextval seq
  buildVertexLabelInfrastructure graph.id l npNamespaceId

/-- `create_elabel_internal` and `merge_elabels_internal`. -/
def createElabel (name : String) (ns : Oid) (annotated : Bool) : StorageOp Unit := do
  let graph ← findGraph name ns
  let l ← nextval graph.edgeIdSeq
  buildEdgeLabel graph.id l ns annotated

/-- The labels that `resolve_or_create_target_edge_label` and `resolve_target_edge_label_for_removal`
make themselves. -/
def forgeEdgeLabel (graphId : Nat) (annotated : Bool) : StorageOp Unit := do
  let graph ← findGraphById graphId
  let l ← nextval graph.edgeIdSeq
  buildEdgeLabel graph.id l graph.namespaceOid annotated

/-- `np_catalog_update` of an edge label, with its table for annotations: no
`CommandCounterIncrement` follows. -/
def updateAnnotationsTbl (rel : Oid) (labelId : Nat) (o : Oid) : StorageOp Unit :=
  Prog.write fun db => .ok (db.setEdgeLabels rel ((db.edgeLabels rel).map fun row =>
    if row.id = labelId then { row with annotationsTbl := some o } else row))

/-- `np_apply_add_annotation_to_tuple` (`np_label.c:1846-1988`) on an edge label: a table for annotations
if the row has none. -/
def npApplyAddAnnotationToTuple (g : Nat) (ns rel : Oid) (row : EdgeLabelRow) : StorageOp Unit :=
  match row.annotationsSeen with
  | some _ => return ()
  | none => do
    let o ← createTable (.edge g row.id .annotations) ns
    updateAnnotationsTbl rel row.id o

/-- The loop over the labels. -/
def forEachRow (apply : EdgeLabelRow → StorageOp Unit) : List EdgeLabelRow → StorageOp Unit
  | [] => return ()
  | row :: rest => do
    apply row
    forEachRow apply rest

/-- `add_annotation_label` (`np_label.c:2209-2305`), on the edge labels that get the annotation. A vertex
label has a table for annotations from the beginning. -/
def addAnnotationLabel (name : String) (ns : Oid) (labelIds : List Nat) : StorageOp Unit := do
  let graph ← findGraph name ns
  let rel ← npRelationId (.graph graph.id .edgeLabel)
  let tups ← Prog.read fun db => .ok ((db.edgeLabels rel).filter fun row => row.id ∈ labelIds)
  forEachRow (npApplyAddAnnotationToTuple graph.id ns rel) tups

/-- `search_vertex_label_graph_id_label_id_cache`. -/
def findVertexLabel (graph : NpGraphRow) (l : Nat) (e : StorageErr) : StorageOp VertexLabelRow :=
  Prog.read fun db =>
    match (db.vertexLabels graph.vertexLabels).find? fun row => row.id = l with
    | some row => .ok row
    | none => .error e

/-- `create_new_active_linked_list` (`np_label.c:2940-3001`). -/
def createNewActiveLinkedList (g l : Nat) (label : VertexLabelRow) (ns : Oid) : StorageOp Unit := do
  let partitionId ← nextval label.linkedListSeq
  let newListOid ← createTable (.vertex g l (.linkedList partitionId)) ns
  Prog.write fun db => .ok (db.setLinkedListMeta label.linkedListMeta
    (deactivate (db.linkedListMeta label.linkedListMeta) ++
      [⟨partitionId, newListOid, true, false⟩])).commandCounterIncrement

/-- `rotate_active_linked_list_table` (`np_label.c:3003-3056`). -/
def rotateActiveLinkedListTable (name : String) (ns : Oid) (l : Nat) : StorageOp Unit := do
  let graph ← findGraph name ns
  let label ← findVertexLabel graph l .noLinkedListSetup
  createNewActiveLinkedList graph.id l label ns

/-- `get_oldest_inactive_linked_list`. -/
def getOldestInactiveLinkedList (metaOid : Oid) : StorageOp (Option Oid) :=
  Prog.read fun db => .ok ((oldestInactive (db.linkedListMeta metaOid)).map LinkedListMeta.tbl)

/-- The partition that a compaction takes, after a rotation if there is none. -/
def chooseOldest (g l : Nat) (label : VertexLabelRow) (ns : Oid) : StorageOp Oid := do
  match ← getOldestInactiveLinkedList label.linkedListMeta with
  | some o => return o
  | none =>
    createNewActiveLinkedList g l label ns
    match ← getOldestInactiveLinkedList label.linkedListMeta with
    | some o => return o
    | none => Prog.fail .compactionRotateFailed

/-- `compact_oldest_linked_list_table` (`np_adj_list.c:378-570`), as far as it makes relations or writes
to the partitions' rows. -/
def compactOldestLinkedListTable (name : String) (ns : Oid) (l : Nat) : StorageOp Unit := do
  let graph ← findGraph name ns
  let label ← findVertexLabel graph l (.labelNotFoundForGraph l)
  let oldest ← chooseOldest graph.id l label ns
  Prog.write fun db => .ok (db.setLinkedListMeta label.linkedListMeta
    (markCompacted oldest (db.linkedListMeta label.linkedListMeta)))

/-! ## Dropping a graph -/

namespace ObjectDb

/-- `np_append_named_rel`. -/
def namedRels (db : ObjectDb) (names : List RelName) : List Oid :=
  names.filterMap fun name => db.getRelnameRelid name npNamespaceId

/-- What is found through a row of the vertex labels. -/
def vertexLabelRels (db : ObjectDb) (g : Nat) (row : VertexLabelRow) : List Oid :=
  [row.tbl, row.physMap, row.linkedListMeta, row.linkedListSeq, row.arraylist, row.annotationsTbl] ++
    (db.linkedListMeta row.linkedListMeta).map LinkedListMeta.tbl ++
    db.namedRels [.vertex g row.id .idSeq, .vertex g row.id .dictionary, .vertex g row.id .dictionarySeq]

/-- What is found through a row of the edge labels. -/
def edgeLabelRels (db : ObjectDb) (g : Nat) (row : EdgeLabelRow) : List Oid :=
  [row.tbl, row.physMap] ++ row.annotationsSeen.toList ++ db.namedRels [.edge g row.id .idSeq]

/-- The list of `np_collect_graph_namespace_rels`. -/
def graphRels (db : ObjectDb) (graph : NpGraphRow) : List Oid :=
  [graph.vertexIdSeq, graph.edgeIdSeq, graph.annotSchemaTbl, graph.annotSchemaPhysMap] ++
    (db.vertexLabels graph.vertexLabels).flatMap (db.vertexLabelRels graph.id) ++
    (db.edgeLabels graph.edgeLabels).flatMap (db.edgeLabelRels graph.id) ++
    [graph.vertexLabels, graph.edgeLabels] ++ db.namedRels [.graph graph.id .labelCatalog]

/-- The relations it opens. -/
def opened (db : ObjectDb) (graph : NpGraphRow) : List Oid :=
  [graph.vertexLabels, graph.edgeLabels] ++
    (db.vertexLabels graph.vertexLabels).map VertexLabelRow.linkedListMeta

end ObjectDb

/-- `np_collect_graph_namespace_rels` (`np_graph.c:173-241`). -/
def npCollectGraphNamespaceRels (graph : NpGraphRow) : StorageOp (List Oid) :=
  Prog.read fun db =>
    match (db.opened graph).find? fun o => ¬ db.Exists o with
    | some o => .error (.couldNotOpenRelation o)
    | none => .ok (db.graphRels graph)

/-- `np_drop_rel` (`np_graph.c:243-258`). -/
def npDropRel (o : Oid) : StorageOp Unit :=
  Prog.write fun db => .ok (if db.Exists o then db.dropRelation o else db)

/-- The loop of `drop_graph`. -/
def dropRels : List Oid → StorageOp Unit
  | [] => return ()
  | o :: rest => do
    npDropRel o
    dropRels rest

/-- The row of the graph is deleted. -/
def deleteGraph (name : String) (ns : Oid) : StorageOp Unit :=
  Prog.write fun db =>
    match db.searchGraph name ns with
    | none => .error (.graphDoesNotExist name)
    | some graph => .ok (.commandCounterIncrement { db with npGraph := db.npGraph.erase graph })

/-- `drop_graph` (`np_graph.c:490-562`). -/
def dropGraph (name : String) (ns : Oid) : StorageOp Unit := do
  let graph ← findGraph name ns
  let oids ← npCollectGraphNamespaceRels graph
  dropRels oids
  deleteGraph name ns

/-! ## Histories -/

/-- A call. -/
inductive StorageCall where
  | createGraph (name : String) (ns : Oid)
  | createVlabel (name : String) (ns : Oid)
  | createVlabelFromPath (graphId : Nat)
  | createElabel (name : String) (ns : Oid) (annotated : Bool)
  | forgeEdgeLabel (graphId : Nat) (annotated : Bool)
  | addAnnotationLabel (name : String) (ns : Oid) (labelIds : List Nat)
  | rotateActiveLinkedListTable (name : String) (ns : Oid) (labelId : Nat)
  | compactOldestLinkedListTable (name : String) (ns : Oid) (labelId : Nat)
  | dropGraph (name : String) (ns : Oid)
deriving DecidableEq, Repr

/-- What the call does. -/
def StorageCall.run : StorageCall → StorageOp Unit
  | createGraph name ns => Storage.createGraph name ns
  | createVlabel name ns => Storage.createVlabel name ns
  | createVlabelFromPath graphId => Storage.createVlabelFromPath graphId
  | createElabel name ns annotated => Storage.createElabel name ns annotated
  | forgeEdgeLabel graphId annotated => Storage.forgeEdgeLabel graphId annotated
  | addAnnotationLabel name ns labelIds => Storage.addAnnotationLabel name ns labelIds
  | rotateActiveLinkedListTable name ns labelId => Storage.rotateActiveLinkedListTable name ns labelId
  | compactOldestLinkedListTable name ns labelId => Storage.compactOldestLinkedListTable name ns labelId
  | dropGraph name ns => Storage.dropGraph name ns

/-- Before there is a graph. -/
def ObjectDb.empty : ObjectDb where
  pgClass := []
  npGraph := []
  vertexLabels := fun _ => []
  edgeLabels := fun _ => []
  linkedListMeta := fun _ => []
  seqs := fun _ => 0
  npGraphIdSeq := 0
  nextOid := 2

/-- A transaction that is rolled back: oids are not given out again, and sequences do not go back. -/
def ObjectDb.rollback (before after : ObjectDb) : ObjectDb :=
  { before with seqs := after.seqs, npGraphIdSeq := after.npGraphIdSeq, nextOid := after.nextOid }

/-- The state before the running transaction, and now. A command may consist of several calls, and a
transaction of several commands. -/
inductive StorageRun : ObjectDb → ObjectDb → Prop where
  | start : StorageRun .empty .empty
  | call {before db db' : ObjectDb} {u : Unit} (h : StorageRun before db) (c : StorageCall)
      (hr : c.run.Runs db u db') : StorageRun before db'
  | nextCommand {before db : ObjectDb} (h : StorageRun before db) :
      StorageRun before db.commandCounterIncrement
  | commit {before db : ObjectDb} (h : StorageRun before db) :
      StorageRun db.commandCounterIncrement db.commandCounterIncrement
  | abort {before db : ObjectDb} (h : StorageRun before db) :
      StorageRun (before.rollback db) (before.rollback db)
  | fail {before db db' : ObjectDb} {e : StorageErr} (h : StorageRun before db) (c : StorageCall)
      (hr : c.run.exec db = (.error e, db')) : StorageRun (before.rollback db') (before.rollback db')

end NeoPostGraph.Storage
