import NeoPostGraph.Graph.Label
import NeoPostGraph.Lib.PartialIndex
import NeoPostGraph.Postgres.Ltree

/-!
# Labels and their annotation schemas

The label catalogs of one graph and the DDL on them. A label owns an annotation schema, an array of
names. Its current version is found through `annot_schema_phys_map`, one map for the whole graph: the
slot of a label id names a tuple of the schema store. Vertex labels and edge labels both use this map,
and each kind draws its ids from a sequence of its own.

* `Names`, `SchemaTuple`: a `text[]` and a stored version of a schema.
* `AnnotDb`: the catalogs, the schema store and its map, and the annotation tables, next to the graph.
* `insertAnnotationSchema`: the one writer of the map, called from seven places.
* `AnnotOp`: programs over all of it.

A label id is the low half of what the sequence hands out; labels are counted in `Nat` here, since a
label takes several relations and there are fewer than 2^32 of those. A catalog is the list of its
current rows; where an updated row lands in a scan decides nothing but which of two labels of the same
path is found. Its tuples are kept next to it, for the index on the paths of primary rows: each writer
of a catalog puts in the entries by hand.
-/

namespace NeoPostGraph

open SlottedPage
open PartialIndex (Version)

/-! ## Arrays of names -/

/-- A `text[]` of one dimension: `none` is a NULL element. -/
abbrev Names := List (Option String)

instance lawfulBEqName : LawfulBEq (Option String) := inferInstance

/-- The space an element takes in an array: its 4-byte header and its bytes, aligned to 4. -/
def textSpace : Option String → Nat
  | none => 0
  | some s => (4 + s.utf8ByteSize + 3) / 4 * 4

/-- `VARSIZE` of an array: `ArrayType` and the bounds of its dimension, a bitmap if an element is
NULL, and the elements. -/
def arrayVarsize (names : Names) : Nat :=
  if names = [] then 16
  else (if names.all Option.isSome then 24 else maxAlign (24 + (names.length + 7) / 8)) +
    (names.map textSpace).sum

/-- `merge_and_dedupe_text_arrays` (`np_label.c:333-372`, and the same in `label_commands.c` and
`dml_labels.c`). -/
def mergeAndDedupeTextArrays : Option Names → Option Names → Option Names
  | none, arr2 => arr2
  | arr1, none => arr1
  | some arr1, some arr2 =>
    let dOut := (arr2.filter Option.isSome).foldl
      (fun out s => if s ∈ out then out else out ++ [s]) (arr1.filter Option.isSome)
    if dOut = [] then none else some dOut

/-- A version of a schema in `annot_schema_tbl`. -/
structure SchemaTuple where
  hdr : EntityHeader
  names : Names
deriving DecidableEq, Repr

/-! ## The state -/

/-- The two label catalogs of a graph. -/
inductive LabelKind where
  | vertex
  | edge
deriving DecidableEq, Repr

/-- `label_type` in `np_label_catalog`: `'s'` or `'a'`. -/
inductive LabelType where
  | structural
  | annot
deriving DecidableEq, Repr

/-- `CATALOG_LTREE_ROOT_LABEL`. -/
def catalogLtreeRootLabel : String := "_"

/-- The columns of a label catalog that the DDL below reads. -/
structure LabelRow where
  id : Nat
  ltree : Ltree
  annotationMap : Option Names
deriving DecidableEq, Repr

/-- A call of `insert_annotation_schema`, and where the tuple went. -/
structure SchemaWrite where
  kind : LabelKind
  labelId : Nat
  tid : ItemPointer
  names : Names
deriving DecidableEq, Repr

/-- An annotation bitset of a vertex or an edge: a `bytea`. -/
structure AnnotTuple where
  hdr : EntityHeader
  bits : List Nat
deriving DecidableEq, Repr

/-- A graph with its label catalogs and its annotations. -/
structure AnnotDb where
  /-- The extension `ltree` of the database. -/
  ltree : LtreeModule
  graph : Db
  /-- The next value of `vertex_label_id_seq` and of `edge_label_id_seq`. -/
  labelIdSeq : LabelKind → Nat
  labels : LabelKind → List LabelRow
  /-- The tuples of the two catalogs, with their `is_primary`, and whether the index has an entry. -/
  labelTuples : LabelKind → List (Version LabelRow)
  /-- The rows of `np_label_catalog`. -/
  labelCatalog : List (String × LabelType)
  /-- `annotations_tbl` of a label, if it has one. -/
  annotationsTbl : LabelKind → Nat → Option (Table AnnotTuple)
  annotSchemaTbl : Table SchemaTuple
  annotSchemaPhysMap : PhysMap NeoPhysMapRecord sizeOfNeoPhysMapRecord
  /-- Every schema written so far, the last one first. No function reads it. -/
  written : List SchemaWrite

/-- The errors of the DDL and of the annotation functions. -/
inductive AnnotErr where
  /-- Raised by a function of the graph. -/
  | graph (e : Err)
  /-- `set_vertex_label`, `remove_vertex_label`, `set_edge_label`, `remove_edge_label`. -/
  | labelContainsDots
  /-- `create_vlabel_internal`. -/
  | baseLabelContainsDots
  /-- `add_annotation_label`. -/
  | annotationContainsDots
  /-- `enforce_and_insert_label_catalog`. -/
  | alreadyRegistered (label : String) (actual : LabelType)
  /-- The unique index of `np_label_catalog`. -/
  | duplicateKey (label : String)
  /-- `register_and_validate_labels`. -/
  | structuralAndAnnot (label : String)
  /-- `merge_vlabels_internal`. -/
  | mergeVlabelsNotFound
  /-- `merge_elabels_internal`. -/
  | mergeElabelsNotFound
  /-- `set_vertex_label`, `remove_vertex_label`. -/
  | labelIdNotFound (labelId : Nat)
  /-- `set_edge_label`, `remove_edge_label`. -/
  | edgeLabelIdNotFound (labelId : Nat)
  /-- `resolve_target_edge_label_for_removal`. -/
  | removeBaseEdgeLabel
  /-- `add_annotation_label`, `drop_annotation_label`. -/
  | structuralLabelNotFound (label : String)
  /-- Raised by `ltree_in` or `ltree_addltree`. -/
  | ltree (message : String)
  /-- Not raised: `construct_array` follows the null pointer of a NULL element. -/
  | nullElement
  /-- `add_vertex_annotation_label` and the three functions like it. -/
  | annotationsUnsupported (kind : LabelKind) (labelId : Nat)
  /-- The same. -/
  | noAnnotationSchema (kind : LabelKind)
  /-- The same, and `np_internal_insert_vertex`. -/
  | annotationNotValid (kind : LabelKind) (label : String)
  /-- The same four. -/
  | physMapTableEmpty (kind : LabelKind)
  /-- The same. -/
  | physMapNotFound (kind : LabelKind)
  /-- The same. -/
  | bitsetConcurrentlyUpdated (kind : LabelKind) (id : Nat)
  /-- `np_internal_insert_vertex`. -/
  | insertAnnotationsUnsupported
deriving DecidableEq, Repr

/-- How a message names an entity. -/
def LabelKind.entity : LabelKind → String
  | vertex => "Vertex"
  | edge => "Edge"

/-- How a message names a structural label. -/
def LabelKind.structuralLabel : LabelKind → String
  | vertex => "structural label"
  | edge => "structural edge label"

/-- The text of an error, for the graph of this id and name. -/
def AnnotErr.message (graphId : Nat) (graphName : String) : AnnotErr → String
  | graph e => e.message graphId graphName
  | labelContainsDots => "labels cannot contain dots."
  | baseLabelContainsDots =>
    "Base labels cannot contain dots. Use merge_vlabels to build hierarchies."
  | annotationContainsDots => "Annotation labels cannot contain dots."
  | alreadyRegistered label .structural =>
    "Label '" ++ label ++ "' is already registered as a structural label"
  | alreadyRegistered label .annot =>
    "Label '" ++ label ++ "' is already registered as a annotation label"
  | duplicateKey _ =>
    s!"duplicate key value violates unique constraint \"np_label_catalog_{graphId}_idx\""
  | structuralAndAnnot label =>
    "Label '" ++ label ++ "' cannot be passed as both structural and annotation"
  | mergeVlabelsNotFound => "Failed to find parent or child label in metadata catalog"
  | mergeElabelsNotFound => "One or more edge labels do not exist for merge"
  | labelIdNotFound labelId => s!"label {labelId} not found"
  | edgeLabelIdNotFound labelId => s!"edge label {labelId} not found"
  | removeBaseEdgeLabel => "Cannot remove the base structural label of an edge"
  | structuralLabelNotFound label =>
    "Structural label \"" ++ label ++ "\" not found in graph \"" ++ graphName ++ "\""
  | ltree message => message
  | nullElement => ""
  | annotationsUnsupported .vertex labelId =>
    s!"Structural label does not support annotations: graph_id={graphId}, label_id={labelId}"
  | annotationsUnsupported .edge labelId =>
    s!"Structural edge label does not support annotations: graph_id={graphId}, label_id={labelId}"
  | noAnnotationSchema kind => "No annotation schema defined for this " ++ kind.structuralLabel
  | annotationNotValid kind label =>
    "Annotation label '" ++ label ++ "' is not valid for this " ++ kind.structuralLabel
  | physMapTableEmpty kind => kind.entity ++ " ID not found in phys_map (table empty)"
  | physMapNotFound kind => kind.entity ++ " ID not found in phys_map"
  | bitsetConcurrentlyUpdated kind id =>
    kind.entity ++ s!" ID {id} annotation bitset was concurrently updated"
  | insertAnnotationsUnsupported => "This structural label does not support annotations"

/-- A program over a graph with its labels. -/
abbrev AnnotOp := Prog AnnotDb AnnotErr

/-! ## Reading and writing a schema -/

/-- The slot of `annot_schema_phys_map` that every reader and the writer compute for a label id. -/
def schemaSlot (labelId : Nat) : ItemPointer := entitySlot labelId

/-- `latest_schema_tid`, as every reader looks it up. -/
def AnnotDb.latestSchemaTid (db : AnnotDb) (labelId : Nat) : ItemPointer :=
  match db.annotSchemaPhysMap.table.get (schemaSlot labelId) with
  | some pmapRec => pmapRec.vItemptr
  | none => .invalid

/-- The schema a reader finds through the map, and where: it looks at no transaction id. -/
def AnnotDb.readSchema (db : AnnotDb) (labelId : Nat) : Option (ItemPointer × Names) :=
  let latestSchemaTid := db.latestSchemaTid labelId
  if latestSchemaTid.isValid then
    (db.annotSchemaTbl.get latestSchemaTid).map fun t => (latestSchemaTid, t.names)
  else none

/-- The stored length of a schema tuple. -/
def schemaTupleSize (names : Names) : Nat :=
  maxAlign (sizeOfNPEntityTupleHeader + arrayVarsize names)

/-- `insert_annotation_schema` (`np_label.c:170-223`). Its two writes are one step here: DDL on a
label runs alone. -/
def insertAnnotationSchema (s : Session) (kind : LabelKind) (labelId : Nat) (annotArray : Names) :
    AnnotOp Unit :=
  Prog.write fun db =>
    let tuple : SchemaTuple :=
      { hdr :=
          { xmin := s.fxid
            xmax := invalidFullTransactionId
            cmin := s.cid
            cmax := invalidCommandId
            prevItemptr := .invalid
            flags := 0
            id := labelId }
        names := annotArray }
    match db.annotSchemaTbl.write (schemaTupleSize annotArray) tuple with
    | none => .error (.graph .addTupleFailed)
    | some (tbl, schemaTid) => .ok { db with
        annotSchemaTbl := tbl
        annotSchemaPhysMap := db.annotSchemaPhysMap.place emptyPad (schemaSlot labelId)
          ⟨schemaTid, 0, .invalid, .invalid⟩
        written := ⟨kind, labelId, schemaTid, annotArray⟩ :: db.written }

/-! ## The catalogs -/

/-- `nextval` of the label id sequence of a kind. -/
def nextLabelId (kind : LabelKind) : AnnotOp Nat :=
  Prog.step fun db => .ok (db.labelIdSeq kind,
    { db with labelIdSeq := Function.update db.labelIdSeq kind (db.labelIdSeq kind + 1) })

/-- A program of the graph, as one step. -/
def onGraph {α : Type} (p : Op α) : AnnotOp α :=
  Prog.step fun db =>
    match p.exec db.graph with
    | (.ok a, g) => .ok (a, { db with graph := g })
    | (.error e, _) => .error (.graph e)

/-- `create_vertex_label_annotation_table` (`np_label.c:3058-3100`). -/
def createAnnotationTable (kind : LabelKind) (labelId : Nat) : AnnotOp Unit :=
  Prog.write fun db => .ok { db with
    annotationsTbl := Function.update db.annotationsTbl kind
      (Function.update (db.annotationsTbl kind) labelId (some Table.empty)) }

/-- `insert_vertex_label`, `insert_label` (`np_label.c:567-696`): the tuple of a primary row, and its
entry in every index. -/
def insertLabel (kind : LabelKind) (row : LabelRow) : AnnotOp Unit :=
  Prog.write fun db => .ok { db with
    labels := Function.update db.labels kind (db.labels kind ++ [row])
    labelTuples := Function.update db.labelTuples kind (PartialIndex.insert row (db.labelTuples kind)) }

/-- `np_catalog_update` (`np_label.c:3103-3174`): another tuple of the row, with `is_primary` as it was
unless the caller archives it. The index has a predicate, and gets an entry if the tuple satisfies it. -/
def npCatalogUpdate (row : LabelRow) (archive : Bool) (tuples : List (Version LabelRow)) :
    List (Version LabelRow) :=
  PartialIndex.change LabelRow.id row archive tuples

/-- The same for several rows, in the loop of a scan. -/
def npCatalogUpdates (new : LabelRow → LabelRow) (archive : LabelRow → Bool) (rows : List LabelRow)
    (tuples : List (Version LabelRow)) : List (Version LabelRow) :=
  rows.foldl (fun tuples row => npCatalogUpdate (new row) (archive row) tuples) tuples

/-- `np_catalog_update` on the row of a label, with a new `annotation_map`. -/
def updateAnnotationMap (kind : LabelKind) (labelId : Nat) (names : Names) : AnnotOp Unit :=
  Prog.write fun db => .ok { db with
    labels := Function.update db.labels kind ((db.labels kind).map fun row =>
      if row.id = labelId then { row with annotationMap := some names } else row)
    labelTuples := Function.update db.labelTuples kind
      (npCatalogUpdates (fun row => { row with annotationMap := some names }) (fun _ => false)
        ((db.labels kind).filter fun row => row.id = labelId) (db.labelTuples kind)) }

/-- Read the catalog of a kind. -/
def scanLabels {α : Type} (kind : LabelKind) (f : List LabelRow → Except AnnotErr α) : AnnotOp α :=
  Prog.read fun db => f (db.labels kind)

/-- The scan for the label of a path. -/
def findLabel (kind : LabelKind) (path : Ltree) : AnnotOp (Option Nat) :=
  scanLabels kind fun rows => .ok ((rows.find? fun row => row.ltree = path).map LabelRow.id)

/-- `search_vertex_label_graph_id_label_id_cache`, `search_edge_label_graph_id_label_id_cache`. -/
def searchLabel (kind : LabelKind) (labelId : Nat) : AnnotOp (Option LabelRow) :=
  scanLabels kind fun rows => .ok (rows.find? fun row => row.id = labelId)

/-- The same, with the error of a missing label. -/
def requireLabel (kind : LabelKind) (labelId : Nat) (e : AnnotErr) : AnnotOp LabelRow :=
  scanLabels kind fun rows =>
    match rows.find? fun row => row.id = labelId with
    | some row => .ok row
    | none => .error e

/-- The rows of `np_label_catalog` that the lookups of a command see: not those the command itself
inserts. -/
def registeredLabels : AnnotOp (List (String × LabelType)) := Prog.read fun db => .ok db.labelCatalog

/-- `enforce_and_insert_label_catalog` (`np_label.c:1320-1352`), in a command that sees these rows. The
unique index refuses a name that the command has inserted. -/
def enforceAndInsertLabelCatalog (registered : List (String × LabelType)) (label : String)
    (expected : LabelType) : AnnotOp Unit :=
  Prog.write fun db =>
    match registered.find? fun row => row.1 = label with
    | some (_, actual) => if actual = expected then .ok db else .error (.alreadyRegistered label actual)
    | none =>
      if label ∈ db.labelCatalog.map Prod.fst then .error (.duplicateKey label)
      else .ok { db with labelCatalog := db.labelCatalog ++ [(label, expected)] }

/-! ## Paths -/

/-- `ltree_in`. -/
def parseLtree (text : DottedText) : AnnotOp Ltree :=
  Prog.read fun db => (db.ltree.ltreeIn text).mapError .ltree

/-- `ltree_in` on the text of a path that has been put together from levels of other paths. -/
def parsePath (path : Ltree) : AnnotOp Ltree := do
  let _ ← parseLtree (ltreeOut path)
  return path

/-- `ltree_in` on a text, and `ltree_addltree` on the root and what it gives. -/
def parseUnderRoot (text : DottedText) : AnnotOp Ltree :=
  Prog.read fun db => (db.ltree.readUnder catalogLtreeRootLabel text).mapError .ltree

end NeoPostGraph
