import NeoPostGraph.Annotation.Relabel
import NeoPostGraph.Locks.GraphLocks

/-!
# The content locks of `set_vertex_label`

The function with all it calls: the lookups and inserts of the DDL when the target label has to be made
(`resolve_or_create_target_label`), the bitset and the schemas of the annotations, the insert of the new
vertex, the migration of its edges, the stamp of the old tuple and the clearing of its slot.

Result: `guards_setAnnotatedVertexLabel`.
-/

namespace NeoPostGraph.Locking

open SlottedPage LockProg

/-- A program over a graph with its labels, with its locks. -/
abbrev LockAnnotOp := LockProg Buffer AnnotDb AnnotErr

/-- A program of the graph. -/
def onGraph {α : Type} (p : LockOp α) : LockAnnotOp α :=
  zoom AnnotDb.graph (fun g db => { db with graph := g }) AnnotErr.graph p

section Definitions

variable {α : Type}

/-! ## The catalogs -/

/-- Search a catalog: every page it comes to is locked and released. -/
def searchCatalog (pages : CatalogPages) (rel : BufferRel) (p : AnnotOp α) : LockAnnotOp α :=
  readBuffers (fun _ => (pages.visited rel).map fun block => (rel, block)) p

/-- `np_catalog_insert`. -/
def insertCatalog (pages : CatalogPages) (rel : BufferRel) (p : AnnotOp α) : LockAnnotOp α :=
  npWriteRecordToPage (rel, ·) (fun _ => pages.nblocks rel) (fun _ => pages.full rel) p

def findLabel (pages : CatalogPages) (kind : LabelKind) (path : Ltree) : LockAnnotOp (Option Nat) :=
  searchCatalog pages (.labels kind) (NeoPostGraph.findLabel kind path)

def requireLabel (pages : CatalogPages) (kind : LabelKind) (labelId : Nat) (e : AnnotErr) :
    LockAnnotOp LabelRow :=
  searchCatalog pages (.labels kind) (NeoPostGraph.requireLabel kind labelId e)

def insertLabel (pages : CatalogPages) (kind : LabelKind) (row : LabelRow) : LockAnnotOp Unit :=
  insertCatalog pages (.labels kind) (NeoPostGraph.insertLabel kind row)

/-- `enforce_and_insert_label_catalog` (`np_label.c:1320-1352`). -/
def enforceAndInsertLabelCatalog (pages : CatalogPages) (registered : List (String × LabelType))
    (label : String) (expected : LabelType) : LockAnnotOp Unit := do
  searchCatalog pages .labelCatalog (return ())
  if registered.any fun row => row.1 = label then
    lift (NeoPostGraph.enforceAndInsertLabelCatalog registered label expected)
  else
    insertCatalog pages .labelCatalog
      (NeoPostGraph.enforceAndInsertLabelCatalog registered label expected)

def registerAnnotations (pages : CatalogPages) (registered : List (String × LabelType))
    (structLabel : String) : Names → LockAnnotOp Unit
  | [] => return ()
  | none :: rest => registerAnnotations pages registered structLabel rest
  | some annotStr :: rest =>
    if annotStr = structLabel then lift (Prog.fail (.structuralAndAnnot structLabel))
    else do
      enforceAndInsertLabelCatalog pages registered annotStr .annot
      registerAnnotations pages registered structLabel rest

/-- `register_and_validate_labels` (`label_commands.c:444-482`). -/
def registerAndValidateLabels (pages : CatalogPages) (structLabel : String)
    (annotArray : Option Names) : LockAnnotOp Unit := do
  let registered ← lift registeredLabels
  enforceAndInsertLabelCatalog pages registered structLabel .structural
  registerAnnotations pages registered structLabel (annotArray.getD [])

/-- `insert_annotation_schema` (`np_label.c:170-223`): the locks of the write to the table, then those
of the write to the map, where the model makes both. -/
def insertAnnotationSchema (s : Session) (kind : LabelKind) (labelId : Nat) (annotArray : Names) :
    LockAnnotOp Unit := do
  npWriteRecordToPage (.annotSchemaTbl, ·) (fun db => db.annotSchemaTbl.nblocks)
    (fun db => lastPageFull db.annotSchemaTbl (schemaTupleSize annotArray)) (return ())
  placeRecord (.annotSchemaPhysMap, ·) (fun db => db.annotSchemaPhysMap.table.nblocks)
    (schemaSlot labelId).block (NeoPostGraph.insertAnnotationSchema s kind labelId annotArray)

/-- `build_vertex_label_infrastructure` (`label_commands.c:184-240`). -/
def buildVertexLabel (pages : CatalogPages) (s : Session) (labelId : Nat) (ltree : Ltree)
    (annotMap : Option Names) : LockAnnotOp Unit := do
  onGraph (lift (buildVertexLabelInfrastructure labelId))
  lift (createAnnotationTable .vertex labelId)
  insertLabel pages .vertex ⟨labelId, ltree, annotMap⟩
  match annotMap with
  | some annotArray => insertAnnotationSchema s .vertex labelId annotArray
  | none => return ()

/-- `create_vlabel_internal` (`label_commands.c`). -/
def createVlabel (pages : CatalogPages) (s : Session) (label : DottedText)
    (annotArray : Option Names) : LockAnnotOp Nat :=
  match label with
  | [labelStr] => do
    registerAndValidateLabels pages labelStr annotArray
    let labelLtree ← lift (parseUnderRoot [labelStr])
    let labelId ← lift (nextLabelId .vertex)
    buildVertexLabel pages s labelId labelLtree annotArray
    return labelId
  | _ => lift (Prog.fail .baseLabelContainsDots)

/-- `merge_vlabels_internal` (`label_commands.c`). -/
def mergeVlabels (pages : CatalogPages) (s : Session) (parentId childId : Nat) :
    LockAnnotOp Nat := do
  let rows ← searchCatalog pages (.labels .vertex) (scanLabels .vertex .ok)
  match rows.find? fun row => row.id = parentId,
      rows.find? fun row => row.id = childId ∧ row.id ≠ parentId with
  | some parent, some child => do
    let mergedLtree ← lift (parseLtree
      (catalogLtreeRootLabel :: (stripRoot parent.ltree ++ stripRoot child.ltree)))
    let mergedArray := mergeAndDedupeTextArrays parent.annotationMap child.annotationMap
    let newLabelId ← lift (nextLabelId .vertex)
    buildVertexLabel pages s newLabelId mergedLtree mergedArray
    return newLabelId
  | _, _ => lift (Prog.fail .mergeVlabelsNotFound)

def ensureBaseLabel (pages : CatalogPages) (s : Session) (basePath : Ltree) (newLabel : String) :
    LockAnnotOp Unit := do
  match ← findLabel pages .vertex basePath with
  | some _ => return ()
  | none => do
    let _ ← createVlabel pages s [newLabel] none
    return ()

/-- `resolve_or_create_target_label` (`dml_labels.c:126-231`). -/
def resolveOrCreateTargetLabel (pages : CatalogPages) (s : Session) (currentLabelId : Nat)
    (newLabel : String) (currentLtree : Ltree) : LockAnnotOp Nat := do
  let basePath ← lift (parseLtree [catalogLtreeRootLabel, newLabel])
  ensureBaseLabel pages s basePath newLabel
  if currentLtree ≠ [catalogLtreeRootLabel] ∧ newLabel ∈ currentLtree then return currentLabelId
  else do
    let targetPath ← lift (parseTargetPath basePath newLabel currentLtree)
    match ← findLabel pages .vertex targetPath with
    | some targetLabelId => return targetLabelId
    | none => do
      let baseLabelId ← findLabel pages .vertex basePath
      let _ ← mergeVlabels pages s currentLabelId (baseLabelId.getD noLabelId)
      let targetLabelId ← findLabel pages .vertex targetPath
      return targetLabelId.getD noLabelId

/-! ## The annotations -/

/-- The pages of the schema of a label: its slot in the map, and the tuple the slot names. -/
def schemaBuffers (labelId : Nat) (db : AnnotDb) : List Buffer :=
  if (schemaSlot labelId).block < db.annotSchemaPhysMap.table.nblocks then
    (.annotSchemaPhysMap, (schemaSlot labelId).block) ::
      (if (db.latestSchemaTid labelId).isValid then
        [(.annotSchemaTbl, (db.latestSchemaTid labelId).block)] else [])
  else []

def annotatedLabel (pages : CatalogPages) (labelId : Nat) : LockAnnotOp (Option LabelRow) :=
  searchCatalog pages (.labels .vertex) (NeoPostGraph.annotatedLabel labelId)

/-- The names of the old bitset of a vertex (`dml_labels.c:616-707, 861-939`). -/
def extractAnnotations (pages : CatalogPages) (behind : Nat → Nat) (labelId : Nat)
    (aItemptr : ItemPointer) : LockAnnotOp (List String) := do
  match ← annotatedLabel pages labelId with
  | none => return []
  | some row =>
    if aItemptr.isValid then do
      let oldBitset ← underLock (.annotations .vertex labelId, aItemptr.block)
        (copyOldBitset labelId aItemptr)
      let oldMapArray ← readBuffers (schemaBuffers row.id) (relabelMapArray row)
      return decodeNames (copiedBit behind oldBitset) (oldMapArray.getD [])
    else return []

def writeAnnotTuple (kind : LabelKind) (labelId : Nat) (tuple : AnnotTuple) :
    LockAnnotOp ItemPointer :=
  npWriteRecordToPage (.annotations kind labelId, ·)
    (fun db => (db.annotationsTbl kind labelId).elim 0 Table.nblocks)
    (fun db => (db.annotationsTbl kind labelId).any fun t =>
      lastPageFull t (annotTupleSize tuple.bits.length))
    (NeoPostGraph.writeAnnotTuple kind labelId tuple)

/-- The annotation part of `np_internal_insert_vertex` (`dml_insert.c:128-247`). -/
def insertAnnotations (s : Session) (v : Vertex) (inputAnnots : Option Names) :
    LockAnnotOp ItemPointer :=
  match inputAnnots with
  | none => return .invalid
  | some inputAnnots => do
    let bits ← readBuffers (schemaBuffers v.labelId) (inputBits v.labelId inputAnnots)
    writeAnnotTuple .vertex v.labelId (newAnnotTuple s v.id .invalid bits)

/-- `np_internal_insert_vertex` (`dml_insert.c:82-265`). -/
def insertAnnotatedVertex (pages : CatalogPages) (s : Session) (v : Vertex) (props : Gtype)
    (inputAnnots : Option Names) : LockAnnotOp Unit := do
  searchLabelCache pages .vertex
  let vItemptr ← onGraph (writeVertexTuple v.labelId (newEntityTuple s v.id .invalid v props))
  let aItemptr ← insertAnnotations s v inputAnnots
  onGraph (placeVertexSlot v.labelId v.id ⟨vItemptr, 0, .invalid, aItemptr⟩)

/-! ## The vertex -/

/-- Steps 4 to 8. The page of the old tuple is locked to read it and, after the migration, to stamp
it; so is the page of its slot. -/
def relabelAnnotatedVertex (pages : CatalogPages) (behind : Nat → Nat) (u : Unspecified) (fuel : Nat)
    (s : Session) (oldVid currentLabelId targetLabelId : Nat) (pmapRec : NeoPhysMapRecord) :
    LockAnnotOp Vertex := do
  let oldTuple ← onGraph (onVertexTuple currentLabelId pmapRec.vItemptr
    (readVertexLabel currentLabelId (.labelIdNotFound currentLabelId) fun x lab =>
      checkTuple x s.own lab.vertexTbl pmapRec.vItemptr .undefinedRead
        (.vertexConcurrentlyUpdated oldVid)))
  let newVertexId ← onGraph (lift (nextVertexId targetLabelId))
  let newV : Vertex := { oldTuple.entity with id := newVertexId, labelId := targetLabelId }
  let extracted ← extractAnnotations pages behind currentLabelId pmapRec.aItemptr
  insertAnnotatedVertex pages s newV oldTuple.props (constructArray extracted)
  onGraph (migrateWalk pages u fuel s oldTuple.entity newV fuel pmapRec.eTblId pmapRec.eItemptr)
  onGraph (onVertexTuple currentLabelId pmapRec.vItemptr
    (stampVertexTuple s currentLabelId pmapRec.vItemptr))
  onGraph (underLock (.physMap .vertex currentLabelId, (entitySlot oldVid).block)
    (clearVertexSlot currentLabelId oldVid))
  return newV

/-- `set_vertex_label` (`dml_labels.c:528-746`). -/
def setAnnotatedVertexLabel (pages : CatalogPages) (behind : Nat → Nat) (u : Unspecified)
    (fuel : Nat) (s s' : Session) (oldVid currentLabelId : Nat) (newLabel : DottedText) :
    LockAnnotOp (Option Vertex) :=
  match newLabel with
  | [newLabel] => do
    let current ← requireLabel pages .vertex currentLabelId (.labelIdNotFound currentLabelId)
    let targetLabelId ← resolveOrCreateTargetLabel pages s currentLabelId newLabel current.ltree
    if targetLabelId = currentLabelId then return none
    else do
      let pmapRec ← onGraph (underLock (.physMap .vertex currentLabelId, (entitySlot oldVid).block)
        (readOldSlot currentLabelId oldVid))
      let newV ← relabelAnnotatedVertex pages behind u fuel s' oldVid currentLabelId targetLabelId
        pmapRec
      return some newV
  | _ => lift (Prog.fail .labelContainsDots)

end Definitions

/-! ## Each is the function of the model, with locks -/

section Guards

variable {α : Type} (pages : CatalogPages) (behind : Nat → Nat) (u : Unspecified) (fuel : Nat)
  (s s' : Session) (labelId : Nat)

theorem onGraph_eq_onPart (p : Op α) : NeoPostGraph.onGraph p =
    onPart AnnotDb.graph (fun g db => { db with graph := g }) AnnotErr.graph p := by
  unfold NeoPostGraph.onGraph onPart
  congr 1
  funext db
  rcases p.exec db.graph with ⟨_ | a, g⟩ <;> rfl

theorem guards_onGraph {lp : LockOp α} {p : Op α} (h : Guards lp p) :
    Guards (onGraph lp) (NeoPostGraph.onGraph p) := by
  rw [onGraph_eq_onPart]
  unfold onGraph
  refine GuardsFrom.zoom ?_ ?_ ?_ h
  · exact fun g db => rfl
  · exact fun g g' db => rfl
  · exact fun db => rfl

theorem guards_searchCatalog (rel : BufferRel) (p : AnnotOp α) :
    Guards (searchCatalog pages rel p) p := guards_readBuffers _ p

theorem guards_insertCatalog (rel : BufferRel) (p : AnnotOp α) :
    Guards (insertCatalog pages rel p) p := guards_npWriteRecordToPage _ _ p

theorem guards_enforceAndInsertLabelCatalog (registered : List (String × LabelType)) (label : String)
    (expected : LabelType) : Guards (enforceAndInsertLabelCatalog pages registered label expected)
      (NeoPostGraph.enforceAndInsertLabelCatalog registered label expected) := by
  refine (guards_searchCatalog pages .labelCatalog _).preceded ?_
  split
  · exact guards_lift _
  · exact guards_insertCatalog pages .labelCatalog _

theorem guards_registerAnnotations (registered : List (String × LabelType)) (structLabel : String)
    (names : Names) : Guards (registerAnnotations pages registered structLabel names)
      (NeoPostGraph.registerAnnotations registered structLabel names) := by
  induction names with
  | nil => exact guards_ret ()
  | cons name rest ih =>
    cases name with
    | none => exact ih
    | some annotStr =>
      unfold registerAnnotations NeoPostGraph.registerAnnotations
      split
      · exact guards_lift _
      · exact (guards_enforceAndInsertLabelCatalog pages registered annotStr .annot).bind fun _ => ih

theorem guards_registerAndValidateLabels (structLabel : String) (annotArray : Option Names) :
    Guards (registerAndValidateLabels pages structLabel annotArray)
      (NeoPostGraph.registerAndValidateLabels structLabel annotArray) :=
  (guards_lift _).bind fun registered =>
    (guards_enforceAndInsertLabelCatalog pages registered structLabel .structural).bind fun _ =>
      guards_registerAnnotations pages registered structLabel _

theorem guards_insertAnnotationSchema (kind : LabelKind) (annotArray : Names) :
    Guards (insertAnnotationSchema s kind labelId annotArray)
      (NeoPostGraph.insertAnnotationSchema s kind labelId annotArray) :=
  (guards_npWriteRecordToPage _ _ _).preceded (guards_placeRecord _ _ _ _)

theorem guards_buildVertexLabel (ltree : Ltree) (annotMap : Option Names) :
    Guards (buildVertexLabel pages s labelId ltree annotMap)
      (NeoPostGraph.buildVertexLabel s labelId ltree annotMap) := by
  refine (guards_onGraph (guards_lift _)).bind fun _ => (guards_lift _).bind fun _ => ?_
  refine (guards_insertCatalog pages _ _).bind fun _ => ?_
  cases annotMap with
  | none => exact guards_ret ()
  | some annotArray => exact guards_insertAnnotationSchema s labelId .vertex annotArray

theorem guards_createVlabel (labelStr : String) (annotArray : Option Names) :
    Guards (createVlabel pages s [labelStr] annotArray)
      (NeoPostGraph.createVlabel s [labelStr] annotArray) :=
  (guards_registerAndValidateLabels pages labelStr annotArray).bind fun _ =>
    (guards_lift _).bind fun _ => (guards_lift _).bind fun newId =>
      (guards_buildVertexLabel pages s newId _ annotArray).bind fun _ => guards_ret _

theorem guards_mergeVlabels (parentId childId : Nat) :
    Guards (mergeVlabels pages s parentId childId)
      (NeoPostGraph.mergeVlabels s parentId childId) := by
  refine (guards_searchCatalog pages (.labels .vertex) _).bind fun rows => ?_
  cases rows.find? fun row => row.id = parentId with
  | none => exact guards_lift _
  | some parent =>
    cases rows.find? fun row => row.id = childId ∧ row.id ≠ parentId with
    | none => exact guards_lift _
    | some child =>
      exact (guards_lift _).bind fun mergedLtree => (guards_lift _).bind fun newId =>
        (guards_buildVertexLabel pages s newId mergedLtree _).bind fun _ => guards_ret _

theorem guards_ensureBaseLabel (basePath : Ltree) (newLabel : String) :
    Guards (ensureBaseLabel pages s basePath newLabel)
      (NeoPostGraph.ensureBaseLabel s basePath newLabel) := by
  refine (guards_searchCatalog pages (.labels .vertex) _).bind fun base => ?_
  cases base with
  | some base => exact guards_ret ()
  | none => exact (guards_createVlabel pages s newLabel none).bind fun _ => guards_ret ()

theorem guards_resolveOrCreateTargetLabel (newLabel : String) (currentLtree : Ltree) :
    Guards (resolveOrCreateTargetLabel pages s labelId newLabel currentLtree)
      (NeoPostGraph.resolveOrCreateTargetLabel s labelId newLabel currentLtree) := by
  refine (guards_lift _).bind fun basePath => ?_
  refine (guards_ensureBaseLabel pages s basePath newLabel).bind fun _ => ?_
  split
  · exact guards_ret _
  · refine (guards_lift _).bind fun targetPath => ?_
    refine (guards_searchCatalog pages (.labels .vertex) _).bind fun target => ?_
    cases target with
    | some target => exact guards_ret _
    | none =>
      refine (guards_searchCatalog pages (.labels .vertex) _).bind fun base => ?_
      refine (guards_mergeVlabels pages s labelId _).bind fun _ => ?_
      exact (guards_searchCatalog pages (.labels .vertex) _).bind fun _ => guards_ret _

theorem guards_extractAnnotations (aItemptr : ItemPointer) :
    Guards (extractAnnotations pages behind labelId aItemptr)
      (NeoPostGraph.extractAnnotations behind labelId aItemptr) := by
  refine (guards_searchCatalog pages (.labels .vertex) _).bind fun row => ?_
  cases row with
  | none => exact guards_ret _
  | some row =>
    dsimp only
    split
    · refine (guards_underLock List.not_mem_nil _).bind fun oldBitset => ?_
      exact (guards_readBuffers _ _).bind fun oldMapArray => guards_ret _
    · exact guards_ret _

theorem guards_insertAnnotatedVertex (v : Vertex) (props : Gtype) (inputAnnots : Option Names) :
    Guards (insertAnnotatedVertex pages s v props inputAnnots)
      (NeoPostGraph.insertAnnotatedVertex s v props inputAnnots) := by
  refine guards_afterLookup pages ((guards_onGraph (guards_writeVertexTuple _ _)).bind fun vtid => ?_)
  refine GuardsFrom.bind ?_ fun atid => guards_onGraph (guards_placeVertexSlot _ _ _)
  cases inputAnnots with
  | none => exact guards_ret _
  | some inputAnnots =>
    exact (guards_readBuffers _ _).bind fun bits => guards_npWriteRecordToPage _ _ _

theorem guards_relabelAnnotatedVertex (oldVid targetLabelId : Nat) (pmapRec : NeoPhysMapRecord) :
    Guards (relabelAnnotatedVertex pages behind u fuel s oldVid labelId targetLabelId pmapRec)
      (NeoPostGraph.relabelAnnotatedVertex behind u fuel s pure oldVid labelId targetLabelId
        pmapRec) := by
  refine (guards_onGraph (guards_onVertexTuple labelId _ _)).bind fun oldTuple => ?_
  refine (guards_onGraph (guards_lift _)).bind fun newVertexId => ?_
  refine (guards_extractAnnotations pages behind labelId _).bind fun extracted => ?_
  refine (guards_insertAnnotatedVertex pages s _ _ _).bind fun _ => ?_
  refine (guards_onGraph (guards_migrateWalk pages u s fuel _ _ _ _ _)).bind fun _ => ?_
  refine (guards_onGraph (guards_onVertexTuple labelId _ _)).bind fun _ => ?_
  exact (guards_onGraph (guards_underLock List.not_mem_nil _)).bind fun _ => guards_ret _

/-- **`set_vertex_label`**: no lock is held across a call. -/
theorem guards_setAnnotatedVertexLabel (oldVid : Nat) (newLabel : DottedText) :
    Guards (setAnnotatedVertexLabel pages behind u fuel s s' oldVid labelId newLabel)
      (NeoPostGraph.setAnnotatedVertexLabel behind u fuel s s' oldVid labelId newLabel) := by
  rcases newLabel with - | ⟨newLabel, - | ⟨_, _⟩⟩
  · exact guards_lift _
  · refine (guards_searchCatalog pages (.labels .vertex) _).bind fun current => ?_
    refine (guards_resolveOrCreateTargetLabel pages s labelId _ _).bind fun targetLabelId => ?_
    split
    · exact guards_ret _
    · refine (guards_onGraph (guards_underLock List.not_mem_nil _)).bind fun pmapRec => ?_
      exact (guards_relabelAnnotatedVertex pages behind u fuel s' labelId oldVid _ _).bind
        fun newV => guards_ret _
  · exact guards_lift _

end Guards

end NeoPostGraph.Locking
