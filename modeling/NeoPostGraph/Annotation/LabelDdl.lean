import NeoPostGraph.Annotation.Schema

/-!
# The DDL on labels

`label_commands.c`, `np_label.c` and the label resolution of `dml_labels.c`. A label is created with
or without an annotation schema, merged from two labels with both schemas put together, or made on
the way when an entity is moved to a path no label has yet. `add_annotation_label` and
`drop_annotation_label` change the schemas of a label and of all labels under its path, vertex labels
and edge labels alike.

* `SchemaOp`: a call. `SchemaOp.perform`: the call in a transaction of its own, rolled back if it fails.
* `SchemaRun`: the states of a graph whose labels have been changed by such calls.
-/

namespace NeoPostGraph

open SlottedPage

/-! ## Creating and merging labels -/

/-- `build_vertex_label_infrastructure` (`label_commands.c:184-240`), on the schema tables of a graph
that has been created. -/
def buildVertexLabel (s : Session) (labelId : Nat) (ltree : Ltree) (annotMap : Option Names) :
    AnnotOp Unit := do
  onGraph (buildVertexLabelInfrastructure labelId)
  createAnnotationTable .vertex labelId
  insertLabel .vertex ⟨labelId, ltree, annotMap⟩
  match annotMap with
  | some annotArray => insertAnnotationSchema s .vertex labelId annotArray
  | none => return ()

/-- The annotation table and the schema of a new edge label, if it has annotations. -/
def buildEdgeAnnotations (s : Session) (labelId : Nat) (annotations : Option Names) : AnnotOp Unit :=
  match annotations with
  | some annotArray =>
    if annotArray = [] then return ()
    else do
      createAnnotationTable .edge labelId
      insertAnnotationSchema s .edge labelId annotArray
  | none => return ()

/-- The relations of a new edge label and its row: the common part of `create_elabel_internal`,
`merge_elabels_internal` and the two that resolve an edge label.
The path is parsed before the row is inserted, and may fail there. -/
def buildEdgeLabel (s : Session) (labelId : Nat) (path : AnnotOp Ltree) (annotations : Option Names) :
    AnnotOp Unit := do
  onGraph (createElabelInternal labelId)
  buildEdgeAnnotations s labelId annotations
  let ltree ← path
  insertLabel .edge ⟨labelId, ltree, annotations⟩

/-- The loop of `register_and_validate_labels` over the annotations. -/
def registerAnnotations (registered : List (String × LabelType)) (structLabel : String) :
    Names → AnnotOp Unit
  | [] => return ()
  | none :: rest => registerAnnotations registered structLabel rest
  | some annotStr :: rest =>
    if annotStr = structLabel then Prog.fail (.structuralAndAnnot structLabel)
    else do
      enforceAndInsertLabelCatalog registered annotStr .annot
      registerAnnotations registered structLabel rest

/-- `register_and_validate_labels` (`label_commands.c:444-482`). -/
def registerAndValidateLabels (structLabel : String) (annotArray : Option Names) : AnnotOp Unit := do
  let registered ← registeredLabels
  enforceAndInsertLabelCatalog registered structLabel .structural
  registerAnnotations registered structLabel (annotArray.getD [])

/-- `create_vlabel_internal` (`label_commands.c`). -/
def createVlabel (s : Session) (label : DottedText) (annotArray : Option Names) : AnnotOp Nat :=
  match label with
  | [labelStr] => do
    registerAndValidateLabels labelStr annotArray
    let labelLtree ← parseUnderRoot [labelStr]
    let labelId ← nextLabelId .vertex
    buildVertexLabel s labelId labelLtree annotArray
    return labelId
  | _ => Prog.fail .baseLabelContainsDots

/-- A path without its root level, if it starts with one. -/
def stripRoot : Ltree → Ltree
  | "_" :: rest => rest
  | path => path

/-- `merge_vlabels_internal` (`label_commands.c`): a row whose id is both is taken for the parent. -/
def mergeVlabels (s : Session) (parentId childId : Nat) : AnnotOp Nat := do
  let rows ← scanLabels .vertex .ok
  match rows.find? fun row => row.id = parentId,
      rows.find? fun row => row.id = childId ∧ row.id ≠ parentId with
  | some parent, some child => do
    let mergedLtree ← parseLtree
      (catalogLtreeRootLabel :: (stripRoot parent.ltree ++ stripRoot child.ltree))
    let mergedArray := mergeAndDedupeTextArrays parent.annotationMap child.annotationMap
    let newLabelId ← nextLabelId .vertex
    buildVertexLabel s newLabelId mergedLtree mergedArray
    return newLabelId
  | _, _ => Prog.fail .mergeVlabelsNotFound

/-- `create_vlabel_from_path_internal` (`dml_labels.c:1081-1112`). -/
def createVlabelFromPath (s : Session) (path : Ltree) : AnnotOp Nat := do
  let newLabelId ← nextLabelId .vertex
  let ltree ← parsePath path
  buildVertexLabel s newLabelId ltree none
  return newLabelId

/-- `create_elabel_internal` (`np_label.c:225-299`). -/
def createElabel (s : Session) (label : DottedText) (annotations : Option Names) : AnnotOp Nat := do
  let labelId ← nextLabelId .edge
  buildEdgeLabel s labelId (parseUnderRoot label) annotations
  return labelId

/-- The levels behind the first `_.` in the text of a path. -/
def behindUnderscore : Ltree → Option Ltree
  | level :: next :: rest =>
    if level.toList.getLast? = some '_' then some (next :: rest) else behindUnderscore (next :: rest)
  | _ => none

/-- `clean_base` in `merge_elabels_internal`. -/
def cleanBase (basePath : Ltree) : Ltree := (behindUnderscore basePath).getD basePath

/-- Two lookups in the cache of one kind of label, in one function, before either result is read. Both
misses enter their row under the address of the same variable: when both labels are found, the two
results are one entry, with the row of the second. -/
def searchLabels (kind : LabelKind) (labelId labelId' : Nat) :
    AnnotOp (Option LabelRow × Option LabelRow) := do
  let first ← searchLabel kind labelId
  let second ← searchLabel kind labelId'
  return (if first.isSome && second.isSome then second else first, second)

/-- `merge_elabels_internal` (`np_label.c:398-480`). -/
def mergeElabels (s : Session) (currentLabelId baseLabelId : Nat) : AnnotOp Nat := do
  match ← searchLabels .edge currentLabelId baseLabelId with
  | (some current, some base) => do
    let mergedLtree ← parseLtree (ltreeOut current.ltree ++ ltreeOut (cleanBase base.ltree))
    let newLabelId ← nextLabelId .edge
    buildEdgeLabel s newLabelId (pure mergedLtree)
      (mergeAndDedupeTextArrays current.annotationMap base.annotationMap)
    return newLabelId
  | _ => Prog.fail .mergeElabelsNotFound

/-! ## Resolving a label -/

/-- What a scan that finds no label leaves in the variable: `-1`, cast to the parameter's type by
the call that uses it. No label has it. -/
def noLabelId : Nat := 2 ^ 32 - 1

/-- Find or create the base label. -/
def ensureBaseLabel (s : Session) (basePath : Ltree) (newLabel : String) : AnnotOp Unit := do
  match ← findLabel .vertex basePath with
  | some _ => return ()
  | none => do
    let _ ← createVlabel s [newLabel] none
    return ()

/-- The path an entity of this path goes to that gets a label. -/
def parseTargetPath (basePath : Ltree) (newLabel : String) (currentLtree : Ltree) : AnnotOp Ltree :=
  if currentLtree = [catalogLtreeRootLabel] then pure basePath
  else parseLtree (ltreeOut currentLtree ++ [newLabel])

/-- `resolve_or_create_target_label` (`dml_labels.c:126-231`). -/
def resolveOrCreateTargetLabel (s : Session) (currentLabelId : Nat) (newLabel : String)
    (currentLtree : Ltree) : AnnotOp Nat := do
  let basePath ← parseLtree [catalogLtreeRootLabel, newLabel]
  ensureBaseLabel s basePath newLabel
  if currentLtree ≠ [catalogLtreeRootLabel] ∧ newLabel ∈ currentLtree then return currentLabelId
  else do
    let targetPath ← parseTargetPath basePath newLabel currentLtree
    match ← findLabel .vertex targetPath with
    | some targetLabelId => return targetLabelId
    | none => do
      let baseLabelId ← findLabel .vertex basePath
      let _ ← mergeVlabels s currentLabelId (baseLabelId.getD noLabelId)
      let targetLabelId ← findLabel .vertex targetPath
      return targetLabelId.getD noLabelId

/-- The path `resolve_reduced_target_label` looks for: the label's first level is taken out. -/
def reducedPath (currentLtree : Ltree) (labelToRemove : String) : Ltree :=
  let newPath := currentLtree.erase labelToRemove
  if newPath = [] then [catalogLtreeRootLabel] else newPath

/-- `resolve_reduced_target_label` (`dml_labels.c:1114-1173`). -/
def resolveReducedTargetLabel (s : Session) (currentLabelId : Nat) (labelToRemove : String)
    (currentLtree : Ltree) : AnnotOp Nat :=
  if labelToRemove ∈ currentLtree then do
    let targetPath ← parsePath (reducedPath currentLtree labelToRemove)
    match ← findLabel .vertex targetPath with
    | some targetId => return targetId
    | none => createVlabelFromPath s targetPath
  else return currentLabelId

/-- `resolve_or_create_target_edge_label` (`dml_labels.c:1977-2110`). -/
def resolveOrCreateTargetEdgeLabel (s : Session) (currentLabelId : Nat) (newLabel : String)
    (currentLtree : Ltree) : AnnotOp Nat := do
  let basePath ← parseLtree [catalogLtreeRootLabel, newLabel]
  let baseLabelId ← (do
    match ← findLabel .edge basePath with
    | some baseLabelId => return baseLabelId
    | none => createElabel s [newLabel] none)
  if currentLtree ≠ [catalogLtreeRootLabel] ∧ newLabel ∈ currentLtree then return currentLabelId
  else do
    let targetPath ← parseTargetPath basePath newLabel currentLtree
    match ← findLabel .edge targetPath with
    | some targetLabelId => return targetLabelId
    | none => do
      let targetLabelId ← nextLabelId .edge
      let (current, base) ← searchLabels .edge currentLabelId baseLabelId
      buildEdgeLabel s targetLabelId (pure targetPath)
        (mergeAndDedupeTextArrays (current.bind LabelRow.annotationMap)
          (base.bind LabelRow.annotationMap))
      return targetLabelId

/-- `resolve_target_edge_label_for_removal` (`dml_labels.c:2112-2222`): every level of the label is
taken out. -/
def resolveTargetEdgeLabelForRemoval (s : Session) (currentLabelId : Nat) (labelToRemove : String)
    (currentLtree : Ltree) : AnnotOp Nat :=
  let newPath := currentLtree.filter (· ≠ labelToRemove)
  if labelToRemove ∉ currentLtree then return currentLabelId
  else if newPath = [catalogLtreeRootLabel] then Prog.fail .removeBaseEdgeLabel
  else do
    let targetPath ← parsePath newPath
    match ← findLabel .edge targetPath with
    | some targetLabelId => return targetLabelId
    | none => do
      let targetLabelId ← nextLabelId .edge
      let current ← searchLabel .edge currentLabelId
      buildEdgeLabel s targetLabelId (pure targetPath)
        (mergeAndDedupeTextArrays (current.bind LabelRow.annotationMap) none)
      return targetLabelId

/-! ## Adding and dropping annotations -/

/-- The text of a path without the root, as `np_find_struct_ltree` compares it. -/
def structuralText : Ltree → DottedText
  | ["_"] => [""]
  | "_" :: rest => rest
  | path => path

/-- `np_find_struct_ltree` (`np_label.c:1789-1820`). -/
def npFindStructLtree (kind : LabelKind) (structLabel : DottedText) : AnnotOp (Option Ltree) :=
  scanLabels kind fun rows =>
    .ok ((rows.find? fun row => structuralText row.ltree = structLabel).map LabelRow.ltree)

/-- `np_collect_ltree_descendants` (`np_label.c:1823-1843`). -/
def npCollectLtreeDescendants (kind : LabelKind) (target : Ltree) : AnnotOp (List LabelRow) :=
  scanLabels kind fun rows => .ok (rows.filter fun row => target.isPrefixOf row.ltree)

/-- The array `np_apply_add_annotation_to_tuple` and its sibling start from: the schema found through
the map, or else the `annotation_map` of the row. -/
def oldArray (row : LabelRow) : AnnotOp (Option Names) :=
  Prog.read fun db => .ok (match db.readSchema row.id with
    | some (_, names) => some names
    | none => row.annotationMap)

/-- Make the annotation table of a label that has none. -/
def ensureAnnotationTable (kind : LabelKind) (labelId : Nat) : AnnotOp Unit := do
  let annotTbl ← Prog.read fun db => .ok (db.annotationsTbl kind labelId)
  if annotTbl.isNone then createAnnotationTable kind labelId else return ()

/-- `np_apply_add_annotation_to_tuple` (`np_label.c:1846-1988`). -/
def npApplyAddAnnotationToTuple (s : Session) (kind : LabelKind) (row : LabelRow) (newAnnot : String) :
    AnnotOp Bool := do
  let old := (← oldArray row).getD []
  if some newAnnot ∈ old then return false
  else if old.any Option.isNone then Prog.fail .nullElement
  else do
    insertAnnotationSchema s kind row.id (old ++ [some newAnnot])
    ensureAnnotationTable kind row.id
    updateAnnotationMap kind row.id (old ++ [some newAnnot])
    return true

/-- `np_other_parent_owns_annotation` (`np_label.c:1991-2068`). -/
def npOtherParentOwnsAnnotation (rows : List LabelRow) (ltree : Ltree) (structLabel : DottedText)
    (annot : String) : Bool :=
  let path := structuralText ltree
  path.length ≠ 1 && path.any fun token =>
    [token] ≠ structLabel &&
      match rows.find? fun row => row.ltree = [catalogLtreeRootLabel, token] with
      | some row => (row.annotationMap.getD []).contains (some annot)
      | none => false

/-- `np_apply_drop_annotation_to_tuple` (`np_label.c:2070-2207`). The scan for another parent sees the
rows as they were before the command, whatever the loop has updated. -/
def npApplyDropAnnotationToTuple (s : Session) (kind : LabelKind) (rows : List LabelRow)
    (row : LabelRow) (target : Ltree) (structLabel : DottedText) (dropAnnot : String) :
    AnnotOp Bool := do
  if target ≠ row.ltree ∧
      npOtherParentOwnsAnnotation rows row.ltree structLabel dropAnnot = true then return false
  else do
    let old := (← oldArray row).getD []
    if some dropAnnot ∈ old then do
      let new := old.filter fun name => name.isSome ∧ name ≠ some dropAnnot
      insertAnnotationSchema s kind row.id new
      updateAnnotationMap kind row.id new
      return true
    else return false

/-- The `foreach` over the descendants: how many labels were updated. -/
def forEachRow (apply : LabelRow → AnnotOp Bool) : List LabelRow → AnnotOp Nat
  | [] => return 0
  | row :: rest => do
    let updated ← apply row
    let count ← forEachRow apply rest
    return (if updated then count + 1 else count)

/-- One catalog's part of `add_annotation_label` and of `drop_annotation_label`: whether it has the
structural label. -/
def cascade (kind : LabelKind) (structLabel : DottedText) (apply : Ltree → LabelRow → AnnotOp Bool) :
    AnnotOp Bool := do
  match ← npFindStructLtree kind structLabel with
  | none => return false
  | some target => do
    let tups ← npCollectLtreeDescendants kind target
    let _ ← forEachRow (apply target) tups
    return true

/-- `add_annotation_label` (`np_label.c:2209-2305`). -/
def addAnnotationLabel (s : Session) (structLabel : DottedText) (newAnnot : DottedText) :
    AnnotOp Unit :=
  match newAnnot with
  | [newAnnot] => do
    let v ← cascade .vertex structLabel fun _ row =>
      npApplyAddAnnotationToTuple s .vertex row newAnnot
    let e ← cascade .edge structLabel fun _ row =>
      npApplyAddAnnotationToTuple s .edge row newAnnot
    if v || e then do
      let registered ← registeredLabels
      enforceAndInsertLabelCatalog registered newAnnot .annot
    else Prog.fail (.structuralLabelNotFound (String.intercalate "." structLabel))
  | _ => Prog.fail .annotationContainsDots

/-- `remove_from_label_catalog` and the same inline in `drop_annotation_label`
(`np_label.c:2800-2829, 2908-2926`). -/
def removeFromLabelCatalog (label : String) : AnnotOp Unit :=
  Prog.write fun db => .ok { db with
    labelCatalog := db.labelCatalog.filter fun row => row ≠ (label, .annot) }

/-- `drop_annotation_label` (`np_label.c:2831-2931`). -/
def dropAnnotationLabel (s : Session) (structLabel : DottedText) (dropAnnot : String) :
    AnnotOp Unit := do
  let vRows ← scanLabels .vertex .ok
  let v ← cascade .vertex structLabel fun target row =>
    npApplyDropAnnotationToTuple s .vertex vRows row target structLabel dropAnnot
  let eRows ← scanLabels .edge .ok
  let e ← cascade .edge structLabel fun target row =>
    npApplyDropAnnotationToTuple s .edge eRows row target structLabel dropAnnot
  if v || e then removeFromLabelCatalog dropAnnot
  else Prog.fail (.structuralLabelNotFound (String.intercalate "." structLabel))

/-! ## Histories -/

/-- A call that changes labels. Of the functions that move an entity to another label, this is the
part that finds or makes the label; the move itself is in `Graph.Relabel`. -/
inductive SchemaOp where
  | createVlabel (label : DottedText) (annotations : Option Names)
  | mergeVlabels (parentId childId : Nat)
  | createElabel (label : DottedText) (annotations : Option Names)
  | mergeElabels (currentLabelId baseLabelId : Nat)
  | setVertexLabel (currentLabelId : Nat) (newLabel : DottedText)
  | removeVertexLabel (currentLabelId : Nat) (labelToRemove : DottedText)
  | setEdgeLabel (currentLabelId : Nat) (newLabel : DottedText)
  | removeEdgeLabel (currentLabelId : Nat) (labelToRemove : String)
  | addAnnotationLabel (structLabel newAnnot : DottedText)
  | dropAnnotationLabel (structLabel : DottedText) (dropAnnot : String)
deriving DecidableEq, Repr

/-- Resolve the label of a text without dots, from the label an entity has. -/
def resolveFrom (kind : LabelKind) (currentLabelId : Nat) (e : AnnotErr) (label : DottedText)
    (resolve : String → Ltree → AnnotOp Nat) : AnnotOp Unit :=
  match label with
  | [label] => do
    let current ← requireLabel kind currentLabelId e
    let _ ← resolve label current.ltree
    return ()
  | _ => Prog.fail .labelContainsDots

def SchemaOp.run (s : Session) : SchemaOp → AnnotOp Unit
  | createVlabel label annotations => do
    let _ ← NeoPostGraph.createVlabel s label annotations
    return ()
  | mergeVlabels parentId childId => do
    let _ ← NeoPostGraph.mergeVlabels s parentId childId
    return ()
  | createElabel label annotations => do
    let _ ← NeoPostGraph.createElabel s label annotations
    return ()
  | mergeElabels currentLabelId baseLabelId => do
    let _ ← NeoPostGraph.mergeElabels s currentLabelId baseLabelId
    return ()
  | setVertexLabel currentLabelId newLabel =>
    resolveFrom .vertex currentLabelId (.labelIdNotFound currentLabelId) newLabel
      (resolveOrCreateTargetLabel s currentLabelId)
  | removeVertexLabel currentLabelId labelToRemove =>
    resolveFrom .vertex currentLabelId (.labelIdNotFound currentLabelId) labelToRemove
      (resolveReducedTargetLabel s currentLabelId)
  | setEdgeLabel currentLabelId newLabel =>
    resolveFrom .edge currentLabelId (.edgeLabelIdNotFound currentLabelId) newLabel
      (resolveOrCreateTargetEdgeLabel s currentLabelId)
  | removeEdgeLabel currentLabelId labelToRemove =>
    resolveFrom .edge currentLabelId (.edgeLabelIdNotFound currentLabelId) [labelToRemove]
      (resolveTargetEdgeLabelForRemoval s currentLabelId)
  | addAnnotationLabel structLabel newAnnot =>
    NeoPostGraph.addAnnotationLabel s structLabel newAnnot
  | dropAnnotationLabel structLabel dropAnnot =>
    NeoPostGraph.dropAnnotationLabel s structLabel dropAnnot

/-- What a failed call leaves of what it did: the pages it wrote and the ids it drew. The rows of the
catalogs and the relations it made are gone with its transaction. -/
def AnnotDb.rollback (before after : AnnotDb) : AnnotDb :=
  { before with
    labelIdSeq := after.labelIdSeq
    annotSchemaTbl := after.annotSchemaTbl
    annotSchemaPhysMap := after.annotSchemaPhysMap
    written := after.written }

/-- A call in a transaction of its own. -/
def SchemaOp.perform (s : Session) (o : SchemaOp) (db : AnnotDb) : AnnotDb :=
  match (o.run s).exec db with
  | (.ok _, db') => db'
  | (.error _, db') => db.rollback db'

/-- The graph before it has a label, in a database with this `ltree`. -/
def AnnotDb.empty (ltree : LtreeModule) (xacts : XactState) : AnnotDb where
  ltree := ltree
  graph := Db.empty xacts
  labelIdSeq := fun _ => 1
  labels := fun _ => []
  labelTuples := fun _ => []
  labelCatalog := []
  annotationsTbl := fun _ _ => none
  annotSchemaTbl := Table.empty
  annotSchemaPhysMap := PhysMap.empty
  written := []

/-- `create_default_vlabel`, `create_default_elabel` (`label_commands.c:142-183`): the root labels,
without schemas. -/
def createDefaultLabels (s : Session) : AnnotOp Unit := do
  let v ← nextLabelId .vertex
  buildVertexLabel s v [catalogLtreeRootLabel] none
  let e ← nextLabelId .edge
  buildEdgeLabel s e (pure [catalogLtreeRootLabel]) none

/-- A graph as `create_graph` leaves it. -/
def AnnotDb.created (ltree : LtreeModule) (xacts : XactState) (s : Session) : AnnotDb :=
  ((createDefaultLabels s).exec (AnnotDb.empty ltree xacts)).2

/-- The states of a graph whose labels are changed by calls, one after the other. -/
inductive SchemaRun : AnnotDb → Prop where
  | created (ltree : LtreeModule) (xacts : XactState) (s : Session) :
      SchemaRun (AnnotDb.created ltree xacts s)
  | call {db : AnnotDb} (h : SchemaRun db) (s : Session) (o : SchemaOp) : SchemaRun (o.perform s db)

end NeoPostGraph
