import NeoPostGraph.Annotation.AppendOnly
import NeoPostGraph.Graph.RelabelEdge

/-!
# Changing the label of an entity that has annotations

`set_vertex_label` and `remove_vertex_label` (`dml_labels.c:528-1078`) with the part that carries the
annotations over: the names of the old bitset are read against the schema of the old label, and the new
vertex is inserted with them under the schema of the new one. `set_edge_label` and `remove_edge_label`
(`dml_labels.c:1884-1984, 2221-2317`) have no such part.

The old bitset is copied out of its page, and its bits are read from the copy: what lies behind the copy
is whatever the memory holds.
-/

namespace NeoPostGraph

open SlottedPage

/-! ## The names of the old bitset -/

/-- `bits[i / 8] & (1 << (i % 8))` in a copied bitset. -/
def copiedBit (behind : Nat → Nat) (bits : List Nat) (i : Nat) : Bool :=
  (if i / 8 < bits.length then bits.getD (i / 8) 0 else behind (i / 8)).testBit (i % 8)

/-- The copy of the old bitset. Neither its line pointer nor its header is checked. -/
def copyOldBitset (labelId : Nat) (aItemptr : ItemPointer) : AnnotOp (List Nat) :=
  Prog.read fun db => do
    match ← readLinePointer .vertex ((db.annotationsTbl .vertex labelId).getD Table.empty) aItemptr with
    | none => .error (.graph .undefinedRead)
    | some t => return t.bits

/-- `old_map_array`, `target_map_array`: the schema the map names, or else the label's
`annotation_map`; the block of the map is checked. -/
def relabelMapArray (row : LabelRow) : AnnotOp (Option Names) :=
  Prog.read fun db => db.mapArray .edge row

/-- A text array to insert with, unless it is empty. -/
def constructArray (names : List String) : Option Names :=
  if names = [] then none else some (names.map some)

/-- The label of this id, if it has an annotation table. -/
def annotatedLabel (labelId : Nat) : AnnotOp (Option LabelRow) :=
  Prog.read fun db => .ok (
    if (db.annotationsTbl .vertex labelId).isSome then
      (db.labels .vertex).find? fun row => row.id = labelId
    else none)

/-- The names of the old bitset of a vertex (`dml_labels.c:616-707, 861-939`). -/
def extractAnnotations (behind : Nat → Nat) (labelId : Nat) (aItemptr : ItemPointer) :
    AnnotOp (List String) := do
  match ← annotatedLabel labelId with
  | none => return []
  | some row =>
    if aItemptr.isValid then do
      let oldBitset ← copyOldBitset labelId aItemptr
      let oldMapArray ← relabelMapArray row
      return decodeNames (copiedBit behind oldBitset) (oldMapArray.getD [])
    else return []

/-- `remove_vertex_label` drops the names that the target's schema does not have
(`dml_labels.c:941-1020`). -/
def filterAnnotations (targetLabelId : Nat) (extracted : List String) : AnnotOp (List String) := do
  match ← annotatedLabel targetLabelId with
  | none => return []
  | some row =>
    if extracted = [] then return []
    else do
      let targetMapArray ← relabelMapArray row
      return extracted.filter fun name => some name ∈ targetMapArray.getD []

/-! ## Vertices -/

/-- Steps 4 to 8, which both functions share, with what the function does with the names. -/
def relabelAnnotatedVertex (behind : Nat → Nat) (u : Unspecified) (fuel : Nat) (s : Session)
    (keep : List String → AnnotOp (List String)) (oldVid currentLabelId targetLabelId : Nat)
    (pmapRec : NeoPhysMapRecord) : AnnotOp Vertex := do
  let oldTuple ← onGraph (readVertexLabel currentLabelId (.labelIdNotFound currentLabelId) fun x lab =>
    checkTuple x s.own lab.vertexTbl pmapRec.vItemptr .undefinedRead
      (.vertexConcurrentlyUpdated oldVid))
  let newVertexId ← onGraph (nextVertexId targetLabelId)
  let newV : Vertex := { oldTuple.entity with id := newVertexId, labelId := targetLabelId }
  let extracted ← extractAnnotations behind currentLabelId pmapRec.aItemptr
  let kept ← keep extracted
  insertAnnotatedVertex s newV oldTuple.props (constructArray kept)
  onGraph (migrateWalk u fuel s oldTuple.entity newV fuel pmapRec.eTblId pmapRec.eItemptr)
  onGraph (stampVertexTuple s currentLabelId pmapRec.vItemptr)
  onGraph (clearVertexSlot currentLabelId oldVid)
  return newV

/-- `set_vertex_label` (`dml_labels.c:528-746`). The label is resolved by the session `s`; the
counters it increments on the way make it `s'`. -/
def setAnnotatedVertexLabel (behind : Nat → Nat) (u : Unspecified) (fuel : Nat) (s s' : Session)
    (oldVid currentLabelId : Nat) (newLabel : DottedText) : AnnotOp (Option Vertex) :=
  match newLabel with
  | [newLabel] => do
    let current ← requireLabel .vertex currentLabelId (.labelIdNotFound currentLabelId)
    let targetLabelId ← resolveOrCreateTargetLabel s currentLabelId newLabel current.ltree
    if targetLabelId = currentLabelId then return none
    else do
      let pmapRec ← onGraph (readOldSlot currentLabelId oldVid)
      let newV ← relabelAnnotatedVertex behind u fuel s' pure oldVid currentLabelId targetLabelId pmapRec
      return some newV
  | _ => Prog.fail .labelContainsDots

/-- `remove_vertex_label` (`dml_labels.c:750-1078`). -/
def removeAnnotatedVertexLabel (behind : Nat → Nat) (u : Unspecified) (fuel : Nat) (s s' : Session)
    (oldVid currentLabelId : Nat) (labelToRemove : DottedText) : AnnotOp Vertex :=
  match labelToRemove with
  | [labelToRemove] => do
    let current ← requireLabel .vertex currentLabelId (.labelIdNotFound currentLabelId)
    let targetLabelId ← resolveReducedTargetLabel s currentLabelId labelToRemove current.ltree
    let pmapRec ← onGraph (readOldSlot currentLabelId oldVid)
    if !pmapRec.vItemptr.isValid then Prog.fail (.graph (.alreadyMigrated oldVid))
    else
      relabelAnnotatedVertex behind u fuel s' (filterAnnotations targetLabelId) oldVid currentLabelId
        targetLabelId pmapRec
  | _ => Prog.fail .labelContainsDots

/-! ## Edges -/

/-- `remove_edge_label` (`dml_labels.c:2221-2317`). -/
def removeAnnotatedEdgeLabel (u : Unspecified) (fuel : Nat) (s s' : Session)
    (edgeId currentLabelId : Nat) (labelToRemove : String) : AnnotOp (Option Edge) := do
  let current ← requireLabel .edge currentLabelId (.edgeLabelIdNotFound currentLabelId)
  let targetLabelId ← resolveTargetEdgeLabelForRemoval s currentLabelId labelToRemove current.ltree
  onGraph (removeEdgeLabel u fuel s' edgeId currentLabelId targetLabelId)

end NeoPostGraph
