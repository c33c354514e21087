import NeoPostGraph.Annotation.LabelDdl
import NeoPostGraph.Graph.Update

/-!
# Annotation bitsets

An annotated vertex or edge has a bitset: bit `i` stands for name `i` of its label's schema. The
bitset is a tuple of the label's annotation table, and the `a_itemptr` of the entity's physical map
record names the current one. `add_vertex_annotation_label`, `remove_vertex_annotation_label` and the
two edge functions write a new tuple with one bit changed, overwrite `a_itemptr` in place and stamp the
old tuple. `vertex_out` and `edge_out` decode the bitset that `a_itemptr` names, if it is live, against
the schema the map names if that is not newer than the bitset, and else against the label's
`annotation_map`.

* `changeAnnot`: the body of the four functions. `AnnotDb.annotationsOut`: the decoder.
* `bitAt`: a bit as it is read, also past the end of the bitset: the rest of the stored tuple is zero,
  what lies behind it is another tuple.
-/

namespace NeoPostGraph

open SlottedPage

/-! ## Bits -/

/-- The bytes behind a stored tuple, by their distance from its first data byte. -/
abbrev BytesBehind := Table AnnotTuple → ItemPointer → Nat → Nat

/-- The stored length of a bitset tuple. -/
def annotTupleSize (byteSize : Nat) : Nat := maxAlign (sizeOfNPEntityTupleHeader + (4 + byteSize))

/-- How many data bytes of a stored tuple are its own: the bitset and the padding. -/
def ownBytes (byteSize : Nat) : Nat := annotTupleSize byteSize - (sizeOfNPEntityTupleHeader + 4)

/-- A data byte of a tuple, wherever it is read. -/
def byteAt (g : BytesBehind) (tbl : Table AnnotTuple) (tid : ItemPointer) (bits : List Nat)
    (j : Nat) : Nat :=
  if j < bits.length then bits.getD j 0
  else if j < ownBytes bits.length then 0
  else g tbl tid j

/-- `(bits[i / 8] & (1 << (i % 8))) != 0`. -/
def bitAt (g : BytesBehind) (tbl : Table AnnotTuple) (tid : ItemPointer) (bits : List Nat) (i : Nat) :
    Bool :=
  (byteAt g tbl tid bits (i / 8)).testBit (i % 8)

/-- What a call does with the bit of its annotation. -/
inductive BitChange where
  /-- `|= (1 << k)`. -/
  | set
  /-- `&= ~(1 << k)`. -/
  | clear
deriving DecidableEq, Repr

/-- The change, on a byte. -/
def BitChange.onByte (c : BitChange) (k byte : Nat) : Nat :=
  match c with
  | set => byte ||| 2 ^ k
  | clear => byte &&& (255 ^^^ 2 ^ k)

/-- The change of a bit. -/
def BitChange.apply (c : BitChange) (bits : List Nat) (pos : Nat) : List Nat :=
  bits.modify (pos / 8) (c.onByte (pos % 8))

/-- The bits of a new tuple, before the change: the old ones as far as both go, then zeroes. -/
def copyBits (old : List Nat) (byteSize : Nat) : List Nat :=
  old.take byteSize ++ List.replicate (byteSize - old.length) 0

/-- `(map_count + 7) / 8`. -/
def byteSizeOf (names : Names) : Nat := (names.length + 7) / 8

/-- The position of an annotation in a schema. -/
def bitPosition (names : Names) (annot : String) : Option Nat := names.idxOf? (some annot)

/-! ## Reading through a pointer -/

/-- `ReadBuffer`, then `ItemIdIsNormal`. The edge functions check the block first. -/
def readLinePointer {α : Type} (kind : LabelKind) (t : Table α) (tid : ItemPointer) :
    Except AnnotErr (Option α) :=
  if t.nblocks ≤ tid.block then
    match kind with
    | .vertex => .error (.graph (.couldNotReadBlock tid.block))
    | .edge => .ok none
  else .ok (t.get tid)

/-- `map_array`: the schema the map names, or else the label's `annotation_map`. -/
def AnnotDb.mapArray (db : AnnotDb) (kind : LabelKind) (row : LabelRow) :
    Except AnnotErr (Option Names) := do
  let pmapRec ← readLinePointer kind db.annotSchemaPhysMap.table (schemaSlot row.id)
  match pmapRec.map NeoPhysMapRecord.vItemptr with
  | none => return row.annotationMap
  | some latestSchemaTid =>
    if latestSchemaTid.isValid then
      match ← readLinePointer .vertex db.annotSchemaTbl latestSchemaTid with
      | some t => return some t.names
      | none => return row.annotationMap
    else return row.annotationMap

/-- The slot of an entity in the physical map of its label. -/
def LabelKind.slot : LabelKind → Nat → ItemPointer
  | vertex => entitySlot
  | edge => edgeSlot

/-- A physical map record, of a vertex or of an edge. -/
inductive PmapRec where
  | vertex (rec : NeoPhysMapRecord)
  | edge (rec : NeoEdgePhysMapRecord)
deriving DecidableEq, Repr

def PmapRec.aItemptr : PmapRec → ItemPointer
  | vertex rec => rec.aItemptr
  | edge rec => rec.aItemptr

def PmapRec.setAItemptr (tid : ItemPointer) : PmapRec → PmapRec
  | vertex rec => vertex { rec with aItemptr := tid }
  | edge rec => edge { rec with aItemptr := tid }

/-- The blocks of the physical map of a label. -/
def AnnotDb.pmapBlocks (db : AnnotDb) (labelId : Nat) : LabelKind → Nat
  | .vertex => ((db.graph.vlabels labelId).map fun lab => lab.physMap.table.nblocks).getD 0
  | .edge => ((db.graph.elabels labelId).map fun lab => lab.physMap.table.nblocks).getD 0

/-- The record of an entity in the physical map of its label. -/
def AnnotDb.pmapRec (db : AnnotDb) (labelId id : Nat) : LabelKind → Option PmapRec
  | .vertex => (db.graph.vlabels labelId).bind fun lab =>
    (lab.physMap.table.get (entitySlot id)).map PmapRec.vertex
  | .edge => (db.graph.elabels labelId).bind fun lab =>
    (lab.physMap.table.get (edgeSlot id)).map PmapRec.edge

/-! ## The decoder -/

/-- The names of the bits that are set, in the order of the schema. -/
def decodeNames (bit : Nat → Bool) (names : Names) : List String :=
  names.zipIdx.filterMap fun x => if bit x.2 then x.1 else none

/-- The walk back through the versions of the schema, to one that is not newer than the bitset. -/
def AnnotDb.schemaWalk (db : AnnotDb) (kind : LabelKind) (bitset : EntityHeader) :
    Nat → ItemPointer → Except AnnotErr (Option Names)
  | 0, _ => .error (.graph .outOfFuel)
  | n + 1, schemaItemptr =>
    if schemaItemptr.isValid then do
      match ← readLinePointer kind db.annotSchemaTbl schemaItemptr with
      | none => return none
      | some schema =>
        if schema.hdr.xmin < bitset.xmin ∨
            schema.hdr.xmin = bitset.xmin ∧ schema.hdr.cmin ≤ bitset.cmin then
          return some schema.names
        else db.schemaWalk kind bitset n schema.hdr.prevItemptr
    else return none

/-- The schema a bitset is decoded against. -/
def AnnotDb.decodingSchema (db : AnnotDb) (kind : LabelKind) (fuel : Nat) (row : LabelRow)
    (bitset : EntityHeader) : Except AnnotErr Names := do
  let pmapRec ← readLinePointer kind db.annotSchemaPhysMap.table (schemaSlot row.id)
  let schemaItemptr := (pmapRec.map NeoPhysMapRecord.vItemptr).getD .invalid
  match ← db.schemaWalk kind bitset fuel schemaItemptr with
  | some names => return names
  | none => return row.annotationMap.getD []

/-- The annotation part of `vertex_out` and `edge_out` (`vertex.c:126-272`, `edge.c:126-265`), for the
transaction ids `own` and this state of the transactions. -/
def AnnotDb.annotationsOut (db : AnnotDb) (g : BytesBehind) (kind : LabelKind) (x : XactState)
    (own : List Nat) (fuel labelId id : Nat) : Except AnnotErr (List String) :=
  match (db.labels kind).find? fun row => row.id = labelId, db.annotationsTbl kind labelId with
  | some row, some tbl =>
    if db.pmapBlocks labelId kind ≤ (kind.slot id).block then
      match kind with
      | .vertex => .error (.graph (.couldNotReadBlock (kind.slot id).block))
      | .edge => .ok []
    else
      let aItemptr := ((db.pmapRec labelId id kind).map PmapRec.aItemptr).getD .invalid
      if aItemptr.isValid then do
        match ← readLinePointer kind tbl aItemptr with
        | none => return []
        | some bitset =>
          if npEntityTupleIsLive x own bitset.hdr.toRecordHeader then do
            let names ← db.decodingSchema kind fuel row bitset.hdr
            return decodeNames (bitAt g tbl aItemptr bitset.bits) names
          else return []
      else return []
  | _, _ => .ok []

/-! ## Changing an annotation -/

/-- The label, if it supports annotations. -/
def requireAnnotatedLabel (kind : LabelKind) (labelId : Nat) : AnnotOp LabelRow :=
  Prog.read fun db =>
    match (db.labels kind).find? fun row => row.id = labelId, db.annotationsTbl kind labelId with
    | some row, some _ => .ok row
    | _, _ => .error (.annotationsUnsupported kind labelId)

/-- The schema of the label and the position of the annotation in it. -/
def resolveBit (kind : LabelKind) (row : LabelRow) (annot : String) : AnnotOp (Names × Nat) :=
  Prog.read fun db => do
    match ← db.mapArray kind row with
    | none => .error (.noAnnotationSchema kind)
    | some names =>
      match bitPosition names annot with
      | none => .error (.annotationNotValid kind annot)
      | some pos => .ok (names, pos)

/-- Read the physical map record of the entity. -/
def readPmapRec (kind : LabelKind) (labelId id : Nat) : AnnotOp PmapRec :=
  Prog.read fun db =>
    if db.pmapBlocks labelId kind ≤ (kind.slot id).block then .error (.physMapTableEmpty kind)
    else match db.pmapRec labelId id kind with
      | none => .error (.physMapNotFound kind)
      | some rec => .ok rec

/-- The state with another annotation table of a label. -/
def AnnotDb.setAnnotations (db : AnnotDb) (kind : LabelKind) (labelId : Nat)
    (tbl : Table AnnotTuple) : AnnotDb :=
  let tbls := Function.update (db.annotationsTbl kind) labelId (some tbl)
  { db with annotationsTbl := Function.update db.annotationsTbl kind tbls }

/-- A step on the annotation table of a label that has one. -/
def onAnnotations {α : Type} (kind : LabelKind) (labelId : Nat)
    (f : XactState → Table AnnotTuple → Except AnnotErr (α × Table AnnotTuple)) : AnnotOp α :=
  Prog.step fun db =>
    match db.annotationsTbl kind labelId with
    | none => .error (.annotationsUnsupported kind labelId)
    | some tbl => (f db.graph.xacts tbl).map fun x => (x.1, db.setAnnotations kind labelId x.2)

/-- The pointer to the old bitset: the edge functions drop one that lies past the table's end. -/
def keptAnnotTid (kind : LabelKind) (tbl : Table AnnotTuple) (aItemptr : ItemPointer) : ItemPointer :=
  match kind with
  | .vertex => aItemptr
  | .edge => if aItemptr.isValid ∧ tbl.nblocks ≤ aItemptr.block then .invalid else aItemptr

/-- `old_annot_tid`. -/
def oldAnnotTid (kind : LabelKind) (labelId : Nat) (aItemptr : ItemPointer) : AnnotOp ItemPointer :=
  onAnnotations kind labelId fun _ tbl => .ok (keptAnnotTid kind tbl aItemptr, tbl)

/-- The bits to start from, after the check that nobody else is changing them. -/
def oldBits (kind : LabelKind) (own : List Nat) (labelId id byteSize : Nat) (oldTid : ItemPointer) :
    AnnotOp (List Nat) :=
  if oldTid.isValid then
    onAnnotations kind labelId fun x tbl => do
      match ← readLinePointer .vertex tbl oldTid with
      | none => return (copyBits [] byteSize, tbl)
      | some old =>
        if !npEntityTupleIsLive x own old.hdr.toRecordHeader ||
            npEntityTupleXmaxOther x own old.hdr.toRecordHeader then
          .error (.bitsetConcurrentlyUpdated kind id)
        else return (copyBits old.bits byteSize, tbl)
  else return copyBits [] byteSize

/-- A bitset tuple as the writers build it. -/
def newAnnotTuple (s : Session) (id : Nat) (prev : ItemPointer) (bits : List Nat) : AnnotTuple where
  hdr :=
    { xmin := s.fxid
      xmax := invalidFullTransactionId
      cmin := s.cid
      cmax := invalidCommandId
      prevItemptr := prev
      flags := 0
      id := id }
  bits := bits

/-- Append a bitset tuple to the annotation table. -/
def writeAnnotTuple (kind : LabelKind) (labelId : Nat) (tuple : AnnotTuple) : AnnotOp ItemPointer :=
  onAnnotations kind labelId fun _ tbl =>
    match tbl.write (annotTupleSize tuple.bits.length) tuple with
    | none => .error (.graph .addTupleFailed)
    | some (tbl', tid) => .ok (tid, tbl')

/-- Overwrite `a_itemptr` in place: the vertex functions write back the record they read, the edge
functions the one field. -/
def writeAItemptr (labelId id : Nat) (rec : PmapRec) (tid : ItemPointer) : AnnotOp Unit :=
  match rec with
  | .vertex rec => onGraph (npOverwritePhysmapInPage labelId (entitySlot id) { rec with aItemptr := tid })
  | .edge _ => onGraph (onEdgeLabel labelId (.edgeLabelNotFound labelId) fun _ lab => do
      let _ ← readItem lab.physMap.table (edgeSlot id) .undefinedRead
      return ((), { lab with
        physMap := lab.physMap.modify (edgeSlot id) fun rec => { rec with aItemptr := tid } }))

/-- Stamp a bitset deleted. -/
def stampAnnot (s : Session) (t : AnnotTuple) : AnnotTuple :=
  { t with hdr := { t.hdr with xmax := s.fxid, cmax := s.cid } }

/-- Stamp the old bitset, if there was one. Its line pointer is not checked here. -/
def stampOldBitset (kind : LabelKind) (s : Session) (labelId : Nat) (oldTid : ItemPointer) :
    AnnotOp Unit :=
  if oldTid.isValid then
    onAnnotations kind labelId fun _ tbl =>
      match tbl.get oldTid with
      | none => .error (.graph .undefinedRead)
      | some _ => .ok ((), tbl.modify oldTid (stampAnnot s))
  else return ()

/-- The body of the four functions below. -/
def changeAnnot (kind : LabelKind) (change : BitChange) (s : Session) (labelId id : Nat)
    (annot : String) : AnnotOp Unit := do
  let row ← requireAnnotatedLabel kind labelId
  let (names, pos) ← resolveBit kind row annot
  let rec ← readPmapRec kind labelId id
  let oldTid ← oldAnnotTid kind labelId rec.aItemptr
  let bits ← oldBits kind s.own labelId id (byteSizeOf names) oldTid
  let newTid ← writeAnnotTuple kind labelId (newAnnotTuple s id oldTid (change.apply bits pos))
  writeAItemptr labelId id rec newTid
  stampOldBitset kind s labelId oldTid

/-- `add_vertex_annotation_label` (`np_label.c:1354-1567`). -/
def addVertexAnnotationLabel (s : Session) (labelId vertexId : Nat) (annot : String) :
    AnnotOp Unit :=
  changeAnnot .vertex .set s labelId vertexId annot

/-- `remove_vertex_annotation_label` (`np_label.c:1570-1787`). -/
def removeVertexAnnotationLabel (s : Session) (labelId vertexId : Nat) (annot : String) :
    AnnotOp Unit :=
  changeAnnot .vertex .clear s labelId vertexId annot

/-- `add_edge_annotation` (`np_label.c:2337-2566`). -/
def addEdgeAnnotation (s : Session) (labelId edgeId : Nat) (annot : String) : AnnotOp Unit :=
  changeAnnot .edge .set s labelId edgeId annot

/-- `remove_edge_annotation` (`np_label.c:2568-2799`). -/
def removeEdgeAnnotation (s : Session) (labelId edgeId : Nat) (annot : String) : AnnotOp Unit :=
  changeAnnot .edge .clear s labelId edgeId annot

/-! ## Inserting with annotations -/

/-- The loop of `np_internal_insert_vertex` over the annotations it is given. -/
def setBits (names : Names) : Names → List Nat → Except AnnotErr (List Nat)
  | [], bits => .ok bits
  | none :: rest, bits => setBits names rest bits
  | some annot :: rest, bits =>
    match bitPosition names annot with
    | none => .error (.annotationNotValid .vertex annot)
    | some pos => setBits names rest (BitChange.set.apply bits pos)

/-- The bits of the annotations a vertex is inserted with. -/
def inputBits (labelId : Nat) (inputAnnots : Names) : AnnotOp (List Nat) :=
  Prog.read fun db =>
    match (db.labels .vertex).find? fun row => row.id = labelId, db.annotationsTbl .vertex labelId with
    | some row, some _ => do
      match ← db.mapArray .vertex row with
      | none => .error .insertAnnotationsUnsupported
      | some names => setBits names inputAnnots (copyBits [] (byteSizeOf names))
    | _, _ => .error .insertAnnotationsUnsupported

/-- The annotation part of `np_internal_insert_vertex` (`dml_insert.c:128-247`). -/
def insertAnnotations (s : Session) (v : Vertex) (inputAnnots : Option Names) : AnnotOp ItemPointer :=
  match inputAnnots with
  | none => return .invalid
  | some inputAnnots => do
    let bits ← inputBits v.labelId inputAnnots
    writeAnnotTuple .vertex v.labelId (newAnnotTuple s v.id .invalid bits)

/-- `insert_vertex` with annotations (`dml_insert.c:50-265`). -/
def insertAnnotatedVertex (s : Session) (v : Vertex) (props : Gtype) (inputAnnots : Option Names) :
    AnnotOp Unit := do
  let vItemptr ← onGraph (writeVertexTuple v.labelId (newEntityTuple s v.id .invalid v props))
  let aItemptr ← insertAnnotations s v inputAnnots
  onGraph (placeVertexSlot v.labelId v.id ⟨vItemptr, 0, .invalid, aItemptr⟩)

end NeoPostGraph
