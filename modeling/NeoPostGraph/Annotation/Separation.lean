import NeoPostGraph.Annotation.LabelDdl

/-!
# The schema slots of different labels

Vertex labels and edge labels share `annot_schema_phys_map`, and both kinds count their ids from 1, so
a vertex label and an edge label of one id share a slot: whoever wrote last is read by both. A slot
also may not exist: a page takes 291 records where `np_id_to_tid` addresses 314.

* `SchemaInv`: what the map and the store hold, in terms of the calls of `insert_annotation_schema`.
* `AnnotDb.Separate`: every label reads the schema last written for it.
* `AnnotDb.OwnsSlot`: the last schema written to a label's slot is the label's.
* `AnnotDb.SlotsApart`: no two labels share a slot that has a schema.

Results:
* `SchemaRun.inv`: the invariant over all histories, calls that fail included.
* `SchemaInv.separate_iff`: the labels read their own schemas exactly when each owns its slot.
* `schemas_separate_iff`: in every state reached, they do exactly when the slots are apart.
-/

namespace NeoPostGraph

open SlottedPage

variable {db db' : AnnotDb} {s : Session} {kind : LabelKind} {labelId : Nat}

/-! ## What is written and what is read -/

/-- The call that last wrote to the slot of a label id, for whichever label. -/
def AnnotDb.lastInSlot (db : AnnotDb) (labelId : Nat) : Option SchemaWrite :=
  db.written.find? fun w => schemaSlot w.labelId = schemaSlot labelId

/-- The schema last written for a label, and where it went. -/
def AnnotDb.lastWritten (db : AnnotDb) (kind : LabelKind) (labelId : Nat) :
    Option (ItemPointer × Names) :=
  (db.written.find? fun w => w.kind = kind ∧ w.labelId = labelId).map fun w => (w.tid, w.names)

/-- The slot of a label id is one its page has room for. -/
abbrev SlotOnPage (labelId : Nat) : Prop :=
  (schemaSlot labelId).offset ≤ pageCapacity sizeOfNeoPhysMapRecord

/-- **Every label reads the schema last written for it.** -/
def AnnotDb.Separate (db : AnnotDb) : Prop :=
  ∀ kind, ∀ row ∈ db.labels kind, db.readSchema row.id = db.lastWritten kind row.id

/-- No schema of another label was written to the slot since the label's own, or ever; and if the
page has no room for the slot, the label has no schema. -/
def AnnotDb.OwnsSlot (db : AnnotDb) (kind : LabelKind) (labelId : Nat) : Prop :=
  if SlotOnPage labelId then
    ∀ w ∈ db.lastInSlot labelId, w.kind = kind ∧ w.labelId = labelId
  else ∀ w ∈ db.written, ¬ (w.kind = kind ∧ w.labelId = labelId)

instance (kind : LabelKind) (labelId : Nat) : Decidable (db.OwnsSlot kind labelId) :=
  inferInstanceAs (Decidable (if SlotOnPage labelId then
    ∀ w ∈ db.lastInSlot labelId, w.kind = kind ∧ w.labelId = labelId
    else ∀ w ∈ db.written, ¬ (w.kind = kind ∧ w.labelId = labelId)))

/-! ## The invariant -/

/-- The map and the store hold what `insert_annotation_schema` wrote. -/
structure SchemaInv (db : AnnotDb) : Prop where
  latest : ∀ labelId, db.latestSchemaTid labelId = if SlotOnPage labelId then
    ((db.lastInSlot labelId).map SchemaWrite.tid).getD .invalid else .invalid
  stored : ∀ w ∈ db.written, ∃ t, db.annotSchemaTbl.get w.tid = some t ∧ t.names = w.names
  nodup : (db.written.map SchemaWrite.tid).Nodup

/-- Two states with the same schemas. -/
structure SameSchemas (db db' : AnnotDb) : Prop where
  tbl : db'.annotSchemaTbl = db.annotSchemaTbl
  physMap : db'.annotSchemaPhysMap = db.annotSchemaPhysMap
  written : db'.written = db.written

theorem SchemaInv.same (h : SchemaInv db) (hs : SameSchemas db db') : SchemaInv db' := by
  obtain ⟨h₁, h₂, h₃⟩ := h
  unfold AnnotDb.latestSchemaTid AnnotDb.lastInSlot at h₁
  refine ⟨fun labelId => ?_, fun w hw => ?_, ?_⟩
  · unfold AnnotDb.latestSchemaTid AnnotDb.lastInSlot
    rw [hs.physMap, hs.written]
    exact h₁ labelId
  · rw [hs.written] at hw
    rw [hs.tbl]
    exact h₂ w hw
  · rw [hs.written]
    exact h₃

theorem SchemaInv.rollback (h : SchemaInv db') (db : AnnotDb) : SchemaInv (db.rollback db') :=
  h.same ⟨rfl, rfl, rfl⟩

/-- What a placement does to `latest_schema_tid`: the padding reads as no schema. -/
theorem latestSchemaTid_place {tbl : Table SchemaTuple} {written : List SchemaWrite}
    (tid : ItemPointer) (id : Nat) :
    ({ db with
        annotSchemaTbl := tbl
        annotSchemaPhysMap := db.annotSchemaPhysMap.place emptyPad (schemaSlot labelId)
          ⟨tid, 0, .invalid, .invalid⟩
        written := written } : AnnotDb).latestSchemaTid id =
      if schemaSlot labelId = schemaSlot id then
        if SlotOnPage id then tid else .invalid
      else db.latestSchemaTid id := by
  have h1 : 1 ≤ (schemaSlot labelId).offset := one_le_npIdToTid labelId (by decide) (by decide)
  have hfix := db.annotSchemaPhysMap.fixed
  unfold AnnotDb.latestSchemaTid PhysMap.place
  dsimp only
  by_cases hslot : schemaSlot labelId = schemaSlot id
  · have hget := get_extendAndPlace hfix emptyPad h1 ⟨tid, 0, .invalid, .invalid⟩
    rw [hslot] at hget ⊢
    rw [if_pos rfl, hget]
    split_ifs <;> rfl
  · rw [if_neg hslot]
    rcases get_extendAndPlace_other hfix emptyPad h1 (Ne.symm hslot)
      ⟨tid, 0, .invalid, .invalid⟩ with heq | ⟨hnone, hpad⟩
    · rw [heq]
    · rw [hpad, hnone]
      rfl

/-- **`insert_annotation_schema` keeps the invariant.** -/
theorem keeps_insertAnnotationSchema (s : Session) (kind : LabelKind) (labelId : Nat)
    (names : Names) : (insertAnnotationSchema s kind labelId names).Keeps SchemaInv := by
  refine Prog.keeps_write fun db db' h hr => ?_
  dsimp only at hr
  split at hr
  · cases hr
  · next tbl tid hw =>
    cases hr
    refine ⟨fun id => ?_, fun w hmem => ?_, ?_⟩
    · rw [latestSchemaTid_place, h.latest id]
      unfold AnnotDb.lastInSlot
      by_cases hslot : schemaSlot labelId = schemaSlot id
      · rw [if_pos hslot, List.find?_cons_of_pos (by simpa using hslot)]
        rfl
      · rw [if_neg hslot, List.find?_cons_of_neg (by simpa using hslot)]
    · rcases List.mem_cons.mp hmem with rfl | hmem
      · exact ⟨_, Table.write_get hw, rfl⟩
      · obtain ⟨t, ht, hn⟩ := h.stored w hmem
        refine ⟨t, ?_, hn⟩
        rw [Table.write_ne hw fun he => ?_, ht]
        rw [he, Table.write_fresh hw] at ht
        cases ht
    · refine List.nodup_cons.mpr ⟨fun hmem => ?_, h.nodup⟩
      obtain ⟨w, hw', he⟩ := List.mem_map.mp hmem
      obtain ⟨t, ht, -⟩ := h.stored w hw'
      dsimp only at he
      rw [he, Table.write_fresh hw] at ht
      cases ht

/-- Through the map a reader finds the last schema written to the slot. -/
theorem SchemaInv.readSchema (h : SchemaInv db) (labelId : Nat) :
    db.readSchema labelId = if SlotOnPage labelId then
      (db.lastInSlot labelId).map fun w => (w.tid, w.names) else none := by
  unfold AnnotDb.readSchema
  dsimp only
  rw [h.latest labelId]
  split_ifs with hpage hvalid hvalid
  · cases hw : db.lastInSlot labelId with
    | none =>
      rw [hw] at hvalid
      cases hvalid
    | some w =>
      obtain ⟨t, ht, hn⟩ := h.stored w (List.mem_of_find?_eq_some hw)
      simp [ht, hn]
  · cases hw : db.lastInSlot labelId with
    | none => rfl
    | some w =>
      obtain ⟨t, ht, -⟩ := h.stored w (List.mem_of_find?_eq_some hw)
      rw [hw] at hvalid
      exact absurd (Table.isValid_of_get ht) hvalid
  · cases hvalid
  · rfl

/-! ## Own slots -/

/-- Two calls that went to the same tuple are one. -/
theorem SchemaInv.eq_of_tid (h : SchemaInv db) {w w' : SchemaWrite} (hw : w ∈ db.written)
    (hw' : w' ∈ db.written) (he : w.tid = w'.tid) : w = w' :=
  List.inj_on_of_nodup_map h.nodup hw hw' he

/-- The last schema of the slot, if it is the label's, is the label's last. -/
theorem find_label_of_slot {written : List SchemaWrite} {w : SchemaWrite}
    (h : written.find? (fun w => schemaSlot w.labelId = schemaSlot labelId) = some w)
    (hk : w.kind = kind) (hl : w.labelId = labelId) :
    written.find? (fun w => w.kind = kind ∧ w.labelId = labelId) = some w := by
  obtain ⟨-, as, bs, rfl, has⟩ := List.find?_eq_some_iff_append.mp h
  refine List.find?_eq_some_iff_append.mpr ⟨by simp [hk, hl], as, bs, rfl, fun w' hw' => ?_⟩
  have hne := has w' hw'
  simp only [Bool.not_eq_true', decide_eq_false_iff_not] at hne ⊢
  rintro ⟨-, rfl⟩
  exact hne rfl

/-- **A label reads the schema last written for it exactly when it owns its slot.** -/
theorem SchemaInv.readSchema_iff (h : SchemaInv db) (kind : LabelKind) (labelId : Nat) :
    db.readSchema labelId = db.lastWritten kind labelId ↔ db.OwnsSlot kind labelId := by
  rw [h.readSchema]
  unfold AnnotDb.OwnsSlot AnnotDb.lastWritten
  split_ifs with hpage
  · constructor
    · intro he w hw
      rw [hw] at he
      obtain ⟨w', hw', heq⟩ := Option.map_eq_some_iff.mp he.symm
      have htid : w' = w := h.eq_of_tid (List.mem_of_find?_eq_some hw')
        (List.mem_of_find?_eq_some hw) (Prod.mk.inj heq).1
      rw [← htid]
      simpa using List.find?_some hw'
    · intro hown
      cases hw : db.lastInSlot labelId with
      | some w =>
        obtain ⟨hk, hl⟩ := hown w hw
        rw [find_label_of_slot hw hk hl]
      | none =>
        have hnone : db.written.find? (fun w => w.kind = kind ∧ w.labelId = labelId) = none := by
          refine List.find?_eq_none.mpr fun w hw' => ?_
          have hne := List.find?_eq_none.mp hw w hw'
          simp only [decide_eq_true_eq] at hne ⊢
          rintro ⟨-, rfl⟩
          exact hne rfl
        rw [hnone]
  · constructor
    · intro he w hw hkl
      have hnone := Option.map_eq_none_iff.mp he.symm
      exact List.find?_eq_none.mp hnone w hw (by simpa using hkl)
    · intro hown
      have hnone : db.written.find? (fun w => w.kind = kind ∧ w.labelId = labelId) = none :=
        List.find?_eq_none.mpr fun w hw => by simpa using hown w hw
      rw [hnone]
      rfl

/-! ## The calls -/

/-- A step that leaves the schemas alone keeps the invariant. -/
theorem keeps_of_same {α : Type} {f : AnnotDb → Except AnnotErr (α × AnnotDb)}
    (h : ∀ db a db', f db = .ok (a, db') → SameSchemas db db') :
    (Prog.step f).Keeps SchemaInv :=
  Prog.keeps_step fun db a db' hI hf => hI.same (h db a db' hf)

theorem keeps_write_of_same {f : AnnotDb → Except AnnotErr AnnotDb}
    (h : ∀ db db', f db = .ok db' → SameSchemas db db') : (Prog.write f).Keeps SchemaInv :=
  Prog.keeps_write fun db db' hI hf => hI.same (h db db' hf)

theorem keeps_nextLabelId (kind : LabelKind) : (nextLabelId kind).Keeps SchemaInv :=
  keeps_of_same fun db a db' h => by
    cases h
    exact ⟨rfl, rfl, rfl⟩

theorem keeps_onGraph {α : Type} (p : Op α) : (onGraph p).Keeps SchemaInv :=
  keeps_of_same fun db a db' h => by
    split at h
    · cases h
      exact ⟨rfl, rfl, rfl⟩
    · cases h

theorem keeps_createAnnotationTable (kind : LabelKind) (labelId : Nat) :
    (createAnnotationTable kind labelId).Keeps SchemaInv :=
  keeps_write_of_same fun db db' h => by
    cases h
    exact ⟨rfl, rfl, rfl⟩

theorem keeps_insertLabel (kind : LabelKind) (row : LabelRow) :
    (insertLabel kind row).Keeps SchemaInv :=
  keeps_write_of_same fun db db' h => by
    cases h
    exact ⟨rfl, rfl, rfl⟩

theorem keeps_updateAnnotationMap (kind : LabelKind) (labelId : Nat) (names : Names) :
    (updateAnnotationMap kind labelId names).Keeps SchemaInv :=
  keeps_write_of_same fun db db' h => by
    cases h
    exact ⟨rfl, rfl, rfl⟩

theorem keeps_enforceAndInsertLabelCatalog (registered : List (String × LabelType)) (label : String)
    (expected : LabelType) :
    (enforceAndInsertLabelCatalog registered label expected).Keeps SchemaInv :=
  keeps_write_of_same fun db db' h => by
    split at h <;> split_ifs at h <;> cases h <;> exact ⟨rfl, rfl, rfl⟩

theorem keeps_removeFromLabelCatalog (label : String) :
    (removeFromLabelCatalog label).Keeps SchemaInv :=
  keeps_write_of_same fun db db' h => by
    cases h
    exact ⟨rfl, rfl, rfl⟩

/-- What every step of the calls keeps: those that change a state, one by one. -/
structure StepsKeep (s : Session) (I : AnnotDb → Prop) : Prop where
  nextLabelId : ∀ kind, (nextLabelId kind).Keeps I
  onGraph : ∀ {α : Type} (p : Op α), (onGraph p).Keeps I
  createAnnotationTable : ∀ kind labelId, (createAnnotationTable kind labelId).Keeps I
  insertLabel : ∀ kind row, (insertLabel kind row).Keeps I
  insertAnnotationSchema : ∀ kind labelId names, (insertAnnotationSchema s kind labelId names).Keeps I
  updateAnnotationMap : ∀ kind labelId names, (updateAnnotationMap kind labelId names).Keeps I
  enforceAndInsertLabelCatalog : ∀ registered label expected,
    (enforceAndInsertLabelCatalog registered label expected).Keeps I
  removeFromLabelCatalog : ∀ label, (removeFromLabelCatalog label).Keeps I

/-- What the steps on one catalog of `add_annotation_label` and `drop_annotation_label` keep. -/
structure CascadeKeep (s : Session) (kind : LabelKind) (I : AnnotDb → Prop) : Prop where
  insertAnnotationSchema : ∀ labelId names, (insertAnnotationSchema s kind labelId names).Keeps I
  createAnnotationTable : ∀ labelId, (createAnnotationTable kind labelId).Keeps I
  updateAnnotationMap : ∀ labelId names, (updateAnnotationMap kind labelId names).Keeps I

theorem StepsKeep.cascadeKeep {I : AnnotDb → Prop} (h : StepsKeep s I) (kind : LabelKind) :
    CascadeKeep s kind I :=
  ⟨h.insertAnnotationSchema kind, h.createAnnotationTable kind, h.updateAnnotationMap kind⟩

theorem schemaInv_stepsKeep (s : Session) : StepsKeep s SchemaInv where
  nextLabelId := keeps_nextLabelId
  onGraph := keeps_onGraph
  createAnnotationTable := keeps_createAnnotationTable
  insertLabel := keeps_insertLabel
  insertAnnotationSchema := keeps_insertAnnotationSchema s
  updateAnnotationMap := keeps_updateAnnotationMap
  enforceAndInsertLabelCatalog := keeps_enforceAndInsertLabelCatalog
  removeFromLabelCatalog := keeps_removeFromLabelCatalog

/-- The extension `ltree` of the database stays as it is. -/
theorem ltree_stepsKeep (s : Session) (L : LtreeModule) : StepsKeep s fun db => db.ltree = L where
  nextLabelId kind := Prog.keeps_step fun db a db' hI h => by
    cases h
    exact hI
  onGraph p := Prog.keeps_step fun db a db' hI h => by
    split at h <;> cases h
    exact hI
  createAnnotationTable kind labelId := Prog.keeps_write fun db db' hI h => by
    cases h
    exact hI
  insertLabel kind row := Prog.keeps_write fun db db' hI h => by
    cases h
    exact hI
  insertAnnotationSchema kind labelId names := Prog.keeps_write fun db db' hI h => by
    dsimp only at h
    split at h <;> cases h
    exact hI
  updateAnnotationMap kind labelId names := Prog.keeps_write fun db db' hI h => by
    cases h
    exact hI
  enforceAndInsertLabelCatalog registered label expected := Prog.keeps_write fun db db' hI h => by
    split at h <;> split_ifs at h <;> cases h <;> exact hI
  removeFromLabelCatalog label := Prog.keeps_write fun db db' hI h => by
    cases h
    exact hI

variable {I : AnnotDb → Prop}

theorem keeps_parseLtree (text : DottedText) : (parseLtree text).Keeps I := Prog.keeps_read ..

theorem keeps_parsePath (path : Ltree) : (parsePath path).Keeps I :=
  (keeps_parseLtree _).bind fun _ => Prog.keeps_ret ..

theorem keeps_parseUnderRoot (text : DottedText) : (parseUnderRoot text).Keeps I := Prog.keeps_read ..

theorem keeps_parseTargetPath (basePath : Ltree) (newLabel : String) (currentLtree : Ltree) :
    (parseTargetPath basePath newLabel currentLtree).Keeps I := by
  unfold parseTargetPath
  split
  · exact Prog.keeps_ret ..
  · exact keeps_parseLtree _

theorem keeps_searchLabels (kind : LabelKind) (labelId labelId' : Nat) :
    (searchLabels kind labelId labelId').Keeps I :=
  (Prog.keeps_read ..).bind fun _ => (Prog.keeps_read ..).bind fun _ => Prog.keeps_ret ..

theorem StepsKeep.buildVertexLabel (h : StepsKeep s I) (labelId : Nat) (ltree : Ltree)
    (annotMap : Option Names) : (buildVertexLabel s labelId ltree annotMap).Keeps I := by
  refine (h.onGraph _).bind fun _ => (h.createAnnotationTable ..).bind fun _ =>
    (h.insertLabel ..).bind fun _ => ?_
  cases annotMap with
  | none => exact Prog.keeps_ret ..
  | some annotArray => exact h.insertAnnotationSchema ..

theorem StepsKeep.buildEdgeAnnotations (h : StepsKeep s I) (labelId : Nat) (annotations : Option Names) :
    (buildEdgeAnnotations s labelId annotations).Keeps I := by
  unfold NeoPostGraph.buildEdgeAnnotations
  split
  · split
    · exact Prog.keeps_ret ..
    · exact (h.createAnnotationTable ..).bind fun _ => h.insertAnnotationSchema ..
  · exact Prog.keeps_ret ..

theorem StepsKeep.buildEdgeLabel (h : StepsKeep s I) (labelId : Nat) {path : AnnotOp Ltree}
    (hpath : path.Keeps I) (annotations : Option Names) :
    (buildEdgeLabel s labelId path annotations).Keeps I :=
  (h.onGraph _).bind fun _ => (h.buildEdgeAnnotations ..).bind fun _ =>
    hpath.bind fun _ => h.insertLabel ..

/-- Registering the names of a label only registers names, one after the other. -/
theorem keeps_registerAndValidateLabels
    (h : ∀ registered label expected, (enforceAndInsertLabelCatalog registered label expected).Keeps I)
    (structLabel : String) (annotArray : Option Names) :
    (registerAndValidateLabels structLabel annotArray).Keeps I := by
  have hnames (registered : List (String × LabelType)) (names : Names) :
      (registerAnnotations registered structLabel names).Keeps I := by
    induction names with
    | nil => exact Prog.keeps_ret ..
    | cons name rest ih =>
      cases name with
      | none => exact ih
      | some annot =>
        unfold registerAnnotations
        split
        · exact Prog.keeps_fail ..
        · exact (h ..).bind fun _ => ih
  exact (Prog.keeps_read ..).bind fun _ => (h ..).bind fun _ => hnames ..

theorem StepsKeep.registerAndValidateLabels (h : StepsKeep s I) (structLabel : String)
    (annotArray : Option Names) : (registerAndValidateLabels structLabel annotArray).Keeps I :=
  keeps_registerAndValidateLabels h.enforceAndInsertLabelCatalog ..

theorem StepsKeep.createVlabel (h : StepsKeep s I) (label : DottedText) (annotArray : Option Names) :
    (createVlabel s label annotArray).Keeps I := by
  unfold NeoPostGraph.createVlabel
  split
  · exact (h.registerAndValidateLabels ..).bind fun _ => (keeps_parseUnderRoot _).bind fun _ =>
      (h.nextLabelId _).bind fun _ => (h.buildVertexLabel ..).bind fun _ => Prog.keeps_ret ..
  · exact Prog.keeps_fail ..

theorem StepsKeep.mergeVlabels (h : StepsKeep s I) (parentId childId : Nat) :
    (mergeVlabels s parentId childId).Keeps I := by
  refine (Prog.keeps_read ..).bind fun rows => ?_
  split
  · exact (keeps_parseLtree _).bind fun _ => (h.nextLabelId _).bind fun _ =>
      (h.buildVertexLabel ..).bind fun _ => Prog.keeps_ret ..
  · exact Prog.keeps_fail ..

theorem StepsKeep.createVlabelFromPath (h : StepsKeep s I) (path : Ltree) :
    (createVlabelFromPath s path).Keeps I :=
  (h.nextLabelId _).bind fun _ => (keeps_parsePath _).bind fun _ =>
    (h.buildVertexLabel ..).bind fun _ => Prog.keeps_ret ..

theorem StepsKeep.createElabel (h : StepsKeep s I) (label : DottedText) (annotations : Option Names) :
    (createElabel s label annotations).Keeps I :=
  (h.nextLabelId _).bind fun _ =>
    (h.buildEdgeLabel _ (keeps_parseUnderRoot _) _).bind fun _ => Prog.keeps_ret ..

theorem StepsKeep.mergeElabels (h : StepsKeep s I) (currentLabelId baseLabelId : Nat) :
    (mergeElabels s currentLabelId baseLabelId).Keeps I := by
  refine (keeps_searchLabels ..).bind fun found => ?_
  split
  · exact (keeps_parseLtree _).bind fun _ => (h.nextLabelId _).bind fun _ =>
      (h.buildEdgeLabel _ (Prog.keeps_ret ..) _).bind fun _ => Prog.keeps_ret ..
  · exact Prog.keeps_fail ..

theorem StepsKeep.ensureBaseLabel (h : StepsKeep s I) (basePath : Ltree) (newLabel : String) :
    (ensureBaseLabel s basePath newLabel).Keeps I := by
  refine (Prog.keeps_read ..).bind fun base => ?_
  cases base with
  | some _ => exact Prog.keeps_ret ..
  | none => exact (h.createVlabel ..).bind fun _ => Prog.keeps_ret ..

theorem StepsKeep.resolveOrCreateTargetLabel (h : StepsKeep s I) (currentLabelId : Nat) (newLabel : String)
    (currentLtree : Ltree) :
    (resolveOrCreateTargetLabel s currentLabelId newLabel currentLtree).Keeps I := by
  refine (keeps_parseLtree _).bind fun basePath => (h.ensureBaseLabel ..).bind fun _ => ?_
  split
  · exact Prog.keeps_ret ..
  · refine (keeps_parseTargetPath ..).bind fun targetPath => (Prog.keeps_read ..).bind fun target => ?_
    cases target with
    | some _ => exact Prog.keeps_ret ..
    | none => exact (Prog.keeps_read ..).bind fun _ => (h.mergeVlabels ..).bind fun _ =>
        (Prog.keeps_read ..).bind fun _ => Prog.keeps_ret ..

theorem StepsKeep.resolveReducedTargetLabel (h : StepsKeep s I) (currentLabelId : Nat) (labelToRemove : String)
    (currentLtree : Ltree) :
    (resolveReducedTargetLabel s currentLabelId labelToRemove currentLtree).Keeps I := by
  unfold NeoPostGraph.resolveReducedTargetLabel
  split
  · refine (keeps_parsePath _).bind fun targetPath => (Prog.keeps_read ..).bind fun target => ?_
    cases target with
    | some _ => exact Prog.keeps_ret ..
    | none => exact h.createVlabelFromPath ..
  · exact Prog.keeps_ret ..

theorem StepsKeep.resolveOrCreateTargetEdgeLabel (h : StepsKeep s I) (currentLabelId : Nat)
    (newLabel : String) (currentLtree : Ltree) :
    (resolveOrCreateTargetEdgeLabel s currentLabelId newLabel currentLtree).Keeps I := by
  refine (keeps_parseLtree _).bind fun basePath => Prog.Keeps.bind
    ((Prog.keeps_read ..).bind fun base => ?_) fun baseLabelId => ?_
  · cases base with
    | some _ => exact Prog.keeps_ret ..
    | none => exact h.createElabel ..
  · split
    · exact Prog.keeps_ret ..
    · refine (keeps_parseTargetPath ..).bind fun targetPath => (Prog.keeps_read ..).bind fun target => ?_
      cases target with
      | some _ => exact Prog.keeps_ret ..
      | none => exact (h.nextLabelId _).bind fun _ => (keeps_searchLabels ..).bind fun _ =>
          (h.buildEdgeLabel _ (Prog.keeps_ret ..) _).bind fun _ => Prog.keeps_ret ..

theorem StepsKeep.resolveTargetEdgeLabelForRemoval (h : StepsKeep s I) (currentLabelId : Nat)
    (labelToRemove : String) (currentLtree : Ltree) :
    (resolveTargetEdgeLabelForRemoval s currentLabelId labelToRemove currentLtree).Keeps I := by
  unfold NeoPostGraph.resolveTargetEdgeLabelForRemoval
  dsimp only
  split
  · exact Prog.keeps_ret ..
  · split
    · exact Prog.keeps_fail ..
    · refine (keeps_parsePath _).bind fun targetPath => (Prog.keeps_read ..).bind fun target => ?_
      cases target with
      | some _ => exact Prog.keeps_ret ..
      | none => exact (h.nextLabelId _).bind fun _ => (Prog.keeps_read ..).bind fun _ =>
          (h.buildEdgeLabel _ (Prog.keeps_ret ..) _).bind fun _ => Prog.keeps_ret ..

theorem CascadeKeep.ensureAnnotationTable (h : CascadeKeep s kind I) (labelId : Nat) :
    (ensureAnnotationTable kind labelId).Keeps I := by
  refine (Prog.keeps_read ..).bind fun tbl => ?_
  split
  · exact h.createAnnotationTable ..
  · exact Prog.keeps_ret ..

theorem CascadeKeep.npApplyAddAnnotationToTuple (h : CascadeKeep s kind I) (row : LabelRow)
    (newAnnot : String) : (npApplyAddAnnotationToTuple s kind row newAnnot).Keeps I := by
  refine (Prog.keeps_read ..).bind fun old => ?_
  dsimp only
  split
  · exact Prog.keeps_ret ..
  · split
    · exact Prog.keeps_fail ..
    · exact (h.insertAnnotationSchema ..).bind fun _ => (h.ensureAnnotationTable ..).bind
        fun _ => (h.updateAnnotationMap ..).bind fun _ => Prog.keeps_ret ..

theorem CascadeKeep.npApplyDropAnnotationToTuple (h : CascadeKeep s kind I)
    (rows : List LabelRow) (row : LabelRow) (target : Ltree) (structLabel : DottedText)
    (dropAnnot : String) :
    (npApplyDropAnnotationToTuple s kind rows row target structLabel dropAnnot).Keeps I := by
  unfold NeoPostGraph.npApplyDropAnnotationToTuple
  split
  · exact Prog.keeps_ret ..
  · refine (Prog.keeps_read ..).bind fun old => ?_
    dsimp only
    split
    · exact (h.insertAnnotationSchema ..).bind fun _ => (h.updateAnnotationMap ..).bind
        fun _ => Prog.keeps_ret ..
    · exact Prog.keeps_ret ..

theorem keeps_forEachRow {apply : LabelRow → AnnotOp Bool} (happly : ∀ row, (apply row).Keeps I)
    (rows : List LabelRow) : (forEachRow apply rows).Keeps I := by
  induction rows with
  | nil => exact Prog.keeps_ret ..
  | cons row rest ih => exact (happly row).bind fun _ => ih.bind fun _ => Prog.keeps_ret ..

theorem keeps_cascade (kind : LabelKind) (structLabel : DottedText)
    {apply : Ltree → LabelRow → AnnotOp Bool} (happly : ∀ target row, (apply target row).Keeps I) :
    (cascade kind structLabel apply).Keeps I := by
  refine (Prog.keeps_read ..).bind fun target => ?_
  cases target with
  | none => exact Prog.keeps_ret ..
  | some target => exact (Prog.keeps_read ..).bind fun _ =>
      (keeps_forEachRow (happly target) _).bind fun _ => Prog.keeps_ret ..

theorem StepsKeep.addAnnotationLabel (h : StepsKeep s I) (structLabel newAnnot : DottedText) :
    (addAnnotationLabel s structLabel newAnnot).Keeps I := by
  unfold NeoPostGraph.addAnnotationLabel
  split
  · refine (keeps_cascade _ _ fun _ _ => (h.cascadeKeep _).npApplyAddAnnotationToTuple ..).bind fun _ =>
      (keeps_cascade _ _ fun _ _ => (h.cascadeKeep _).npApplyAddAnnotationToTuple ..).bind fun _ => ?_
    split
    · exact (Prog.keeps_read ..).bind fun _ => h.enforceAndInsertLabelCatalog ..
    · exact Prog.keeps_fail ..
  · exact Prog.keeps_fail ..

theorem StepsKeep.dropAnnotationLabel (h : StepsKeep s I) (structLabel : DottedText) (dropAnnot : String) :
    (dropAnnotationLabel s structLabel dropAnnot).Keeps I := by
  refine (Prog.keeps_read ..).bind fun _ =>
    (keeps_cascade _ _ fun _ _ => (h.cascadeKeep _).npApplyDropAnnotationToTuple ..).bind fun _ =>
      (Prog.keeps_read ..).bind fun _ =>
        (keeps_cascade _ _ fun _ _ => (h.cascadeKeep _).npApplyDropAnnotationToTuple ..).bind fun _ => ?_
  split
  · exact h.removeFromLabelCatalog ..
  · exact Prog.keeps_fail ..

theorem keeps_resolveFrom (kind : LabelKind) (currentLabelId : Nat) (e : AnnotErr)
    (label : DottedText) {resolve : String → Ltree → AnnotOp Nat}
    (hresolve : ∀ label path, (resolve label path).Keeps I) :
    (resolveFrom kind currentLabelId e label resolve).Keeps I := by
  unfold resolveFrom
  split
  · exact (Prog.keeps_read ..).bind fun _ => (hresolve ..).bind fun _ => Prog.keeps_ret ..
  · exact Prog.keeps_fail ..

/-- **Every call keeps what its steps keep.** -/
theorem StepsKeep.run (h : StepsKeep s I) (o : SchemaOp) : (o.run s).Keeps I := by
  cases o with
  | createVlabel => exact (h.createVlabel ..).bind fun _ => Prog.keeps_ret ..
  | mergeVlabels => exact (h.mergeVlabels ..).bind fun _ => Prog.keeps_ret ..
  | createElabel => exact (h.createElabel ..).bind fun _ => Prog.keeps_ret ..
  | mergeElabels => exact (h.mergeElabels ..).bind fun _ => Prog.keeps_ret ..
  | setVertexLabel => exact keeps_resolveFrom _ _ _ _ fun _ _ => h.resolveOrCreateTargetLabel ..
  | removeVertexLabel =>
    exact keeps_resolveFrom _ _ _ _ fun _ _ => h.resolveReducedTargetLabel ..
  | setEdgeLabel =>
    exact keeps_resolveFrom _ _ _ _ fun _ _ => h.resolveOrCreateTargetEdgeLabel ..
  | removeEdgeLabel =>
    exact keeps_resolveFrom .edge _ _ [_] fun _ _ => h.resolveTargetEdgeLabelForRemoval ..
  | addAnnotationLabel => exact h.addAnnotationLabel ..
  | dropAnnotationLabel => exact h.dropAnnotationLabel ..

theorem StepsKeep.createDefaultLabels (h : StepsKeep s I) : (createDefaultLabels s).Keeps I :=
  (h.nextLabelId _).bind fun _ => (h.buildVertexLabel ..).bind fun _ =>
    (h.nextLabelId _).bind fun _ => h.buildEdgeLabel _ (Prog.keeps_ret ..) _

/-- **Every call keeps the invariant.** -/
theorem SchemaOp.keeps (s : Session) (o : SchemaOp) : (o.run s).Keeps SchemaInv :=
  (schemaInv_stepsKeep s).run o

/-! ## Histories -/

theorem schemaInv_empty (ltree : LtreeModule) (xacts : XactState) :
    SchemaInv (AnnotDb.empty ltree xacts) where
  latest labelId := by
    split_ifs <;> rfl
  stored w hw := by
    cases hw
  nodup := List.nodup_nil

/-- **The invariant holds over every history**, also after calls that failed half-way. -/
theorem SchemaRun.inv (h : SchemaRun db) : SchemaInv db := by
  induction h with
  | created ltree xacts s =>
    refine Prog.Keeps.exec ?_ (schemaInv_empty ltree xacts)
    exact (schemaInv_stepsKeep s).createDefaultLabels
  | @call db _ s o ih =>
    have hinv := (o.keeps s).exec ih
    unfold SchemaOp.perform
    generalize (o.run s).exec db = r at hinv ⊢
    obtain ⟨res, db'⟩ := r
    cases res with
    | ok _ => exact hinv
    | error _ => exact SchemaInv.rollback hinv db

/-! ## Slots apart -/

theorem SchemaInv.separate_iff (h : SchemaInv db) :
    db.Separate ↔ ∀ kind, ∀ row ∈ db.labels kind, db.OwnsSlot kind row.id :=
  forall_congr' fun kind => forall_congr' fun row => forall_congr' fun _ =>
    h.readSchema_iff kind row.id

/-- **The labels that have schemas have slots of their own.** -/
structure AnnotDb.SlotsApart (db : AnnotDb) : Prop where
  /-- Where two labels share a slot, such as a vertex label and an edge label of one id, no schema was
  ever written to it. -/
  shared : ∀ kind kind', ∀ row ∈ db.labels kind, ∀ row' ∈ db.labels kind', SlotOnPage row.id →
    schemaSlot row.id = schemaSlot row'.id → ¬ (kind = kind' ∧ row.id = row'.id) →
    ∀ w ∈ db.written, schemaSlot w.labelId ≠ schemaSlot row.id
  /-- A label whose slot its page has no room for was given no schema. -/
  onPage : ∀ kind, ∀ row ∈ db.labels kind, ¬ SlotOnPage row.id →
    ∀ w ∈ db.written, ¬ (w.kind = kind ∧ w.labelId = row.id)
  /-- Where a call that failed has left the schema of a label it did not get to make, the label of the
  slot was given a schema since. -/
  leftover : ∀ kind, ∀ row ∈ db.labels kind, SlotOnPage row.id →
    ∀ later w earlier, db.written = later ++ w :: earlier → schemaSlot w.labelId = schemaSlot row.id →
    (∀ row' ∈ db.labels w.kind, row'.id ≠ w.labelId) → ∃ w' ∈ later, w'.kind = kind ∧ w'.labelId = row.id

theorem exists_lastInSlot {w : SchemaWrite} (hw : w ∈ db.written)
    (hslot : schemaSlot w.labelId = schemaSlot labelId) : ∃ w', db.lastInSlot labelId = some w' :=
  Option.isSome_iff_exists.mp (List.find?_isSome.mpr ⟨w, hw, by simpa using hslot⟩)

theorem slotsApart_of_ownsSlot (h : ∀ kind, ∀ row ∈ db.labels kind, db.OwnsSlot kind row.id) :
    db.SlotsApart where
  shared kind kind' row hrow row' hrow' hpage hslot hne w hw hwslot := by
    -- the last schema of the slot is that of both labels
    obtain ⟨w', hw'⟩ := exists_lastInSlot hw hwslot
    have hown := h kind row hrow
    have hown' := h kind' row' hrow'
    unfold AnnotDb.OwnsSlot SlotOnPage AnnotDb.lastInSlot at hown hown'
    rw [← hslot, if_pos hpage] at hown'
    rw [if_pos hpage] at hown
    obtain ⟨hk, hl⟩ := hown w' hw'
    obtain ⟨hk', hl'⟩ := hown' w' hw'
    exact hne ⟨hk.symm.trans hk', hl.symm.trans hl'⟩
  onPage kind row hrow hpage := by
    have hown := h kind row hrow
    unfold AnnotDb.OwnsSlot at hown
    rwa [if_neg hpage] at hown
  leftover kind row hrow hpage later w earlier hwritten hslot hgone := by
    have hown := h kind row hrow
    unfold AnnotDb.OwnsSlot AnnotDb.lastInSlot at hown
    rw [if_pos hpage, hwritten, List.find?_append] at hown
    cases hlater : later.find? fun w => schemaSlot w.labelId = schemaSlot row.id with
    | some w' =>
      rw [hlater] at hown
      exact ⟨w', List.mem_of_find?_eq_some hlater, hown w' rfl⟩
    | none =>
      rw [hlater, List.find?_cons_of_pos (by simpa using hslot)] at hown
      obtain ⟨rfl, hl⟩ := hown w rfl
      exact absurd hl.symm (hgone row hrow)

theorem AnnotDb.SlotsApart.ownsSlot (h : db.SlotsApart) {row : LabelRow} (hrow : row ∈ db.labels kind) :
    db.OwnsSlot kind row.id := by
  unfold AnnotDb.OwnsSlot
  split_ifs with hpage
  · intro w hw
    obtain ⟨hslot, later, earlier, hwritten, hnone⟩ := List.find?_eq_some_iff_append.mp hw
    simp only [decide_eq_true_eq] at hslot
    have hmem : w ∈ db.written := List.mem_of_find?_eq_some hw
    by_contra hne
    by_cases hlabel : ∃ row' ∈ db.labels w.kind, row'.id = w.labelId
    · obtain ⟨row', hrow', hid⟩ := hlabel
      refine h.shared kind w.kind row hrow row' hrow' hpage (by rw [hid, hslot]) ?_ w hmem hslot
      rintro ⟨hk, hl⟩
      exact hne ⟨hk.symm, hid.symm.trans hl.symm⟩
    · push Not at hlabel
      obtain ⟨w', hlater, -, hl⟩ := h.leftover kind row hrow hpage later w earlier hwritten hslot hlabel
      have hnot := hnone w' hlater
      rw [hl] at hnot
      simp at hnot
  · exact h.onPage kind row hrow hpage

/-- **The labels read their own schemas exactly when the labels that have schemas have slots of their
own**, in every state reached. -/
theorem schemas_separate_iff (h : SchemaRun db) : db.Separate ↔ db.SlotsApart :=
  h.inv.separate_iff.trans ⟨slotsApart_of_ownsSlot, fun hapart _ _ hrow => hapart.ownsSlot hrow⟩

/-- A graph just created. -/
def exampleCreated : AnnotDb := AnnotDb.created asciiLtree ⟨6, fun _ => .committed⟩ ⟨5, 0⟩

/-- The first vertex label besides the root has no annotations, the second has one. -/
def exampleVertexLabels : AnnotDb :=
  (SchemaOp.createVlabel ["b"] (some [some "x"])).perform ⟨5, 1⟩
    ((SchemaOp.createVlabel ["a"] none).perform ⟨5, 0⟩ exampleCreated)

theorem exampleVertexLabels_run : SchemaRun exampleVertexLabels := .call (.call (.created ..) ..) ..

theorem schemas_separate_iff_example : exampleVertexLabels.Separate := by
  refine (schemas_separate_iff exampleVertexLabels_run).mpr ⟨?_, ?_, ?_⟩
  · rintro (_ | _) (_ | _) <;> decide
  · rintro (_ | _) <;> decide
  · intro kind row hrow hpage later w earlier hwritten hslot hgone
    have hlabel : ∀ w ∈ exampleVertexLabels.written,
        ∃ row' ∈ exampleVertexLabels.labels w.kind, row'.id = w.labelId := by decide
    have hmem : w ∈ exampleVertexLabels.written := by
      rw [hwritten]
      exact List.mem_append_right _ List.mem_cons_self
    obtain ⟨row', hrow', hid⟩ := hlabel w hmem
    exact absurd hid (hgone row' hrow')

/-- A vertex label and an edge label, each with an annotation of its own: both have id 2. -/
def exampleBothKinds : AnnotDb :=
  (SchemaOp.createElabel ["e"] (some [some "y"])).perform ⟨5, 1⟩
    ((SchemaOp.createVlabel ["a"] (some [some "x"])).perform ⟨5, 0⟩ exampleCreated)

/-- The vertex label reads the schema of the edge label. -/
theorem schemas_separate_fails : ¬ ∀ db, SchemaRun db → db.Separate := by
  intro h
  have hsep := h exampleBothKinds (.call (.call (.created ..) ..) ..) .vertex
    ⟨2, ["_", "a"], some [some "x"]⟩ (by decide)
  have hread : exampleBothKinds.readSchema 2 = some (⟨0, 2⟩, [some "y"]) := by decide
  have hlast : exampleBothKinds.lastWritten .vertex 2 = some (⟨0, 1⟩, [some "x"]) := by decide
  rw [hread, hlast] at hsep
  revert hsep
  decide

end NeoPostGraph
