import NeoPostGraph.Annotation.Change
import NeoPostGraph.Annotation.Separation

/-!
# What the DDL does to the annotations of one label

`add_annotation_label` and `drop_annotation_label` go over the labels at and below the label they are
given, in both catalogs, and write a schema for each.

* `reached`: the ids of the labels a call goes over.
* `SameLabel`: nothing that is read of a label has changed.
* `LabelStep`: its names have changed, and its entities and their bitsets have not.

Results:
* `addAnnotationLabel_step`, `dropAnnotationLabel_step`: the names of the label the call is given,
  after the call, if no other label it goes over has the same slot.
-/

namespace NeoPostGraph

open SlottedPage

variable {db db' base : AnnotDb} {kind : LabelKind} {s : Session} {labelId : Nat} {names : Names}
  {row : LabelRow} {annot : String} {structLabel : DottedText}

/-! ## The labels a call goes over -/

/-- The ids and the paths of the labels of a kind. -/
def AnnotDb.paths (db : AnnotDb) (kind : LabelKind) : List (Nat × Ltree) :=
  (db.labels kind).map fun row => (row.id, row.ltree)

/-- The labels at and below the first one of this text. -/
def reached (paths : List (Nat × Ltree)) (structLabel : DottedText) : List Nat :=
  match paths.find? fun p => structuralText p.2 = structLabel with
  | none => []
  | some target => (paths.filter fun p => target.2.isPrefixOf p.2).map Prod.fst

/-- The label found first by a text. -/
theorem find?_paths (db : AnnotDb) (kind : LabelKind) (structLabel : DottedText) :
    ((db.labels kind).find? fun row => structuralText row.ltree = structLabel).map
      (fun row => (row.id, row.ltree)) =
      (db.paths kind).find? fun p => structuralText p.2 = structLabel := by
  unfold AnnotDb.paths
  rw [List.find?_map]
  rfl

theorem filter_paths (db : AnnotDb) (kind : LabelKind) (target : Ltree) :
    ((db.labels kind).filter fun row => target.isPrefixOf row.ltree).map LabelRow.id =
      ((db.paths kind).filter fun p => target.isPrefixOf p.2).map Prod.fst := by
  unfold AnnotDb.paths
  rw [List.filter_map, List.map_map]
  rfl

/-- The rows a call goes over are those of the labels reached. -/
theorem reached_eq {found : LabelRow} (h : (db.labels kind).find? (fun row =>
      structuralText row.ltree = structLabel) = some found) :
    reached (db.paths kind) structLabel =
      ((db.labels kind).filter fun row => found.ltree.isPrefixOf row.ltree).map LabelRow.id := by
  have hp := find?_paths db kind structLabel
  rw [h] at hp
  unfold reached
  rw [← hp, filter_paths]
  rfl

/-! ## A label that is left alone -/

/-- Nothing that a reader or a writer of this label's annotations looks at has changed. -/
structure SameLabel (kind : LabelKind) (labelId : Nat) (db db' : AnnotDb) : Prop where
  graph : db'.graph = db.graph
  paths : ∀ k, db'.paths k = db.paths k
  row : (db'.labels kind).find? (fun row => row.id = labelId) =
    (db.labels kind).find? (fun row => row.id = labelId)
  tbl : db'.annotationsTbl kind labelId = db.annotationsTbl kind labelId
  latest : db'.latestSchemaTid labelId = db.latestSchemaTid labelId
  blocks : db.annotSchemaPhysMap.table.nblocks ≤ db'.annotSchemaPhysMap.table.nblocks
  stored : ∀ tid t, db.annotSchemaTbl.get tid = some t → db'.annotSchemaTbl.get tid = some t

theorem SameLabel.refl (kind : LabelKind) (labelId : Nat) (db : AnnotDb) :
    SameLabel kind labelId db db :=
  ⟨rfl, fun _ => rfl, rfl, rfl, rfl, Nat.le_refl _, fun _ _ h => h⟩

theorem SameLabel.trans {db'' : AnnotDb} (h : SameLabel kind labelId db db')
    (h' : SameLabel kind labelId db' db'') : SameLabel kind labelId db db'' where
  graph := h'.graph.trans h.graph
  paths := fun k => (h'.paths k).trans (h.paths k)
  row := h'.row.trans h.row
  tbl := h'.tbl.trans h.tbl
  latest := h'.latest.trans h.latest
  blocks := Nat.le_trans h.blocks h'.blocks
  stored := fun tid t ht => h'.stored tid t (h.stored tid t ht)

/-- Nothing that a reader of the names of this label looks at has changed. -/
structure SameSchema (kind : LabelKind) (labelId : Nat) (db db' : AnnotDb) : Prop where
  row : (db'.labels kind).find? (fun row => row.id = labelId) =
    (db.labels kind).find? (fun row => row.id = labelId)
  latest : db'.latestSchemaTid labelId = db.latestSchemaTid labelId
  blocks : db.annotSchemaPhysMap.table.nblocks ≤ db'.annotSchemaPhysMap.table.nblocks
  stored : ∀ tid t, db.annotSchemaTbl.get tid = some t → db'.annotSchemaTbl.get tid = some t

/-- The names of the label are still what the map and the catalog say. -/
theorem SameSchema.schemaOk (h : SameSchema kind labelId db db')
    (hok : SchemaOk db kind labelId names) : SchemaOk db' kind labelId names := by
  have hread : db'.readSchema labelId = db.readSchema labelId := by
    unfold AnnotDb.readSchema
    rw [h.latest]
    dsimp only
    split_ifs with hvalid
    · obtain ⟨t, ht, -⟩ := hok.walk hvalid
      rw [h.stored _ _ ht, ht]
    · rfl
  obtain ⟨row, hrow, hid, hnames, hmap⟩ := hok.row
  refine ⟨⟨row, h.row.trans hrow, hid, hnames, ?_⟩, ?_, fun hvalid => ?_⟩
  · rwa [hread]
  · rw [hread]
    exact hok.read
  · rw [h.latest] at hvalid ⊢
    obtain ⟨t, ht, hprev⟩ := hok.walk hvalid
    exact ⟨t, h.stored _ _ ht, hprev⟩

theorem SameLabel.schema (h : SameLabel kind labelId db db') : SameSchema kind labelId db db' :=
  ⟨h.row, h.latest, h.blocks, h.stored⟩

theorem SameLabel.schemaOk (h : SameLabel kind labelId db db')
    (hok : SchemaOk db kind labelId names) : SchemaOk db' kind labelId names := h.schema.schemaOk hok

/-- What `insert_annotation_schema` writes. -/
theorem insertAnnotationSchema_inv {k : LabelKind} {l : Nat}
    {u : Unit} (h : (insertAnnotationSchema s k l names).Runs db u db') :
    ∃ tid tbl t, t.names = names ∧ t.hdr.prevItemptr = .invalid ∧
      db.annotSchemaTbl.write (schemaTupleSize names) t = some (tbl, tid) ∧
      db' = { db with
        annotSchemaTbl := tbl
        annotSchemaPhysMap := db.annotSchemaPhysMap.place emptyPad (schemaSlot l)
          ⟨tid, 0, .invalid, .invalid⟩
        written := ⟨k, l, tid, names⟩ :: db.written } := by
  unfold insertAnnotationSchema at h
  have hf := Prog.runs_write_iff.mp h
  dsimp only at hf
  split at hf
  · cases hf
  · next tbl tid hw =>
    cases hf
    exact ⟨tid, tbl, _, rfl, rfl, hw, rfl⟩

/-- A schema written to another slot. -/
theorem keepsSame_insertAnnotationSchema {k : LabelKind} {l : Nat}
    (hslot : schemaSlot l ≠ schemaSlot labelId) :
    (insertAnnotationSchema s k l names).Keeps (SameLabel kind labelId base) := by
  refine Prog.keeps_write fun db db' h hr => ?_
  obtain ⟨tid, tbl, t, -, -, hw, rfl⟩ := insertAnnotationSchema_inv (u := ())
    (Prog.runs_write_iff.mpr hr)
  refine h.trans ⟨rfl, fun _ => rfl, rfl, rfl, ?_, nblocks_le_extendAndPlace .., fun tid' t' ht => ?_⟩
  · rw [latestSchemaTid_place, if_neg hslot]
  · show tbl.get tid' = some t'
    rw [Table.write_ne hw fun he => ?_, ht]
    rw [he, Table.write_fresh hw] at ht
    cases ht

theorem keepsSame_ensureAnnotationTable {k : LabelKind} {l : Nat} (hl : l ≠ labelId) :
    (ensureAnnotationTable k l).Keeps (SameLabel kind labelId base) := by
  refine (Prog.keeps_read ..).bind fun tbl => ?_
  split
  · refine Prog.keeps_write fun db db' h hr => ?_
    cases hr
    refine h.trans ⟨rfl, fun _ => rfl, rfl, ?_, rfl, Nat.le_refl _, fun _ _ h => h⟩
    by_cases hk : kind = k
    · subst hk
      simp [Ne.symm hl]
    · simp [hk]
  · exact Prog.keeps_ret ..

/-- A new `annotation_map` changes no path, and no row but its own. -/
theorem find?_updateAnnotationMap {rows : List LabelRow} {l : Nat} (names : Names) :
    (rows.map fun row => if row.id = l then { row with annotationMap := some names } else row).find?
        (fun row => row.id = labelId) =
      (rows.find? fun row => row.id = labelId).map fun row =>
        if row.id = l then { row with annotationMap := some names } else row := by
  rw [List.find?_map]
  congr 2
  funext row
  dsimp only [Function.comp]
  split_ifs <;> rfl

theorem paths_updateAnnotationMap (db : AnnotDb) (k : LabelKind) (l : Nat) (names : Names)
    (k' : LabelKind) :
    AnnotDb.paths { db with
      labels := Function.update db.labels k ((db.labels k).map fun row =>
        if row.id = l then { row with annotationMap := some names } else row) } k' = db.paths k' := by
  unfold AnnotDb.paths
  by_cases hk : k' = k
  · subst hk
    simp only [Function.update_self, List.map_map]
    refine List.map_congr_left fun row _ => ?_
    dsimp only [Function.comp]
    split_ifs <;> rfl
  · simp [hk]

theorem keepsSame_updateAnnotationMap {k : LabelKind} {l : Nat} (hl : l ≠ labelId) :
    (updateAnnotationMap k l names).Keeps (SameLabel kind labelId base) := by
  refine Prog.keeps_write fun db db' h hr => ?_
  cases hr
  refine h.trans ⟨rfl, fun k' => paths_updateAnnotationMap .., ?_, rfl, rfl, Nat.le_refl _, fun _ _ h => h⟩
  by_cases hk : kind = k
  · subst hk
    simp only [Function.update_self]
    rw [find?_updateAnnotationMap]
    cases hf : (db.labels kind).find? fun row => row.id = labelId with
    | none => rfl
    | some row =>
      have hid := List.find?_some hf
      simp only [decide_eq_true_eq] at hid
      rw [Option.map_some, if_neg fun he => hl (he.symm.trans hid)]
  · simp [hk]

theorem keepsSame_catalog {f : AnnotDb → Except AnnotErr AnnotDb}
    (h : ∀ db db', f db = .ok db' → ∃ rows, db' = { db with labelCatalog := rows }) :
    (Prog.write f).Keeps (SameLabel kind labelId base) :=
  Prog.keeps_write fun db db' hs hf => by
    obtain ⟨rows, rfl⟩ := h db db' hf
    exact hs.trans ⟨rfl, fun _ => rfl, rfl, rfl, rfl, Nat.le_refl _, fun _ _ h => h⟩

theorem keepsSame_enforceAndInsertLabelCatalog (registered : List (String × LabelType))
    (label : String) (expected : LabelType) :
    (enforceAndInsertLabelCatalog registered label expected).Keeps (SameLabel kind labelId base) :=
  keepsSame_catalog fun db db' h => by
    split at h <;> split_ifs at h <;> cases h <;> exact ⟨_, rfl⟩

theorem keepsSame_removeFromLabelCatalog (label : String) :
    (removeFromLabelCatalog label).Keeps (SameLabel kind labelId base) :=
  keepsSame_catalog fun db db' h => by
    cases h
    exact ⟨_, rfl⟩

/-- Adding an annotation to a label leaves the labels with other slots alone. -/
theorem keepsSame_npApplyAddAnnotationToTuple {k : LabelKind}
    (hslot : schemaSlot row.id ≠ schemaSlot labelId) :
    (npApplyAddAnnotationToTuple s k row annot).Keeps (SameLabel kind labelId base) := by
  have hid : row.id ≠ labelId := fun he => hslot (congrArg schemaSlot he)
  refine (Prog.keeps_read ..).bind fun old => ?_
  dsimp only
  split
  · exact Prog.keeps_ret ..
  · split
    · exact Prog.keeps_fail ..
    · exact (keepsSame_insertAnnotationSchema hslot).bind fun _ =>
        (keepsSame_ensureAnnotationTable hid).bind fun _ =>
          (keepsSame_updateAnnotationMap hid).bind fun _ => Prog.keeps_ret ..

/-- So does dropping one. -/
theorem keepsSame_npApplyDropAnnotationToTuple {k : LabelKind} {rows : List LabelRow}
    {target : Ltree} (hslot : schemaSlot row.id ≠ schemaSlot labelId) :
    (npApplyDropAnnotationToTuple s k rows row target structLabel annot).Keeps
      (SameLabel kind labelId base) := by
  have hid : row.id ≠ labelId := fun he => hslot (congrArg schemaSlot he)
  unfold npApplyDropAnnotationToTuple
  split
  · exact Prog.keeps_ret ..
  · refine (Prog.keeps_read ..).bind fun old => ?_
    dsimp only
    split
    · exact (keepsSame_insertAnnotationSchema hslot).bind fun _ =>
        (keepsSame_updateAnnotationMap hid).bind fun _ => Prog.keeps_ret ..
    · exact Prog.keeps_ret ..

/-! ## The label whose names change -/

/-- The label has these names now, and the entities and bitsets it had. -/
structure LabelStep (kind : LabelKind) (labelId : Nat) (names : Names) (db db' : AnnotDb) : Prop where
  graph : db'.graph = db.graph
  paths : ∀ k, db'.paths k = db.paths k
  tbl : db'.annotationsTbl kind labelId = db.annotationsTbl kind labelId
  blocks : db.annotSchemaPhysMap.table.nblocks ≤ db'.annotSchemaPhysMap.table.nblocks
  ok : SchemaOk db' kind labelId names

theorem SameLabel.step (h : SameLabel kind labelId db db') (hok : SchemaOk db kind labelId names) :
    LabelStep kind labelId names db db' :=
  ⟨h.graph, h.paths, h.tbl, h.blocks, h.schemaOk hok⟩

theorem SameLabel.before {db'' : AnnotDb} (h : SameLabel kind labelId db db')
    (h' : LabelStep kind labelId names db' db'') : LabelStep kind labelId names db db'' :=
  ⟨h'.graph.trans h.graph, fun k => (h'.paths k).trans (h.paths k), h'.tbl.trans h.tbl,
    Nat.le_trans h.blocks h'.blocks, h'.ok⟩

theorem LabelStep.same {db'' : AnnotDb} (h : LabelStep kind labelId names db db')
    (h' : SameLabel kind labelId db' db'') : LabelStep kind labelId names db db'' :=
  ⟨h'.graph.trans h.graph, fun k => (h'.paths k).trans (h.paths k), h'.tbl.trans h.tbl,
    Nat.le_trans h.blocks h'.blocks, h'.schemaOk h.ok⟩

/-- The array that the DDL starts from is the names of the label. -/
theorem SchemaOk.oldArray (h : SchemaOk db kind labelId names)
    (hrow : (db.labels kind).find? (fun row => row.id = labelId) = some row) {old : Option Names}
    (hr : (oldArray row).Runs db old db') : old.getD [] = names ∧ db' = db := by
  obtain ⟨hf, rfl⟩ := Prog.runs_read_iff.mp hr
  obtain ⟨row', hrow', hid, hnames, -⟩ := h.row
  obtain rfl := Option.some.inj (hrow.symm.trans hrow')
  refine ⟨?_, rfl⟩
  rw [hid] at hf
  cases hread : db'.readSchema labelId with
  | none =>
    rw [hread] at hf
    rw [← Except.ok.inj hf]
    exact hnames
  | some found =>
    rw [hread] at hf
    rw [← Except.ok.inj hf]
    exact h.read _ _ hread

/-- **Writing the schema and the `annotation_map` of a label** gives it the names. -/
theorem writeNames_step {u u' : Unit} {db₁ db₂ : AnnotDb}
    (hrow : (db.labels kind).find? (fun row => row.id = labelId) = some row)
    (hschema : (insertAnnotationSchema s kind labelId names).Runs db u db₁)
    (hmap : (updateAnnotationMap kind labelId names).Runs db₁ u' db₂) :
    LabelStep kind labelId names db db₂ := by
  obtain ⟨tid, tbl, t, hnames, hprev, hw, hdb₁⟩ := insertAnnotationSchema_inv hschema
  have hdb := Except.ok.inj (Prog.runs_write_iff.mp hmap)
  have hid := List.find?_some hrow
  simp only [decide_eq_true_eq] at hid
  have hlatest : db₂.latestSchemaTid labelId = if SlotOnPage labelId then tid else .invalid := by
    rw [← hdb]
    change db₁.latestSchemaTid labelId = _
    rw [hdb₁, latestSchemaTid_place, if_pos rfl]
  have hget : db₂.annotSchemaTbl.get tid = some t := by
    rw [← hdb, hdb₁]
    exact Table.write_get hw
  have hstored (hvalid : (db₂.latestSchemaTid labelId).isValid = true) :
      db₂.annotSchemaTbl.get (db₂.latestSchemaTid labelId) = some t := by
    rw [hlatest] at hvalid ⊢
    split_ifs at hvalid ⊢
    · exact hget
    · cases hvalid
  subst hdb hdb₁
  refine ⟨rfl, fun k => paths_updateAnnotationMap .., rfl, nblocks_le_extendAndPlace .., ?_⟩
  refine ⟨⟨{ row with annotationMap := some names }, ?_, hid, rfl, fun _ => rfl⟩,
    fun tid' ns hread => ?_, fun hvalid => ⟨t, hstored hvalid, by rw [hprev]; rfl⟩⟩
  · simp only [Function.update_self]
    rw [find?_updateAnnotationMap, hrow, Option.map_some, if_pos hid]
  · unfold AnnotDb.readSchema at hread
    dsimp only at hread
    split_ifs at hread with hvalid
    obtain ⟨t', ht', he⟩ := Option.map_eq_some_iff.mp hread
    obtain rfl := Option.some.inj ((hstored hvalid).symm.trans ht')
    rw [← (Prod.mk.inj he).2, hnames]

/-- The names of a label after an annotation is added to it. -/
def addedNames (names : Names) (annot : String) : Names :=
  if some annot ∈ names then names else names ++ [some annot]

/-- The names of a label after an annotation is dropped from it: the NULLs go too. -/
def keptNames (names : Names) (annot : String) : Names :=
  if some annot ∈ names then names.filter fun name => name.isSome ∧ name ≠ some annot else names

/-- Adding an annotation to the label itself. -/
theorem npApplyAddAnnotationToTuple_step {updated : Bool} (hok : SchemaOk db kind labelId names)
    (hrow : (db.labels kind).find? (fun row => row.id = labelId) = some row)
    (htbl : (db.annotationsTbl kind labelId).isSome)
    (h : (npApplyAddAnnotationToTuple s kind row annot).Runs db updated db') :
    LabelStep kind labelId (addedNames names annot) db db' := by
  have hid := List.find?_some hrow
  simp only [decide_eq_true_eq] at hid
  unfold npApplyAddAnnotationToTuple at h
  obtain ⟨old, db₁, hread, h₁⟩ := Prog.runs_bind_iff.mp h
  obtain ⟨hold, rfl⟩ := hok.oldArray hrow hread
  dsimp only at h₁
  rw [hold] at h₁
  unfold addedNames
  split_ifs at h₁ ⊢ with hmem hnull
  · obtain ⟨-, rfl⟩ := Prog.runs_ret_iff.mp h₁
    exact (SameLabel.refl ..).step hok
  · exact absurd h₁ Prog.runs_fail_iff.mp
  · rw [hid] at h₁
    obtain ⟨_, db₂, hschema, h₂⟩ := Prog.runs_bind_iff.mp h₁
    obtain ⟨_, db₃, hensure, h₃⟩ := Prog.runs_bind_iff.mp h₂
    obtain ⟨_, db₄, hmap, h₄⟩ := Prog.runs_bind_iff.mp h₃
    obtain ⟨-, rfl⟩ := Prog.runs_ret_iff.mp h₄
    -- the label has its table, so nothing is made
    obtain ⟨annotTbl, db₅, hread', hmake⟩ := Prog.runs_bind_iff.mp hensure
    obtain ⟨hannot, rfl⟩ := Prog.runs_read_iff.mp hread'
    obtain ⟨tid, tbl, t, -, -, -, hdb₂⟩ := insertAnnotationSchema_inv hschema
    have hsome : annotTbl.isNone = false := by
      rw [← Except.ok.inj hannot, hdb₂]
      simpa using htbl
    rw [hsome, if_neg Bool.false_ne_true] at hmake
    obtain ⟨-, rfl⟩ := Prog.runs_ret_iff.mp hmake
    exact writeNames_step hrow hschema hmap

/-- Dropping an annotation from the label the call is given. -/
theorem npApplyDropAnnotationToTuple_step {rows : List LabelRow} {updated : Bool}
    (hok : SchemaOk db kind labelId names)
    (hrow : (db.labels kind).find? (fun row => row.id = labelId) = some row)
    (h : (npApplyDropAnnotationToTuple s kind rows row row.ltree structLabel annot).Runs db updated
      db') :
    LabelStep kind labelId (keptNames names annot) db db' := by
  have hid := List.find?_some hrow
  simp only [decide_eq_true_eq] at hid
  unfold npApplyDropAnnotationToTuple at h
  rw [if_neg fun hne => hne.1 rfl] at h
  obtain ⟨old, db₂, hread, h₂⟩ := Prog.runs_bind_iff.mp h
  obtain ⟨hold, rfl⟩ := hok.oldArray hrow hread
  dsimp only at h₂
  rw [hold] at h₂
  unfold keptNames
  split_ifs at h₂ ⊢ with hmem
  · rw [hid] at h₂
    obtain ⟨_, db₃, hschema, h₃⟩ := Prog.runs_bind_iff.mp h₂
    obtain ⟨_, db₄, hmap, h₄⟩ := Prog.runs_bind_iff.mp h₃
    obtain ⟨-, rfl⟩ := Prog.runs_ret_iff.mp h₄
    exact writeNames_step hrow hschema hmap
  · obtain ⟨-, rfl⟩ := Prog.runs_ret_iff.mp h₂
    exact (SameLabel.refl ..).step hok

/-! ## The calls -/

section Cascade

variable {apply : LabelRow → AnnotOp Bool} {rows : List LabelRow} {n : Nat}

/-- The loop over labels with other slots. -/
theorem forEachRow_same
    (hother : ∀ row ∈ rows, (apply row).Keeps (SameLabel kind labelId base))
    (h : (forEachRow apply rows).Runs db n db') (hs : SameLabel kind labelId base db) :
    SameLabel kind labelId base db' := by
  induction rows generalizing db n with
  | nil =>
    obtain ⟨-, rfl⟩ := Prog.runs_ret_iff.mp h
    exact hs
  | cons row rest ih =>
    obtain ⟨updated, db₁, hhead, h₁⟩ := Prog.runs_bind_iff.mp h
    obtain ⟨count, db₂, hrest, h₂⟩ := Prog.runs_bind_iff.mp h₁
    obtain ⟨-, rfl⟩ := Prog.runs_ret_iff.mp h₂
    exact ih (fun row hrow => hother row (List.mem_cons_of_mem _ hrow)) hrest
      ((hother row List.mem_cons_self).runs hhead hs)

/-- **The loop over rows that has the label's once.** -/
theorem forEachRow_step {names' : Names}
    (hok : SchemaOk db kind labelId names) (hid : row.id = labelId)
    (hrow : (db.labels kind).find? (fun row => row.id = labelId) = some row)
    (htbl : (db.annotationsTbl kind labelId).isSome)
    (hmem : row ∈ rows) (hnodup : (rows.map LabelRow.id).Nodup)
    (hother : ∀ row ∈ rows, row.id ≠ labelId → ∀ base, (apply row).Keeps
      (SameLabel kind labelId base))
    (hself : ∀ db db' updated, SchemaOk db kind labelId names →
      (db.labels kind).find? (fun row => row.id = labelId) = some row →
      (db.annotationsTbl kind labelId).isSome → (apply row).Runs db updated db' →
        LabelStep kind labelId names' db db')
    (h : (forEachRow apply rows).Runs db n db') : LabelStep kind labelId names' db db' := by
  induction rows generalizing db n with
  | nil => cases hmem
  | cons head rest ih =>
    obtain ⟨updated, db₁, hhead, h₁⟩ := Prog.runs_bind_iff.mp h
    obtain ⟨count, db₂, hrest, h₂⟩ := Prog.runs_bind_iff.mp h₁
    obtain ⟨-, rfl⟩ := Prog.runs_ret_iff.mp h₂
    obtain ⟨hnotin, hnodup'⟩ := List.nodup_cons.mp hnodup
    rcases List.mem_cons.mp hmem with rfl | hmem'
    · have hstep := hself db db₁ updated hok hrow htbl hhead
      have hne {other : LabelRow} (ho : other ∈ rest) : other.id ≠ labelId := fun he =>
        hnotin (List.mem_map.mpr ⟨other, ho, he.trans hid.symm⟩)
      exact hstep.same (forEachRow_same (fun other ho => hother other (List.mem_cons_of_mem _ ho)
        (hne ho) db₁) hrest (SameLabel.refl ..))
    · have hne : head.id ≠ labelId := fun he =>
        hnotin (List.mem_map.mpr ⟨row, hmem', hid.trans he.symm⟩)
      have hsame := (hother head List.mem_cons_self hne db).runs hhead (SameLabel.refl ..)
      refine hsame.before (ih (hsame.schemaOk hok) (hsame.row.trans hrow) ?_ hmem' hnodup'
        (fun other ho => hother other (List.mem_cons_of_mem _ ho)) hrest)
      rw [hsame.tbl]
      exact htbl

end Cascade

/-- The label of an id is the one a text names: a label found first by the text has its path. -/
structure NamedLabel (paths : List (Nat × Ltree)) (labelId : Nat) (structLabel : DottedText) :
    Prop where
  nodup : (paths.map Prod.fst).Nodup
  named : ∃ path first, (labelId, path) ∈ paths ∧
    paths.find? (fun p => structuralText p.2 = structLabel) = some (first, path)

/-- No other label that a call on this text goes over has the label's slot. -/
def OtherSlots (db : AnnotDb) (kind : LabelKind) (labelId : Nat) (structLabel : DottedText) : Prop :=
  ∀ k, ∀ l ∈ reached (db.paths k) structLabel, (k, l) ≠ (kind, labelId) →
    schemaSlot l ≠ schemaSlot labelId

/-- What the scan of a call finds. -/
theorem npFindStructLtree_runs_iff {k : LabelKind} {target : Option Ltree} :
    (npFindStructLtree k structLabel).Runs db target db' ↔
      target = ((db.labels k).find? fun row => structuralText row.ltree = structLabel).map
        LabelRow.ltree ∧ db' = db := by
  unfold npFindStructLtree scanLabels
  rw [Prog.runs_read_iff, Except.ok.injEq, eq_comm]

/-- A call on a catalog that has no label with this slot at or below the text. -/
theorem cascade_same {k : LabelKind} {apply : Ltree → LabelRow → AnnotOp Bool} {b : Bool}
    (hslots : ∀ l ∈ reached (db.paths k) structLabel, schemaSlot l ≠ schemaSlot labelId)
    (hother : ∀ target row, schemaSlot row.id ≠ schemaSlot labelId → ∀ base,
      (apply target row).Keeps (SameLabel kind labelId base))
    (h : (cascade k structLabel apply).Runs db b db') : SameLabel kind labelId db db' := by
  obtain ⟨target, db₁, hfind, h₁⟩ := Prog.runs_bind_iff.mp h
  obtain ⟨htarget, rfl⟩ := npFindStructLtree_runs_iff.mp hfind
  cases hfound : (db₁.labels k).find? fun row => structuralText row.ltree = structLabel with
  | none =>
    rw [hfound] at htarget
    subst htarget
    obtain ⟨-, rfl⟩ := Prog.runs_ret_iff.mp h₁
    exact SameLabel.refl ..
  | some found =>
    rw [hfound] at htarget
    subst htarget
    obtain ⟨tups, db₂, hscan, h₂⟩ := Prog.runs_bind_iff.mp h₁
    obtain ⟨htups, rfl⟩ := Prog.runs_read_iff.mp hscan
    obtain ⟨n, db₃, hloop, h₃⟩ := Prog.runs_bind_iff.mp h₂
    obtain ⟨-, rfl⟩ := Prog.runs_ret_iff.mp h₃
    refine forEachRow_same (fun row hrow => hother _ row (hslots row.id ?_) _) hloop
      (SameLabel.refl ..)
    rw [reached_eq hfound, Except.ok.inj htups]
    exact List.mem_map_of_mem hrow

/-- **A call on the catalog of the label.** -/
theorem cascade_step {apply : Ltree → LabelRow → AnnotOp Bool} {b : Bool} {names' : Names}
    (hok : SchemaOk db kind labelId names) (htbl : (db.annotationsTbl kind labelId).isSome)
    (hnamed : NamedLabel (db.paths kind) labelId structLabel)
    (hslots : OtherSlots db kind labelId structLabel)
    (hother : ∀ target row, schemaSlot row.id ≠ schemaSlot labelId → ∀ base,
      (apply target row).Keeps (SameLabel kind labelId base))
    (hself : ∀ row db db' updated, SchemaOk db kind labelId names →
      (db.labels kind).find? (fun row => row.id = labelId) = some row →
      (db.annotationsTbl kind labelId).isSome → (apply row.ltree row).Runs db updated db' →
        LabelStep kind labelId names' db db')
    (h : (cascade kind structLabel apply).Runs db b db') :
    LabelStep kind labelId names' db db' := by
  obtain ⟨row, hrow, hid, -⟩ := hok.row
  obtain ⟨path, first, hpath, hfirst⟩ := hnamed.named
  have hmem : (row.id, row.ltree) ∈ db.paths kind :=
    List.mem_map_of_mem (List.mem_of_find?_eq_some hrow)
  have hltree : row.ltree = path := by
    have he := List.inj_on_of_nodup_map hnamed.nodup hmem hpath hid
    exact (Prod.mk.inj he).2
  obtain ⟨target, db₁, hfind, h₁⟩ := Prog.runs_bind_iff.mp h
  obtain ⟨htarget, rfl⟩ := npFindStructLtree_runs_iff.mp hfind
  have hp := find?_paths db₁ kind structLabel
  rw [hfirst] at hp
  obtain ⟨found, hfound, hpair⟩ := Option.map_eq_some_iff.mp hp
  have hfl : found.ltree = row.ltree := (Prod.mk.inj hpair).2.trans hltree.symm
  rw [hfound, Option.map_some, hfl] at htarget
  subst htarget
  obtain ⟨tups, db₂, hscan, h₂⟩ := Prog.runs_bind_iff.mp h₁
  obtain ⟨htups, rfl⟩ := Prog.runs_read_iff.mp hscan
  obtain ⟨n, db₃, hloop, h₃⟩ := Prog.runs_bind_iff.mp h₂
  obtain ⟨-, rfl⟩ := Prog.runs_ret_iff.mp h₃
  obtain rfl := Except.ok.inj htups
  have hreach := reached_eq hfound
  rw [hfl] at hreach
  refine forEachRow_step hok hid hrow htbl ?_ ?_ (fun other ho hne base => hother row.ltree other
    (hslots kind other.id ?_ fun he => hne (Prod.mk.inj he).2) base) (hself row) hloop
  · exact List.mem_filter.mpr ⟨List.mem_of_find?_eq_some hrow, by simp⟩
  · have hsub : (((db₂.labels kind).filter fun other => row.ltree.isPrefixOf other.ltree).map
        LabelRow.id).Sublist ((db₂.labels kind).map LabelRow.id) := List.filter_sublist.map _
    have hids := hnamed.nodup
    unfold AnnotDb.paths at hids
    rw [List.map_map] at hids
    exact hsub.nodup hids
  · rw [hreach]
    exact List.mem_map_of_mem ho

/-- **Adding an annotation to a label appends it to its names.** -/
theorem addAnnotationLabel_step {u : Unit} (hok : SchemaOk db .vertex labelId names)
    (htbl : (db.annotationsTbl .vertex labelId).isSome)
    (hnamed : NamedLabel (db.paths .vertex) labelId structLabel)
    (hslots : OtherSlots db .vertex labelId structLabel)
    (h : (addAnnotationLabel s structLabel [annot]).Runs db u db') :
    LabelStep .vertex labelId (addedNames names annot) db db' := by
  obtain ⟨v, db₁, hv, h₁⟩ := Prog.runs_bind_iff.mp h
  obtain ⟨e, db₂, he, h₂⟩ := Prog.runs_bind_iff.mp h₁
  have hstep := cascade_step hok htbl hnamed hslots
    (fun _ _ hslot _ => keepsSame_npApplyAddAnnotationToTuple hslot)
    (fun _ _ _ _ hok hrow htbl => npApplyAddAnnotationToTuple_step hok hrow htbl) hv
  have hedges : SameLabel .vertex labelId db₁ db₂ := cascade_same (fun l hl => ?_)
    (fun _ _ hslot _ => keepsSame_npApplyAddAnnotationToTuple hslot) he
  · refine (hstep.same hedges).same ?_
    split_ifs at h₂
    · exact ((Prog.keeps_read ..).bind fun _ => keepsSame_enforceAndInsertLabelCatalog ..).runs h₂
        (SameLabel.refl ..)
    · exact absurd h₂ Prog.runs_fail_iff.mp
  · rw [hstep.paths] at hl
    exact hslots .edge l hl (by simp)

/-- **Dropping an annotation from a label takes it out of its names**, and the positions of the names
behind it shift. -/
theorem dropAnnotationLabel_step {u : Unit} (hok : SchemaOk db .vertex labelId names)
    (htbl : (db.annotationsTbl .vertex labelId).isSome)
    (hnamed : NamedLabel (db.paths .vertex) labelId structLabel)
    (hslots : OtherSlots db .vertex labelId structLabel)
    (h : (dropAnnotationLabel s structLabel annot).Runs db u db') :
    LabelStep .vertex labelId (keptNames names annot) db db' := by
  obtain ⟨vRows, db₀, hvRows, h₀⟩ := Prog.runs_bind_iff.mp h
  obtain ⟨-, rfl⟩ := Prog.runs_read_iff.mp hvRows
  obtain ⟨v, db₁, hv, h₁⟩ := Prog.runs_bind_iff.mp h₀
  obtain ⟨eRows, db₃, heRows, h₃⟩ := Prog.runs_bind_iff.mp h₁
  obtain ⟨-, rfl⟩ := Prog.runs_read_iff.mp heRows
  obtain ⟨e, db₂, he, h₂⟩ := Prog.runs_bind_iff.mp h₃
  have hstep := cascade_step hok htbl hnamed hslots
    (fun _ _ hslot _ => keepsSame_npApplyDropAnnotationToTuple hslot)
    (fun _ _ _ _ hok hrow _ => npApplyDropAnnotationToTuple_step hok hrow) hv
  have hedges : SameLabel .vertex labelId db₃ db₂ := cascade_same (fun l hl => ?_)
    (fun _ _ hslot _ => keepsSame_npApplyDropAnnotationToTuple hslot) he
  · refine (hstep.same hedges).same ?_
    split_ifs at h₂
    · exact (keepsSame_removeFromLabelCatalog ..).runs h₂ (SameLabel.refl ..)
    · exact absurd h₂ Prog.runs_fail_iff.mp
  · rw [hstep.paths] at hl
    exact hslots .edge l hl (by simp)

end NeoPostGraph
