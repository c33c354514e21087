import NeoPostGraph.Annotation.LabelChange

/-!
# Schema changes that do not commit

`insert_annotation_schema` overwrites the slot of a label in place, and no reader of the slot looks at
a transaction id. A call that fails after its first such write, or whose transaction aborts, gives its
catalog rows back and leaves the slots as they are. `add_annotation_label` checks the name of the new
annotation last, when all schemas are written.

* `AnnotDb.schemaInForce`: the schema that inserts, changes and the DDL take for a label.
* `SchemaHistory`: the states of a graph, calls cut off at any point included.
* `SchemaAtomic`: wherever the call is cut off, every label keeps its schema in force.
* `AnnotDb.Rewrites`: the call comes to a label whose schema it overwrites in place.

Results:
* `SchemaHistory.inv`: the map and the store hold what was written, also by calls that were cut off.
* `schemaAtomic_iff`: in every state, a call is atomic exactly when it comes to no such label.
-/

namespace NeoPostGraph

open SlottedPage

variable {base db db' db₁ t : AnnotDb} {s : Session} {kind : LabelKind} {row : LabelRow}
  {names : Names} {labelId : Nat}

/-! ## The schema in force -/

/-- The schema the slot of a label names, or else its `annotation_map`. -/
def AnnotDb.schemaInForce (db : AnnotDb) (row : LabelRow) : Option Names :=
  match db.readSchema row.id with
  | some (_, names) => some names
  | none => row.annotationMap

/-- The catalog functions start from it. -/
theorem oldArray_eq (row : LabelRow) :
    oldArray row = Prog.read fun db => .ok (db.schemaInForce row) := rfl

/-! ## The calls -/

/-- The calls that change schemas, or make a label with one. -/
inductive SchemaCall where
  | addAnnotationLabel (structLabel newAnnot : DottedText)
  | dropAnnotationLabel (structLabel : DottedText) (dropAnnot : String)
  | createVlabel (label : DottedText) (annotations : Option Names)

def SchemaCall.op : SchemaCall → SchemaOp
  | addAnnotationLabel structLabel newAnnot => .addAnnotationLabel structLabel newAnnot
  | dropAnnotationLabel structLabel dropAnnot => .dropAnnotationLabel structLabel dropAnnot
  | createVlabel label annotations => .createVlabel label annotations

/-- **The states of a graph**: calls commit, fail, or are cut off after any of their steps by the end
of their transaction. -/
inductive SchemaHistory : AnnotDb → Prop where
  | created (ltree : LtreeModule) (xacts : XactState) (s : Session) :
      SchemaHistory (AnnotDb.created ltree xacts s)
  | call {db : AnnotDb} (h : SchemaHistory db) (s : Session) (o : SchemaOp) :
      SchemaHistory (o.perform s db)
  | cutOff {db db' : AnnotDb} (h : SchemaHistory db) (s : Session) (o : SchemaOp)
      (hr : (o.run s).Reaches db db') : SchemaHistory (db.rollback db')
  /-- Anything that writes no schema: entities, their annotations, other DDL. -/
  | other {db db' : AnnotDb} (h : SchemaHistory db) (hs : SameSchemas db db') : SchemaHistory db'

/-- Every label has the schema in force that it had. -/
def SchemasKept (base t : AnnotDb) : Prop :=
  ∀ kind, ∀ row ∈ base.labels kind, t.schemaInForce row = base.schemaInForce row

/-- **Wherever the call is cut off, every label keeps its schema.** -/
def SchemaAtomic (s : Session) (c : SchemaCall) (db : AnnotDb) : Prop :=
  ∀ db', (c.op.run s).Reaches db db' → SchemasKept db (db.rollback db')

/-! ## When a call overwrites a schema -/

/-- What the loop does with a label: it goes on to the next, it ends in an error, or it writes this
schema. -/
inductive RowAct where
  | skip
  | fail
  | write (names : Names)
deriving DecidableEq

/-- How a loop over labels ends: it passes over all of them, it fails, or it first comes to one whose
schema it overwrites. -/
inductive LoopEnd where
  | passes
  | fails
  | rewrites
deriving DecidableEq

/-- One loop and then another. -/
def LoopEnd.andThen : LoopEnd → LoopEnd → LoopEnd
  | passes, e => e
  | e, _ => e

/-- What `np_apply_add_annotation_to_tuple` does with a label. -/
def AnnotDb.addAct (db : AnnotDb) (newAnnot : String) (row : LabelRow) : RowAct :=
  let old := (db.schemaInForce row).getD []
  if some newAnnot ∈ old then .skip
  else if old.any Option.isNone ∨ ¬ Fits (schemaTupleSize (old ++ [some newAnnot])) then .fail
  else .write (old ++ [some newAnnot])

/-- What `np_apply_drop_annotation_to_tuple` does with a label of the catalog that has these rows. -/
def AnnotDb.dropAct (db : AnnotDb) (rows : List LabelRow) (target : Ltree) (structLabel : DottedText)
    (dropAnnot : String) (row : LabelRow) : RowAct :=
  let old := (db.schemaInForce row).getD []
  let new := old.filter fun name => name.isSome ∧ name ≠ some dropAnnot
  if target ≠ row.ltree ∧
      npOtherParentOwnsAnnotation rows row.ltree structLabel dropAnnot = true then .skip
  else if some dropAnnot ∈ old then
    if Fits (schemaTupleSize new) then .write new else .fail
  else .skip

/-- The rows of a catalog, with a new `annotation_map` of one label. -/
def setAnnotationMap (rows : List LabelRow) (labelId : Nat) (names : Names) : List LabelRow :=
  rows.map fun row => if row.id = labelId then { row with annotationMap := some names } else row

/-- How the loop ends. A schema whose slot is off its page is written nowhere, and the loop goes on. -/
def loopEnd (act : LabelRow → RowAct) : List LabelRow → LoopEnd
  | [] => .passes
  | row :: rest =>
    match act row with
    | .skip => loopEnd act rest
    | .fail => .fails
    | .write _ => if SlotOnPage row.id then .rewrites else loopEnd act rest

/-- How one catalog's part of a call ends. -/
def AnnotDb.cascadeEnd (db : AnnotDb) (kind : LabelKind) (structLabel : DottedText)
    (act : Ltree → LabelRow → RowAct) : LoopEnd :=
  match (db.labels kind).find? fun row => structuralText row.ltree = structLabel with
  | none => .passes
  | some found => loopEnd (act found.ltree)
      ((db.labels kind).filter fun row => found.ltree.isPrefixOf row.ltree)

/-- `np_label_catalog` has the name with this type, or does not have it. -/
def AnnotDb.Registers (db : AnnotDb) (label : String) (expected : LabelType) : Prop :=
  ∀ row ∈ db.labelCatalog.find? (fun row => row.1 = label), row.2 = expected

instance (label : String) (expected : LabelType) : Decidable (db.Registers label expected) :=
  inferInstanceAs (Decidable (∀ row ∈ db.labelCatalog.find? (fun row => row.1 = label),
    row.2 = expected))

/-- The annotations of a new label can be registered: a new one is named once. -/
structure AnnotDb.RegistersAll (db : AnnotDb) (labelStr : String) (names : Names) : Prop where
  annots : ∀ annot, some annot ∈ names → annot ≠ labelStr ∧ db.Registers annot .annot
  once : names.Pairwise fun name later => ∀ annot, name = some annot → later = some annot →
    annot ∈ db.labelCatalog.map Prod.fst

/-- `create_vlabel_internal` comes to store the schema of the new label. -/
structure AnnotDb.StoresSchema (db : AnnotDb) (labelStr : String) (names : Names) : Prop where
  label : db.Registers labelStr .structural
  annots : db.RegistersAll labelStr names
  path : ∃ path, db.ltree.readUnder catalogLtreeRootLabel [labelStr] = .ok path
  fits : Fits (schemaTupleSize names)

/-- **The call overwrites the schema of a label**: its cascade comes to a label that it has to change,
or the label it creates has the slot of another. -/
def AnnotDb.Rewrites (db : AnnotDb) : SchemaCall → Prop
  | .addAnnotationLabel structLabel [newAnnot] =>
    (db.cascadeEnd .vertex structLabel fun _ => db.addAct newAnnot).andThen
      (db.cascadeEnd .edge structLabel fun _ => db.addAct newAnnot) = .rewrites
  | .dropAnnotationLabel structLabel dropAnnot =>
    (db.cascadeEnd .vertex structLabel fun target =>
      db.dropAct (db.labels .vertex) target structLabel dropAnnot).andThen
      (db.cascadeEnd .edge structLabel fun target =>
        db.dropAct (db.labels .edge) target structLabel dropAnnot) = .rewrites
  | .createVlabel [labelStr] (some names) =>
    let labelId := db.labelIdSeq .vertex
    db.StoresSchema labelStr names ∧ SlotOnPage labelId ∧
      ∃ kind, ∃ row ∈ db.labels kind, schemaSlot labelId = schemaSlot row.id ∧
        db.schemaInForce row ≠ some names
  | _ => False

/-! ## What readers find -/

/-- Every slot reads as in `base`. -/
def Unchanged (base t : AnnotDb) : Prop := ∀ labelId, t.readSchema labelId = base.readSchema labelId

theorem SameSchemas.refl (db : AnnotDb) : SameSchemas db db := ⟨rfl, rfl, rfl⟩

theorem SameSchemas.trans (h : SameSchemas db db') (h' : SameSchemas db' t) : SameSchemas db t :=
  ⟨h'.tbl.trans h.tbl, h'.physMap.trans h.physMap, h'.written.trans h.written⟩

theorem SameSchemas.unchanged (h : SameSchemas db t) : Unchanged db t := fun labelId => by
  unfold AnnotDb.readSchema AnnotDb.latestSchemaTid
  rw [h.tbl, h.physMap]

theorem Unchanged.inForce (h : Unchanged base t) (row : LabelRow) :
    t.schemaInForce row = base.schemaInForce row := by
  unfold AnnotDb.schemaInForce
  rw [h row.id]

theorem Unchanged.kept (h : Unchanged base t) : SchemasKept base t := fun _ row _ => h.inForce row

/-- **What a stored schema changes for the readers**: its slot, if the page has room for it. -/
theorem readSchema_insert {u : Unit} (h : SchemaInv db)
    (hr : (insertAnnotationSchema s kind labelId names).Runs db u db₁) :
    ∃ tid, ∀ id, db₁.readSchema id = if schemaSlot labelId = schemaSlot id then
      (if SlotOnPage id then some (tid, names) else none) else db.readSchema id := by
  have hinv := (keeps_insertAnnotationSchema s kind labelId names).runs hr h
  obtain ⟨tid, tbl, tuple, -, -, -, rfl⟩ := insertAnnotationSchema_inv hr
  refine ⟨tid, fun id => ?_⟩
  rw [hinv.readSchema, h.readSchema]
  unfold AnnotDb.lastInSlot
  by_cases hslot : schemaSlot labelId = schemaSlot id
  · rw [if_pos hslot, List.find?_cons_of_pos (by simpa using hslot)]
    rfl
  · rw [if_neg hslot, List.find?_cons_of_neg (by simpa using hslot)]

/-- A schema whose slot is off its page changes nothing. -/
theorem unchanged_of_offPage {u : Unit} (h : SchemaInv db) (hpage : ¬ SlotOnPage labelId)
    (hr : (insertAnnotationSchema s kind labelId names).Runs db u db₁) : Unchanged db db₁ := by
  obtain ⟨tid, hread⟩ := readSchema_insert h hr
  intro id
  rw [hread]
  split_ifs with hslot hid
  · unfold SlotOnPage at hpage hid
    rw [hslot] at hpage
    exact absurd hid hpage
  · rw [h.readSchema, if_neg hid]
  · rfl

/-- A schema whose slot is on its page is in force for the labels that have the slot. -/
theorem inForce_of_onPage {u : Unit} (h : SchemaInv db) (hpage : SlotOnPage labelId)
    (hslot : schemaSlot labelId = schemaSlot row.id)
    (hr : (insertAnnotationSchema s kind labelId names).Runs db u db₁) :
    db₁.schemaInForce row = some names := by
  obtain ⟨tid, hread⟩ := readSchema_insert h hr
  unfold SlotOnPage at hpage
  rw [hslot] at hpage
  unfold AnnotDb.schemaInForce
  rw [hread, if_pos hslot, if_pos hpage]

/-- It is in force for no label that has another slot. -/
theorem inForce_of_otherSlot {u : Unit} (h : SchemaInv db)
    (hslot : schemaSlot labelId ≠ schemaSlot row.id)
    (hr : (insertAnnotationSchema s kind labelId names).Runs db u db₁) :
    db₁.schemaInForce row = db.schemaInForce row := by
  obtain ⟨tid, hread⟩ := readSchema_insert h hr
  unfold AnnotDb.schemaInForce
  rw [hread, if_neg hslot]

theorem insertAnnotationSchema_runs (db : AnnotDb) (kind : LabelKind) (labelId : Nat)
    (h : Fits (schemaTupleSize names)) :
    ∃ db₁, (insertAnnotationSchema s kind labelId names).Runs db () db₁ := by
  unfold insertAnnotationSchema
  obtain ⟨tbl, tid, hw⟩ := Table.write_of_fits db.annotSchemaTbl
    { hdr :=
        { xmin := s.fxid
          xmax := invalidFullTransactionId
          cmin := s.cid
          cmax := invalidCommandId
          prevItemptr := .invalid
          flags := 0
          id := labelId }
      names := names : SchemaTuple } h
  exact ⟨_, Prog.runs_write_iff.mpr (by dsimp only; rw [hw])⟩

theorem fits_of_insertAnnotationSchema {u : Unit}
    (hr : (insertAnnotationSchema s kind labelId names).Runs db u db₁) :
    Fits (schemaTupleSize names) := by
  obtain ⟨tid, tbl, tuple, -, -, hw, -⟩ := insertAnnotationSchema_inv hr
  exact (Table.write_isSome ..).mp (by rw [hw]; rfl)

/-! ## Programs around one write -/

theorem keepsSchemas_createAnnotationTable (kind : LabelKind) (labelId : Nat) :
    (createAnnotationTable kind labelId).Keeps (SameSchemas base) :=
  Prog.keeps_write fun db db' hs h => by
    cases h
    exact hs.trans ⟨rfl, rfl, rfl⟩

theorem keepsSchemas_updateAnnotationMap (kind : LabelKind) (labelId : Nat) (names : Names) :
    (updateAnnotationMap kind labelId names).Keeps (SameSchemas base) :=
  Prog.keeps_write fun db db' hs h => by
    cases h
    exact hs.trans ⟨rfl, rfl, rfl⟩

theorem keepsSchemas_enforceAndInsertLabelCatalog (registered : List (String × LabelType))
    (label : String) (expected : LabelType) :
    (enforceAndInsertLabelCatalog registered label expected).Keeps (SameSchemas base) :=
  Prog.keeps_write fun db db' hs h => by
    split at h <;> split_ifs at h <;> cases h
    · exact hs
    · exact hs.trans ⟨rfl, rfl, rfl⟩

theorem keepsSchemas_removeFromLabelCatalog (label : String) :
    (removeFromLabelCatalog label).Keeps (SameSchemas base) :=
  Prog.keeps_write fun db db' hs h => by
    cases h
    exact hs.trans ⟨rfl, rfl, rfl⟩

/-- **What a program on a label may do**, where the loop is said to take this act: cut off before its
write it has changed nothing, and afterwards nothing but that. -/
def ActLaw (s : Session) (db : AnnotDb) (kind : LabelKind) (row : LabelRow) (p : AnnotOp Bool) :
    RowAct → Prop
  | .skip => (∀ t, p.Reaches db t → t = db) ∧ ∃ b, p.Runs db b db
  | .fail => (∀ t, p.Reaches db t → t = db) ∧ ∀ b t, ¬ p.Runs db b t
  | .write names => ∃ db₁ db₂, (insertAnnotationSchema s kind row.id names).Runs db () db₁ ∧
      (∀ t, p.Reaches db t → t = db ∨ SameSchemas db₁ t) ∧ p.Reaches db db₁ ∧
      p.Runs db true db₂ ∧ db₂.labels = Function.update db.labels kind
        (setAnnotationMap (db.labels kind) row.id names)

theorem ActLaw.congr {p q : AnnotOp Bool} {act : RowAct} (h : ActLaw s db kind row q act)
    (hreach : ∀ t, p.Reaches db t ↔ q.Reaches db t) (hruns : ∀ b t, p.Runs db b t ↔ q.Runs db b t) :
    ActLaw s db kind row p act := by
  cases act <;> simpa only [ActLaw, hreach, hruns] using h

theorem ActLaw.read {α : Type} {f : AnnotDb → Except AnnotErr α} {g : α → AnnotOp Bool} {a : α}
    {act : RowAct} (hf : f db = .ok a) (h : ActLaw s db kind row (g a) act) :
    ActLaw s db kind row (Prog.read f >>= g) act :=
  h.congr (fun _ => Prog.reaches_read_bind hf) fun _ _ => Prog.runs_read_bind hf

theorem actLaw_ret (b : Bool) : ActLaw s db kind row (pure b) .skip :=
  ⟨fun _ => Prog.reaches_ret_iff.mp, b, rfl⟩

theorem actLaw_fail (e : AnnotErr) : ActLaw s db kind row (Prog.fail e) .fail :=
  ⟨fun _ => Prog.reaches_fail_iff.mp, fun _ _ => Prog.runs_fail_iff.mp⟩

/-- A schema is written, if it is not too long, and what comes behind writes no other. -/
theorem actLaw_insert {rest : AnnotOp Bool}
    (hkeeps : ∀ base, rest.Keeps (SameSchemas base))
    (hruns : ∀ db₁, db₁.labels = db.labels → ∃ db₂, rest.Runs db₁ true db₂ ∧
      db₂.labels = Function.update db₁.labels kind (setAnnotationMap (db₁.labels kind) row.id names)) :
    ActLaw s db kind row (insertAnnotationSchema s kind row.id names >>= fun _ => rest)
      (if Fits (schemaTupleSize names) then .write names else .fail) := by
  split_ifs with hfits
  · obtain ⟨db₁, hins⟩ := insertAnnotationSchema_runs (s := s) db kind row.id hfits
    have hlabels : db₁.labels = db.labels := by
      obtain ⟨tid, tbl, tuple, -, -, -, rfl⟩ := insertAnnotationSchema_inv hins
      rfl
    obtain ⟨db₂, hrest, hset⟩ := hruns db₁ hlabels
    rw [hlabels] at hset
    refine ⟨db₁, db₂, hins, fun t ht => ?_, Prog.reaches_bind_iff.mpr (.inl hins.reaches),
      hins.bind hrest, hset⟩
    rcases Prog.reaches_bind_iff.mp ht with hfirst | ⟨u, db₁', hins', hrest'⟩
    · rcases Prog.reaches_write_iff.mp hfirst with rfl | hf
      · exact .inl rfl
      · obtain ⟨-, rfl⟩ := hins.det (Prog.runs_write_iff.mpr hf : Prog.Runs _ db () t)
        exact .inr (SameSchemas.refl _)
    · obtain ⟨-, rfl⟩ := hins.det hins'
      exact .inr ((hkeeps db₁).reaches hrest' (SameSchemas.refl _))
  · have hnot {u : Unit} {t : AnnotDb} :
        ¬ (insertAnnotationSchema s kind row.id names).Runs db u t := fun hr =>
      hfits (fits_of_insertAnnotationSchema hr)
    refine ⟨fun t ht => ?_, fun b t hr => ?_⟩
    · rcases Prog.reaches_bind_iff.mp ht with hfirst | ⟨u, db₁, hins, -⟩
      · rcases Prog.reaches_write_iff.mp hfirst with rfl | hf
        · rfl
        · exact absurd (Prog.runs_write_iff.mpr hf : Prog.Runs _ db () t) hnot
      · exact absurd hins hnot
    · obtain ⟨u, db₁, hins, -⟩ := Prog.runs_bind_iff.mp hr
      exact hnot hins

theorem keepsSchemas_ensureAnnotationTable (kind : LabelKind) (labelId : Nat) :
    (ensureAnnotationTable kind labelId).Keeps (SameSchemas base) := by
  refine (Prog.keeps_read ..).bind fun tbl => ?_
  split
  · exact keepsSchemas_createAnnotationTable ..
  · exact Prog.keeps_ret ..

theorem ensureAnnotationTable_runs (db : AnnotDb) (kind : LabelKind) (labelId : Nat) :
    ∃ db', (ensureAnnotationTable kind labelId).Runs db () db' ∧ db'.labels = db.labels := by
  obtain ⟨db', hr, hlabels⟩ : ∃ db', (if (db.annotationsTbl kind labelId).isNone
      then createAnnotationTable kind labelId else pure ()).Runs db () db' ∧
      db'.labels = db.labels := by
    split_ifs
    · exact ⟨_, Prog.runs_write_iff.mpr rfl, rfl⟩
    · exact ⟨db, rfl, rfl⟩
  have hread : (ensureAnnotationTable kind labelId).Runs db () db' := by
    unfold ensureAnnotationTable
    refine (Prog.runs_read_bind ?_).mpr hr
    rfl
  exact ⟨db', hread, hlabels⟩

theorem updateAnnotationMap_runs (db : AnnotDb) (kind : LabelKind) (labelId : Nat) (names : Names) :
    ∃ db', (updateAnnotationMap kind labelId names).Runs db () db' ∧
      db'.labels = Function.update db.labels kind (setAnnotationMap (db.labels kind) labelId names) :=
  ⟨_, Prog.runs_write_iff.mpr rfl, rfl⟩

/-- **`np_apply_add_annotation_to_tuple` takes its act.** -/
theorem npApplyAddAnnotationToTuple_law (hforce : db.schemaInForce row = base.schemaInForce row)
    (newAnnot : String) : ActLaw s db kind row (npApplyAddAnnotationToTuple s kind row newAnnot)
      (base.addAct newAnnot row) := by
  unfold npApplyAddAnnotationToTuple AnnotDb.addAct
  rw [oldArray_eq, ← hforce]
  refine ActLaw.read rfl ?_
  generalize (db.schemaInForce row).getD [] = old
  dsimp only
  by_cases hmem : some newAnnot ∈ old
  · rw [if_pos hmem, if_pos hmem]
    exact actLaw_ret false
  · rw [if_neg hmem, if_neg hmem]
    by_cases hnull : old.any Option.isNone = true
    · rw [if_pos hnull, if_pos (.inl hnull)]
      exact actLaw_fail _
    · rw [if_neg hnull]
      have hlaw : ActLaw s db kind row (do
          insertAnnotationSchema s kind row.id (old ++ [some newAnnot])
          ensureAnnotationTable kind row.id
          updateAnnotationMap kind row.id (old ++ [some newAnnot])
          return true) (if Fits (schemaTupleSize (old ++ [some newAnnot]))
            then .write (old ++ [some newAnnot]) else .fail) := actLaw_insert
        (fun _ => (keepsSchemas_ensureAnnotationTable ..).bind fun _ =>
          (keepsSchemas_updateAnnotationMap ..).bind fun _ => Prog.keeps_ret ..)
        fun db₁ _ => by
          obtain ⟨db₂, htbl, hlabels⟩ := ensureAnnotationTable_runs db₁ kind row.id
          obtain ⟨db₃, hmap, hset⟩ :=
            updateAnnotationMap_runs db₂ kind row.id (old ++ [some newAnnot])
          rw [hlabels] at hset
          exact ⟨db₃, htbl.bind (hmap.bind rfl), hset⟩
      by_cases hfits : Fits (schemaTupleSize (old ++ [some newAnnot]))
      · rw [if_neg (by simp [hnull, hfits])]
        rw [if_pos hfits] at hlaw
        exact hlaw
      · rw [if_pos (.inr hfits)]
        rw [if_neg hfits] at hlaw
        exact hlaw

/-- **`np_apply_drop_annotation_to_tuple` takes its act.** -/
theorem npApplyDropAnnotationToTuple_law (hforce : db.schemaInForce row = base.schemaInForce row)
    (rows : List LabelRow) (target : Ltree) (structLabel : DottedText) (dropAnnot : String) :
    ActLaw s db kind row (npApplyDropAnnotationToTuple s kind rows row target structLabel dropAnnot)
      (base.dropAct rows target structLabel dropAnnot row) := by
  unfold npApplyDropAnnotationToTuple AnnotDb.dropAct
  rw [oldArray_eq, ← hforce]
  dsimp only
  by_cases howned : target ≠ row.ltree ∧
      npOtherParentOwnsAnnotation rows row.ltree structLabel dropAnnot = true
  · rw [if_pos howned, if_pos howned]
    exact actLaw_ret false
  · rw [if_neg howned, if_neg howned]
    refine ActLaw.read rfl ?_
    generalize (db.schemaInForce row).getD [] = old
    by_cases hmem : some dropAnnot ∈ old
    · rw [if_pos hmem, if_pos hmem]
      exact actLaw_insert (fun _ => (keepsSchemas_updateAnnotationMap ..).bind fun _ =>
        Prog.keeps_ret ..) fun db₁ _ => by
          obtain ⟨db₂, hmap, hset⟩ := updateAnnotationMap_runs db₁ kind row.id
            (old.filter fun name => name.isSome ∧ name ≠ some dropAnnot)
          exact ⟨db₂, hmap.bind rfl, hset⟩
    · rw [if_neg hmem, if_neg hmem]
      exact actLaw_ret false

/-! ## Loops and cascades -/

/-- **What a part of a call may do** where it is said to end so. Unless it overwrites a schema, it is
never cut off with another schema in force. -/
def EndLaw {α : Type} (base : AnnotDb) (I : AnnotDb → Prop) (db : AnnotDb) (p : AnnotOp α) :
    LoopEnd → Prop
  | .passes => (∀ t, p.Reaches db t → Unchanged base t) ∧ ∃ a db', p.Runs db a db' ∧ I db'
  | .fails => (∀ t, p.Reaches db t → Unchanged base t) ∧ ∀ a t, ¬ p.Runs db a t
  | .rewrites => ∃ t, p.Reaches db t ∧ ¬ SchemasKept base t

section

variable {α β : Type} {p : AnnotOp α} {g : α → AnnotOp β} {e e' : LoopEnd} {I J : AnnotDb → Prop}

theorem EndLaw.unchanged (h : EndLaw base I db p e) (he : e ≠ .rewrites) (hr : p.Reaches db t) :
    Unchanged base t := by
  cases e with
  | passes => exact h.1 t hr
  | fails => exact h.1 t hr
  | rewrites => exact absurd rfl he

/-- Behind a part that does not pass nothing is reached, or it does not matter. -/
theorem EndLaw.stop (h : EndLaw base I db p e) (he : e ≠ .passes) :
    EndLaw base J db (p >>= g) e := by
  cases e with
  | passes => exact absurd rfl he
  | fails =>
    have hnot {a : α} {db' : AnnotDb} : ¬ p.Runs db a db' := h.2 a db'
    refine ⟨fun t ht => ?_, fun b t hrun => ?_⟩
    · rcases Prog.reaches_bind_iff.mp ht with hp | ⟨a, db', hr, -⟩
      · exact h.1 t hp
      · exact absurd hr hnot
    · obtain ⟨a, db', hr, -⟩ := Prog.runs_bind_iff.mp hrun
      exact hnot hr
  | rewrites =>
    obtain ⟨t, ht, hlost⟩ := h
    exact ⟨t, Prog.reaches_bind_iff.mpr (.inl ht), hlost⟩

/-- The parts of a sequence, in order. -/
theorem EndLaw.bind (h : EndLaw base I db p e)
    (hg : ∀ a db', p.Runs db a db' → Unchanged base db' → I db' → EndLaw base J db' (g a) e') :
    EndLaw base J db (p >>= g) (e.andThen e') := by
  cases e with
  | passes =>
    obtain ⟨hkept, a, db', hr, hI⟩ := h
    have hnext := hg a db' hr (hkept db' hr.reaches) hI
    have hreach {t : AnnotDb} (he : e' ≠ .rewrites) (ht : (p >>= g).Reaches db t) :
        Unchanged base t := by
      rcases Prog.reaches_bind_iff.mp ht with hp | ⟨a', db₁, hr', hg'⟩
      · exact hkept t hp
      · obtain ⟨rfl, rfl⟩ := hr.det hr'
        exact hnext.unchanged he hg'
    cases e' with
    | passes =>
      obtain ⟨-, b, db₂, hr₂, hJ⟩ := hnext
      exact ⟨fun t => hreach (by simp), b, db₂, hr.bind hr₂, hJ⟩
    | fails =>
      refine ⟨fun t => hreach (by simp), fun b t hrun => ?_⟩
      obtain ⟨a', db₁, hr', hg'⟩ := Prog.runs_bind_iff.mp hrun
      obtain ⟨rfl, rfl⟩ := hr.det hr'
      exact hnext.2 b t hg'
    | rewrites =>
      obtain ⟨t, ht, hlost⟩ := hnext
      exact ⟨t, Prog.reaches_bind_iff.mpr (.inr ⟨a, db', hr, ht⟩), hlost⟩
  | fails => exact h.stop (by simp)
  | rewrites => exact h.stop (by simp)

theorem endLaw_ret (a : α) (hsame : Unchanged base db) (hI : I db) :
    EndLaw base I db (pure a : AnnotOp α) .passes := by
  refine ⟨fun t ht => ?_, a, db, rfl, hI⟩
  rw [Prog.reaches_ret_iff.mp ht]
  exact hsame

theorem EndLaw.read {f : AnnotDb → Except AnnotErr α} {a : α} (hf : f db = .ok a)
    (h : EndLaw base J db (g a) e) : EndLaw base J db (Prog.read f >>= g) e := by
  cases e <;> simpa only [EndLaw, Prog.reaches_read_bind hf, Prog.runs_read_bind hf] using h

theorem EndLaw.map (h : EndLaw base I db p e) (f : α → β) :
    EndLaw base I db (p >>= fun a => pure (f a)) e := by
  have hseq : EndLaw base I db (p >>= fun a => pure (f a)) (e.andThen .passes) :=
    h.bind fun a db' _ hsame hI => endLaw_ret (f a) hsame hI
  cases e <;> exact hseq

end

/-- Where a loop over the labels of a kind stands: it has changed this catalog only. -/
structure LoopInv (start : AnnotDb) (kind : LabelKind) (db : AnnotDb) : Prop where
  inv : SchemaInv db
  others : ∀ k, k ≠ kind → db.labels k = start.labels k

section Loop

variable {start : AnnotDb} {apply : LabelRow → AnnotOp Bool} {act : LabelRow → RowAct}
  {rest : List LabelRow}

/-- One label. -/
theorem forEachRow_cons (hact : ActLaw s db kind row (apply row) (act row))
    (hkeeps : (apply row).Keeps SchemaInv)
    (hnew : ∀ names, act row = .write names → base.schemaInForce row ≠ some names)
    (hmem : row ∈ base.labels kind) (hloop : LoopInv start kind db) (hsame : Unchanged base db)
    (hrest : ∀ db', LoopInv start kind db' → Unchanged base db' →
      EndLaw base (LoopInv start kind) db' (forEachRow apply rest) (loopEnd act rest)) :
    EndLaw base (LoopInv start kind) db (forEachRow apply (row :: rest))
      (loopEnd act (row :: rest)) := by
  unfold loopEnd
  cases hcase : act row with
  | skip =>
    rw [hcase] at hact
    obtain ⟨hstay, b, hr⟩ := hact
    have hhead : EndLaw base (LoopInv start kind) db (apply row) .passes :=
      ⟨fun t ht => by rw [hstay t ht]; exact hsame, b, db, hr, hloop⟩
    exact hhead.bind fun b db' _ hsame hloop => (hrest db' hloop hsame).map _
  | fail =>
    rw [hcase] at hact
    have hhead : EndLaw base (LoopInv start kind) db (apply row) .fails :=
      ⟨fun t ht => by rw [hact.1 t ht]; exact hsame, hact.2⟩
    exact hhead.stop (by simp)
  | write names =>
    rw [hcase] at hact
    obtain ⟨db₁, db₂, hins, hreach, hfirst, hr, hlabels⟩ := hact
    dsimp only
    split_ifs with hpage
    · have hhead : EndLaw base (LoopInv start kind) db (apply row) .rewrites := by
        refine ⟨db₁, hfirst, fun hkept => hnew names hcase ?_⟩
        rw [← hkept kind row hmem]
        exact inForce_of_onPage hloop.inv hpage rfl hins
      exact hhead.stop (by simp)
    · have hoff := unchanged_of_offPage hloop.inv hpage hins
      have hhead : EndLaw base (LoopInv start kind) db (apply row) .passes := by
        refine ⟨fun t ht => ?_, true, db₂, hr, hkeeps.runs hr hloop.inv, fun k hk => ?_⟩
        · rcases hreach t ht with rfl | hafter
          · exact hsame
          · exact fun id => (hafter.unchanged id).trans ((hoff id).trans (hsame id))
        · rw [hlabels, Function.update_of_ne hk, hloop.others k hk]
      exact hhead.bind fun b db' _ hsame hloop => (hrest db' hloop hsame).map _

/-- **The loop ends as `loopEnd` says.** -/
theorem forEachRow_endLaw
    (hact : ∀ db row, Unchanged base db → ActLaw s db kind row (apply row) (act row))
    (hkeeps : ∀ row, (apply row).Keeps SchemaInv)
    (hnew : ∀ row names, act row = .write names → base.schemaInForce row ≠ some names)
    (hmem : ∀ row ∈ rest, row ∈ base.labels kind) (hloop : LoopInv start kind db)
    (hsame : Unchanged base db) :
    EndLaw base (LoopInv start kind) db (forEachRow apply rest) (loopEnd act rest) := by
  induction rest generalizing db with
  | nil => exact endLaw_ret 0 hsame hloop
  | cons row rest ih =>
    exact forEachRow_cons (hact db row hsame) (hkeeps row) (hnew row) (hmem row List.mem_cons_self)
      hloop hsame fun db' => ih fun row hrow => hmem row (List.mem_cons_of_mem _ hrow)

end Loop

/-- **One catalog's part of a call.** -/
theorem cascade_endLaw {start : AnnotDb} {structLabel : DottedText}
    {apply : Ltree → LabelRow → AnnotOp Bool} {act : Ltree → LabelRow → RowAct}
    (hact : ∀ target db row, Unchanged base db →
      ActLaw s db kind row (apply target row) (act target row))
    (hkeeps : ∀ target row, (apply target row).Keeps SchemaInv)
    (hnew : ∀ target row names, act target row = .write names →
      base.schemaInForce row ≠ some names)
    (hinv : SchemaInv start) (hlabels : start.labels kind = base.labels kind)
    (hsame : Unchanged base start) :
    EndLaw base (LoopInv start kind) start (cascade kind structLabel apply)
      (base.cascadeEnd kind structLabel act) := by
  have hloop : LoopInv start kind start := ⟨hinv, fun _ _ => rfl⟩
  unfold AnnotDb.cascadeEnd cascade
  rw [← hlabels]
  refine EndLaw.read rfl ?_
  cases hfound : (start.labels kind).find? fun row => structuralText row.ltree = structLabel with
  | none => exact endLaw_ret false hsame hloop
  | some found =>
    refine EndLaw.read rfl ?_
    rw [hlabels]
    have hrows : ∀ row ∈ (base.labels kind).filter fun row => found.ltree.isPrefixOf row.ltree,
        row ∈ base.labels kind := fun row hrow => (List.mem_filter.mp hrow).1
    exact (forEachRow_endLaw (hact found.ltree) (hkeeps found.ltree) (hnew found.ltree) hrows hloop
      hsame).map fun _ => true

theorem EndLaw.post {α : Type} {p : AnnotOp α} {e : LoopEnd} {I J : AnnotDb → Prop}
    (h : EndLaw base I db p e) (hJ : ∀ db', I db' → J db') : EndLaw base J db p e := by
  cases e with
  | passes =>
    obtain ⟨hkept, a, db', hr, hI⟩ := h
    exact ⟨hkept, a, db', hr, hJ db' hI⟩
  | fails => exact h
  | rewrites => exact h

/-- **Both catalogs' parts of a call**, and what it does with the catalog of names at its end. -/
theorem cascades_kept_iff {vPart ePart : AnnotOp Bool} {vEnd eEnd : LoopEnd}
    {final : Bool → Bool → AnnotOp Unit} (hv : EndLaw base (LoopInv base .vertex) base vPart vEnd)
    (he : ∀ db', LoopInv base .vertex db' → Unchanged base db' →
      EndLaw base (fun _ => True) db' ePart eEnd)
    (hfinal : ∀ v e db, (final v e).Keeps (SameSchemas db)) :
    (∀ t, (do
      let v ← vPart
      let e ← ePart
      final v e).Reaches base t → SchemasKept base t) ↔ vEnd.andThen eEnd ≠ .rewrites := by
  have hboth : EndLaw base (fun _ => True) base (do
      let v ← vPart
      let e ← ePart
      pure (v, e)) (vEnd.andThen eEnd) :=
    hv.bind fun v db' _ hsame hloop => (he db' hloop hsame).map fun e => (v, e)
  generalize vEnd.andThen eEnd = e at hboth ⊢
  have hassoc : (do
      let v ← vPart
      let e ← ePart
      final v e) = (do
      let v ← vPart
      let e ← ePart
      pure (v, e)) >>= fun r => final r.1 r.2 := by
    simp only [bind_assoc, pure_bind]
  rw [hassoc]
  constructor
  · rintro hkept rfl
    obtain ⟨t, ht, hlost⟩ := hboth
    exact hlost (hkept t (Prog.reaches_bind_iff.mpr (.inl ht)))
  · intro hend t ht
    rcases Prog.reaches_bind_iff.mp ht with hp | ⟨r, db', hr, hf⟩
    · exact (hboth.unchanged hend hp).kept
    · have hrest := (hfinal r.1 r.2 db').reaches hf (SameSchemas.refl db')
      have hsame := hboth.unchanged hend hr.reaches
      exact Unchanged.kept fun id => (hrest.unchanged id).trans (hsame id)

/-! ## Adding and dropping an annotation -/

theorem addAct_new {newAnnot : String} (h : base.addAct newAnnot row = .write names) :
    base.schemaInForce row ≠ some names := by
  unfold AnnotDb.addAct at h
  intro he
  rw [he] at h
  dsimp only [Option.getD_some] at h
  split_ifs at h
  have hlen := congrArg List.length (RowAct.write.inj h)
  simp at hlen

theorem dropAct_new {target : Ltree} {structLabel : DottedText} {dropAnnot : String}
    {rows : List LabelRow} (h : base.dropAct rows target structLabel dropAnnot row = .write names) :
    base.schemaInForce row ≠ some names := by
  unfold AnnotDb.dropAct at h
  intro he
  rw [he] at h
  dsimp only [Option.getD_some] at h
  split_ifs at h with howned hmem
  rw [← RowAct.write.inj h] at hmem
  simp at hmem

theorem add_kept_iff (hinv : SchemaInv base) (structLabel : DottedText) (newAnnot : String) :
    (∀ t, (addAnnotationLabel s structLabel [newAnnot]).Reaches base t → SchemasKept base t) ↔
      ¬ base.Rewrites (.addAnnotationLabel structLabel [newAnnot]) := by
  have hpart (kind : LabelKind) {start : AnnotDb} (hinv : SchemaInv start)
      (hlabels : start.labels kind = base.labels kind) (hsame : Unchanged base start) :
      EndLaw base (LoopInv start kind) start (cascade kind structLabel fun _ row =>
        npApplyAddAnnotationToTuple s kind row newAnnot)
        (base.cascadeEnd kind structLabel fun _ => base.addAct newAnnot) :=
    cascade_endLaw
      (fun _ _ row hsame => npApplyAddAnnotationToTuple_law (hsame.inForce row) newAnnot)
      (fun _ _ => ((schemaInv_stepsKeep s).cascadeKeep kind).npApplyAddAnnotationToTuple ..) (fun _ _ _ => addAct_new)
      hinv hlabels hsame
  refine cascades_kept_iff (hpart .vertex hinv rfl fun _ => rfl) (fun db' hloop hsame =>
    (hpart .edge hloop.inv (hloop.others .edge (by simp)) hsame).post fun _ _ => trivial)
    fun v e db => ?_
  split_ifs
  · exact (Prog.keeps_read ..).bind fun _ => keepsSchemas_enforceAndInsertLabelCatalog ..
  · exact Prog.keeps_fail ..

theorem drop_kept_iff (hinv : SchemaInv base) (structLabel : DottedText) (dropAnnot : String) :
    (∀ t, (dropAnnotationLabel s structLabel dropAnnot).Reaches base t → SchemasKept base t) ↔
      ¬ base.Rewrites (.dropAnnotationLabel structLabel dropAnnot) := by
  have hpart (kind : LabelKind) {start : AnnotDb} (hinv : SchemaInv start)
      (hlabels : start.labels kind = base.labels kind) (hsame : Unchanged base start) :
      EndLaw base (LoopInv start kind) start (do
        let rows ← scanLabels kind .ok
        cascade kind structLabel fun target row =>
          npApplyDropAnnotationToTuple s kind rows row target structLabel dropAnnot)
        (base.cascadeEnd kind structLabel fun target =>
          base.dropAct (base.labels kind) target structLabel dropAnnot) := by
    refine EndLaw.read (congrArg Except.ok hlabels) ?_
    exact cascade_endLaw
      (fun _ _ row hsame => npApplyDropAnnotationToTuple_law (hsame.inForce row) ..)
      (fun _ _ => ((schemaInv_stepsKeep s).cascadeKeep kind).npApplyDropAnnotationToTuple ..) (fun _ _ _ => dropAct_new)
      hinv hlabels hsame
  have hassoc : dropAnnotationLabel s structLabel dropAnnot = (do
      let v ← (do
        let rows ← scanLabels .vertex .ok
        cascade .vertex structLabel fun target row =>
          npApplyDropAnnotationToTuple s .vertex rows row target structLabel dropAnnot)
      let e ← (do
        let rows ← scanLabels .edge .ok
        cascade .edge structLabel fun target row =>
          npApplyDropAnnotationToTuple s .edge rows row target structLabel dropAnnot)
      if v || e then removeFromLabelCatalog dropAnnot
      else Prog.fail (.structuralLabelNotFound (String.intercalate "." structLabel))) := by
    unfold dropAnnotationLabel
    simp only [bind_assoc]
  rw [hassoc]
  refine cascades_kept_iff (hpart .vertex hinv rfl fun _ => rfl) (fun db' hloop hsame =>
    (hpart .edge hloop.inv (hloop.others .edge (by simp)) hsame).post fun _ _ => trivial)
    fun v e db => ?_
  split_ifs
  · exact keepsSchemas_removeFromLabelCatalog ..
  · exact Prog.keeps_fail ..

/-! ## Creating a label -/

section Register

variable {registered : List (String × LabelType)} {label labelStr annot : String} {expected : LabelType}
  {annotArray : Option Names} {u : Unit}

/-- **Registering a name**: the command's rows have it with this type, or nobody has it. -/
theorem enforceAndInsertLabelCatalog_runs_iff :
    (enforceAndInsertLabelCatalog registered label expected).Runs db u db' ↔
      (∀ row ∈ registered.find? fun row => row.1 = label, row.2 = expected) ∧
      (label ∉ registered.map Prod.fst → label ∉ db.labelCatalog.map Prod.fst) ∧
      db' = if label ∈ registered.map Prod.fst then db
        else { db with labelCatalog := db.labelCatalog ++ [(label, expected)] } := by
  unfold enforceAndInsertLabelCatalog
  rw [Prog.runs_write_iff]
  cases hfind : registered.find? fun row => row.1 = label with
  | some found =>
    have hmem : label ∈ registered.map Prod.fst :=
      List.mem_map.mpr ⟨found, List.mem_of_find?_eq_some hfind, by simpa using List.find?_some hfind⟩
    obtain ⟨name, actual⟩ := found
    dsimp only
    rw [if_pos hmem]
    by_cases hty : actual = expected
    · rw [if_pos hty]
      simp [hmem, hty, eq_comm]
    · rw [if_neg hty]
      simp [hty]
  | none =>
    have hmem : label ∉ registered.map Prod.fst := fun hm => by
      obtain ⟨row, hrow, he⟩ := List.mem_map.mp hm
      exact List.find?_eq_none.mp hfind row hrow (by simpa using he)
    dsimp only
    rw [if_neg hmem]
    by_cases hdup : label ∈ db.labelCatalog.map Prod.fst
    · rw [if_pos hdup]
      simp [hmem, hdup]
    · rw [if_neg hdup]
      simp [hmem, hdup, eq_comm]

/-- Registering names changes `np_label_catalog` only. -/
structure OnlyRegisters (db db' : AnnotDb) : Prop where
  labels : db'.labels = db.labels
  tuples : db'.labelTuples = db.labelTuples
  seq : db'.labelIdSeq = db.labelIdSeq
  ltree : db'.ltree = db.ltree

theorem OnlyRegisters.refl (db : AnnotDb) : OnlyRegisters db db := ⟨rfl, rfl, rfl, rfl⟩

theorem enforceAndInsertLabelCatalog_onlyRegisters (registered : List (String × LabelType))
    (label : String) (expected : LabelType) :
    (enforceAndInsertLabelCatalog registered label expected).Keeps (OnlyRegisters base) := by
  refine Prog.keeps_write fun db db' h hr => ?_
  obtain ⟨hlabels, htuples, hseq, hltree⟩ := h
  split at hr <;> split_ifs at hr <;> cases hr <;> exact ⟨hlabels, htuples, hseq, hltree⟩

theorem registerAndValidateLabels_onlyRegisters
    (h : (registerAndValidateLabels labelStr annotArray).Runs db u db') : OnlyRegisters db db' :=
  (keeps_registerAndValidateLabels enforceAndInsertLabelCatalog_onlyRegisters labelStr annotArray).runs h
    (.refl db)

/-- When the loop over the annotations goes through, in a command that sees `registered`. -/
structure NamesFree (registered : List (String × LabelType)) (labelStr : String) (names : Names)
    (db : AnnotDb) : Prop where
  annots : ∀ annot, some annot ∈ names → annot ≠ labelStr ∧
    ∀ row ∈ registered.find? fun row => row.1 = annot, row.2 = .annot
  fresh : ∀ annot, some annot ∈ names → annot ∉ registered.map Prod.fst →
    annot ∉ db.labelCatalog.map Prod.fst
  once : names.Pairwise fun name later => ∀ annot, name = some annot → later = some annot →
    annot ∈ registered.map Prod.fst

/-- The state behind the first name. -/
def registeredFirst (registered : List (String × LabelType)) (annot : String) (db : AnnotDb) : AnnotDb :=
  if annot ∈ registered.map Prod.fst then db
  else { db with labelCatalog := db.labelCatalog ++ [(annot, .annot)] }

theorem mem_registeredFirst {a : String} (ha : a ∉ registered.map Prod.fst) :
    a ∈ (registeredFirst registered annot db).labelCatalog.map Prod.fst ↔
      a ∈ db.labelCatalog.map Prod.fst ∨ a = annot := by
  unfold registeredFirst
  split_ifs with hmem
  · constructor
    · exact Or.inl
    · rintro (h | rfl)
      · exact h
      · exact absurd hmem ha
  · simp

theorem namesFree_cons_iff {rest : Names} :
    NamesFree registered labelStr (some annot :: rest) db ↔
      (annot ≠ labelStr ∧ ∀ row ∈ registered.find? fun row => row.1 = annot, row.2 = .annot) ∧
      (annot ∉ registered.map Prod.fst → annot ∉ db.labelCatalog.map Prod.fst) ∧
      NamesFree registered labelStr rest (registeredFirst registered annot db) := by
  constructor
  · rintro ⟨hannots, hfresh, honce⟩
    obtain ⟨hhead, hrest⟩ := List.pairwise_cons.mp honce
    refine ⟨hannots annot List.mem_cons_self, hfresh annot List.mem_cons_self,
      fun a ha => hannots a (List.mem_cons_of_mem _ ha), fun a ha hnot => ?_, hrest⟩
    rw [mem_registeredFirst hnot]
    rintro (hin | rfl)
    · exact hfresh a (List.mem_cons_of_mem _ ha) hnot hin
    · exact hnot (hhead (some a) ha a rfl rfl)
  · rintro ⟨hfirst, hnew, hannots, hfresh, honce⟩
    refine ⟨fun a ha => ?_, fun a ha hnot => ?_, List.pairwise_cons.mpr ⟨fun later hl a he he' => ?_,
      honce⟩⟩
    · rcases List.mem_cons.mp ha with he | ha
      · obtain rfl := Option.some.inj he
        exact hfirst
      · exact hannots a ha
    · rcases List.mem_cons.mp ha with he | ha
      · obtain rfl := Option.some.inj he
        exact hnew hnot
      · exact fun hin => hfresh a ha hnot ((mem_registeredFirst hnot).mpr (Or.inl hin))
    · obtain rfl := Option.some.inj he
      subst he'
      by_contra hnot
      exact hfresh annot hl hnot ((mem_registeredFirst hnot).mpr (Or.inr rfl))

/-- **The loop of `register_and_validate_labels` goes through exactly when all names are free.** -/
theorem registerAnnotations_runs_iff :
    (∃ db', (registerAnnotations registered labelStr names).Runs db () db') ↔
      NamesFree registered labelStr names db := by
  induction names generalizing db with
  | nil => exact ⟨fun _ => ⟨by simp, by simp, List.Pairwise.nil⟩, fun _ => ⟨db, rfl⟩⟩
  | cons name rest ih =>
    cases name with
    | none =>
      refine ih.trans ⟨fun h => ⟨?_, ?_, ?_⟩, fun h => ⟨?_, ?_, (List.pairwise_cons.mp h.once).2⟩⟩
      · exact fun annot hmem => h.annots annot (by simpa using hmem)
      · exact fun annot hmem => h.fresh annot (by simpa using hmem)
      · exact List.pairwise_cons.mpr ⟨fun _ _ _ he => (by cases he), h.once⟩
      · exact fun annot hmem => h.annots annot (List.mem_cons_of_mem _ hmem)
      · exact fun annot hmem => h.fresh annot (List.mem_cons_of_mem _ hmem)
    | some annot =>
      have hcons : registerAnnotations registered labelStr (some annot :: rest) =
          if annot = labelStr then Prog.fail (.structuralAndAnnot labelStr)
          else enforceAndInsertLabelCatalog registered annot .annot >>= fun _ =>
            registerAnnotations registered labelStr rest := rfl
      rw [namesFree_cons_iff, ← ih, hcons]
      constructor
      · rintro ⟨db', h⟩
        split_ifs at h with hsame
        · exact absurd h Prog.runs_fail_iff.mp
        · obtain ⟨u₁, db₁, hfirst, hrest⟩ := Prog.runs_bind_iff.mp h
          obtain ⟨hty, hnew, rfl⟩ := enforceAndInsertLabelCatalog_runs_iff.mp hfirst
          exact ⟨⟨hsame, hty⟩, hnew, db', hrest⟩
      · rintro ⟨⟨hne, hty⟩, hnew, db', hrest⟩
        rw [if_neg hne]
        have hfirst : (enforceAndInsertLabelCatalog registered annot .annot).Runs db ()
            (registeredFirst registered annot db) :=
          enforceAndInsertLabelCatalog_runs_iff.mpr ⟨hty, hnew, rfl⟩
        exact ⟨db', hfirst.bind hrest⟩

/-- **`register_and_validate_labels` goes through exactly when the label and its annotations can be
registered.** -/
theorem registerAndValidateLabels_runs_iff :
    (∃ db', (registerAndValidateLabels labelStr annotArray).Runs db () db') ↔
      db.Registers labelStr .structural ∧ db.RegistersAll labelStr (annotArray.getD []) := by
  -- the label just registered is none of the annotations
  have hall {db₁ : AnnotDb} (h₁ : db₁ = if labelStr ∈ db.labelCatalog.map Prod.fst then db
      else { db with labelCatalog := db.labelCatalog ++ [(labelStr, .structural)] }) :
      NamesFree db.labelCatalog labelStr (annotArray.getD []) db₁ ↔
        db.RegistersAll labelStr (annotArray.getD []) := by
    refine ⟨fun h => ⟨h.annots, h.once⟩, fun h => ⟨h.annots, fun annot hmem hnot => ?_, h.once⟩⟩
    rw [h₁]
    split_ifs
    · exact hnot
    · rw [List.map_append, List.mem_append, not_or]
      exact ⟨hnot, by simpa using (h.annots annot hmem).1⟩
  constructor
  · rintro ⟨db', h⟩
    obtain ⟨registered, db₁, hread, h₁⟩ := Prog.runs_bind_iff.mp h
    obtain ⟨hreg, rfl⟩ := Prog.runs_read_iff.mp hread
    obtain rfl := Except.ok.inj hreg
    obtain ⟨u₂, db₂, hlabel, hannots⟩ := Prog.runs_bind_iff.mp h₁
    obtain ⟨hty, -, hdb₂⟩ := enforceAndInsertLabelCatalog_runs_iff.mp hlabel
    exact ⟨hty, (hall hdb₂).mp (registerAnnotations_runs_iff.mp ⟨db', hannots⟩)⟩
  · rintro ⟨hty, hannots⟩
    have hlabel : (enforceAndInsertLabelCatalog db.labelCatalog labelStr .structural).Runs db () _ :=
      enforceAndInsertLabelCatalog_runs_iff.mpr ⟨hty, id, rfl⟩
    obtain ⟨db', hrest⟩ := registerAnnotations_runs_iff.mpr ((hall rfl).mpr hannots)
    have hread : (registeredLabels).Runs db db.labelCatalog db := Prog.runs_read_iff.mpr ⟨rfl, rfl⟩
    exact ⟨db', hread.bind (hlabel.bind hrest)⟩

theorem keepsSchemas_registerAndValidateLabels (structLabel : String) (annotArray : Option Names) :
    (registerAndValidateLabels structLabel annotArray).Keeps (SameSchemas base) :=
  keeps_registerAndValidateLabels keepsSchemas_enforceAndInsertLabelCatalog ..

end Register

theorem parseUnderRoot_runs_iff {text : DottedText} {path : Ltree} :
    (parseUnderRoot text).Runs db path db' ↔
      db.ltree.readUnder catalogLtreeRootLabel text = .ok path ∧ db' = db := by
  unfold parseUnderRoot
  rw [Prog.runs_read_iff, mapError_eq_ok]

/-- `create_vlabel_internal` up to the label's relations and its row. -/
def vlabelPrep (labelStr : String) (annotArray : Option Names) : AnnotOp Nat := do
  registerAndValidateLabels labelStr annotArray
  let labelLtree ← parseUnderRoot [labelStr]
  let labelId ← nextLabelId .vertex
  onGraph (buildVertexLabelInfrastructure labelId)
  createAnnotationTable .vertex labelId
  insertLabel .vertex ⟨labelId, labelLtree, annotArray⟩
  return labelId

theorem createVlabel_eq (labelStr : String) (annotArray : Option Names) :
    createVlabel s [labelStr] annotArray = do
      let labelId ← vlabelPrep labelStr annotArray
      match annotArray with
      | some names => insertAnnotationSchema s .vertex labelId names
      | none => pure ()
      return labelId := by
  unfold createVlabel vlabelPrep buildVertexLabel
  simp only [bind_assoc, pure_bind]
  cases annotArray <;> rfl

theorem keepsSchemas_vlabelPrep (labelStr : String) (annotArray : Option Names) :
    (vlabelPrep labelStr annotArray).Keeps (SameSchemas base) := by
  refine (keepsSchemas_registerAndValidateLabels ..).bind fun _ =>
    (Prog.keeps_read ..).bind fun level =>
      Prog.Keeps.bind (Prog.keeps_step fun db n db' hs h => ?_) fun labelId =>
        Prog.Keeps.bind (Prog.keeps_step fun db u db' hs h => ?_) fun _ =>
          (keepsSchemas_createAnnotationTable ..).bind fun _ =>
            Prog.Keeps.bind (Prog.keeps_write fun db db' hs h => ?_) fun _ => Prog.keeps_ret ..
  · cases h
    exact hs.trans ⟨rfl, rfl, rfl⟩
  · split at h
    · cases h
      exact hs.trans ⟨rfl, rfl, rfl⟩
    · cases h
  · cases h
    exact hs.trans ⟨rfl, rfl, rfl⟩

/-- **Before it stores the schema of the new label the call has checked all names.** -/
theorem vlabelPrep_inv {labelStr : String} {annotArray : Option Names}
    (h : (vlabelPrep labelStr annotArray).Runs db labelId db') :
    labelId = db.labelIdSeq .vertex ∧ db.Registers labelStr .structural ∧
      db.RegistersAll labelStr (annotArray.getD []) ∧
      ∃ path, db.ltree.readUnder catalogLtreeRootLabel [labelStr] = .ok path := by
  obtain ⟨u₂, db₂, hreg, h₂⟩ := Prog.runs_bind_iff.mp h
  obtain ⟨level, db₃, hlevel, h₃⟩ := Prog.runs_bind_iff.mp h₂
  obtain ⟨id, db₄, hid, h₄⟩ := Prog.runs_bind_iff.mp h₃
  obtain ⟨u₅, db₅, -, h₅⟩ := Prog.runs_bind_iff.mp h₄
  obtain ⟨u₆, db₆, -, h₆⟩ := Prog.runs_bind_iff.mp h₅
  obtain ⟨u₇, db₇, -, h₇⟩ := Prog.runs_bind_iff.mp h₆
  obtain ⟨rfl, -⟩ := Prog.runs_ret_iff.mp h₇
  obtain ⟨hok, rfl⟩ := parseUnderRoot_runs_iff.mp hlevel
  obtain ⟨hfree, hall⟩ := registerAndValidateLabels_runs_iff.mp ⟨db₃, hreg⟩
  cases Prog.runs_step_iff.mp hid
  have honly := registerAndValidateLabels_onlyRegisters hreg
  rw [honly.ltree] at hok
  exact ⟨by rw [honly.seq], hfree, hall, level, hok⟩

theorem vlabelPrep_runs {labelStr : String} {annotArray : Option Names} {path : Ltree}
    (hfree : db.Registers labelStr .structural)
    (hall : db.RegistersAll labelStr (annotArray.getD []))
    (hpath : db.ltree.readUnder catalogLtreeRootLabel [labelStr] = .ok path) :
    ∃ labelId db', (vlabelPrep labelStr annotArray).Runs db labelId db' := by
  obtain ⟨db₂, hreg⟩ := registerAndValidateLabels_runs_iff.mpr ⟨hfree, hall⟩
  have hrest : ∃ labelId db', Prog.Runs (do
      let labelId ← nextLabelId .vertex
      onGraph (buildVertexLabelInfrastructure labelId)
      createAnnotationTable .vertex labelId
      insertLabel .vertex ⟨labelId, path, annotArray⟩
      return labelId) db₂ labelId db' := ⟨_, _, rfl⟩
  obtain ⟨labelId, db', hr⟩ := hrest
  rw [← (registerAndValidateLabels_onlyRegisters hreg).ltree] at hpath
  exact ⟨labelId, db', hreg.bind (Prog.Runs.bind (parseUnderRoot_runs_iff.mpr ⟨hpath, rfl⟩) hr)⟩

/-- **Creating a label keeps every schema in force exactly when its own goes to no label's slot, or
to that of a label with the same schema.** -/
theorem create_kept_iff (hinv : SchemaInv base) (labelStr : String) (names : Names) :
    (∀ t, (createVlabel s [labelStr] (some names)).Reaches base t → SchemasKept base t) ↔
      ¬ base.Rewrites (.createVlabel [labelStr] (some names)) := by
  rw [createVlabel_eq]
  have hprep {t : AnnotDb} (h : (vlabelPrep labelStr (some names)).Reaches base t) :
      SameSchemas base t := (keepsSchemas_vlabelPrep ..).reaches h (SameSchemas.refl base)
  constructor
  · rintro hkept ⟨hstores, hpage, kind, row, hrow, hslot, hne⟩
    obtain ⟨path, hpath⟩ := hstores.path
    obtain ⟨labelId, db₀, hr⟩ := @vlabelPrep_runs base labelStr (some names) path
      hstores.label hstores.annots hpath
    obtain ⟨rfl, -⟩ := vlabelPrep_inv hr
    obtain ⟨db₁, hins⟩ := insertAnnotationSchema_runs (s := s) db₀ .vertex
      (base.labelIdSeq .vertex) hstores.fits
    have hreach : Prog.Reaches (do
        let labelId ← vlabelPrep labelStr (some names)
        insertAnnotationSchema s .vertex labelId names
        return labelId) base db₁ :=
      Prog.reaches_bind_iff.mpr (.inr ⟨_, db₀, hr, Prog.reaches_bind_iff.mpr (.inl hins.reaches)⟩)
    have hforce := inForce_of_onPage (hinv.same (hprep hr.reaches)) hpage hslot hins
    exact hne ((hkept db₁ hreach kind row hrow).symm.trans hforce)
  · intro hnot t ht
    rcases Prog.reaches_bind_iff.mp ht with hp | ⟨labelId, db₀, hr, hins⟩
    · exact (hprep hp).unchanged.kept
    · have hsame := hprep hr.reaches
      obtain ⟨rfl, hlabel, hannots, hpath⟩ := vlabelPrep_inv hr
      have hstored : t = db₀ ∨
          (insertAnnotationSchema s .vertex (base.labelIdSeq .vertex) names).Runs db₀ () t := by
        rcases Prog.reaches_bind_iff.mp hins with hw | ⟨u, db₁, hw, hret⟩
        · exact (Prog.reaches_write_iff.mp hw).imp_right fun hf => Prog.runs_write_iff.mpr hf
        · rw [Prog.reaches_ret_iff.mp hret]
          exact .inr hw
      rcases hstored with rfl | hw
      · exact hsame.unchanged.kept
      · have hinv₀ := hinv.same hsame
        intro kind row hrow
        rw [← hsame.unchanged.inForce row]
        by_cases hslot : schemaSlot (base.labelIdSeq .vertex) = schemaSlot row.id
        · by_cases hpage : SlotOnPage (base.labelIdSeq .vertex)
          · rw [inForce_of_onPage hinv₀ hpage hslot hw, hsame.unchanged.inForce row]
            by_contra hne
            exact hnot ⟨⟨hlabel, hannots, hpath, fits_of_insertAnnotationSchema hw⟩, hpage, kind, row,
              hrow, hslot, fun he => hne he.symm⟩
          · exact (unchanged_of_offPage hinv₀ hpage hw).inForce row
        · exact inForce_of_otherSlot hinv₀ hslot hw

/-! ## Every call, in every state -/

/-- **The map and the store hold what was written**, also by the calls that were cut off. -/
theorem SchemaHistory.inv (h : SchemaHistory db) : SchemaInv db := by
  induction h with
  | created ltree xacts s => exact (SchemaRun.created ltree xacts s).inv
  | @call db _ s o ih =>
    have hinv := (o.keeps s).exec ih
    unfold SchemaOp.perform
    generalize (o.run s).exec db = r at hinv ⊢
    obtain ⟨res, db'⟩ := r
    cases res with
    | ok _ => exact hinv
    | error _ => exact SchemaInv.rollback hinv db
  | @cutOff db db' _ s o hr ih => exact ((o.keeps s).reaches hr ih).rollback db
  | other _ hs ih => exact ih.same hs

/-- A call that writes no schema at all. -/
theorem kept_of_sameSchemas {α : Type} {p : AnnotOp α} (hp : p.Keeps (SameSchemas base))
    (hr : p.Reaches base t) : SchemasKept base t :=
  (hp.reaches hr (SameSchemas.refl base)).unchanged.kept

theorem createVlabel_keepsSchemas (labelStr : String) :
    (createVlabel s [labelStr] none).Keeps (SameSchemas base) := by
  rw [createVlabel_eq]
  exact (keepsSchemas_vlabelPrep ..).bind fun _ => (Prog.keeps_ret ..).bind fun _ => Prog.keeps_ret ..

/-- **A change of schemas is atomic exactly when it overwrites none**, in every state: if its cascade
comes to a label that it has to change, or its new label has the slot of one with another schema, then
the call can be cut off with a schema in force that was never committed. -/
theorem schemaAtomic_iff (h : SchemaHistory db) (s : Session) (c : SchemaCall) :
    SchemaAtomic s c db ↔ ¬ db.Rewrites c := by
  have hinv := h.inv
  have hfail {α : Type} (e : AnnotErr) (hnot : ¬ db.Rewrites c) :
      (∀ t, (Prog.fail e : AnnotOp α).Reaches db t → SchemasKept db t) ↔ ¬ db.Rewrites c :=
    ⟨fun _ => hnot, fun _ t ht => kept_of_sameSchemas (Prog.keeps_fail ..) ht⟩
  have hmap {α : Type} (p : AnnotOp α) :
      (∀ t, (p >>= fun _ => pure ()).Reaches db t → SchemasKept db t) ↔
        ∀ t, p.Reaches db t → SchemasKept db t := by
    refine ⟨fun hk t ht => hk t (Prog.reaches_bind_iff.mpr (.inl ht)), fun hk t ht => ?_⟩
    rcases Prog.reaches_bind_iff.mp ht with hp | ⟨a, t', hr, hret⟩
    · exact hk t hp
    · rw [Prog.reaches_ret_iff.mp hret]
      exact hk t' hr.reaches
  show (∀ t, (c.op.run s).Reaches db t → SchemasKept db t) ↔ _
  cases c with
  | addAnnotationLabel structLabel newAnnot =>
    match newAnnot with
    | [newAnnot] => exact add_kept_iff hinv structLabel newAnnot
    | [] => exact hfail _ id
    | _ :: _ :: _ => exact hfail _ id
  | dropAnnotationLabel structLabel dropAnnot => exact drop_kept_iff hinv structLabel dropAnnot
  | createVlabel label annotations =>
    refine (hmap _).trans ?_
    match label, annotations with
    | [labelStr], some names => exact create_kept_iff hinv labelStr names
    | [labelStr], none =>
      exact ⟨fun _ => id, fun _ t ht => kept_of_sameSchemas (createVlabel_keepsSchemas labelStr) ht⟩
    | [], none => exact hfail _ id
    | [], some _ => exact hfail _ id
    | _ :: _ :: _, none => exact hfail _ id
    | _ :: _ :: _, some _ => exact hfail _ id

/-- Two vertex labels without annotations. -/
def exampleBareLabels : AnnotDb :=
  (SchemaOp.createVlabel ["b"] none).perform ⟨5, 1⟩
    ((SchemaOp.createVlabel ["a"] none).perform ⟨5, 0⟩ exampleCreated)

theorem exampleBareLabels_history : SchemaHistory exampleBareLabels :=
  .call (.call (.created ..) ..) ..

/-- The second label's name as an annotation of the first: refused, when the schema is written. -/
example : ((addAnnotationLabel ⟨5, 2⟩ ["a"] ["b"]).exec exampleBareLabels).1 =
    .error (.alreadyRegistered "b" .structural) := by decide

theorem schemaAtomic_iff_example :
    ¬ SchemaAtomic ⟨5, 2⟩ (.addAnnotationLabel ["a"] ["b"]) exampleBareLabels ∧
      SchemaAtomic ⟨5, 2⟩ (.dropAnnotationLabel ["a"] "b") exampleBareLabels :=
  ⟨fun hatomic => (schemaAtomic_iff exampleBareLabels_history ⟨5, 2⟩
      (.addAnnotationLabel ["a"] ["b"])).mp hatomic (by unfold AnnotDb.Rewrites; decide),
    (schemaAtomic_iff exampleBareLabels_history ⟨5, 2⟩ (.dropAnnotationLabel ["a"] "b")).mpr
      (by unfold AnnotDb.Rewrites; decide)⟩

/-- The refused annotation is in force afterwards. -/
theorem schemaAtomic_fails : ¬ ∀ db s c, SchemaHistory db → SchemaAtomic s c db := by
  intro h
  have hkept := h exampleBareLabels ⟨5, 2⟩ (.addAnnotationLabel ["a"] ["b"])
    exampleBareLabels_history _ (Prog.reaches_exec _ _) .vertex ⟨2, ["_", "a"], none⟩ (by decide)
  revert hkept
  decide

end NeoPostGraph
