import NeoPostGraph.Annotation.Atomic

/-!
# The rows of the label catalogs

What each call that makes or finds a label does to the rows of the two label catalogs, to
`np_label_catalog` and to the sequences, once it has returned.

* `RowAdded`: a new row, with the next id of its kind.
* `SameRows`: no row and no name has changed.

Results: an inversion lemma for each function, `createVlabel_inv` to
`resolveTargetEdgeLabelForRemoval_inv`.
-/

namespace NeoPostGraph

variable {db db' db₁ : AnnotDb} {s : Session} {kind : LabelKind} {labelId : Nat} {ltree : Ltree}
  {annotMap : Option Names} {u : Unit}

/-! ## Changes -/

/-- The rows, the names and the sequences are as they were. -/
structure SameRows (db db' : AnnotDb) : Prop where
  labels : db'.labels = db.labels
  tuples : db'.labelTuples = db.labelTuples
  catalog : db'.labelCatalog = db.labelCatalog
  seq : db'.labelIdSeq = db.labelIdSeq

/-- A row has been added, the last of its kind. -/
structure RowInserted (db db' : AnnotDb) (kind : LabelKind) (row : LabelRow) : Prop where
  labels : db'.labels = Function.update db.labels kind (db.labels kind ++ [row])
  tuples : db'.labelTuples =
    Function.update db.labelTuples kind (PartialIndex.insert row (db.labelTuples kind))
  catalog : db'.labelCatalog = db.labelCatalog
  seq : db'.labelIdSeq = db.labelIdSeq

/-- A row has been added, with the next id of its kind. -/
structure RowAdded (db db' : AnnotDb) (kind : LabelKind) (ltree : Ltree) (annotMap : Option Names) :
    Prop where
  labels : db'.labels = Function.update db.labels kind
    (db.labels kind ++ [⟨db.labelIdSeq kind, ltree, annotMap⟩])
  tuples : db'.labelTuples = Function.update db.labelTuples kind
    (PartialIndex.insert ⟨db.labelIdSeq kind, ltree, annotMap⟩ (db.labelTuples kind))
  catalog : db'.labelCatalog = db.labelCatalog
  seq : db'.labelIdSeq = Function.update db.labelIdSeq kind (db.labelIdSeq kind + 1)

theorem SameRows.refl (db : AnnotDb) : SameRows db db := ⟨rfl, rfl, rfl, rfl⟩

theorem SameRows.trans (h : SameRows db db₁) (h' : SameRows db₁ db') : SameRows db db' :=
  ⟨h'.labels.trans h.labels, h'.tuples.trans h.tuples, h'.catalog.trans h.catalog, h'.seq.trans h.seq⟩

theorem RowInserted.same {row : LabelRow} (h : RowInserted db db₁ kind row) (h' : SameRows db₁ db') :
    RowInserted db db' kind row :=
  ⟨h'.labels.trans h.labels, h'.tuples.trans h.tuples, h'.catalog.trans h.catalog, h'.seq.trans h.seq⟩

theorem SameRows.inserted {row : LabelRow} (h : SameRows db db₁) (h' : RowInserted db₁ db' kind row) :
    RowInserted db db' kind row :=
  ⟨by rw [h'.labels, h.labels], by rw [h'.tuples, h.tuples], h'.catalog.trans h.catalog,
    h'.seq.trans h.seq⟩

theorem RowAdded.rows (h : RowAdded db db' kind ltree annotMap) :
    db'.labels kind = db.labels kind ++ [⟨db.labelIdSeq kind, ltree, annotMap⟩] := by
  rw [h.labels, Function.update_self]

theorem RowAdded.other (h : RowAdded db db' kind ltree annotMap) {k : LabelKind} (hk : k ≠ kind) :
    db'.labels k = db.labels k := by
  rw [h.labels, Function.update_of_ne hk]

/-! ## Annotations -/

/-- The annotations in an array: a NULL element is none. -/
def annotsOf (names : Option Names) : List String := (names.getD []).filterMap fun name => name

/-- The annotations of a label. -/
def LabelRow.annots (row : LabelRow) : List String := annotsOf row.annotationMap

theorem mem_annotsOf {names : Option Names} {annot : String} :
    annot ∈ annotsOf names ↔ some annot ∈ names.getD [] := by
  simp [annotsOf]

theorem mem_annots {row : LabelRow} {annot : String} :
    annot ∈ row.annots ↔ some annot ∈ row.annotationMap.getD [] :=
  mem_annotsOf

/-- A merge has the annotations of both. -/
theorem annotsOf_merge {arr1 arr2 : Option Names} {annot : String} :
    annot ∈ annotsOf (mergeAndDedupeTextArrays arr1 arr2) ↔
      annot ∈ annotsOf arr1 ∨ annot ∈ annotsOf arr2 := by
  have hfold (l out : Names) : some annot ∈ l.foldl
      (fun out s => if s ∈ out then out else out ++ [s]) out ↔ some annot ∈ out ∨ some annot ∈ l := by
    induction l generalizing out with
    | nil => simp
    | cons x l ih =>
      rw [List.foldl_cons, ih, List.mem_cons]
      split_ifs with hx
      · constructor
        · rintro (h | h)
          · exact Or.inl h
          · exact Or.inr (Or.inr h)
        · rintro (h | rfl | h)
          · exact Or.inl h
          · exact Or.inl hx
          · exact Or.inr h
      · rw [List.mem_append, List.mem_singleton, or_assoc]
  rw [mem_annotsOf, mem_annotsOf, mem_annotsOf]
  cases arr1 with
  | none => simp [mergeAndDedupeTextArrays]
  | some arr1 =>
    cases arr2 with
    | none => simp [mergeAndDedupeTextArrays]
    | some arr2 =>
      have hmem := hfold (arr2.filter Option.isSome) (arr1.filter Option.isSome)
      unfold mergeAndDedupeTextArrays
      dsimp only
      split_ifs with hnil
      · rw [hnil] at hmem
        simpa [List.mem_filter] using hmem
      · simpa [List.mem_filter] using hmem

/-! ## The parts of the calls -/

theorem nextLabelId_runs_iff : (nextLabelId kind).Runs db labelId db' ↔
    labelId = db.labelIdSeq kind ∧ db' =
      { db with labelIdSeq := Function.update db.labelIdSeq kind (db.labelIdSeq kind + 1) } := by
  unfold nextLabelId
  rw [Prog.runs_step_iff]
  constructor
  · intro h
    cases h
    exact ⟨rfl, rfl⟩
  · rintro ⟨rfl, rfl⟩
    rfl

/-- The id is drawn first and the row added behind. -/
theorem RowInserted.added
    (h : RowInserted { db with labelIdSeq := Function.update db.labelIdSeq kind (db.labelIdSeq kind + 1) }
      db' kind ⟨db.labelIdSeq kind, ltree, annotMap⟩) : RowAdded db db' kind ltree annotMap :=
  ⟨h.labels, h.tuples, h.catalog, h.seq⟩

theorem onGraph_rows {α : Type} {p : Op α} {a : α} (h : (onGraph p).Runs db a db') : SameRows db db' := by
  obtain ⟨gr, -, rfl⟩ := onGraph_runs_iff.mp h
  exact ⟨rfl, rfl, rfl, rfl⟩

theorem createAnnotationTable_rows (h : (createAnnotationTable kind labelId).Runs db u db') :
    SameRows db db' := by
  obtain rfl := Except.ok.inj (Prog.runs_write_iff.mp h)
  exact ⟨rfl, rfl, rfl, rfl⟩

theorem insertAnnotationSchema_rows {names : Names}
    (h : (insertAnnotationSchema s kind labelId names).Runs db u db') : SameRows db db' := by
  obtain ⟨tid, tbl, tuple, -, -, -, rfl⟩ := insertAnnotationSchema_inv h
  exact ⟨rfl, rfl, rfl, rfl⟩

theorem insertLabel_rows {row : LabelRow} (h : (insertLabel kind row).Runs db u db') :
    RowInserted db db' kind row := by
  obtain rfl := Except.ok.inj (Prog.runs_write_iff.mp h)
  exact ⟨rfl, rfl, rfl, rfl⟩

/-- `build_vertex_label_infrastructure` adds the row of its label. -/
theorem buildVertexLabel_inv (h : (buildVertexLabel s labelId ltree annotMap).Runs db u db') :
    RowInserted db db' .vertex ⟨labelId, ltree, annotMap⟩ := by
  obtain ⟨u₁, db₁, hgraph, h₁⟩ := Prog.runs_bind_iff.mp h
  obtain ⟨u₂, db₂, htbl, h₂⟩ := Prog.runs_bind_iff.mp h₁
  obtain ⟨u₃, db₃, hrow, h₃⟩ := Prog.runs_bind_iff.mp h₂
  have hinserted := ((onGraph_rows hgraph).trans (createAnnotationTable_rows htbl)).inserted
    (insertLabel_rows hrow)
  cases annotMap with
  | none =>
    obtain ⟨-, rfl⟩ := Prog.runs_ret_iff.mp h₃
    exact hinserted
  | some names => exact hinserted.same (insertAnnotationSchema_rows h₃)

theorem buildEdgeAnnotations_rows {annotations : Option Names}
    (h : (buildEdgeAnnotations s labelId annotations).Runs db u db') : SameRows db db' := by
  unfold buildEdgeAnnotations at h
  split at h
  · split at h
    · obtain ⟨-, rfl⟩ := Prog.runs_ret_iff.mp h
      exact .refl _
    · obtain ⟨u₁, db₁, htbl, h₁⟩ := Prog.runs_bind_iff.mp h
      exact (createAnnotationTable_rows htbl).trans (insertAnnotationSchema_rows h₁)
  · obtain ⟨-, rfl⟩ := Prog.runs_ret_iff.mp h
    exact .refl _

/-- The common part of the calls that make an edge label adds its row, with the path it gets. -/
theorem buildEdgeLabel_inv {path : AnnotOp Ltree} {annotations : Option Names}
    (hpath : ∀ db ltree db', path.Runs db ltree db' → SameRows db db')
    (h : (buildEdgeLabel s labelId path annotations).Runs db u db') :
    ∃ db₁ ltree db₂, db₁.ltree = db.ltree ∧ path.Runs db₁ ltree db₂ ∧
      RowInserted db db' .edge ⟨labelId, ltree, annotations⟩ := by
  obtain ⟨u₁, db₁, hgraph, h₁⟩ := Prog.runs_bind_iff.mp h
  obtain ⟨u₂, db₂, hannots, h₂⟩ := Prog.runs_bind_iff.mp h₁
  obtain ⟨ltree, db₃, hp, h₃⟩ := Prog.runs_bind_iff.mp h₂
  have hkeep := ltree_stepsKeep s db.ltree
  have hltree : db₁.ltree = db.ltree := (hkeep.onGraph _).runs hgraph rfl
  have hsame := (onGraph_rows hgraph).trans (buildEdgeAnnotations_rows hannots)
  exact ⟨db₂, ltree, db₃, (hkeep.buildEdgeAnnotations ..).runs hannots hltree, hp,
    (hsame.trans (hpath _ _ _ hp)).inserted (insertLabel_rows h₃)⟩

theorem buildEdgeLabel_pure_inv {annotations : Option Names}
    (h : (buildEdgeLabel s labelId (pure ltree) annotations).Runs db u db') :
    RowInserted db db' .edge ⟨labelId, ltree, annotations⟩ := by
  have hret (db ltree' db') (hp : Prog.Runs (pure ltree : AnnotOp Ltree) db ltree' db') :
      ltree' = ltree ∧ db' = db := Prog.runs_ret_iff.mp hp
  obtain ⟨db₁, ltree', db₂, -, hp, hinserted⟩ := buildEdgeLabel_inv (fun db ltree' db' hp => by
    obtain ⟨-, rfl⟩ := hret _ _ _ hp
    exact .refl _) h
  obtain ⟨rfl, -⟩ := hret _ _ _ hp
  exact hinserted

theorem scanLabels_runs_iff {α : Type} {f : List LabelRow → Except AnnotErr α} {a : α} :
    (scanLabels kind f).Runs db a db' ↔ f (db.labels kind) = .ok a ∧ db' = db := by
  unfold scanLabels
  rw [Prog.runs_read_iff]

theorem findLabel_runs_iff {path : Ltree} {o : Option Nat} : (findLabel kind path).Runs db o db' ↔
    o = ((db.labels kind).find? fun row => row.ltree = path).map LabelRow.id ∧ db' = db := by
  unfold findLabel
  rw [scanLabels_runs_iff, Except.ok.injEq, eq_comm]

theorem parseLtree_runs_iff {text : DottedText} : (parseLtree text).Runs db ltree db' ↔
    db.ltree.ltreeIn text = .ok ltree ∧ db' = db := by
  unfold parseLtree
  rw [Prog.runs_read_iff, mapError_eq_ok]

theorem parsePath_inv {path : Ltree} (h : (parsePath path).Runs db ltree db') :
    ltree = path ∧ db' = db := by
  obtain ⟨_, db₁, hparse, h₁⟩ := Prog.runs_bind_iff.mp h
  obtain ⟨-, rfl⟩ := parseLtree_runs_iff.mp hparse
  exact Prog.runs_ret_iff.mp h₁

/-- The path an entity goes to that gets a label. -/
def targetPath (currentLtree : Ltree) (newLabel : String) : Ltree :=
  if currentLtree = [catalogLtreeRootLabel] then [catalogLtreeRootLabel, newLabel]
  else currentLtree ++ [newLabel]

theorem parseTargetPath_inv {newLabel : String} {currentLtree : Ltree}
    (h : (parseTargetPath [catalogLtreeRootLabel, newLabel] newLabel currentLtree).Runs db ltree db') :
    ltree = targetPath currentLtree newLabel ∧ db' = db := by
  unfold parseTargetPath at h
  unfold targetPath
  split_ifs at h ⊢ with hroot
  · exact Prog.runs_ret_iff.mp h
  · obtain ⟨hparse, rfl⟩ := parseLtree_runs_iff.mp h
    exact ⟨LtreeModule.ltreeIn_append (List.cons_ne_nil _ _) hparse, rfl⟩

/-! ## The calls -/

/-- `create_vlabel_internal` registers its names and adds a row under the root. -/
theorem createVlabel_inv {label : DottedText}
    (h : (createVlabel s label annotMap).Runs db labelId db') :
    ∃ labelStr level db₁, label = [labelStr] ∧ db.ltree.ltreeIn [labelStr] = .ok level ∧
      (registerAndValidateLabels labelStr annotMap).Runs db () db₁ ∧ labelId = db.labelIdSeq .vertex ∧
      RowAdded db₁ db' .vertex (catalogLtreeRootLabel :: level) annotMap := by
  unfold createVlabel at h
  split at h
  · next labelStr =>
    obtain ⟨u₂, db₂, hreg, h₂⟩ := Prog.runs_bind_iff.mp h
    obtain ⟨path, db₃, hpath, h₃⟩ := Prog.runs_bind_iff.mp h₂
    obtain ⟨id, db₄, hid, h₄⟩ := Prog.runs_bind_iff.mp h₃
    obtain ⟨u₅, db₅, hbuild, h₅⟩ := Prog.runs_bind_iff.mp h₄
    obtain ⟨rfl, rfl⟩ := Prog.runs_ret_iff.mp h₅
    obtain ⟨hread, rfl⟩ := parseUnderRoot_runs_iff.mp hpath
    obtain ⟨level, hok, rfl⟩ := LtreeModule.readUnder_inv hread
    obtain ⟨rfl, rfl⟩ := nextLabelId_runs_iff.mp hid
    have honly := registerAndValidateLabels_onlyRegisters hreg
    rw [honly.ltree] at hok
    refine ⟨labelStr, level, db₃, rfl, hok, hreg, ?_, (buildVertexLabel_inv hbuild).added⟩
    rw [honly.seq]
  · exact absurd h Prog.runs_fail_iff.mp

/-- `merge_vlabels_internal` adds a row whose path has the levels of both. -/
theorem mergeVlabels_inv {parentId childId : Nat}
    (h : (mergeVlabels s parentId childId).Runs db labelId db') :
    ∃ parent child, (db.labels .vertex).find? (fun row => row.id = parentId) = some parent ∧
      (db.labels .vertex).find? (fun row => row.id = childId ∧ row.id ≠ parentId) = some child ∧
      labelId = db.labelIdSeq .vertex ∧
      RowAdded db db' .vertex (catalogLtreeRootLabel :: (stripRoot parent.ltree ++ stripRoot child.ltree))
        (mergeAndDedupeTextArrays parent.annotationMap child.annotationMap) := by
  obtain ⟨rows, db₁, hscan, h₁⟩ := Prog.runs_bind_iff.mp h
  obtain ⟨hrows, rfl⟩ := scanLabels_runs_iff.mp hscan
  obtain rfl := Except.ok.inj hrows
  split at h₁
  · next parent child hparent hchild =>
    obtain ⟨path, db₂, hparse, h₂⟩ := Prog.runs_bind_iff.mp h₁
    obtain ⟨id, db₃, hid, h₃⟩ := Prog.runs_bind_iff.mp h₂
    obtain ⟨u₄, db₄, hbuild, h₄⟩ := Prog.runs_bind_iff.mp h₃
    obtain ⟨hpath, rfl⟩ := parseLtree_runs_iff.mp hparse
    obtain ⟨rfl, rfl⟩ := Prog.runs_ret_iff.mp h₄
    obtain ⟨rfl, rfl⟩ := nextLabelId_runs_iff.mp hid
    -- the text starts with the root, so that it is not empty
    rcases LtreeModule.eq_of_ltreeIn hpath with ⟨hempty, -⟩ | ⟨rfl, -⟩
    · exact absurd (List.head_eq_of_cons_eq hempty) (by decide)
    · exact ⟨parent, child, hparent, hchild, rfl, (buildVertexLabel_inv hbuild).added⟩
  · exact absurd h₁ Prog.runs_fail_iff.mp

/-- `create_vlabel_from_path_internal` adds a row of the path, without annotations. -/
theorem createVlabelFromPath_inv {path : Ltree}
    (h : (createVlabelFromPath s path).Runs db labelId db') :
    labelId = db.labelIdSeq .vertex ∧ RowAdded db db' .vertex path none := by
  obtain ⟨id, db₁, hid, h₁⟩ := Prog.runs_bind_iff.mp h
  obtain ⟨path', db₂, hparse, h₂⟩ := Prog.runs_bind_iff.mp h₁
  obtain ⟨u₃, db₃, hbuild, h₃⟩ := Prog.runs_bind_iff.mp h₂
  obtain ⟨rfl, rfl⟩ := Prog.runs_ret_iff.mp h₃
  obtain ⟨rfl, rfl⟩ := nextLabelId_runs_iff.mp hid
  obtain ⟨rfl, rfl⟩ := parsePath_inv hparse
  exact ⟨rfl, (buildVertexLabel_inv hbuild).added⟩

/-- `create_elabel_internal` adds a row under the root. -/
theorem createElabel_inv {label : DottedText}
    (h : (createElabel s label annotMap).Runs db labelId db') :
    ∃ levels, db.ltree.ltreeIn label = .ok levels ∧ labelId = db.labelIdSeq .edge ∧
      RowAdded db db' .edge (catalogLtreeRootLabel :: levels) annotMap := by
  obtain ⟨id, db₁, hid, h₁⟩ := Prog.runs_bind_iff.mp h
  obtain ⟨u₂, db₂, hbuild, h₂⟩ := Prog.runs_bind_iff.mp h₁
  obtain ⟨rfl, rfl⟩ := Prog.runs_ret_iff.mp h₂
  obtain ⟨rfl, rfl⟩ := nextLabelId_runs_iff.mp hid
  obtain ⟨db₃, path, db₄, hltree, hpath, hinserted⟩ := buildEdgeLabel_inv (fun db ltree db' hp => by
    obtain ⟨-, rfl⟩ := parseUnderRoot_runs_iff.mp hp
    exact .refl _) hbuild
  obtain ⟨hread, rfl⟩ := parseUnderRoot_runs_iff.mp hpath
  rw [hltree] at hread
  obtain ⟨levels, hok, rfl⟩ := LtreeModule.readUnder_inv hread
  exact ⟨levels, hok, rfl, hinserted.added⟩

theorem searchLabel_runs_iff {o : Option LabelRow} : (searchLabel kind labelId).Runs db o db' ↔
    o = (db.labels kind).find? (fun row => row.id = labelId) ∧ db' = db := by
  unfold searchLabel
  rw [scanLabels_runs_iff, Except.ok.injEq, eq_comm]

theorem searchLabels_runs_iff {labelId' : Nat} {found : Option LabelRow × Option LabelRow} :
    (searchLabels kind labelId labelId').Runs db found db' ↔
      found = (if ((db.labels kind).find? fun row => row.id = labelId).isSome &&
            ((db.labels kind).find? fun row => row.id = labelId').isSome then
          (db.labels kind).find? fun row => row.id = labelId'
        else (db.labels kind).find? fun row => row.id = labelId,
        (db.labels kind).find? fun row => row.id = labelId') ∧ db' = db := by
  constructor
  · intro h
    obtain ⟨first, db₁, hfirst, h₁⟩ := Prog.runs_bind_iff.mp h
    obtain ⟨second, db₂, hsecond, h₂⟩ := Prog.runs_bind_iff.mp h₁
    obtain ⟨rfl, rfl⟩ := searchLabel_runs_iff.mp hfirst
    obtain ⟨rfl, rfl⟩ := searchLabel_runs_iff.mp hsecond
    exact Prog.runs_ret_iff.mp h₂
  · rintro ⟨rfl, rfl⟩
    rfl

/-- **`merge_elabels_internal` adds a row whose path is that of the base label, and its levels once
more**, with the annotations of the base label. -/
theorem mergeElabels_inv {currentLabelId baseLabelId : Nat}
    (h : (mergeElabels s currentLabelId baseLabelId).Runs db labelId db') :
    (∃ current, (db.labels .edge).find? (fun row => row.id = currentLabelId) = some current) ∧
    ∃ base, (db.labels .edge).find? (fun row => row.id = baseLabelId) = some base ∧
      labelId = db.labelIdSeq .edge ∧ RowAdded db db' .edge (base.ltree ++ cleanBase base.ltree)
        (mergeAndDedupeTextArrays base.annotationMap base.annotationMap) := by
  obtain ⟨found, db₁, hfound, h₁⟩ := Prog.runs_bind_iff.mp h
  obtain ⟨rfl, rfl⟩ := searchLabels_runs_iff.mp hfound
  split at h₁
  · next current base hpair =>
    obtain ⟨hcurrent, hbase⟩ := Prod.mk.inj hpair
    -- both were found, so that the first result is the second
    cases hfirst : (db₁.labels .edge).find? fun row => row.id = currentLabelId with
    | none =>
      rw [hfirst] at hcurrent
      cases hcurrent
    | some first =>
      rw [hfirst, hbase] at hcurrent
      obtain rfl := Option.some.inj hcurrent
      obtain ⟨path, db₂, hparse, h₂⟩ := Prog.runs_bind_iff.mp h₁
      obtain ⟨id, db₃, hid, h₃⟩ := Prog.runs_bind_iff.mp h₂
      obtain ⟨u₄, db₄, hbuild, h₄⟩ := Prog.runs_bind_iff.mp h₃
      obtain ⟨hpath, rfl⟩ := parseLtree_runs_iff.mp hparse
      obtain ⟨rfl, rfl⟩ := Prog.runs_ret_iff.mp h₄
      obtain ⟨rfl, rfl⟩ := nextLabelId_runs_iff.mp hid
      obtain rfl := LtreeModule.ltreeIn_append_ltreeOut hpath
      exact ⟨⟨first, rfl⟩, _, hbase, rfl, (buildEdgeLabel_pure_inv hbuild).added⟩
  · exact absurd h₁ Prog.runs_fail_iff.mp

/-! ## The ids -/

/-- The ids of the labels of a kind: drawn from the sequence, each of one row. -/
structure RowIds (db : AnnotDb) (kind : LabelKind) : Prop where
  below : ∀ row ∈ db.labels kind, row.id < db.labelIdSeq kind
  distinct : ∀ r ∈ db.labels kind, ∀ r' ∈ db.labels kind, r.id = r'.id → r = r'
  nodup : (db.labels kind).Nodup

/-- The ids of the labels only grow. -/
theorem labelIdSeq_stepsKeep (s : Session) (k : LabelKind) (n : Nat) :
    StepsKeep s fun db => n ≤ db.labelIdSeq k where
  nextLabelId kind := Prog.keeps_step fun db a db' hI h => by
    cases h
    dsimp only
    by_cases hkind : k = kind
    · rw [← hkind, Function.update_self]
      omega
    · rw [Function.update_of_ne hkind]
      exact hI
  onGraph p := Prog.keeps_step fun db a db' hI h => by
    split at h <;> cases h
    exact hI
  createAnnotationTable kind labelId := Prog.keeps_write fun db db' hI h => by
    cases h
    exact hI
  insertLabel kind row := Prog.keeps_write fun db db' hI h => by
    cases h
    exact hI
  insertAnnotationSchema kind labelId names := Prog.keeps_write fun db db' hI h => by
    dsimp only at h
    split at h <;> cases h
    exact hI
  updateAnnotationMap kind labelId names := Prog.keeps_write fun db db' hI h => by
    cases h
    exact hI
  enforceAndInsertLabelCatalog registered label expected := Prog.keeps_write fun db db' hI h => by
    split at h <;> split_ifs at h <;> cases h <;> exact hI
  removeFromLabelCatalog label := Prog.keeps_write fun db db' hI h => by
    cases h
    exact hI

theorem RowIds.same (h : RowIds db kind) (hlabels : db'.labels kind = db.labels kind)
    (hseq : db.labelIdSeq kind ≤ db'.labelIdSeq kind) : RowIds db' kind := by
  obtain ⟨hbelow, hdistinct, hnodup⟩ := h
  rw [← hlabels] at hbelow hdistinct hnodup
  exact ⟨fun row hrow => lt_of_lt_of_le (hbelow row hrow) hseq, hdistinct, hnodup⟩

/-- A new row has a new id. -/
theorem RowIds.ne_seq (h : RowIds db kind) {row : LabelRow} (hrow : row ∈ db.labels kind) :
    row.id ≠ db.labelIdSeq kind :=
  Nat.ne_of_lt (h.below row hrow)

/-- A row is found by its id. -/
theorem RowIds.find (h : RowIds db kind) {row : LabelRow} (hrow : row ∈ db.labels kind) :
    (db.labels kind).find? (fun r => r.id = row.id) = some row := by
  cases hfind : (db.labels kind).find? fun r => r.id = row.id with
  | none => exact absurd (List.find?_eq_none.mp hfind row hrow) (by simp)
  | some found =>
    have hid : found.id = row.id := by simpa using List.find?_some hfind
    rw [h.distinct found (List.mem_of_find?_eq_some hfind) row hrow hid]

theorem RowIds.added {k : LabelKind} (h : RowIds db k) (hadd : RowAdded db db' kind ltree annotMap) :
    RowIds db' k := by
  by_cases hk : k = kind
  · subst hk
    have hseq : db'.labelIdSeq k = db.labelIdSeq k + 1 := by
      rw [hadd.seq, Function.update_self]
    refine ⟨?_, ?_, ?_⟩ <;> rw [hadd.rows]
    · intro row hrow
      rw [hseq]
      rcases List.mem_append.mp hrow with hold | hnew
      · exact Nat.lt_succ_of_lt (h.below row hold)
      · obtain rfl := List.mem_singleton.mp hnew
        exact Nat.lt_succ_self _
    · intro r hr r' hr' he
      rcases List.mem_append.mp hr with hold | hnew <;> rcases List.mem_append.mp hr' with hold' | hnew'
      · exact h.distinct r hold r' hold' he
      · obtain rfl := List.mem_singleton.mp hnew'
        exact absurd he (h.ne_seq hold)
      · obtain rfl := List.mem_singleton.mp hnew
        exact absurd he.symm (h.ne_seq hold')
      · rw [List.mem_singleton.mp hnew, List.mem_singleton.mp hnew']
    · refine List.nodup_append.mpr ⟨h.nodup, List.nodup_singleton _, fun r hr r' hr' he => ?_⟩
      obtain rfl := List.mem_singleton.mp hr'
      exact h.ne_seq hr (congrArg LabelRow.id he)
  · exact h.same (hadd.other hk) (by rw [hadd.seq, Function.update_of_ne hk])

/-- Rows that are changed one by one keep their ids. -/
theorem RowIds.mapped {f : LabelRow → LabelRow} (h : RowIds db kind)
    (hlabels : db'.labels kind = (db.labels kind).map f)
    (hseq : db.labelIdSeq kind ≤ db'.labelIdSeq kind) (hid : ∀ row, (f row).id = row.id) :
    RowIds db' kind := by
  refine ⟨?_, ?_, ?_⟩ <;> rw [hlabels]
  · intro row hrow
    obtain ⟨r, hr, rfl⟩ := List.mem_map.mp hrow
    rw [hid]
    exact lt_of_lt_of_le (h.below r hr) hseq
  · intro r hr r' hr' he
    obtain ⟨x, hx, rfl⟩ := List.mem_map.mp hr
    obtain ⟨x', hx', rfl⟩ := List.mem_map.mp hr'
    rw [hid, hid] at he
    rw [h.distinct x hx x' hx' he]
  · refine List.Nodup.map_on (fun x hx x' hx' he => h.distinct x hx x' hx' ?_) h.nodup
    rw [← hid x, ← hid x', he]

/-! ## Resolving a label -/

theorem find_ltree_eq_none {rows : List LabelRow} {path : Ltree}
    (h : (rows.find? fun row => row.ltree = path).map LabelRow.id = none) :
    ∀ row ∈ rows, row.ltree ≠ path := fun row hrow he =>
  List.find?_eq_none.mp (Option.map_eq_none_iff.mp h) row hrow (by simpa using he)

theorem find_ltree_eq_some {rows : List LabelRow} {path : Ltree} {id : Nat}
    (h : (rows.find? fun row => row.ltree = path).map LabelRow.id = some id) :
    ∃ row ∈ rows, row.ltree = path := by
  obtain ⟨row, hfind, -⟩ := Option.map_eq_some_iff.mp h
  exact ⟨row, List.mem_of_find?_eq_some hfind, by simpa using List.find?_some hfind⟩

/-- The base label of the call: there already, or made without annotations. -/
inductive BaseEnsured (s : Session) (newLabel : String) : AnnotDb → AnnotDb → Prop
  | found {db : AnnotDb} (h : ∃ row ∈ db.labels .vertex, row.ltree = [catalogLtreeRootLabel, newLabel]) :
      BaseEnsured s newLabel db db
  | made {db db₀ db' : AnnotDb}
      (hnone : ∀ row ∈ db.labels .vertex, row.ltree ≠ [catalogLtreeRootLabel, newLabel])
      (hreg : (registerAndValidateLabels newLabel none).Runs db () db₀)
      (hadd : RowAdded db₀ db' .vertex [catalogLtreeRootLabel, newLabel] none) :
      BaseEnsured s newLabel db db'

theorem BaseEnsured.exists_base {newLabel : String} (h : BaseEnsured s newLabel db db') :
    ∃ row ∈ db'.labels .vertex, row.ltree = [catalogLtreeRootLabel, newLabel] := by
  cases h with
  | found h => exact h
  | made hnone hreg hadd =>
    rw [hadd.rows]
    exact ⟨_, List.mem_append_right _ List.mem_cons_self, rfl⟩

theorem BaseEnsured.find_of_some {newLabel : String} {p : LabelRow → Bool} {current : LabelRow}
    (h : BaseEnsured s newLabel db db') (hfind : (db.labels .vertex).find? p = some current) :
    (db'.labels .vertex).find? p = some current := by
  cases h with
  | found => exact hfind
  | made hnone hreg hadd =>
    rw [hadd.rows, (registerAndValidateLabels_onlyRegisters hreg).labels, List.find?_append, hfind]
    rfl

@[simp] theorem stripRoot_root (path : Ltree) : stripRoot (catalogLtreeRootLabel :: path) = path := rfl

/-- The id of the row found first by a path. -/
def AnnotDb.idOf (db : AnnotDb) (kind : LabelKind) (path : Ltree) : Option Nat :=
  ((db.labels kind).find? fun row => row.ltree = path).map LabelRow.id

/-- `resolve_or_create_target_label` makes the base label if there is none, and merges it with the
current one if there is no label of the path. -/
theorem resolveOrCreateTargetLabel_inv {currentLabelId : Nat} {newLabel : String} {currentLtree : Ltree}
    (h : (resolveOrCreateTargetLabel s currentLabelId newLabel currentLtree).Runs db labelId db') :
    ∃ db₁, BaseEnsured s newLabel db db₁ ∧
      (db' = db₁ ∧ (currentLtree ≠ [catalogLtreeRootLabel] ∧ newLabel ∈ currentLtree ∨
          db₁.idOf .vertex (targetPath currentLtree newLabel) = some labelId) ∨
        currentLtree ≠ [catalogLtreeRootLabel] ∧ newLabel ∉ currentLtree ∧
        (∀ row ∈ db₁.labels .vertex, row.ltree ≠ currentLtree ++ [newLabel]) ∧
        labelId = (db'.idOf .vertex (currentLtree ++ [newLabel])).getD noLabelId ∧
        ∃ id base, (db₁.labels .vertex).find?
            (fun row => row.ltree = [catalogLtreeRootLabel, newLabel]) = some base ∧
          (mergeVlabels s currentLabelId base.id).Runs db₁ id db') := by
  obtain ⟨basePath, db₁, hparse, h₁⟩ := Prog.runs_bind_iff.mp h
  obtain ⟨hbase, rfl⟩ := parseLtree_runs_iff.mp hparse
  obtain ⟨rfl, hlevel⟩ := LtreeModule.ltreeIn_base hbase
  obtain ⟨u₂, db₂, hensure, h₂⟩ := Prog.runs_bind_iff.mp h₁
  have hbaseEnsured : BaseEnsured s newLabel db₁ db₂ := by
    obtain ⟨o, db₃, hfind, h₃⟩ := Prog.runs_bind_iff.mp hensure
    obtain ⟨ho, rfl⟩ := findLabel_runs_iff.mp hfind
    cases o with
    | some id =>
      obtain ⟨-, rfl⟩ := Prog.runs_ret_iff.mp h₃
      exact .found (find_ltree_eq_some ho.symm)
    | none =>
      obtain ⟨id, db₄, hcreate, h₄⟩ := Prog.runs_bind_iff.mp h₃
      obtain ⟨-, rfl⟩ := Prog.runs_ret_iff.mp h₄
      obtain ⟨labelStr, level, db₅, he, hok, hreg, -, hadd⟩ := createVlabel_inv hcreate
      obtain rfl : newLabel = labelStr := List.head_eq_of_cons_eq he
      obtain rfl := hlevel level hok
      exact .made (find_ltree_eq_none ho.symm) hreg hadd
  refine ⟨db₂, hbaseEnsured, ?_⟩
  by_cases hhas : currentLtree ≠ [catalogLtreeRootLabel] ∧ newLabel ∈ currentLtree
  · rw [if_pos hhas] at h₂
    obtain ⟨-, rfl⟩ := Prog.runs_ret_iff.mp h₂
    exact Or.inl ⟨rfl, Or.inl hhas⟩
  · rw [if_neg hhas] at h₂
    obtain ⟨path, db₂', hpath, h₂'⟩ := Prog.runs_bind_iff.mp h₂
    obtain ⟨rfl, rfl⟩ := parseTargetPath_inv hpath
    obtain ⟨o, db₃, hfind, h₃⟩ := Prog.runs_bind_iff.mp h₂'
    obtain ⟨ho, rfl⟩ := findLabel_runs_iff.mp hfind
    cases o with
    | some id =>
      obtain ⟨rfl, rfl⟩ := Prog.runs_ret_iff.mp h₃
      exact Or.inl ⟨rfl, Or.inr ho.symm⟩
    | none =>
      obtain ⟨b, db₄, hb, h₄⟩ := Prog.runs_bind_iff.mp h₃
      obtain ⟨rfl, rfl⟩ := findLabel_runs_iff.mp hb
      obtain ⟨id, db₅, hmerge, h₅⟩ := Prog.runs_bind_iff.mp h₄
      obtain ⟨o', db₆, hfind', h₆⟩ := Prog.runs_bind_iff.mp h₅
      obtain ⟨rfl, rfl⟩ := findLabel_runs_iff.mp hfind'
      obtain ⟨hid, rfl⟩ := Prog.runs_ret_iff.mp h₆
      have hnone := find_ltree_eq_none ho.symm
      obtain ⟨row, hrow, hltree⟩ := hbaseEnsured.exists_base
      by_cases hroot : currentLtree = [catalogLtreeRootLabel]
      · -- the base label is the target, and it is there
        rw [targetPath, if_pos hroot] at hnone
        exact absurd hltree (hnone row hrow)
      · rw [targetPath, if_neg hroot] at hnone hid
        refine Or.inr ⟨hroot, fun hmem => hhas ⟨hroot, hmem⟩, hnone, hid, id, ?_⟩
        cases hbase' : (db₄.labels .vertex).find?
            fun row => row.ltree = [catalogLtreeRootLabel, newLabel] with
        | none => exact absurd hltree (fun he => List.find?_eq_none.mp hbase' row hrow (by simpa using he))
        | some base =>
          rw [hbase'] at hmerge
          exact ⟨base, rfl, hmerge⟩

/-- `resolve_reduced_target_label` makes a label without annotations if there is none of the path. -/
theorem resolveReducedTargetLabel_inv {currentLabelId : Nat} {labelToRemove : String}
    {currentLtree : Ltree}
    (h : (resolveReducedTargetLabel s currentLabelId labelToRemove currentLtree).Runs db labelId db') :
    db' = db ∧ (labelToRemove ∉ currentLtree ∨
        db.idOf .vertex (reducedPath currentLtree labelToRemove) = some labelId) ∨
      labelToRemove ∈ currentLtree ∧
      (∀ row ∈ db.labels .vertex, row.ltree ≠ reducedPath currentLtree labelToRemove) ∧
      labelId = db.labelIdSeq .vertex ∧
      RowAdded db db' .vertex (reducedPath currentLtree labelToRemove) none := by
  unfold resolveReducedTargetLabel at h
  split_ifs at h with hmem
  · obtain ⟨path, db₁, hpath, h₀⟩ := Prog.runs_bind_iff.mp h
    obtain ⟨rfl, rfl⟩ := parsePath_inv hpath
    obtain ⟨o, db₂, hfind, h₁⟩ := Prog.runs_bind_iff.mp h₀
    obtain ⟨ho, rfl⟩ := findLabel_runs_iff.mp hfind
    cases o with
    | some id =>
      obtain ⟨rfl, rfl⟩ := Prog.runs_ret_iff.mp h₁
      exact Or.inl ⟨rfl, Or.inr ho.symm⟩
    | none => exact Or.inr ⟨hmem, find_ltree_eq_none ho.symm, createVlabelFromPath_inv h₁⟩
  · obtain ⟨-, rfl⟩ := Prog.runs_ret_iff.mp h
    exact Or.inl ⟨rfl, Or.inl hmem⟩

/-- `resolve_or_create_target_edge_label` makes the base label if there is none, and a label of the
path if there is none. -/
theorem resolveOrCreateTargetEdgeLabel_inv {currentLabelId : Nat} {newLabel : String}
    {currentLtree : Ltree}
    (h : (resolveOrCreateTargetEdgeLabel s currentLabelId newLabel currentLtree).Runs db labelId db') :
    ∃ db₁, (db₁ = db ∨ (∀ row ∈ db.labels .edge, row.ltree ≠ [catalogLtreeRootLabel, newLabel]) ∧
        RowAdded db db₁ .edge [catalogLtreeRootLabel, newLabel] none) ∧
      (db' = db₁ ∧ (currentLtree ≠ [catalogLtreeRootLabel] ∧ newLabel ∈ currentLtree ∨
          db₁.idOf .edge (targetPath currentLtree newLabel) = some labelId) ∨
        currentLtree ≠ [catalogLtreeRootLabel] ∧ newLabel ∉ currentLtree ∧
        (∀ row ∈ db₁.labels .edge, row.ltree ≠ currentLtree ++ [newLabel]) ∧
        labelId = db₁.labelIdSeq .edge ∧ ∃ annotMap, RowAdded db₁ db' .edge (currentLtree ++ [newLabel]) annotMap) := by
  obtain ⟨basePath, db₁, hparse, h₁⟩ := Prog.runs_bind_iff.mp h
  obtain ⟨hbase, rfl⟩ := parseLtree_runs_iff.mp hparse
  obtain ⟨rfl, hlevel⟩ := LtreeModule.ltreeIn_base hbase
  obtain ⟨baseLabelId, db₂, hensure, h₂⟩ := Prog.runs_bind_iff.mp h₁
  have hbaseEnsured : (∃ row ∈ db₂.labels .edge, row.ltree = [catalogLtreeRootLabel, newLabel]) ∧
      (db₂ = db₁ ∨ (∀ row ∈ db₁.labels .edge, row.ltree ≠ [catalogLtreeRootLabel, newLabel]) ∧
        RowAdded db₁ db₂ .edge [catalogLtreeRootLabel, newLabel] none) := by
    obtain ⟨o, db₃, hfind, h₃⟩ := Prog.runs_bind_iff.mp hensure
    obtain ⟨ho, rfl⟩ := findLabel_runs_iff.mp hfind
    cases o with
    | some id =>
      obtain ⟨-, rfl⟩ := Prog.runs_ret_iff.mp h₃
      exact ⟨find_ltree_eq_some ho.symm, Or.inl rfl⟩
    | none =>
      obtain ⟨levels, hok, -, hadd⟩ := createElabel_inv h₃
      obtain rfl := hlevel levels hok
      refine ⟨?_, Or.inr ⟨find_ltree_eq_none ho.symm, hadd⟩⟩
      rw [hadd.rows]
      exact ⟨_, List.mem_append_right _ List.mem_cons_self, rfl⟩
  obtain ⟨⟨row, hrow, hltree⟩, hensured⟩ := hbaseEnsured
  refine ⟨db₂, hensured, ?_⟩
  by_cases hhas : currentLtree ≠ [catalogLtreeRootLabel] ∧ newLabel ∈ currentLtree
  · rw [if_pos hhas] at h₂
    obtain ⟨-, rfl⟩ := Prog.runs_ret_iff.mp h₂
    exact Or.inl ⟨rfl, Or.inl hhas⟩
  · rw [if_neg hhas] at h₂
    obtain ⟨path, db₂', hpath, h₂'⟩ := Prog.runs_bind_iff.mp h₂
    obtain ⟨rfl, rfl⟩ := parseTargetPath_inv hpath
    obtain ⟨o, db₃, hfind, h₃⟩ := Prog.runs_bind_iff.mp h₂'
    obtain ⟨ho, rfl⟩ := findLabel_runs_iff.mp hfind
    cases o with
    | some id =>
      obtain ⟨rfl, rfl⟩ := Prog.runs_ret_iff.mp h₃
      exact Or.inl ⟨rfl, Or.inr ho.symm⟩
    | none =>
      obtain ⟨id, db₄, hid, h₄⟩ := Prog.runs_bind_iff.mp h₃
      obtain ⟨rfl, rfl⟩ := nextLabelId_runs_iff.mp hid
      obtain ⟨found, db₅, hfound, h₅⟩ := Prog.runs_bind_iff.mp h₄
      obtain ⟨-, rfl⟩ := searchLabels_runs_iff.mp hfound
      obtain ⟨u₆, db₆, hbuild, h₆⟩ := Prog.runs_bind_iff.mp h₅
      obtain ⟨rfl, rfl⟩ := Prog.runs_ret_iff.mp h₆
      have hnone := find_ltree_eq_none ho.symm
      by_cases hroot : currentLtree = [catalogLtreeRootLabel]
      · rw [targetPath, if_pos hroot] at hnone
        exact absurd hltree (hnone row hrow)
      · rw [targetPath, if_neg hroot] at hnone hbuild
        exact Or.inr ⟨hroot, fun hmem => hhas ⟨hroot, hmem⟩, hnone, rfl, _,
          (buildEdgeLabel_pure_inv hbuild).added⟩

/-- `resolve_target_edge_label_for_removal` makes a label of the path if there is none. -/
theorem resolveTargetEdgeLabelForRemoval_inv {currentLabelId : Nat} {labelToRemove : String}
    {currentLtree : Ltree} (h : (resolveTargetEdgeLabelForRemoval s currentLabelId labelToRemove
      currentLtree).Runs db labelId db') :
    db' = db ∧ (labelToRemove ∉ currentLtree ∨
        db.idOf .edge (currentLtree.filter (· ≠ labelToRemove)) = some labelId) ∨
      labelToRemove ∈ currentLtree ∧
      currentLtree.filter (· ≠ labelToRemove) ≠ [catalogLtreeRootLabel] ∧
      (∀ row ∈ db.labels .edge, row.ltree ≠ currentLtree.filter (· ≠ labelToRemove)) ∧
      labelId = db.labelIdSeq .edge ∧ ∃ annotMap, RowAdded db db' .edge (currentLtree.filter (· ≠ labelToRemove)) annotMap := by
  unfold resolveTargetEdgeLabelForRemoval at h
  dsimp only at h
  split_ifs at h with hmem hroot
  · exact absurd h Prog.runs_fail_iff.mp
  · obtain ⟨path, db₀, hpath, h₀⟩ := Prog.runs_bind_iff.mp h
    obtain ⟨rfl, rfl⟩ := parsePath_inv hpath
    obtain ⟨o, db₁, hfind, h₁⟩ := Prog.runs_bind_iff.mp h₀
    obtain ⟨ho, rfl⟩ := findLabel_runs_iff.mp hfind
    cases o with
    | some id =>
      obtain ⟨rfl, rfl⟩ := Prog.runs_ret_iff.mp h₁
      exact Or.inl ⟨rfl, Or.inr ho.symm⟩
    | none =>
      obtain ⟨id, db₂, hid, h₂⟩ := Prog.runs_bind_iff.mp h₁
      obtain ⟨rfl, rfl⟩ := nextLabelId_runs_iff.mp hid
      obtain ⟨current, db₃, hcurrent, h₃⟩ := Prog.runs_bind_iff.mp h₂
      obtain ⟨-, rfl⟩ := searchLabel_runs_iff.mp hcurrent
      obtain ⟨u₄, db₄, hbuild, h₄⟩ := Prog.runs_bind_iff.mp h₃
      obtain ⟨rfl, rfl⟩ := Prog.runs_ret_iff.mp h₄
      exact Or.inr ⟨hmem, hroot, find_ltree_eq_none ho.symm, rfl, _,
        (buildEdgeLabel_pure_inv hbuild).added⟩
  · obtain ⟨-, rfl⟩ := Prog.runs_ret_iff.mp h
    exact Or.inl ⟨rfl, Or.inl hmem⟩

theorem reducedPath_ne_nil (path : Ltree) (label : String) : reducedPath path label ≠ [] := by
  unfold reducedPath
  dsimp only
  split_ifs with hnil
  · simp
  · exact hnil

/-- The call finds the label the entity has, and resolves from its path. -/
theorem resolveFrom_inv {currentLabelId : Nat} {e : AnnotErr} {label : DottedText}
    {resolve : String → Ltree → AnnotOp Nat}
    (h : (resolveFrom kind currentLabelId e label resolve).Runs db u db') :
    ∃ level current id, label = [level] ∧
      (db.labels kind).find? (fun row => row.id = currentLabelId) = some current ∧
      (resolve level current.ltree).Runs db id db' := by
  unfold resolveFrom at h
  split at h
  · next level =>
    obtain ⟨current, db₁, hcurrent, h₁⟩ := Prog.runs_bind_iff.mp h
    obtain ⟨id, db₂, hresolve, h₂⟩ := Prog.runs_bind_iff.mp h₁
    obtain ⟨-, rfl⟩ := Prog.runs_ret_iff.mp h₂
    obtain ⟨hfound, rfl⟩ := scanLabels_runs_iff.mp hcurrent
    cases hrow : (db₁.labels kind).find? fun row => row.id = currentLabelId with
    | none =>
      rw [hrow] at hfound
      cases hfound
    | some row =>
      rw [hrow] at hfound
      obtain rfl := Except.ok.inj hfound
      exact ⟨level, row, id, rfl, rfl, hresolve⟩
  · exact absurd h Prog.runs_fail_iff.mp

end NeoPostGraph
