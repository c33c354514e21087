import NeoPostGraph.Annotation.LabelCatalog
import NeoPostGraph.Annotation.LabelChange

/-!
# The paths of labels

An entity that gets or loses a label goes to the label of another path. Four routines find it: each
takes the first row of the path, primary or archived, or makes one. Creating and merging labels looks
at no path, and dropping one writes all paths with the label anew, whether others have them or not.

* `LabelDb.WellFormedPaths`: paths start at the root, primary rows have different paths, and every
  resolution that looks for a path returns the primary row of it.
* `LabelDb.KeepsPaths`: when a call keeps that, in terms of the rows before it.

Results:
* `PathInv.perform`: one call.
* `wellFormedPaths_of_keepsPaths`: every state of a run of such calls.
* `wellFormedPaths_fails`: a drop that makes a path which another label has.
-/

namespace NeoPostGraph

variable {db db' db₁ : AnnotDb} {s : Session} {kind : LabelKind} {u : Unit} {ltree : Ltree}
  {archived : LabelKind → List Nat} {labelId : Nat}

/-! ## Well-formed paths -/

/-- The path starts at the root. -/
def Rooted (path : Ltree) : Prop := path.head? = some catalogLtreeRootLabel

instance : DecidablePred Rooted := fun path =>
  inferInstanceAs (Decidable (path.head? = some catalogLtreeRootLabel))

/-- A resolution that succeeds returns the id of a primary row of the path. -/
def LabelDb.Returns (db : LabelDb) (kind : LabelKind) (resolve : AnnotOp Nat) (path : Ltree) : Prop :=
  ∀ id annot', resolve.Runs db.annot id annot' →
    ∃ row ∈ annot'.labels kind, row.id = id ∧ row.ltree = path ∧ id ∉ db.archived kind

/-- **Well-formed paths.** A resolution looks for no path if the entity has the label it is to get, or
has not the one it is to lose; it returns the label given then. -/
structure LabelDb.WellFormedPaths (db : LabelDb) : Prop where
  rooted : ∀ kind, ∀ row ∈ db.annot.labels kind, Rooted row.ltree
  unique : ∀ kind, ∀ row ∈ db.annot.labels kind, ∀ row' ∈ db.annot.labels kind,
    row.id ∉ db.archived kind → row'.id ∉ db.archived kind → row.ltree = row'.ltree → row = row'
  setVertex : ∀ s, ∀ current ∈ db.annot.labels .vertex, ∀ newLabel,
    (current.ltree ≠ [catalogLtreeRootLabel] → newLabel ∉ current.ltree) →
    db.Returns .vertex (resolveOrCreateTargetLabel s current.id newLabel current.ltree)
      (targetPath current.ltree newLabel)
  removeVertex : ∀ s, ∀ current ∈ db.annot.labels .vertex, ∀ labelToRemove ∈ current.ltree,
    db.Returns .vertex (resolveReducedTargetLabel s current.id labelToRemove current.ltree)
      (reducedPath current.ltree labelToRemove)
  setEdge : ∀ s, ∀ current ∈ db.annot.labels .edge, ∀ newLabel,
    (current.ltree ≠ [catalogLtreeRootLabel] → newLabel ∉ current.ltree) →
    db.Returns .edge (resolveOrCreateTargetEdgeLabel s current.id newLabel current.ltree)
      (targetPath current.ltree newLabel)
  removeEdge : ∀ s, ∀ current ∈ db.annot.labels .edge, ∀ labelToRemove ∈ current.ltree,
    db.Returns .edge (resolveTargetEdgeLabelForRemoval s current.id labelToRemove current.ltree)
      (current.ltree.filter (· ≠ labelToRemove))

/-- No row has this path. -/
def AnnotDb.Free (db : AnnotDb) (kind : LabelKind) (path : Ltree) : Prop :=
  ∀ row ∈ db.labels kind, row.ltree ≠ path

instance (db : AnnotDb) (kind : LabelKind) (path : Ltree) : Decidable (db.Free kind path) :=
  inferInstanceAs (Decidable (∀ row ∈ db.labels kind, row.ltree ≠ path))

/-- The calls that make, merge, drop, rename, set and remove labels. -/
def LabelOp.changesPaths : LabelOp → Bool
  | .schema (.addAnnotationLabel _ _) => false
  | .schema (.dropAnnotationLabel _ _) => false
  | _ => true

/-- **When a drop keeps the paths well formed**: it leaves the root, the paths it makes are nobody
else's, and each row it archives comes behind a row that has the path already. -/
structure LabelDb.Drops (db : LabelDb) (kind : LabelKind) (label : String) : Prop where
  rooted : ∀ row ∈ db.annot.labels kind, label ∈ tokens row.ltree → Rooted (droppedPath label row.ltree)
  apart : KeyedRows.Apart (db.annot.paths kind) (label ∈ tokens ·) (droppedPath label)
    (DroppedAsLeaf label)

/-- **When a call keeps the paths well formed**, on the rows before it.

* A label that is created or merged has a path of its own; two edge labels merge into the path of the
  second, and its levels once more.
* A label that is removed is not the root of a path that has to be made.
* The paths a renaming makes are nobody else's, unless the renaming is refused. -/
def LabelDb.KeepsPaths (db : LabelDb) : LabelOp → Prop
  | .schema (.createVlabel [labelStr] _) => ∀ level, db.annot.ltree.ltreeIn [labelStr] = .ok level →
    db.annot.Free .vertex (catalogLtreeRootLabel :: level)
  | .schema (.mergeVlabels parentId childId) => ∀ parent child,
    (db.annot.labels .vertex).find? (fun row => row.id = parentId) = some parent →
    (db.annot.labels .vertex).find? (fun row => row.id = childId ∧ row.id ≠ parentId) = some child →
    db.annot.Free .vertex (catalogLtreeRootLabel :: (stripRoot parent.ltree ++ stripRoot child.ltree))
  | .schema (.createElabel label _) => ∀ levels, db.annot.ltree.ltreeIn label = .ok levels →
    db.annot.Free .edge (catalogLtreeRootLabel :: levels)
  | .schema (.mergeElabels currentLabelId baseLabelId) => ∀ current base,
    (db.annot.labels .edge).find? (fun row => row.id = currentLabelId) = some current →
    (db.annot.labels .edge).find? (fun row => row.id = baseLabelId) = some base →
    db.annot.Free .edge (base.ltree ++ cleanBase base.ltree)
  | .schema (.removeVertexLabel currentLabelId [labelToRemove]) => ∀ current,
    (db.annot.labels .vertex).find? (fun row => row.id = currentLabelId) = some current →
    labelToRemove ∈ current.ltree → db.annot.Free .vertex (reducedPath current.ltree labelToRemove) →
    Rooted (reducedPath current.ltree labelToRemove)
  | .schema (.removeEdgeLabel currentLabelId labelToRemove) => ∀ current,
    (db.annot.labels .edge).find? (fun row => row.id = currentLabelId) = some current →
    labelToRemove ∈ current.ltree →
    db.annot.Free .edge (current.ltree.filter (· ≠ labelToRemove)) →
    Rooted (current.ltree.filter (· ≠ labelToRemove))
  | .dropVlabel label => db.Drops .vertex label
  | .dropElabel label => db.Drops .edge label
  | .renameVlabel [old] [new] => old ≠ new → new ∉ db.annot.labelCatalog.map Prod.fst →
    KeyedRows.Apart (db.annot.paths .vertex) (old ∈ tokens ·) (renamedPath old new) fun _ => False
  | .renameElabel [old] [new] => old ≠ new → (∀ row ∈ db.annot.labels .edge, new ∉ row.ltree) →
    KeyedRows.Apart (db.annot.paths .edge) (old ∈ tokens ·) (renamedPath old new) fun _ => False
  | _ => True

/-- The states of a graph whose labels are made, merged, dropped, renamed, set and removed, by calls of
which something is known where they start. -/
inductive PathRun (known : LabelDb → LabelOp → Prop) : LabelDb → Prop where
  | created (ltree : LtreeModule) (xacts : XactState) (s : Session) :
      PathRun known (LabelDb.created ltree xacts s)
  | call {db : LabelDb} (h : PathRun known db) (s : Session) (o : LabelOp)
      (ho : o.changesPaths = true) (hc : known db o) : PathRun known (o.perform s db)

/-! ## The rows of the catalogs -/

/-- **What a lookup by path relies on**: ids are drawn from the sequence, and the first row of a path
is primary and the only one that is. -/
structure FrontInv (archived : LabelKind → List Nat) (db : AnnotDb) : Prop where
  ids : ∀ kind, RowIds db kind
  fronted : ∀ kind, KeyedRows.Fronted (db.paths kind) (· ∈ archived kind)
  below : ∀ kind, ∀ id ∈ archived kind, id < db.labelIdSeq kind

theorem mem_paths {p : Nat × Ltree} : p ∈ db.paths kind ↔
    ∃ row ∈ db.labels kind, (row.id, row.ltree) = p :=
  List.mem_map

theorem AnnotDb.Free.paths (h : db.Free kind ltree) : ∀ p ∈ db.paths kind, p.2 ≠ ltree := by
  intro p hp
  obtain ⟨row, hrow, rfl⟩ := mem_paths.mp hp
  exact h row hrow

theorem FrontInv.same (h : FrontInv archived db) (hlabels : db'.labels = db.labels)
    (hseq : ∀ kind, db.labelIdSeq kind ≤ db'.labelIdSeq kind) : FrontInv archived db' where
  ids kind := (h.ids kind).same (by rw [hlabels]) (hseq kind)
  fronted kind := by
    unfold AnnotDb.paths
    rw [hlabels]
    exact h.fronted kind
  below kind id hid := lt_of_lt_of_le (h.below kind id hid) (hseq kind)

/-- **A new row of a new path.** -/
theorem FrontInv.added {annotMap : Option Names} (h : FrontInv archived db)
    (hadd : RowAdded db db' kind ltree annotMap) (hfree : db.Free kind ltree) :
    FrontInv archived db' := by
  refine ⟨fun k => (h.ids k).added hadd, fun k => ?_, fun k id hid => ?_⟩
  · unfold AnnotDb.paths
    by_cases hk : k = kind
    · subst hk
      rw [hadd.rows, List.map_append]
      refine (h.fronted k).append hfree.paths fun harch => ?_
      exact absurd (h.below k _ harch) (Nat.lt_irrefl _)
    · rw [hadd.other hk]
      exact h.fronted k
  · have hlt := h.below k id hid
    rw [hadd.seq]
    by_cases hk : k = kind
    · subst hk
      rw [Function.update_self]
      omega
    · rwa [Function.update_of_ne hk]

/-- The row found first by a path. -/
theorem FrontInv.found (h : FrontInv archived db)
    (hfind : db.idOf kind ltree = some labelId) :
    ∃ row ∈ db.labels kind, row.id = labelId ∧ row.ltree = ltree ∧ labelId ∉ archived kind := by
  obtain ⟨row, hrow, rfl⟩ := Option.map_eq_some_iff.mp hfind
  have hlookup : KeyedRows.lookup (db.paths kind) ltree = some (row.id, row.ltree) :=
    (List.find?_map ..).trans (congrArg (Option.map fun row => (row.id, row.ltree)) hrow)
  exact ⟨row, List.mem_of_find?_eq_some hrow, rfl, by simpa using List.find?_some hrow,
    (h.fronted kind).lookup_live hlookup⟩

/-- The row just added is found by its path. -/
theorem idOf_added {annotMap : Option Names} (hadd : RowAdded db db' kind ltree annotMap)
    (hfree : db.Free kind ltree) : db'.idOf kind ltree = some (db.labelIdSeq kind) := by
  have hnone : (db.labels kind).find? (fun row => row.ltree = ltree) = none :=
    List.find?_eq_none.mpr fun row hrow => by simpa using hfree row hrow
  unfold AnnotDb.idOf
  rw [hadd.rows, List.find?_append, hnone]
  simp

/-- The rows have paths from the root, besides. -/
structure PathInv (archived : LabelKind → List Nat) (db : AnnotDb) : Prop where
  front : FrontInv archived db
  rooted : ∀ kind, ∀ row ∈ db.labels kind, Rooted row.ltree

theorem PathInv.same (h : PathInv archived db) (hlabels : db'.labels = db.labels)
    (hseq : ∀ kind, db.labelIdSeq kind ≤ db'.labelIdSeq kind) : PathInv archived db' where
  front := h.front.same hlabels hseq
  rooted := by
    rw [hlabels]
    exact h.rooted

theorem PathInv.added {annotMap : Option Names} (h : PathInv archived db)
    (hadd : RowAdded db db' kind ltree annotMap) (hfree : db.Free kind ltree) (hroot : Rooted ltree) :
    PathInv archived db' := by
  refine ⟨h.front.added hadd hfree, fun k row hrow => ?_⟩
  by_cases hk : k = kind
  · subst hk
    rw [hadd.rows] at hrow
    rcases List.mem_append.mp hrow with hold | hnew
    · exact h.rooted k row hold
    · obtain rfl := List.mem_singleton.mp hnew
      exact hroot
  · rw [hadd.other hk] at hrow
    exact h.rooted k row hrow

theorem rooted_cons (path : Ltree) : Rooted (catalogLtreeRootLabel :: path) := rfl

theorem Rooted.append (h : Rooted ltree) (path : Ltree) : Rooted (ltree ++ path) := by
  cases ltree with
  | nil => cases h
  | cons level rest => exact h

/-- The root is all that is stripped of a path that starts at it. -/
theorem Rooted.cons_stripRoot (h : Rooted ltree) : catalogLtreeRootLabel :: stripRoot ltree = ltree := by
  cases ltree with
  | nil => cases h
  | cons level rest =>
    obtain rfl := Option.some.inj h
    rfl

/-! ## The calls that make rows -/

theorem PathInv.registered {labelStr : String} {annotArray : Option Names} (h : PathInv archived db)
    (hreg : (registerAndValidateLabels labelStr annotArray).Runs db u db') : PathInv archived db' := by
  have honly := registerAndValidateLabels_onlyRegisters hreg
  exact h.same honly.labels fun kind => by rw [honly.seq]

theorem PathInv.createVlabel {label : DottedText} {annotations : Option Names}
    (h : PathInv archived db) (hc : LabelDb.KeepsPaths ⟨db, archived⟩ (.schema (.createVlabel label annotations)))
    (hr : (createVlabel s label annotations).Runs db labelId db') : PathInv archived db' := by
  obtain ⟨labelStr, level, db₁, rfl, hlevel, hreg, -, hadd⟩ := createVlabel_inv hr
  have hfree : db₁.Free .vertex (catalogLtreeRootLabel :: level) := by
    unfold AnnotDb.Free
    rw [(registerAndValidateLabels_onlyRegisters hreg).labels]
    exact hc level hlevel
  exact (h.registered hreg).added hadd hfree (rooted_cons level)

/-- A base label made on the way is of a path that there was not. -/
theorem PathInv.baseEnsured {newLabel : String} (h : PathInv archived db)
    (hbase : BaseEnsured s newLabel db db') : PathInv archived db' := by
  cases hbase with
  | found => exact h
  | made hnone hreg hadd =>
    refine (h.registered hreg).added hadd ?_ (rooted_cons _)
    unfold AnnotDb.Free
    rw [(registerAndValidateLabels_onlyRegisters hreg).labels]
    exact hnone

/-- The label that `resolve_or_create_target_label` merges has the path it looked for. -/
theorem PathInv.merged {newLabel : String} {current base : LabelRow} {currentLabelId : Nat}
    (h : PathInv archived db)
    (hcurrent : (db.labels .vertex).find? (fun row => row.id = currentLabelId) = some current)
    (hbase : (db.labels .vertex).find?
      (fun row => row.ltree = [catalogLtreeRootLabel, newLabel]) = some base)
    (hr : (mergeVlabels s currentLabelId base.id).Runs db labelId db') :
    ∃ annotMap, labelId = db.labelIdSeq .vertex ∧
      RowAdded db db' .vertex (current.ltree ++ [newLabel]) annotMap := by
  obtain ⟨parent, child, hparent, hchild, hid, hadd⟩ := mergeVlabels_inv hr
  obtain rfl := Option.some.inj (hcurrent.symm.trans hparent)
  have hboth := List.find?_some hchild
  rw [decide_eq_true_eq] at hboth
  obtain rfl := (h.front.ids .vertex).distinct child (List.mem_of_find?_eq_some hchild) base
    (List.mem_of_find?_eq_some hbase) hboth.1
  have hltree : child.ltree = [catalogLtreeRootLabel, newLabel] := by simpa using List.find?_some hbase
  have hroot := h.rooted .vertex current (List.mem_of_find?_eq_some hcurrent)
  rw [hltree, stripRoot_root, ← List.cons_append, hroot.cons_stripRoot] at hadd
  exact ⟨_, hid, hadd⟩

/-- **Setting a vertex label** keeps the paths apart: what is made is made because it is not there. It
returns the label found first, by the path looked for. -/
theorem PathInv.setVertexLabel {currentLabelId : Nat} {newLabel : String} {current : LabelRow}
    (h : PathInv archived db)
    (hcurrent : (db.labels .vertex).find? (fun row => row.id = currentLabelId) = some current)
    (hr : (resolveOrCreateTargetLabel s currentLabelId newLabel current.ltree).Runs db labelId db') :
    PathInv archived db' ∧ (current.ltree ≠ [catalogLtreeRootLabel] ∧ newLabel ∈ current.ltree ∨
      db'.idOf .vertex (targetPath current.ltree newLabel) = some labelId) := by
  obtain ⟨db₁, hbase, ⟨rfl, hfound⟩ | ⟨hroot, hnew, hnone, hid, id, base, hfind, hmerge⟩⟩ :=
    resolveOrCreateTargetLabel_inv hr
  · exact ⟨h.baseEnsured hbase, hfound⟩
  · have h₁ := h.baseEnsured hbase
    obtain ⟨annotMap, -, hadd⟩ := h₁.merged (hbase.find_of_some hcurrent) hfind hmerge
    have hroot₁ := h.rooted .vertex current (List.mem_of_find?_eq_some hcurrent)
    refine ⟨h₁.added hadd hnone (hroot₁.append _), Or.inr ?_⟩
    rw [idOf_added hadd hnone, Option.getD_some] at hid
    unfold targetPath
    rw [if_neg hroot, idOf_added hadd hnone, hid]

theorem FrontInv.removeVertexLabel {currentLabelId : Nat} {labelToRemove : String} {path : Ltree}
    (h : FrontInv archived db)
    (hr : (resolveReducedTargetLabel s currentLabelId labelToRemove path).Runs db labelId db') :
    FrontInv archived db' ∧ (labelToRemove ∉ path ∨
      db'.idOf .vertex (reducedPath path labelToRemove) = some labelId) := by
  rcases resolveReducedTargetLabel_inv hr with ⟨rfl, hfound⟩ | ⟨-, hnone, rfl, hadd⟩
  · exact ⟨h, hfound⟩
  · exact ⟨h.added hadd hnone, Or.inr (idOf_added hadd hnone)⟩

theorem PathInv.setEdgeLabel {currentLabelId : Nat} {newLabel : String} {current : LabelRow}
    (h : PathInv archived db) (hmem : current ∈ db.labels .edge)
    (hr : (resolveOrCreateTargetEdgeLabel s currentLabelId newLabel current.ltree).Runs db labelId db') :
    PathInv archived db' ∧ (current.ltree ≠ [catalogLtreeRootLabel] ∧ newLabel ∈ current.ltree ∨
      db'.idOf .edge (targetPath current.ltree newLabel) = some labelId) := by
  obtain ⟨db₁, hbase, hrest⟩ := resolveOrCreateTargetEdgeLabel_inv hr
  have h₁ : PathInv archived db₁ := by
    rcases hbase with rfl | ⟨hnone, hadd⟩
    · exact h
    · exact h.added hadd hnone (rooted_cons _)
  rcases hrest with ⟨rfl, hfound⟩ | ⟨hroot, hnew, hnone, rfl, annotMap, hadd⟩
  · exact ⟨h₁, hfound⟩
  · refine ⟨h₁.added hadd hnone ((h.rooted .edge current hmem).append _), Or.inr ?_⟩
    unfold targetPath
    rw [if_neg hroot]
    exact idOf_added hadd hnone

theorem FrontInv.removeEdgeLabel {currentLabelId : Nat} {labelToRemove : String} {path : Ltree}
    (h : FrontInv archived db)
    (hr : (resolveTargetEdgeLabelForRemoval s currentLabelId labelToRemove path).Runs db labelId db') :
    FrontInv archived db' ∧ (labelToRemove ∉ path ∨
      db'.idOf .edge (path.filter (· ≠ labelToRemove)) = some labelId) := by
  rcases resolveTargetEdgeLabelForRemoval_inv hr with ⟨rfl, hfound⟩ | ⟨-, -, hnone, rfl, annotMap, hadd⟩
  · exact ⟨h, hfound⟩
  · exact ⟨h.added hadd hnone, Or.inr (idOf_added hadd hnone)⟩

/-- **A call of the older DDL** that keeps the paths well formed. -/
theorem PathInv.run {o : SchemaOp} (h : PathInv archived db) (ho : (LabelOp.schema o).changesPaths = true)
    (hc : LabelDb.KeepsPaths ⟨db, archived⟩ (.schema o)) (hr : (o.run s).Runs db u db') :
    PathInv archived db' := by
  cases o with
  | createVlabel label annotations =>
    obtain ⟨id, db₁, hcreate, h₁⟩ := Prog.runs_bind_iff.mp hr
    obtain ⟨-, rfl⟩ := Prog.runs_ret_iff.mp h₁
    exact h.createVlabel hc hcreate
  | mergeVlabels parentId childId =>
    obtain ⟨id, db₁, hmerge, h₁⟩ := Prog.runs_bind_iff.mp hr
    obtain ⟨-, rfl⟩ := Prog.runs_ret_iff.mp h₁
    obtain ⟨parent, child, hparent, hchild, -, hadd⟩ := mergeVlabels_inv hmerge
    exact h.added hadd (hc parent child hparent hchild) (rooted_cons _)
  | createElabel label annotations =>
    obtain ⟨id, db₁, hcreate, h₁⟩ := Prog.runs_bind_iff.mp hr
    obtain ⟨-, rfl⟩ := Prog.runs_ret_iff.mp h₁
    obtain ⟨levels, hlevels, -, hadd⟩ := createElabel_inv hcreate
    exact h.added hadd (hc levels hlevels) (rooted_cons _)
  | mergeElabels currentLabelId baseLabelId =>
    obtain ⟨id, db₁, hmerge, h₁⟩ := Prog.runs_bind_iff.mp hr
    obtain ⟨-, rfl⟩ := Prog.runs_ret_iff.mp h₁
    obtain ⟨⟨current, hcurrent⟩, base, hbase, -, hadd⟩ := mergeElabels_inv hmerge
    refine h.added hadd (hc current base hcurrent hbase) (Rooted.append ?_ _)
    exact h.rooted .edge base (List.mem_of_find?_eq_some hbase)
  | setVertexLabel currentLabelId newLabel =>
    obtain ⟨level, current, id, rfl, hcurrent, hresolve⟩ := resolveFrom_inv hr
    exact (h.setVertexLabel hcurrent hresolve).1
  | removeVertexLabel currentLabelId labelToRemove =>
    obtain ⟨level, current, id, rfl, hcurrent, hresolve⟩ := resolveFrom_inv hr
    rcases resolveReducedTargetLabel_inv hresolve with ⟨rfl, -⟩ | ⟨hmem, hnone, -, hadd⟩
    · exact h
    · exact h.added hadd hnone (hc current hcurrent hmem hnone)
  | setEdgeLabel currentLabelId newLabel =>
    obtain ⟨level, current, id, rfl, hcurrent, hresolve⟩ := resolveFrom_inv hr
    exact (h.setEdgeLabel (List.mem_of_find?_eq_some hcurrent) hresolve).1
  | removeEdgeLabel currentLabelId labelToRemove =>
    have hfrom : (resolveFrom .edge currentLabelId (.edgeLabelIdNotFound currentLabelId) [labelToRemove]
      (resolveTargetEdgeLabelForRemoval s currentLabelId)).Runs db u db' := hr
    obtain ⟨level, current, id, hlabel, hcurrent, hresolve⟩ := resolveFrom_inv hfrom
    obtain rfl := List.head_eq_of_cons_eq hlabel
    rcases resolveTargetEdgeLabelForRemoval_inv hresolve with
      ⟨rfl, -⟩ | ⟨hmem, -, hnone, -, annotMap, hadd⟩
    · exact h
    · exact h.added hadd hnone (hc current hcurrent hmem hnone)
  | addAnnotationLabel structLabel newAnnot => cases ho
  | dropAnnotationLabel structLabel dropAnnot => cases ho

/-! ## Drops and renamings -/

section Rewrite

variable {hit leaf : Ltree → Prop} [DecidablePred hit] {f : Ltree → Ltree}
  {archived' : LabelKind → List Nat}

/-- **Rows written anew** keep lookups right where their paths stay apart. -/
theorem FrontInv.rewritten (h : FrontInv archived db)
    (hlabels : db'.labels = Function.update db.labels kind (rewriteRows hit f (db.labels kind)))
    (hseq : db'.labelIdSeq = db.labelIdSeq) (hok : KeyedRows.Apart (db.paths kind) hit f leaf)
    (hother : ∀ k, k ≠ kind → archived' k = archived k)
    (harch : ∀ row ∈ db.labels kind,
      row.id ∈ archived' kind ↔ row.id ∈ archived kind ∨ hit row.ltree ∧ leaf row.ltree)
    (hbelow : ∀ id ∈ archived' kind, id < db.labelIdSeq kind) : FrontInv archived' db' := by
  have hkind : db'.labels kind = rewriteRows hit f (db.labels kind) := by
    rw [hlabels, Function.update_self]
  have hrest {k : LabelKind} (hk : k ≠ kind) : db'.labels k = db.labels k := by
    rw [hlabels, Function.update_of_ne hk]
  refine ⟨fun k => ?_, fun k => ?_, fun k => ?_⟩ <;> by_cases hk : k = kind
  · subst hk
    exact (h.ids k).rewritten hkind (by rw [hseq])
  · exact (h.ids k).same (hrest hk) (by rw [hseq])
  · subst hk
    unfold AnnotDb.paths
    rw [hkind, map_rewriteRows]
    refine (h.fronted k).rewrite hok fun p hp => ?_
    obtain ⟨row, hrow, rfl⟩ := mem_paths.mp hp
    exact harch row hrow
  · unfold AnnotDb.paths
    rw [hrest hk, hother k hk]
    exact h.fronted k
  · subst hk
    rw [hseq]
    exact hbelow
  · rw [hseq, hother k hk]
    exact h.below k

theorem PathInv.rewritten (h : PathInv archived db) (hfront : FrontInv archived' db')
    (hlabels : db'.labels = Function.update db.labels kind (rewriteRows hit f (db.labels kind)))
    (hroot : ∀ row ∈ db.labels kind, hit row.ltree → Rooted (f row.ltree)) : PathInv archived' db' := by
  refine ⟨hfront, fun k row hrow => ?_⟩
  by_cases hk : k = kind
  · subst hk
    rw [hlabels, Function.update_self] at hrow
    obtain ⟨r, hr, rfl⟩ := mem_rewriteRows.mp hrow
    dsimp only
    split_ifs with hhit
    · exact hroot r hr hhit
    · exact h.rooted k r hr
  · rw [hlabels, Function.update_of_ne hk] at hrow
    exact h.rooted k row hrow

end Rewrite

/-- **A drop.** -/
theorem PathInv.dropLabel {db : LabelDb} {label : String} (h : PathInv db.archived db.annot)
    (hc : db.Drops kind label) :
    PathInv (dropLabel kind label db).archived (dropLabel kind label db).annot := by
  have hids := h.front.ids kind
  have harch : (NeoPostGraph.dropLabel kind label db).archived kind = db.archived kind ++
      ((db.annot.labels kind).filter fun row =>
        label ∈ tokens row.ltree ∧ DroppedAsLeaf label row.ltree).map LabelRow.id :=
    Function.update_self ..
  refine h.rewritten (h.front.rewritten rfl rfl hc.apart (fun k hk => Function.update_of_ne hk ..)
    (fun row hrow => ?_) ?_) rfl hc.rooted
  · rw [harch, List.mem_append, List.mem_map]
    refine or_congr_right ⟨fun ⟨r, hr, he⟩ => ?_, fun hleaf => ⟨row, ?_, rfl⟩⟩
    · obtain ⟨hmem, hleaf⟩ := List.mem_filter.mp hr
      obtain rfl := hids.distinct r hmem row hrow he
      simpa using hleaf
    · exact List.mem_filter.mpr ⟨hrow, by simpa using hleaf⟩
  · rw [harch]
    intro id hid
    rcases List.mem_append.mp hid with hold | hnew
    · exact h.front.below kind id hold
    · obtain ⟨r, hr, rfl⟩ := List.mem_map.mp hnew
      exact hids.below r (List.mem_filter.mp hr).1

/-- The root stays in front when another label is renamed. -/
theorem Rooted.renamedPath {old new : String} (h : Rooted ltree) (hold : old ≠ catalogLtreeRootLabel) :
    Rooted (renamedPath old new ltree) := by
  cases ltree with
  | nil => cases h
  | cons level rest =>
    obtain rfl := Option.some.inj h
    unfold NeoPostGraph.renamedPath tokens Rooted
    rw [List.take_succ_cons, List.map_cons, if_neg (Ne.symm hold)]
    rfl

/-- **A renaming**, of labels of one kind. -/
theorem PathInv.renamedLabels {old new : String} (h : PathInv archived db)
    (hold : old ≠ catalogLtreeRootLabel)
    (hlabels : db'.labels = Function.update db.labels kind
      (rewriteRows (old ∈ tokens ·) (renamedPath old new) (db.labels kind)))
    (hseq : db'.labelIdSeq = db.labelIdSeq)
    (hok : KeyedRows.Apart (db.paths kind) (old ∈ tokens ·) (renamedPath old new) fun _ => False) :
    PathInv archived db' :=
  h.rewritten (h.front.rewritten hlabels hseq hok (fun _ _ => rfl) (by simp) (h.front.below kind)) hlabels
    fun row hrow _ => (h.rooted kind row hrow).renamedPath hold

/-- A renaming that fails leaves the labels as they were. -/
theorem PathInv.renamed {db : LabelDb} {rename : AnnotDb → Except RenameErr AnnotDb}
    (h : PathInv db.archived db.annot)
    (hok : ∀ annot', rename db.annot = .ok annot' → PathInv db.archived annot') :
    PathInv (db.renamed rename).archived (db.renamed rename).annot := by
  unfold LabelDb.renamed
  split
  · next annot' hrename => exact hok annot' hrename
  · exact h

/-! ## Histories -/

/-- **A call that keeps the paths well formed.** -/
theorem PathInv.perform {db : LabelDb} (h : PathInv db.archived db.annot) (s : Session) {o : LabelOp}
    (ho : o.changesPaths = true) (hc : db.KeepsPaths o) :
    PathInv (o.perform s db).archived (o.perform s db).annot := by
  cases o with
  | schema o =>
    have hseq (kind : LabelKind) :=
      ((labelIdSeq_stepsKeep s kind (db.annot.labelIdSeq kind)).run o).exec (Nat.le_refl _)
    unfold LabelOp.perform SchemaOp.perform
    dsimp only
    cases hexec : (o.run s).exec db.annot with
    | mk res annot' =>
      rw [hexec] at hseq
      cases res with
      | ok u => exact h.run ho hc (hexec : (o.run s).Runs db.annot u annot')
      | error e => exact h.same rfl hseq
  | dropVlabel label => exact h.dropLabel hc
  | dropElabel label => exact h.dropLabel hc
  | renameVlabel oldLabel newLabel =>
    refine h.renamed fun annot' hrename => ?_
    rcases renameVlabel_inv hrename with ⟨-, rfl⟩ | ⟨old, new, rfl, rfl, hne, hold, -, hnew, -, rfl⟩
    · exact h
    · exact h.renamedLabels hold rfl rfl (hc hne hnew)
  | renameElabel oldLabel newLabel =>
    refine h.renamed fun annot' hrename => ?_
    rcases renameElabel_inv hrename with ⟨-, rfl⟩ | ⟨old, new, rfl, rfl, hne, hold, -, -, hnew, rfl⟩
    · exact h
    · exact h.renamedLabels hold rfl rfl (hc hne hnew)

theorem pathInv_created (L : LtreeModule) (xacts : XactState) (s : Session) :
    PathInv (LabelDb.created L xacts s).archived (LabelDb.created L xacts s).annot := by
  have hpaths (kind : LabelKind) :
      (AnnotDb.created L xacts s).paths kind = [(1, [catalogLtreeRootLabel])] := by
    unfold AnnotDb.paths
    rw [labels_created]
    rfl
  refine ⟨⟨rowIds_created L xacts s, fun kind => ?_, fun kind id hid => absurd hid List.not_mem_nil⟩,
    fun kind row hrow => ?_⟩
  · have hfronted : KeyedRows.Fronted [(1, [catalogLtreeRootLabel])] fun id : Nat => id ∈ ([] : List Nat) :=
      ⟨by simp [KeyedRows.lookup], by simp⟩
    exact (hpaths kind).symm ▸ hfronted
  · replace hrow : row ∈ (AnnotDb.created L xacts s).labels kind := hrow
    rw [labels_created] at hrow
    obtain rfl := List.mem_singleton.mp hrow
    exact rooted_cons []

theorem PathRun.inv {db : LabelDb} (h : PathRun LabelDb.KeepsPaths db) : PathInv db.archived db.annot := by
  induction h with
  | created L xacts s => exact pathInv_created L xacts s
  | call _ s o ho hc ih => exact ih.perform s ho hc

/-- The label found first is what a resolution returns. -/
theorem FrontInv.returns {db : LabelDb} {resolve : AnnotOp Nat}
    (h : ∀ id annot', resolve.Runs db.annot id annot' →
      FrontInv db.archived annot' ∧ annot'.idOf kind ltree = some id) : db.Returns kind resolve ltree :=
  fun id annot' hr => (h id annot' hr).1.found (h id annot' hr).2

/-- **In a run of calls that keep the paths well formed, they are so in every state.** -/
theorem wellFormedPaths_of_keepsPaths {db : LabelDb} (h : PathRun LabelDb.KeepsPaths db) :
    db.WellFormedPaths := by
  have hinv := h.inv
  refine ⟨hinv.rooted, fun kind row hrow row' hrow' hlive hlive' he => ?_, ?_, ?_, ?_, ?_⟩
  · have hpair := (hinv.front.fronted kind).unique _ (mem_paths.mpr ⟨row, hrow, rfl⟩) _
      (mem_paths.mpr ⟨row', hrow', rfl⟩) hlive hlive' he
    exact (hinv.front.ids kind).distinct row hrow row' hrow' (congrArg Prod.fst hpair)
  · intro s current hmem newLabel hnew
    refine FrontInv.returns fun id annot' hr => ?_
    obtain ⟨hinv', hsame | hfound⟩ := hinv.setVertexLabel ((hinv.front.ids .vertex).find hmem) hr
    · exact absurd hsame.2 (hnew hsame.1)
    · exact ⟨hinv'.front, hfound⟩
  · intro s current hmem label hlabel
    refine FrontInv.returns fun id annot' hr => ?_
    obtain ⟨hfront, hnot | hfound⟩ := hinv.front.removeVertexLabel hr
    · exact absurd hlabel hnot
    · exact ⟨hfront, hfound⟩
  · intro s current hmem newLabel hnew
    refine FrontInv.returns fun id annot' hr => ?_
    obtain ⟨hinv', hsame | hfound⟩ := hinv.setEdgeLabel hmem hr
    · exact absurd hsame.2 (hnew hsame.1)
    · exact ⟨hinv'.front, hfound⟩
  · intro s current hmem label hlabel
    refine FrontInv.returns fun id annot' hr => ?_
    obtain ⟨hfront, hnot | hfound⟩ := hinv.front.removeEdgeLabel hr
    · exact absurd hlabel hnot
    · exact ⟨hfront, hfound⟩

/-- Two labels, and the label merged from them. -/
def exampleTwoAndMerged : LabelDb :=
  (LabelOp.schema (.mergeVlabels 2 3)).perform ⟨5, 2⟩ ((LabelOp.schema (.createVlabel ["B"] none)).perform
    ⟨5, 1⟩ ((LabelOp.schema (.createVlabel ["A"] none)).perform ⟨5, 0⟩
      (LabelDb.created asciiLtree ⟨6, fun _ => .committed⟩ ⟨5, 0⟩)))

/-- The second label is the last level of both paths that have it: both rows are archived. -/
theorem wellFormedPaths_of_keepsPaths_example :
    ((LabelOp.dropVlabel "B").perform ⟨5, 3⟩ exampleTwoAndMerged).WellFormedPaths := by
  refine wellFormedPaths_of_keepsPaths (.call (.call (.call (.call (.created ..) _ _ rfl ?_) _ _ rfl ?_)
    _ _ rfl ?_) _ _ rfl ?_)
  · intro level hlevel
    obtain rfl : ["A"] = level := Except.ok.inj hlevel
    decide
  · intro level hlevel
    obtain rfl : ["B"] = level := Except.ok.inj hlevel
    decide
  · intro parent child hparent hchild
    obtain rfl : ⟨2, ["_", "A"], none⟩ = parent := Option.some.inj hparent
    obtain rfl : ⟨3, ["_", "B"], none⟩ = child := Option.some.inj hchild
    decide
  · exact ⟨by decide, by decide, by decide⟩

/-- The first label goes out of the merged path, and two primary rows have what is left. -/
theorem wellFormedPaths_fails :
    ¬ ∀ db, PathRun (fun _ _ => True) db → db.WellFormedPaths := by
  intro h
  have hunique := (h ((LabelOp.dropVlabel "A").perform ⟨5, 3⟩ exampleTwoAndMerged)
    (.call (.call (.call (.call (.created ..) _ _ rfl trivial) _ _ rfl trivial) _ _ rfl trivial) _ _ rfl
      trivial)).unique .vertex ⟨3, ["_", "B"], none⟩ (by decide) ⟨4, ["_", "B"], none⟩ (by decide)
    (by decide) (by decide) rfl
  revert hunique
  decide

end NeoPostGraph
