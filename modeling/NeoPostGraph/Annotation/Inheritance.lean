import NeoPostGraph.Annotation.Cascade

/-!
# Annotations of a label and of its bases

A label of the path `_.A.B` is to have every annotation of `_.A` and of `_.B`. Three routines make
label rows and each starts them its own way: `create_vlabel` with the annotations passed,
`merge_vlabels` with those of both labels, and the label of a reduced path with none. Later additions
go to the labels *under* a path, so that an annotation of `B` never comes to `_.A.B`, and a drop passes
over the labels that have another base with the annotation.

* `AnnotDb.Inherits`: every vertex label has the annotations of all its bases.
* `AnnotDb.Careful`: when a call keeps that, in terms of the labels before it.

Results:
* `inherits_append_iff`: when a new row keeps the inheritance.
* `inherits_of_careful`: the inheritance holds in every state of a run of careful calls.
-/

namespace NeoPostGraph

variable {db db' db₁ base : AnnotDb} {s : Session} {kind : LabelKind} {u : Unit}
  {rows : List LabelRow} {row : LabelRow}

/-! ## The inheritance -/

/-- **Every vertex label has the annotations of the bases of its levels**, whatever their position. -/
def AnnotDb.Inherits (db : AnnotDb) : Prop :=
  ∀ row ∈ db.labels .vertex, ∀ path, row.ltree = catalogLtreeRootLabel :: path →
    ∀ (i : Nat) (hi : i < path.length), ∀ base ∈ db.labels .vertex,
      base.ltree = [catalogLtreeRootLabel, path[i]] → ∀ annot ∈ base.annots, annot ∈ row.annots

/-- The same of the rows, with the levels of a path that has lost its root. -/
def RowsInherit (rows : List LabelRow) : Prop :=
  ∀ row ∈ rows, ∀ level ∈ stripRoot row.ltree, ∀ base ∈ rows,
    base.ltree = [catalogLtreeRootLabel, level] → ∀ annot ∈ base.annots, annot ∈ row.annots

/-- A label of this path can have these annotations: the labels it is a base of have them, and it has
those of its own bases. -/
structure Admits (rows : List LabelRow) (ltree : Ltree) (annots : List String) : Prop where
  asBase : ∀ row ∈ rows, ∀ level ∈ stripRoot row.ltree, ltree = [catalogLtreeRootLabel, level] →
    ∀ annot ∈ annots, annot ∈ row.annots
  ofBases : ∀ level ∈ stripRoot ltree, ∀ base ∈ rows, base.ltree = [catalogLtreeRootLabel, level] →
    ∀ annot ∈ base.annots, annot ∈ annots

/-- Labels that have slots of their own and read there what their rows say. -/
structure AnnotDb.OwnSchemas (db : AnnotDb) (tups : List LabelRow) : Prop where
  slots : OwnSlots tups
  same : ∀ r ∈ tups, ∀ annot, annot ∈ annotsOf (db.schemaInForce r) ↔ annot ∈ r.annots

/-- **When a call keeps the inheritance**, on the labels before it.

* The labels a new label is a base of have its annotations, and it has those of the bases there are.
* A merge that only gives a base label has nothing its labels lack; a label of a reduced path has bases
  without annotations.
* The labels of every base that gets an annotation are under the path, or have it.
* A label that loses an annotation has no base outside the path that owns it.

Where annotations change, the labels under the path read what their rows say. -/
def AnnotDb.Careful (db : AnnotDb) : SchemaOp → Prop
  | .createVlabel [labelStr] annotations => ∀ level, db.ltree.ltreeIn [labelStr] = .ok level →
    Admits (db.labels .vertex) (catalogLtreeRootLabel :: level) (annotsOf annotations)
  | .mergeVlabels parentId childId => ∀ parent child,
    (db.labels .vertex).find? (fun row => row.id = parentId) = some parent →
    (db.labels .vertex).find? (fun row => row.id = childId ∧ row.id ≠ parentId) = some child →
    ∀ row ∈ db.labels .vertex, ∀ level ∈ stripRoot row.ltree,
      stripRoot parent.ltree ++ stripRoot child.ltree = [level] →
      ∀ annot ∈ annotsOf (mergeAndDedupeTextArrays parent.annotationMap child.annotationMap),
        annot ∈ row.annots
  | .removeVertexLabel currentLabelId [labelToRemove] => ∀ current,
    (db.labels .vertex).find? (fun row => row.id = currentLabelId) = some current →
    labelToRemove ∈ current.ltree →
    (∀ row ∈ db.labels .vertex, row.ltree ≠ reducedPath current.ltree labelToRemove) →
    ∀ level ∈ stripRoot (reducedPath current.ltree labelToRemove), ∀ base ∈ db.labels .vertex,
      base.ltree = [catalogLtreeRootLabel, level] → base.annots = []
  | .addAnnotationLabel structLabel [newAnnot] => ∀ found,
    (db.labels .vertex).find? (fun row => structuralText row.ltree = structLabel) = some found →
    db.OwnSchemas (db.under found.ltree) ∧
      ∀ row ∈ db.labels .vertex, ∀ level ∈ stripRoot row.ltree, ∀ base ∈ db.under found.ltree,
        base.ltree = [catalogLtreeRootLabel, level] →
        row ∈ db.under found.ltree ∨ newAnnot ∈ row.annots
  | .dropAnnotationLabel structLabel dropAnnot => ∀ found,
    (db.labels .vertex).find? (fun row => structuralText row.ltree = structLabel) = some found →
    db.OwnSchemas (db.under found.ltree) ∧
      ∀ row ∈ db.under found.ltree, (found.ltree = row.ltree ∨
          npOtherParentOwnsAnnotation (db.labels .vertex) row.ltree structLabel dropAnnot = false) →
        ∀ level ∈ stripRoot row.ltree, ∀ base ∈ db.labels .vertex,
          base.ltree = [catalogLtreeRootLabel, level] → dropAnnot ∈ base.annots →
          base ∈ db.under found.ltree
  | _ => True

/-- The states of a graph whose labels are changed by careful calls. -/
inductive CarefulSchemaRun : AnnotDb → Prop where
  | created (ltree : LtreeModule) (xacts : XactState) (s : Session) :
      CarefulSchemaRun (AnnotDb.created ltree xacts s)
  | call {db : AnnotDb} (h : CarefulSchemaRun db) (s : Session) (o : SchemaOp) (hc : db.Careful o) :
      CarefulSchemaRun (o.perform s db)

theorem AnnotDb.OwnSchemas.mem_inForce {tups : List LabelRow} (h : db.OwnSchemas tups)
    (hrow : row ∈ tups) (annot : String) :
    some annot ∈ (db.schemaInForce row).getD [] ↔ annot ∈ row.annots :=
  mem_annotsOf.symm.trans (h.same row hrow annot)

theorem RowsInherit.inherits (h : RowsInherit (db.labels .vertex)) : db.Inherits := by
  intro row hrow path hpath i hi base hbase hltree
  refine h row hrow path[i] ?_ base hbase hltree
  rw [hpath]
  exact List.getElem_mem hi

/-- **When a new row keeps the inheritance.** -/
theorem inherits_append_iff :
    RowsInherit (rows ++ [row]) ↔ RowsInherit rows ∧ Admits rows row.ltree row.annots := by
  constructor
  · intro h
    refine ⟨fun r hr level hlevel base hbase => ?_, fun r hr level hlevel hltree => ?_,
      fun level hlevel base hbase => ?_⟩
    · exact h r (List.mem_append_left _ hr) level hlevel base (List.mem_append_left _ hbase)
    · exact h r (List.mem_append_left _ hr) level hlevel row (by simp) hltree
    · exact h row (by simp) level hlevel base (List.mem_append_left _ hbase)
  · rintro ⟨h, hadmits⟩ r hr level hlevel base hbase hltree
    rcases List.mem_append.mp hr with hold | hnew
    · rcases List.mem_append.mp hbase with hb | hb
      · exact h r hold level hlevel base hb hltree
      · obtain rfl := List.mem_singleton.mp hb
        exact hadmits.asBase r hold level hlevel hltree
    · obtain rfl := List.mem_singleton.mp hnew
      rcases List.mem_append.mp hbase with hb | hb
      · exact hadmits.ofBases level hlevel base hb hltree
      · obtain rfl := List.mem_singleton.mp hb
        exact fun annot hannot => hannot

/-- A label without annotations asks nothing of the labels it is a base of. -/
theorem admits_nil {ltree : Ltree} (h : ∀ level ∈ stripRoot ltree, ∀ base ∈ rows,
    base.ltree = [catalogLtreeRootLabel, level] → base.annots = []) : Admits rows ltree [] where
  asBase _ _ _ _ _ annot hannot := absurd hannot List.not_mem_nil
  ofBases level hlevel base hbase hltree annot hannot := by
    rw [h level hlevel base hbase hltree] at hannot
    exact hannot

section Cascade

/-! ## Adding an annotation -/

variable {tups : List LabelRow} {target : Ltree} {structLabel : DottedText}
  {newAnnot dropAnnot annot : String}

/-- What an added annotation leaves of a row: the labels of the cascade have it, and no label has lost
one. -/
theorem annots_of_add (hok : ∀ r ∈ tups, db.addAct newAnnot r ≠ .fail) (hown : db.OwnSchemas tups)
    (hrow : row ∈ tups) :
    annot ∈ ((db.addAct newAnnot row).apply row).annots ↔ annot ∈ row.annots ∨ annot = newAnnot := by
  have hact := hok row hrow
  have hforce (a : String) := hown.mem_inForce hrow a
  unfold AnnotDb.addAct at hact ⊢
  dsimp only at hact ⊢
  by_cases hhas : some newAnnot ∈ (db.schemaInForce row).getD []
  · have hhas' := (hforce newAnnot).mp hhas
    rw [if_pos hhas]
    constructor
    · exact Or.inl
    · rintro (h | rfl)
      · exact h
      · exact hhas'
  · rw [if_neg hhas] at hact ⊢
    split_ifs at hact ⊢ with hfail
    · exact absurd rfl hact
    · rw [mem_annots]
      simp only [RowAct.apply, Option.getD_some, List.mem_append, List.mem_singleton,
        Option.some.injEq, hforce]

/-- **Adding an annotation keeps the inheritance** if the labels of every base of the cascade are in it
too, or have the annotation. -/
theorem RowsInherit.add (h : RowsInherit rows) (hok : ∀ r ∈ tups, db.addAct newAnnot r ≠ .fail)
    (hown : db.OwnSchemas tups)
    (hreach : ∀ row ∈ rows, ∀ level ∈ stripRoot row.ltree, ∀ base ∈ tups,
      base.ltree = [catalogLtreeRootLabel, level] → row ∈ tups ∨ newAnnot ∈ row.annots) :
    RowsInherit (loopRows (db.addAct newAnnot) tups rows) := by
  have hadded {r : LabelRow} {a : String} :
      a ∈ (if r ∈ tups then (db.addAct newAnnot r).apply r else r).annots ↔
        a ∈ r.annots ∨ r ∈ tups ∧ a = newAnnot := by
    split_ifs with hr
    · simp only [annots_of_add hok hown hr, hr, true_and]
    · simp [hr]
  intro row' hrow' level hlevel base' hbase' hltree annot hannot
  obtain ⟨row, hrow, rfl⟩ := List.mem_map.mp hrow'
  obtain ⟨base, hbase, rfl⟩ := List.mem_map.mp hbase'
  rw [loopRow_ltree] at hlevel hltree
  rcases hadded.mp hannot with hold | ⟨hin, rfl⟩
  · exact hadded.mpr (Or.inl (h row hrow level hlevel base hbase hltree annot hold))
  · rcases hreach row hrow level hlevel base hin hltree with hrowin | hhas
    · exact hadded.mpr (Or.inr ⟨hrowin, rfl⟩)
    · exact hadded.mpr (Or.inl hhas)

/-! ## Dropping an annotation -/

/-- A label of one level has no other parent. -/
theorem npOtherParentOwnsAnnotation_base {level : String}
    (h : row.ltree = [catalogLtreeRootLabel, level]) :
    npOtherParentOwnsAnnotation rows row.ltree structLabel annot = false := by
  rw [h]
  rfl

/-- What a dropped annotation leaves of a row: it stays where another parent owns it. -/
theorem annots_of_drop (hok : ∀ r ∈ tups, db.dropAct rows target structLabel dropAnnot r ≠ .fail)
    (hown : db.OwnSchemas tups) (hrow : row ∈ tups) :
    annot ∈ ((db.dropAct rows target structLabel dropAnnot row).apply row).annots ↔
      annot ∈ row.annots ∧ (annot ≠ dropAnnot ∨ target ≠ row.ltree ∧
        npOtherParentOwnsAnnotation rows row.ltree structLabel dropAnnot = true) := by
  have hact := hok row hrow
  have hforce (a : String) := hown.mem_inForce hrow a
  unfold AnnotDb.dropAct at hact ⊢
  dsimp only at hact ⊢
  by_cases howned : target ≠ row.ltree ∧
      npOtherParentOwnsAnnotation rows row.ltree structLabel dropAnnot = true
  · rw [if_pos howned]
    simp only [howned, RowAct.apply, ne_eq, not_false_eq_true, and_self, or_true, and_true]
  · rw [if_neg howned] at hact ⊢
    by_cases hhas : some dropAnnot ∈ (db.schemaInForce row).getD []
    · rw [if_pos hhas] at hact ⊢
      split_ifs at hact ⊢ with hfits
      · rw [mem_annots]
        simp only [RowAct.apply, Option.getD_some, List.mem_filter, hforce, decide_eq_true_eq,
          Option.isSome_some, ne_eq, Option.some.injEq, true_and, howned, or_false]
      · exact absurd rfl hact
    · rw [if_neg hhas]
      have hnot : dropAnnot ∉ row.annots := fun h => hhas ((hforce dropAnnot).mpr h)
      simp only [RowAct.apply, howned, or_false]
      constructor
      · intro h
        exact ⟨h, fun he => hnot (he ▸ h)⟩
      · exact And.left

/-- **Dropping an annotation keeps the inheritance** if each label that loses it has all bases that own
it in the cascade. -/
theorem RowsInherit.drop (h : RowsInherit rows)
    (hok : ∀ r ∈ tups, db.dropAct rows target structLabel dropAnnot r ≠ .fail)
    (hown : db.OwnSchemas tups)
    (hreach : ∀ row ∈ tups, (target = row.ltree ∨
        npOtherParentOwnsAnnotation rows row.ltree structLabel dropAnnot = false) →
      ∀ level ∈ stripRoot row.ltree, ∀ base ∈ rows, base.ltree = [catalogLtreeRootLabel, level] →
        dropAnnot ∈ base.annots → base ∈ tups) :
    RowsInherit (loopRows (db.dropAct rows target structLabel dropAnnot) tups rows) := by
  intro row' hrow' level hlevel base' hbase' hltree annot hannot
  obtain ⟨row, hrow, rfl⟩ := List.mem_map.mp hrow'
  obtain ⟨base, hbase, rfl⟩ := List.mem_map.mp hbase'
  rw [loopRow_ltree] at hlevel hltree
  -- a base of the cascade is passed over by nothing
  obtain ⟨hannot₀, hkept⟩ : annot ∈ base.annots ∧ (base ∈ tups → annot ≠ dropAnnot) := by
    split_ifs at hannot with hin
    · obtain ⟨hold, hne | ⟨-, howns⟩⟩ := (annots_of_drop hok hown hin).mp hannot
      · exact ⟨hold, fun _ => hne⟩
      · rw [npOtherParentOwnsAnnotation_base hltree] at howns
        exact absurd howns (by simp)
    · exact ⟨hannot, fun hin' => absurd hin' hin⟩
  have hhad := h row hrow level hlevel base hbase hltree annot hannot₀
  split_ifs with hmem
  · refine (annots_of_drop hok hown hmem).mpr ⟨hhad, ?_⟩
    by_contra hlost
    rw [not_or, not_not] at hlost
    obtain ⟨rfl, hlost⟩ := hlost
    refine hkept (hreach row hmem ?_ level hlevel base hbase hltree hannot₀) rfl
    by_cases he : target = row.ltree
    · exact Or.inl he
    · exact Or.inr (by simpa using fun howns => hlost ⟨he, howns⟩)
  · exact hhad

end Cascade

/-! ## The calls -/

/-- The ids of the vertex labels, their paths, and their annotations. -/
structure InheritInv (db : AnnotDb) : Prop where
  ids : RowIds db .vertex
  paths : ∀ row ∈ db.labels .vertex, row.ltree ≠ []
  inherit : RowsInherit (db.labels .vertex)

theorem InheritInv.same (h : InheritInv db) (hlabels : db'.labels .vertex = db.labels .vertex)
    (hseq : db.labelIdSeq .vertex ≤ db'.labelIdSeq .vertex) : InheritInv db' := by
  have hids := h.ids.same hlabels hseq
  obtain ⟨-, hpaths, hinherit⟩ := h
  rw [← hlabels] at hpaths hinherit
  exact ⟨hids, hpaths, hinherit⟩

theorem InheritInv.addedEdge {ltree : Ltree} {annotMap : Option Names} (h : InheritInv db)
    (hadd : RowAdded db db' .edge ltree annotMap) : InheritInv db' :=
  h.same (hadd.other (by simp)) (by rw [hadd.seq, Function.update_of_ne (by simp)])

/-- **A new vertex label** keeps the inheritance where its path admits its annotations. -/
theorem InheritInv.added {ltree : Ltree} {annotMap : Option Names} (h : InheritInv db)
    (hadd : RowAdded db db' .vertex ltree annotMap) (hpath : ltree ≠ [])
    (hadmits : Admits (db.labels .vertex) ltree (annotsOf annotMap)) : InheritInv db' := by
  refine ⟨h.ids.added hadd, ?_, ?_⟩ <;> rw [hadd.rows]
  · intro row hrow
    rcases List.mem_append.mp hrow with hold | hnew
    · exact h.paths row hold
    · obtain rfl := List.mem_singleton.mp hnew
      exact hpath
  · exact inherits_append_iff.mpr ⟨h.inherit, hadmits⟩

/-- The rows of a catalog after a cascade. -/
theorem InheritInv.looped {act : LabelRow → RowAct} {tups : List LabelRow} (h : InheritInv db)
    (hlabels : db'.labels .vertex = loopRows act tups (db.labels .vertex))
    (hseq : db.labelIdSeq .vertex ≤ db'.labelIdSeq .vertex)
    (hinherit : RowsInherit (loopRows act tups (db.labels .vertex))) : InheritInv db' := by
  refine ⟨h.ids.mapped hlabels hseq (loopRow_id act tups), ?_, ?_⟩ <;> rw [hlabels]
  · intro row hrow
    obtain ⟨r, hr, rfl⟩ := List.mem_map.mp hrow
    rw [loopRow_ltree]
    exact h.paths r hr
  · exact hinherit

/-- The names are registered, and the vertex labels are as they were. -/
theorem InheritInv.registered {labelStr : String} {annotArray : Option Names} (h : InheritInv db)
    (hreg : (registerAndValidateLabels labelStr annotArray).Runs db u db') : InheritInv db' := by
  have honly := registerAndValidateLabels_onlyRegisters hreg
  exact h.same (by rw [honly.labels]) (by rw [honly.seq])

theorem InheritInv.createVlabel {label : DottedText} {annotations : Option Names} {labelId : Nat}
    (h : InheritInv db) (hc : db.Careful (.createVlabel label annotations))
    (hr : (createVlabel s label annotations).Runs db labelId db') : InheritInv db' := by
  obtain ⟨labelStr, level, db₁, rfl, hlevel, hreg, -, hadd⟩ := createVlabel_inv hr
  refine (h.registered hreg).added hadd (by simp) ?_
  rw [(registerAndValidateLabels_onlyRegisters hreg).labels]
  exact hc level hlevel

/-- A label merged from two labels has the annotations of both, and so of their bases. -/
theorem InheritInv.mergeVlabels {parentId childId labelId : Nat} (h : InheritInv db)
    (hc : db.Careful (.mergeVlabels parentId childId))
    (hr : (mergeVlabels s parentId childId).Runs db labelId db') : InheritInv db' := by
  obtain ⟨parent, child, hparent, hchild, -, hadd⟩ := mergeVlabels_inv hr
  refine h.added hadd (by simp) ⟨fun row hrow level hlevel hltree => ?_,
    fun level hlevel base hbase hltree annot hannot => ?_⟩
  · exact hc parent child hparent hchild row hrow level hlevel (List.cons.inj hltree).2
  · rw [annotsOf_merge]
    rw [stripRoot_root] at hlevel
    rcases List.mem_append.mp hlevel with hp | hch
    · exact Or.inl (h.inherit parent (List.mem_of_find?_eq_some hparent) level hp base hbase hltree
        annot hannot)
    · exact Or.inr (h.inherit child (List.mem_of_find?_eq_some hchild) level hch base hbase hltree
        annot hannot)

/-- A base label made on the way has no annotations, and there was no base of its level. -/
theorem InheritInv.baseEnsured {newLabel : String} (h : InheritInv db)
    (hbase : BaseEnsured s newLabel db db') : InheritInv db' := by
  cases hbase with
  | found => exact h
  | made hnone hreg hadd =>
    refine (h.registered hreg).added hadd (by simp) (admits_nil fun level hlevel base hmem hltree => ?_)
    rw [(registerAndValidateLabels_onlyRegisters hreg).labels] at hmem
    obtain rfl := List.mem_singleton.mp hlevel
    exact absurd hltree (hnone base hmem)

/-- **Setting a vertex label keeps the inheritance**: the label it makes is a merge with a base, and
never a base. -/
theorem InheritInv.setVertexLabel {currentLabelId labelId : Nat} {newLabel : String}
    {current : LabelRow} (h : InheritInv db)
    (hcurrent : (db.labels .vertex).find? (fun row => row.id = currentLabelId) = some current)
    (hr : (resolveOrCreateTargetLabel s currentLabelId newLabel current.ltree).Runs db labelId db') :
    InheritInv db' := by
  obtain ⟨db₁, hbase, hrest⟩ := resolveOrCreateTargetLabel_inv hr
  have h₁ := h.baseEnsured hbase
  rcases hrest with ⟨rfl, -⟩ | ⟨hroot, hnew, -, -, id, base, hfind, hmerge⟩
  · exact h₁
  · refine h₁.mergeVlabels (fun parent child hparent hchild row hrow level hlevel hltree => ?_) hmerge
    rw [hbase.find_of_some hcurrent] at hparent
    obtain rfl := Option.some.inj hparent
    have hchildltree : child.ltree = [catalogLtreeRootLabel, newLabel] := by
      have hid : child.id = base.id := by
        have hboth := List.find?_some hchild
        rw [decide_eq_true_eq] at hboth
        exact hboth.1
      have hsame := h₁.ids.distinct child (List.mem_of_find?_eq_some hchild) base
        (List.mem_of_find?_eq_some hfind) hid
      rw [hsame]
      simpa using List.find?_some hfind
    -- the current label has a level of its own besides
    have hstrip : stripRoot current.ltree = [] := by
      rw [hchildltree, stripRoot_root] at hltree
      have hlen := congrArg List.length hltree
      simpa using hlen
    have hpath := h.paths current (List.mem_of_find?_eq_some hcurrent)
    unfold stripRoot at hstrip
    split at hstrip
    · next rest heq =>
      rw [heq, hstrip] at hroot
      exact absurd rfl hroot
    · exact absurd hstrip hpath

theorem InheritInv.removeVertexLabel {currentLabelId labelId : Nat} {labelToRemove : String}
    {current : LabelRow} (h : InheritInv db)
    (hc : db.Careful (.removeVertexLabel currentLabelId [labelToRemove]))
    (hcurrent : (db.labels .vertex).find? (fun row => row.id = currentLabelId) = some current)
    (hr : (resolveReducedTargetLabel s currentLabelId labelToRemove current.ltree).Runs db labelId
      db') : InheritInv db' := by
  rcases resolveReducedTargetLabel_inv hr with ⟨rfl, -⟩ | ⟨hmem, hnone, -, hadd⟩
  · exact h
  · exact h.added hadd (reducedPath_ne_nil _ _) (admits_nil (hc current hcurrent hmem hnone))

/-- **Adding an annotation.** -/
theorem InheritInv.addAnnotationLabel {structLabel newAnnot : DottedText} (h : InheritInv db)
    (hinv : SchemaInv db) (hseq : db.labelIdSeq .vertex ≤ db'.labelIdSeq .vertex)
    (hc : db.Careful (.addAnnotationLabel structLabel newAnnot))
    (hr : (addAnnotationLabel s structLabel newAnnot).Runs db u db') : InheritInv db' := by
  obtain ⟨annot, v, db₁, db₂, rfl, hcascade, hedge, -, hreg⟩ := addAnnotationLabel_rows hr
  have hlabels : db'.labels .vertex = db₁.labels .vertex := by
    have honly := (enforceAndInsertLabelCatalog_onlyRegisters ..).runs hreg (.refl _)
    rw [honly.labels, hedge]
  rcases cascade_rows (fun _ _ _ hforce => npApplyAddAnnotationToTuple_law hforce annot)
      (fun _ _ => ((schemaInv_stepsKeep s).cascadeKeep .vertex).npApplyAddAnnotationToTuple ..) hinv h.ids
      (fun found hfound => (hc found hfound).1.slots) hcascade with rfl | ⟨found, hfound, hrows, hok⟩
  · exact h.same hlabels hseq
  · obtain ⟨hown, hreach⟩ := hc found hfound
    exact h.looped (hlabels.trans hrows) hseq (h.inherit.add hok hown hreach)

/-- **Dropping an annotation.** -/
theorem InheritInv.dropAnnotationLabel {structLabel : DottedText} {dropAnnot : String}
    (h : InheritInv db) (hinv : SchemaInv db)
    (hseq : db.labelIdSeq .vertex ≤ db'.labelIdSeq .vertex)
    (hc : db.Careful (.dropAnnotationLabel structLabel dropAnnot))
    (hr : (dropAnnotationLabel s structLabel dropAnnot).Runs db u db') : InheritInv db' := by
  obtain ⟨v, db₁, hcascade, hlabels, -⟩ := dropAnnotationLabel_rows hr
  rcases cascade_rows (fun target _ _ hforce => npApplyDropAnnotationToTuple_law hforce _ target _ _)
      (fun _ _ => ((schemaInv_stepsKeep s).cascadeKeep .vertex).npApplyDropAnnotationToTuple ..) hinv h.ids
      (fun found hfound => (hc found hfound).1.slots) hcascade with rfl | ⟨found, hfound, hrows, hok⟩
  · exact h.same hlabels hseq
  · obtain ⟨hown, hreach⟩ := hc found hfound
    exact h.looped (hlabels.trans hrows) hseq (h.inherit.drop hok hown hreach)

/-- **A careful call keeps the inheritance.** -/
theorem InheritInv.run {o : SchemaOp} (h : InheritInv db) (hinv : SchemaInv db) (hc : db.Careful o)
    (hr : (o.run s).Runs db u db') : InheritInv db' := by
  have hseq : db.labelIdSeq .vertex ≤ db'.labelIdSeq .vertex :=
    ((labelIdSeq_stepsKeep s .vertex _).run o).runs hr (Nat.le_refl _)
  cases o with
  | createVlabel label annotations =>
    obtain ⟨id, db₁, hcreate, h₁⟩ := Prog.runs_bind_iff.mp hr
    obtain ⟨-, rfl⟩ := Prog.runs_ret_iff.mp h₁
    exact h.createVlabel hc hcreate
  | mergeVlabels parentId childId =>
    obtain ⟨id, db₁, hmerge, h₁⟩ := Prog.runs_bind_iff.mp hr
    obtain ⟨-, rfl⟩ := Prog.runs_ret_iff.mp h₁
    exact h.mergeVlabels hc hmerge
  | createElabel label annotations =>
    obtain ⟨id, db₁, hcreate, h₁⟩ := Prog.runs_bind_iff.mp hr
    obtain ⟨-, rfl⟩ := Prog.runs_ret_iff.mp h₁
    obtain ⟨levels, -, -, hadd⟩ := createElabel_inv hcreate
    exact h.addedEdge hadd
  | mergeElabels currentLabelId baseLabelId =>
    obtain ⟨id, db₁, hmerge, h₁⟩ := Prog.runs_bind_iff.mp hr
    obtain ⟨-, rfl⟩ := Prog.runs_ret_iff.mp h₁
    obtain ⟨-, base, -, -, hadd⟩ := mergeElabels_inv hmerge
    exact h.addedEdge hadd
  | setVertexLabel currentLabelId newLabel =>
    obtain ⟨level, current, id, rfl, hcurrent, hresolve⟩ := resolveFrom_inv hr
    exact h.setVertexLabel hcurrent hresolve
  | removeVertexLabel currentLabelId labelToRemove =>
    obtain ⟨level, current, id, rfl, hcurrent, hresolve⟩ := resolveFrom_inv hr
    exact h.removeVertexLabel hc hcurrent hresolve
  | setEdgeLabel currentLabelId newLabel =>
    obtain ⟨level, current, id, rfl, hcurrent, hresolve⟩ := resolveFrom_inv hr
    obtain ⟨db₁, hbase, hrest⟩ := resolveOrCreateTargetEdgeLabel_inv hresolve
    have h₁ : InheritInv db₁ := by
      rcases hbase with rfl | ⟨-, hadd⟩
      · exact h
      · exact h.addedEdge hadd
    rcases hrest with ⟨rfl, -⟩ | ⟨-, -, -, -, annotMap, hadd⟩
    · exact h₁
    · exact h₁.addedEdge hadd
  | removeEdgeLabel currentLabelId labelToRemove =>
    have hfrom : (resolveFrom .edge currentLabelId (.edgeLabelIdNotFound currentLabelId) [labelToRemove]
      (resolveTargetEdgeLabelForRemoval s currentLabelId)).Runs db u db' := hr
    obtain ⟨level, current, id, -, hcurrent, hresolve⟩ := resolveFrom_inv hfrom
    rcases resolveTargetEdgeLabelForRemoval_inv hresolve with ⟨rfl, -⟩ | ⟨-, -, -, -, annotMap, hadd⟩
    · exact h
    · exact h.addedEdge hadd
  | addAnnotationLabel structLabel newAnnot => exact h.addAnnotationLabel hinv hseq hc hr
  | dropAnnotationLabel structLabel dropAnnot => exact h.dropAnnotationLabel hinv hseq hc hr

/-! ## Histories -/

/-- A graph just created has the root label. -/
theorem inheritInv_created (ltree : LtreeModule) (xacts : XactState) (s : Session) :
    InheritInv (AnnotDb.created ltree xacts s) := by
  have hlabels : (AnnotDb.created ltree xacts s).labels .vertex =
      [⟨1, [catalogLtreeRootLabel], none⟩] := rfl
  have hseq : (AnnotDb.created ltree xacts s).labelIdSeq .vertex = 2 := rfl
  refine ⟨⟨?_, ?_, ?_⟩, ?_, ?_⟩ <;> rw [hlabels]
  · rw [hseq]
    simp
  · simp
  · simp
  · simp
  · intro row hrow level hlevel
    obtain rfl := List.mem_singleton.mp hrow
    exact absurd hlevel List.not_mem_nil

theorem InheritInv.perform (h : InheritInv db) (hinv : SchemaInv db) (s : Session) {o : SchemaOp}
    (hc : db.Careful o) : InheritInv (o.perform s db) := by
  have hseq := ((labelIdSeq_stepsKeep s .vertex (db.labelIdSeq .vertex)).run o).exec (Nat.le_refl _)
  unfold SchemaOp.perform
  cases hexec : (o.run s).exec db with
  | mk res db' =>
    rw [hexec] at hseq
    cases res with
    | ok u => exact h.run hinv hc (hexec : (o.run s).Runs db u db')
    | error e => exact h.same rfl hseq

theorem CarefulSchemaRun.run (h : CarefulSchemaRun db) : SchemaRun db := by
  induction h with
  | created ltree xacts s => exact .created ltree xacts s
  | call _ s o _ ih => exact .call ih s o

theorem CarefulSchemaRun.inv (h : CarefulSchemaRun db) : InheritInv db := by
  induction h with
  | created ltree xacts s => exact inheritInv_created ltree xacts s
  | call hrun s o hc ih => exact ih.perform hrun.run.inv s hc

/-- **In a run of careful calls every vertex label has the annotations of all its bases.** -/
theorem inherits_of_careful (h : CarefulSchemaRun db) : db.Inherits :=
  h.inv.inherit.inherits

/-- Two labels, and the label merged from them. -/
def exampleMerged : AnnotDb :=
  (SchemaOp.mergeVlabels 2 3).perform ⟨5, 2⟩ ((SchemaOp.createVlabel ["B"] none).perform ⟨5, 1⟩
    ((SchemaOp.createVlabel ["A"] (some [some "x"])).perform ⟨5, 0⟩ exampleCreated))

theorem exampleMerged_labels : exampleMerged.labels .vertex =
    [⟨1, ["_"], none⟩, ⟨2, ["_", "A"], some [some "x"]⟩, ⟨3, ["_", "B"], none⟩,
      ⟨4, ["_", "A", "B"], some [some "x"]⟩] := by
  decide

theorem exampleMerged_careful : CarefulSchemaRun exampleMerged := by
  refine .call (.call (.call (.created ..) _ _ ?_) _ _ ?_) _ _ ?_
  · intro level hlevel
    obtain rfl : ["A"] = level := Except.ok.inj hlevel
    exact ⟨by decide, by decide⟩
  · intro level hlevel
    obtain rfl : ["B"] = level := Except.ok.inj hlevel
    exact ⟨by decide, by decide⟩
  · intro parent child hparent hchild
    obtain rfl : ⟨2, ["_", "A"], some [some "x"]⟩ = parent := Option.some.inj hparent
    obtain rfl : ⟨3, ["_", "B"], none⟩ = child := Option.some.inj hchild
    decide

/-- The annotation of the first level comes to the merged label. -/
theorem inherits_of_careful_example :
    ((SchemaOp.addAnnotationLabel ["A"] ["z"]).perform ⟨5, 3⟩ exampleMerged).Inherits := by
  refine inherits_of_careful (.call exampleMerged_careful _ _ fun found hfound => ?_)
  rw [exampleMerged_labels] at hfound
  obtain rfl : ⟨2, ["_", "A"], some [some "x"]⟩ = found := Option.some.inj hfound
  have hunder : exampleMerged.under ["_", "A"] =
      [⟨2, ["_", "A"], some [some "x"]⟩, ⟨4, ["_", "A", "B"], some [some "x"]⟩] := by
    unfold AnnotDb.under
    rw [exampleMerged_labels]
    decide
  have hsame : ∀ r ∈ exampleMerged.under ["_", "A"],
      annotsOf (exampleMerged.schemaInForce r) = r.annots := by
    rw [hunder]
    decide
  refine ⟨⟨?_, fun r hr annot => ?_⟩, ?_⟩
  · rw [hunder]
    decide
  · rw [hsame r hr]
  · rw [hunder, exampleMerged_labels]
    decide

/-- The annotation of the second level does not. -/
theorem inherits_fails : ¬ ∀ db, SchemaRun db → db.Inherits := by
  intro h
  have hinherits := h ((SchemaOp.addAnnotationLabel ["B"] ["y"]).perform ⟨5, 3⟩ exampleMerged)
    (.call (.call (.call (.call (.created ..) ..) ..) ..) ..)
  have hhas := hinherits ⟨4, ["_", "A", "B"], some [some "x"]⟩ (by decide) ["A", "B"] rfl 1 (by decide)
    ⟨3, ["_", "B"], some [some "y"]⟩ (by decide) rfl "y" (by decide)
  revert hhas
  decide

end NeoPostGraph
