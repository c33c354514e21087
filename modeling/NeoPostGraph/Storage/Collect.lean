import NeoPostGraph.Storage.Calls

/-!
# The list that `drop_graph` makes

* `Found`: a relation of the graph that is on the list.
* `Covered`: a relation that is on the list, or that is an index of a table on it.

Results: `found_graphRels`, the list is confined to the graph; `covered_graphRels`, it is complete when the
running command reads the rows of edge labels as they are.
-/

namespace NeoPostGraph.Storage

variable {db : ObjectDb} {graph : NpGraphRow} {os : List Oid} {name : RelName} {o : Oid}

/-! ## What the list holds -/

/-- **What is found**: a relation of the graph. A table of annotations is found through a row that the
running command reads. -/
def Found (db : ObjectDb) (graph : NpGraphRow) (o : Oid) : Prop :=
  ∃ name : RelName, db.Has o name ∧ name.graphId = graph.id ∧
    ∀ l, name = .edge graph.id l .annotations →
      ∃ row ∈ db.edgeLabels graph.edgeLabels, row.id = l ∧ row.annotationsSeen ≠ none

theorem found_of_has (hhas : db.Has o name) (hid : name.graphId = graph.id)
    (hname : ∀ l, name ≠ .edge graph.id l .annotations) : Found db graph o :=
  ⟨name, hhas, hid, fun l he => absurd he (hname l)⟩

theorem found_namedRels {names : List RelName} (hids : ∀ name ∈ names, name.graphId = graph.id)
    (hname : ∀ name ∈ names, ∀ l, name ≠ .edge graph.id l .annotations) (ho : o ∈ db.namedRels names) :
    Found db graph o := by
  obtain ⟨name, hmem, hfound⟩ := List.mem_filterMap.mp ho
  exact found_of_has (Inv.has_of_relid hfound) (hids name hmem) (hname name hmem)

theorem found_vertexLabelRels {row : VertexLabelRow} (hok : VertexRowOk db graph.id row)
    (ho : o ∈ db.vertexLabelRels graph.id row) : Found db graph o := by
  unfold ObjectDb.vertexLabelRels at ho
  rcases List.mem_append.mp ho with hcols | hnamed
  · rcases List.mem_append.mp hcols with hcol | hpart
    · simp only [List.mem_cons, List.not_mem_nil, or_false] at hcol
      rcases hcol with rfl | rfl | rfl | rfl | rfl | rfl
      · exact found_of_has hok.tbl rfl nofun
      · exact found_of_has hok.physMap rfl nofun
      · exact found_of_has hok.linkedListMeta rfl nofun
      · exact found_of_has hok.linkedListSeq rfl nofun
      · exact found_of_has hok.arraylist rfl nofun
      · exact found_of_has hok.annotationsTbl rfl nofun
    · obtain ⟨part, hmem, rfl⟩ := List.mem_map.mp hpart
      exact found_of_has (hok.partitions part hmem) rfl nofun
  · exact found_namedRels (by simp [RelName.graphId]) (by simp) hnamed

theorem found_edgeLabelRels {row : EdgeLabelRow} (hrow : row ∈ db.edgeLabels graph.edgeLabels)
    (hok : EdgeRowOk db graph row) (ho : o ∈ db.edgeLabelRels graph.id row) : Found db graph o := by
  unfold ObjectDb.edgeLabelRels at ho
  rcases List.mem_append.mp ho with hcols | hnamed
  · rcases List.mem_append.mp hcols with hcol | hannot
    · simp only [List.mem_cons, List.not_mem_nil, or_false] at hcol
      rcases hcol with rfl | rfl
      · exact found_of_has hok.tbl rfl nofun
      · exact found_of_has hok.physMap rfl nofun
    · have hseen : row.annotationsSeen = some o := Option.mem_toList.mp hannot
      have htbl : row.annotationsTbl = some o := by
        rcases hok.seen with hnone | heq
        · rw [hnone] at hseen
          cases hseen
        · rw [← heq, hseen]
      obtain ⟨c, hc, hoid, hname, -⟩ := hok.annotationsTbl o htbl
      refine ⟨c.relname, ⟨c, hc, hoid, rfl⟩, by rw [hname]; rfl, fun l he => ⟨row, hrow, ?_, ?_⟩⟩
      · rw [hname] at he
        injection he
      · rw [hseen]
        nofun
  · exact found_namedRels (by simp [RelName.graphId]) (by simp) hnamed

/-- Every element of the list is a relation of the graph. -/
theorem found_graphRels (h : StorageInv db) (hgr : graph ∈ db.npGraph) (ho : o ∈ db.graphRels graph) :
    Found db graph o := by
  have hok := h.rows graph hgr
  unfold ObjectDb.graphRels at ho
  simp only [List.mem_append, List.mem_cons, List.not_mem_nil, or_false, List.mem_flatMap] at ho
  rcases ho with ((((rfl | rfl | rfl | rfl) | ⟨row, hrow, ho⟩) | ⟨row, hrow, ho⟩) | (rfl | rfl)) | ho
  · exact found_of_has hok.vertexIdSeq rfl nofun
  · exact found_of_has hok.edgeIdSeq rfl nofun
  · exact found_of_has hok.annotSchemaTbl rfl nofun
  · exact found_of_has hok.annotSchemaPhysMap rfl nofun
  · exact found_vertexLabelRels (h.inv.vertexRows graph hgr row hrow) ho
  · exact found_edgeLabelRels hrow (h.inv.edgeRows graph hgr row hrow) ho
  · exact found_of_has hok.vertexLabels rfl nofun
  · exact found_of_has hok.edgeLabels rfl nofun
  · exact found_namedRels (by simp [RelName.graphId]) (by simp) ho

/-- The relation, or the table it is an index of, is on the list. -/
def Covered (os : List Oid) (c : PgClass) : Prop := c.oid ∈ os ∨ ∃ t ∈ os, c.indrelid = some t

instance (os : List Oid) : DecidablePred (Covered os) := fun c =>
  inferInstanceAs (Decidable (c.oid ∈ os ∨ ∃ t ∈ os, c.indrelid = some t))

theorem mem_namedRels {names : List RelName} {c : PgClass} (hnamed : db.Named c) (hmem : c.relname ∈ names) :
    c.oid ∈ db.namedRels names :=
  List.mem_filterMap.mpr ⟨c.relname, hmem, hnamed⟩

theorem covered_of_indexOf {names : List RelName} {c : PgClass} (hidx : db.IndexOf c name)
    (hmem : name ∈ names) (hsub : db.namedRels names ⊆ os) : Covered os c := by
  obtain ⟨t, ht, hfound⟩ := hidx
  exact Or.inr ⟨t, hsub (List.mem_filterMap.mpr ⟨name, hmem, hfound⟩), ht⟩

theorem covered_vertex {row : VertexLabelRow} {c : PgClass} {rel : VertexRel}
    (hname : c.relname = .vertex graph.id row.id rel) (hrec : VertexRecorded db graph.id row c rel) :
    Covered (db.vertexLabelRels graph.id row) c := by
  have hcol : ∀ o, o ∈ [row.tbl, row.physMap, row.linkedListMeta, row.linkedListSeq, row.arraylist,
      row.annotationsTbl] → o ∈ db.vertexLabelRels graph.id row :=
    fun o ho => List.mem_append_left _ (List.mem_append_left _ ho)
  have hnamed : db.namedRels [.vertex graph.id row.id .idSeq, .vertex graph.id row.id .dictionary,
      .vertex graph.id row.id .dictionarySeq] ⊆ db.vertexLabelRels graph.id row :=
    List.subset_append_right _ _
  cases rel with
  | linkedList p =>
    obtain ⟨part, hpart, htbl⟩ := hrec
    exact Or.inl (List.mem_append_left _ (List.mem_append_right _ (List.mem_map.mpr ⟨part, hpart, htbl⟩)))
  | idSeq => exact Or.inl (hnamed (mem_namedRels hrec (by simp [hname])))
  | dictionary => exact Or.inl (hnamed (mem_namedRels hrec (by simp [hname])))
  | dictionarySeq => exact Or.inl (hnamed (mem_namedRels hrec (by simp [hname])))
  | dictionaryIndex => exact covered_of_indexOf hrec (by simp) hnamed
  | tbl => exact Or.inl (hcol _ (by simp [show c.oid = row.tbl from hrec]))
  | physMap => exact Or.inl (hcol _ (by simp [show c.oid = row.physMap from hrec]))
  | arraylist => exact Or.inl (hcol _ (by simp [show c.oid = row.arraylist from hrec]))
  | linkedListSeq => exact Or.inl (hcol _ (by simp [show c.oid = row.linkedListSeq from hrec]))
  | linkedListMeta => exact Or.inl (hcol _ (by simp [show c.oid = row.linkedListMeta from hrec]))
  | annotations => exact Or.inl (hcol _ (by simp [show c.oid = row.annotationsTbl from hrec]))

theorem covered_edge {row : EdgeLabelRow} {c : PgClass} {rel : EdgeRel}
    (hname : c.relname = .edge graph.id row.id rel) (hseen : row.annotationsSeen = row.annotationsTbl)
    (hrec : EdgeRecorded db row c rel) : Covered (db.edgeLabelRels graph.id row) c := by
  unfold ObjectDb.edgeLabelRels
  cases rel with
  | tbl => exact Or.inl (by simp [show c.oid = row.tbl from hrec])
  | physMap => exact Or.inl (by simp [show c.oid = row.physMap from hrec])
  | annotations => exact Or.inl (by simp [hseen, show row.annotationsTbl = some c.oid from hrec])
  | idSeq => exact Or.inl (List.mem_append_right _ (mem_namedRels hrec (by simp [hname])))

/-- **The list is complete**, when the running command reads the rows as they are. -/
theorem covered_graphRels (h : StorageInv db) (hgr : graph ∈ db.npGraph)
    (hseen : ∀ row ∈ db.edgeLabels graph.edgeLabels, row.annotationsSeen = row.annotationsTbl)
    {c : PgClass} (hc : c ∈ db.pgClass) (hid : c.relname.graphId = graph.id) :
    Covered (db.graphRels graph) c := by
  have hrec : Recorded db graph c := by
    rcases h.inv.complete c hc with hpend | hrec
    · exact absurd hpend List.not_mem_nil
    · exact hrec graph hgr hid.symm
  have hmono : ∀ {os : List Oid}, os ⊆ db.graphRels graph → Covered os c → Covered (db.graphRels graph) c :=
    fun hsub hcov => hcov.imp (fun ho => hsub ho) fun ⟨t, ht, he⟩ => ⟨t, hsub ht, he⟩
  unfold Recorded at hrec
  split at hrec
  · next g rel hname =>
    obtain rfl : g = graph.id := by
      rw [hname] at hid
      exact hid
    have hmem : ∀ o, o ∈ [graph.vertexIdSeq, graph.edgeIdSeq, graph.annotSchemaTbl, graph.annotSchemaPhysMap,
        graph.vertexLabels, graph.edgeLabels] → o ∈ db.graphRels graph := by
      intro o ho
      unfold ObjectDb.graphRels
      simp only [List.mem_append, List.mem_cons, List.not_mem_nil, or_false] at ho ⊢
      tauto
    have hnamed : db.namedRels [.graph graph.id .labelCatalog] ⊆ db.graphRels graph :=
      List.subset_append_right _ _
    cases rel with
    | vertexLabelIdSeq => exact Or.inl (hmem _ (by simp [show c.oid = graph.vertexIdSeq from hrec]))
    | vertexLabel => exact Or.inl (hmem _ (by simp [show c.oid = graph.vertexLabels from hrec]))
    | edgeLabelIdSeq => exact Or.inl (hmem _ (by simp [show c.oid = graph.edgeIdSeq from hrec]))
    | edgeLabel => exact Or.inl (hmem _ (by simp [show c.oid = graph.edgeLabels from hrec]))
    | annotationSchema => exact Or.inl (hmem _ (by simp [show c.oid = graph.annotSchemaTbl from hrec]))
    | annotationSchemaPhysMap =>
      exact Or.inl (hmem _ (by simp [show c.oid = graph.annotSchemaPhysMap from hrec]))
    | vertexLabelBtreeIdx => exact Or.inr ⟨_, hmem _ (by simp), hrec⟩
    | vertexLabelGistIdx => exact Or.inr ⟨_, hmem _ (by simp), hrec⟩
    | edgeLabelBtreeIdx => exact Or.inr ⟨_, hmem _ (by simp), hrec⟩
    | edgeLabelGistIdx => exact Or.inr ⟨_, hmem _ (by simp), hrec⟩
    | labelCatalog => exact Or.inl (hnamed (mem_namedRels hrec (by simp [hname])))
    | labelCatalogIdx => exact covered_of_indexOf hrec (by simp) hnamed
  · next g l rel hname =>
    obtain rfl : g = graph.id := by
      rw [hname] at hid
      exact hid
    obtain ⟨row, hrow, rfl, hrec⟩ := hrec
    refine hmono (fun o ho => ?_) (covered_vertex hname hrec)
    unfold ObjectDb.graphRels
    simp only [List.mem_append, List.mem_flatMap]
    exact Or.inl (Or.inl (Or.inl (Or.inr ⟨row, hrow, ho⟩)))
  · next g l rel hname =>
    obtain rfl : g = graph.id := by
      rw [hname] at hid
      exact hid
    obtain ⟨row, hrow, rfl, hrec⟩ := hrec
    refine hmono (fun o ho => ?_) (covered_edge hname (hseen row hrow) hrec)
    unfold ObjectDb.graphRels
    simp only [List.mem_append, List.mem_flatMap]
    exact Or.inl (Or.inl (Or.inr ⟨row, hrow, ho⟩))

end NeoPostGraph.Storage
