import NeoPostGraph.Storage.Labels

/-!
# A graph can be made

`create_graph` fails when a relation of one of its names is there. It does not when no relation has the
id that the graph gets.

* `Taken db g names`: the relations of the graph `g` have these names.

Result: `createGraph_succeeds`.
-/

namespace NeoPostGraph.Storage

variable {db db' : ObjectDb} {name : RelName} {ns o t : Oid} {g l : Nat} {names : List RelName}

/-- The names that the relations of a graph have. -/
def Taken (db : ObjectDb) (g : Nat) (names : List RelName) : Prop :=
  ∀ c ∈ db.pgClass, c.relname.graphId = g → c.relname ∈ names

/-- After a step the relations are those that were there and more, and these names are taken. -/
structure Leaves (db : ObjectDb) (g : Nat) (names : List RelName) (db' : ObjectDb) : Prop where
  initial : db.pgClass <+: db'.pgClass
  taken : Taken db' g names

theorem Leaves.relid (h : Leaves db g names db') (hfound : db.getRelnameRelid name ns = some t) :
    db'.getRelnameRelid name ns = some t :=
  relid_of_initial h.initial hfound

theorem Leaves.trans {db₁ : ObjectDb} {names₁ : List RelName} (h : Leaves db g names₁ db₁)
    (h' : Leaves db₁ g names db') : Leaves db g names db' :=
  ⟨h.initial.trans h'.initial, h'.taken⟩

namespace Taken

theorem leaves (h : Taken db g names) (hclass : db'.pgClass = db.pgClass) : Leaves db g names db' := by
  refine ⟨hclass ▸ List.prefix_rfl, ?_⟩
  unfold Taken
  rw [hclass]
  exact h

/-- A relation of a new name can be made. -/
theorem createRelation (h : Taken db g names) (name : RelName) (ns : Oid) (idx : Option Oid)
    (hg : name.graphId = g) (hnew : name ∉ names) :
    (Storage.createRelation name ns idx).Runs db db.nextOid (db.addRelation name ns idx) ∧
      Leaves db g (name :: names) (db.addRelation name ns idx) := by
  refine ⟨createRelation_runs_iff.mpr ⟨fun c hc hname => ?_, rfl, rfl⟩,
    (Grows.addRelation db name ns idx).initial, fun c hc hid => ?_⟩
  · exact absurd (hname ▸ h c hc (hname ▸ hg)) hnew
  · rcases List.mem_append.mp hc with hold | hadded
    · exact List.mem_cons_of_mem _ (h c hold hid)
    · rw [List.mem_singleton.mp hadded]
      exact List.mem_cons_self

theorem createTable (h : Taken db g names) (name : RelName) (ns : Oid) (hg : name.graphId = g)
    (hnew : name ∉ names) :
    ∃ o db', (Storage.createTable name ns).Runs db o db' ∧ db'.Has o name ∧
      db'.getRelnameRelid name ns = some o ∧ Leaves db g (name :: names) db' := by
  obtain ⟨hr, hleaves⟩ := h.createRelation name ns none hg hnew
  have hmade := createTable_made hr
  exact ⟨_, _, hr, hmade.has, hmade.relid, hleaves⟩

theorem createIndex (h : Taken db g names) (tblName name : RelName)
    (hfound : db.getRelnameRelid tblName npNamespaceId = some t) (hg : name.graphId = g)
    (hnew : name ∉ names) :
    ∃ db', (Storage.createIndex tblName name).Runs db () db' ∧ Leaves db g (name :: names) db' := by
  obtain ⟨hr, hleaves⟩ := h.createRelation name npNamespaceId (some t) hg hnew
  exact ⟨_, (npRelationId_runs_iff.mpr ⟨hfound, rfl⟩).bind (hr.bind (Prog.runs_ret_iff.mpr ⟨rfl, rfl⟩)),
    hleaves⟩

theorem nextval (h : Taken db g names) (hhas : db.Has o name) :
    ∃ n db', (Storage.nextval o).Runs db n db' ∧ Leaves db g names db' := by
  obtain ⟨c, hc, hoid, -⟩ := hhas
  exact ⟨_, _, nextval_runs_iff.mpr ⟨⟨c, hc, hoid⟩, rfl, rfl⟩, h.leaves rfl⟩

theorem insertVertexLlMeta (h : Taken db g names)
    (hfound : db.getRelnameRelid (.vertex g l .linkedListMeta) ns = some t) (part : LinkedListMeta) :
    ∃ db', (Storage.insertVertexLlMeta g l ns part).Runs db () db' ∧ Leaves db g names db' :=
  ⟨_, insertVertexLlMeta_runs_iff.mpr ⟨t, hfound, rfl⟩, h.leaves rfl⟩

theorem insertVertexLabel (h : Taken db g names)
    (hfound : db.getRelnameRelid (.graph g .vertexLabel) npNamespaceId = some t) (row : VertexLabelRow) :
    ∃ db', (Storage.insertVertexLabel g row).Runs db () db' ∧ Leaves db g names db' :=
  ⟨_, insertVertexLabel_runs_iff.mpr ⟨t, hfound, rfl⟩, h.leaves rfl⟩

theorem insertLabel (h : Taken db g names)
    (hfound : db.getRelnameRelid (.graph g .edgeLabel) npNamespaceId = some t) (row : EdgeLabelRow) :
    ∃ db', (Storage.insertLabel g row).Runs db () db' ∧ Leaves db g names db' :=
  ⟨_, insertLabel_runs_iff.mpr ⟨t, hfound, rfl⟩, h.leaves rfl⟩

/-- The dictionary of a label can be made. -/
theorem createVertexPropertyDictionary (h : Taken db g names) (hdict : RelName.vertex g l .dictionary ∉ names)
    (hseq : RelName.vertex g l .dictionarySeq ∉ names) (hidx : RelName.vertex g l .dictionaryIndex ∉ names) :
    ∃ db', (Storage.createVertexPropertyDictionary g l).Runs db () db' ∧
      Leaves db g ([.vertex g l .dictionaryIndex, .vertex g l .dictionarySeq, .vertex g l .dictionary] ++
        names) db' := by
  obtain ⟨dict, db₁, hr₁, -, hfound, h₁⟩ := h.createTable (.vertex g l .dictionary) npNamespaceId rfl hdict
  obtain ⟨seq, db₂, hr₂, -, -, h₂⟩ :=
    h₁.taken.createTable (.vertex g l .dictionarySeq) npNamespaceId rfl (by simp [hseq])
  obtain ⟨db₃, hr₃, h₃⟩ := h₂.taken.createIndex (.vertex g l .dictionary) (.vertex g l .dictionaryIndex)
    (h₂.relid hfound) rfl (by simp [hidx])
  exact ⟨db₃, hr₁.bind (hr₂.bind hr₃), (h₁.trans h₂).trans h₃⟩

/-- A vertex label of a new id can be made. -/
theorem buildVertexLabelInfrastructure (h : Taken db g names) (ns : Oid)
    (hnew : ∀ rel, RelName.vertex g l rel ∉ names)
    (hnamed : db.getRelnameRelid (.graph g .vertexLabel) npNamespaceId = some t) :
    ∃ db', ∃ rels : List VertexRel, (Storage.buildVertexLabelInfrastructure g l ns).Runs db () db' ∧
      Leaves db g (rels.map (RelName.vertex g l) ++ names) db' := by
  obtain ⟨tbl, db₁, hr₁, -, -, h₁⟩ := h.createTable (.vertex g l .tbl) ns rfl (hnew _)
  obtain ⟨physMap, db₂, hr₂, -, -, h₂⟩ :=
    h₁.taken.createTable (.vertex g l .physMap) ns rfl (by simp [hnew])
  obtain ⟨arraylist, db₃, hr₃, -, -, h₃⟩ :=
    h₂.taken.createTable (.vertex g l .arraylist) ns rfl (by simp [hnew])
  obtain ⟨llSeq, db₄, hr₄, hhas, -, h₄⟩ :=
    h₃.taken.createTable (.vertex g l .linkedListSeq) npNamespaceId rfl (by simp [hnew])
  obtain ⟨llId, db₅, hr₅, h₅⟩ := h₄.taken.nextval hhas
  obtain ⟨llTable, db₆, hr₆, -, -, h₆⟩ :=
    h₅.taken.createTable (.vertex g l (.linkedList llId)) ns rfl (by simp [hnew])
  obtain ⟨llMeta, db₇, hr₇, -, hfound, h₇⟩ :=
    h₆.taken.createTable (.vertex g l .linkedListMeta) ns rfl (by simp [hnew])
  obtain ⟨db₈, hr₈, h₈⟩ := h₇.taken.insertVertexLlMeta hfound ⟨llId, llTable, true, false⟩
  obtain ⟨annots, db₉, hr₉, -, -, h₉⟩ :=
    h₈.taken.createTable (.vertex g l .annotations) ns rfl (by simp [hnew])
  have hleaves₉ := ((((((((h₁.trans h₂).trans h₃).trans h₄).trans h₅).trans h₆).trans h₇).trans h₈).trans h₉)
  obtain ⟨db₁₀, hr₁₀, h₁₀⟩ := h₉.taken.insertVertexLabel (hleaves₉.relid hnamed)
    ⟨l, tbl, physMap, llMeta, llSeq, arraylist, annots⟩
  obtain ⟨idSeq, db₁₁, hr₁₁, -, -, h₁₁⟩ :=
    h₁₀.taken.createTable (.vertex g l .idSeq) npNamespaceId rfl (by simp [hnew])
  obtain ⟨db₁₂, hr₁₂, h₁₂⟩ := h₁₁.taken.createVertexPropertyDictionary (l := l) (by simp [hnew])
    (by simp [hnew]) (by simp [hnew])
  refine ⟨db₁₂, [.dictionaryIndex, .dictionarySeq, .dictionary, .idSeq, .annotations, .linkedListMeta,
    .linkedList llId, .linkedListSeq, .arraylist, .physMap, .tbl], ?_,
    ((hleaves₉.trans h₁₀).trans h₁₁).trans h₁₂⟩
  exact hr₁.bind (hr₂.bind (hr₃.bind (hr₄.bind (hr₅.bind (hr₆.bind (hr₇.bind (hr₈.bind (hr₉.bind
    (hr₁₀.bind (hr₁₁.bind hr₁₂))))))))))

/-- An edge label without annotations of a new id can be made. -/
theorem buildEdgeLabel (h : Taken db g names) (ns : Oid) (hnew : ∀ rel, RelName.edge g l rel ∉ names)
    (hnamed : db.getRelnameRelid (.graph g .edgeLabel) npNamespaceId = some t) :
    ∃ db', ∃ rels : List EdgeRel, (Storage.buildEdgeLabel g l ns false).Runs db () db' ∧
      Leaves db g (rels.map (RelName.edge g l) ++ names) db' := by
  obtain ⟨tbl, db₁, hr₁, -, -, h₁⟩ := h.createTable (.edge g l .tbl) ns rfl (hnew _)
  obtain ⟨physMap, db₂, hr₂, -, -, h₂⟩ :=
    h₁.taken.createTable (.edge g l .physMap) ns rfl (by simp [hnew])
  obtain ⟨db₃, hr₃, h₃⟩ := h₂.taken.insertLabel (h₂.relid (h₁.relid hnamed)) ⟨l, tbl, physMap, none, none⟩
  obtain ⟨idSeq, db₄, hr₄, -, -, h₄⟩ :=
    h₃.taken.createTable (.edge g l .idSeq) npNamespaceId rfl (by simp [hnew])
  have hnone : (Storage.createEdgeAnnotations g l ns false).Runs db₂ none db₂ := rfl
  exact ⟨db₄, [.idSeq, .physMap, .tbl], hr₁.bind (hr₂.bind (hnone.bind (hr₃.bind (hr₄.bind
    (Prog.runs_ret_iff.mpr ⟨rfl, rfl⟩))))), ((h₁.trans h₂).trans h₃).trans h₄⟩

theorem setupVertexLabelCatalog (h : Taken db g []) (ns : Oid) :
    ∃ res db' l, ∃ rels : List VertexRel, (Storage.setupVertexLabelCatalog g ns).Runs db res db' ∧
      Leaves db g (rels.map (RelName.vertex g l) ++ [.graph g .vertexLabelGistIdx,
        .graph g .vertexLabelBtreeIdx, .graph g .vertexLabel, .graph g .vertexLabelIdSeq]) db' := by
  obtain ⟨seq, db₁, hr₁, hhas, -, h₁⟩ := h.createTable (.graph g .vertexLabelIdSeq) ns rfl List.not_mem_nil
  obtain ⟨labels, db₂, hr₂, -, hfound, h₂⟩ :=
    h₁.taken.createTable (.graph g .vertexLabel) npNamespaceId rfl (by simp)
  obtain ⟨db₃, hr₃, h₃⟩ :=
    h₂.taken.createIndex (.graph g .vertexLabel) (.graph g .vertexLabelBtreeIdx) hfound rfl (by simp)
  obtain ⟨db₄, hr₄, h₄⟩ := h₃.taken.createIndex (.graph g .vertexLabel) (.graph g .vertexLabelGistIdx)
    (h₃.relid hfound) rfl (by simp)
  have hseq : db₄.Has seq (.graph g .vertexLabelIdSeq) := by
    obtain ⟨c, hc, hspec⟩ := hhas
    exact ⟨c, ((h₂.trans h₃).trans h₄).initial.subset hc, hspec⟩
  obtain ⟨l, db₅, hr₅, h₅⟩ := h₄.taken.nextval hseq
  obtain ⟨db₆, rels, hr₆, h₆⟩ := h₅.taken.buildVertexLabelInfrastructure (l := l) ns (by simp)
    (h₅.relid (h₄.relid (h₃.relid hfound)))
  refine ⟨(seq, labels), db₆, l, rels, ?_, ((((h₁.trans h₂).trans h₃).trans h₄).trans h₅).trans h₆⟩
  exact hr₁.bind (hr₂.bind (hr₃.bind (hr₄.bind (hr₅.bind (hr₆.bind (Prog.runs_ret_iff.mpr ⟨rfl, rfl⟩))))))

theorem setupEdgeLabelCatalog (h : Taken db g names) (ns : Oid)
    (hgraph : ∀ rel : GraphRel, rel ∈ [.edgeLabelIdSeq, .edgeLabel, .edgeLabelBtreeIdx, .edgeLabelGistIdx] →
      RelName.graph g rel ∉ names) (hedge : ∀ l rel, RelName.edge g l rel ∉ names) :
    ∃ res db' l, ∃ rels : List EdgeRel, (Storage.setupEdgeLabelCatalog g ns).Runs db res db' ∧
      Leaves db g (rels.map (RelName.edge g l) ++ [.graph g .edgeLabelGistIdx,
        .graph g .edgeLabelBtreeIdx, .graph g .edgeLabel, .graph g .edgeLabelIdSeq] ++ names) db' := by
  obtain ⟨seq, db₁, hr₁, hhas, -, h₁⟩ :=
    h.createTable (.graph g .edgeLabelIdSeq) ns rfl (hgraph _ (by simp))
  obtain ⟨labels, db₂, hr₂, -, hfound, h₂⟩ :=
    h₁.taken.createTable (.graph g .edgeLabel) npNamespaceId rfl (by simp [hgraph])
  obtain ⟨db₃, hr₃, h₃⟩ :=
    h₂.taken.createIndex (.graph g .edgeLabel) (.graph g .edgeLabelBtreeIdx) hfound rfl (by simp [hgraph])
  obtain ⟨db₄, hr₄, h₄⟩ := h₃.taken.createIndex (.graph g .edgeLabel) (.graph g .edgeLabelGistIdx)
    (h₃.relid hfound) rfl (by simp [hgraph])
  have hseq : db₄.Has seq (.graph g .edgeLabelIdSeq) := by
    obtain ⟨c, hc, hspec⟩ := hhas
    exact ⟨c, ((h₂.trans h₃).trans h₄).initial.subset hc, hspec⟩
  obtain ⟨l, db₅, hr₅, h₅⟩ := h₄.taken.nextval hseq
  obtain ⟨db₆, rels, hr₆, h₆⟩ := h₅.taken.buildEdgeLabel (l := l) ns (by simp [hedge])
    (h₅.relid (h₄.relid (h₃.relid hfound)))
  refine ⟨(seq, labels), db₆, l, rels, ?_, ?_⟩
  · exact hr₁.bind (hr₂.bind (hr₃.bind (hr₄.bind (hr₅.bind (hr₆.bind
      (Prog.runs_ret_iff.mpr ⟨rfl, rfl⟩))))))
  · simpa using ((((h₁.trans h₂).trans h₃).trans h₄).trans h₅).trans h₆

end Taken

/-- **A graph can be made** when there is none of the name, and no relation has the id that it gets. -/
theorem createGraph_succeeds {name : String} (hcheck : db.searchGraph name ns = none)
    (hfree : ∀ c ∈ db.pgClass, c.relname.graphId ≠ db.npGraphIdSeq + 1) :
    ∃ db', (createGraph name ns).Runs db () db' := by
  have hr₀ : (checkNoGraph name ns).Runs db () db := Prog.runs_read_iff.mpr ⟨by rw [hcheck], rfl⟩
  have hr₁ : nextGraphId.Runs db (db.npGraphIdSeq + 1) { db with npGraphIdSeq := db.npGraphIdSeq + 1 } := rfl
  have htaken : Taken { db with npGraphIdSeq := db.npGraphIdSeq + 1 } (db.npGraphIdSeq + 1) [] :=
    fun c hc hid => absurd hid (hfree c hc)
  obtain ⟨⟨vertexIdSeq, vertexLabels⟩, db₂, l, rels, hr₂, h₂⟩ := htaken.setupVertexLabelCatalog ns
  obtain ⟨⟨edgeIdSeq, edgeLabels⟩, db₃, l', rels', hr₃, h₃⟩ := h₂.taken.setupEdgeLabelCatalog ns
    (fun rel hrel => by
      simp only [List.mem_cons, List.not_mem_nil, or_false] at hrel
      rcases hrel with rfl | rfl | rfl | rfl <;> simp) (by simp)
  obtain ⟨schemaTbl, db₄, hr₄, -, -, h₄⟩ :=
    h₃.taken.createTable (.graph (db.npGraphIdSeq + 1) .annotationSchema) ns rfl (by simp)
  obtain ⟨schemaPmap, db₅, hr₅, -, -, h₅⟩ :=
    h₄.taken.createTable (.graph (db.npGraphIdSeq + 1) .annotationSchemaPhysMap) ns rfl (by simp)
  obtain ⟨catalog, db₆, hr₆, -, hfound, h₆⟩ :=
    h₅.taken.createTable (.graph (db.npGraphIdSeq + 1) .labelCatalog) npNamespaceId rfl (by simp)
  obtain ⟨db₇, hr₇, h₇⟩ := h₆.taken.createIndex (.graph (db.npGraphIdSeq + 1) .labelCatalog)
    (.graph (db.npGraphIdSeq + 1) .labelCatalogIdx) hfound rfl (by simp)
  exact ⟨_, hr₀.bind (hr₁.bind (hr₂.bind (hr₃.bind (hr₄.bind (hr₅.bind ((hr₆.bind hr₇).bind rfl))))))⟩

end NeoPostGraph.Storage
