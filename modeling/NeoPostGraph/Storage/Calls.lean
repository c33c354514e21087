import NeoPostGraph.Storage.Within

/-!
# Graphs and their relations

`StorageInv` holds of every state that calls lead to: the relations of every graph are recorded, every
row of `np_graph` names relations, and graphs have different ids and different names.

Results: `StorageInv.createGraph` and the other calls but `drop_graph`.
-/

namespace NeoPostGraph.Storage

variable {db db' : ObjectDb} {graphs : List NpGraphRow} {graph : NpGraphRow} {pending : List Oid}
  {name : RelName} {ns o : Oid} {g l : Nat} {u : Unit}

/-- **Every relation of every graph is recorded.** -/
structure StorageInv (db : ObjectDb) : Prop where
  inv : Inv db.npGraph db []
  rows : ∀ gr ∈ db.npGraph, GraphRowOk db gr
  ids : ∀ gr ∈ db.npGraph, gr.id ≤ db.npGraphIdSeq
  names : ∀ gr ∈ db.npGraph, ∀ gr' ∈ db.npGraph,
    gr.name = gr'.name → gr.namespaceOid = gr'.namespaceOid → gr = gr'
  nodup : db.npGraph.Nodup
  relIds : ∀ c ∈ db.pgClass, c.relname.graphId ≤ db.npGraphIdSeq

/-! ## A new graph -/

/-- A graph for which there is nothing yet. -/
theorem Inv.addGraph (h : Inv graphs db []) (hrows : ∀ gr ∈ graphs, GraphRowOk db gr)
    (hids : ∀ gr ∈ graphs, gr.id ≠ graph.id) (hnone : ∀ c ∈ db.pgClass, c.relname.graphId ≠ graph.id)
    (hvertex : db.nextOid ≤ graph.vertexLabels) (hedge : db.nextOid ≤ graph.edgeLabels) :
    Inv (graphs ++ [graph]) db [] := by
  have hapart : ∀ gr ∈ graphs, ¬ (gr.id = graph.id ∨ gr.vertexLabels = graph.vertexLabels ∨
      gr.edgeLabels = graph.edgeLabels) := by
    rintro gr hgr (hid | hv | he)
    · exact hids gr hgr hid
    · exact Nat.not_le_of_lt (h.lt_of_has (hrows gr hgr).vertexLabels) (hv ▸ hvertex)
    · exact Nat.not_le_of_lt (h.lt_of_has (hrows gr hgr).edgeLabels) (he ▸ hedge)
  have hmem : ∀ gr ∈ graphs ++ [graph], gr ∈ graphs ∨ gr = graph := fun gr hgr => by
    simpa using hgr
  have hnoVertex := (h.unused _ hvertex).1
  have hnoEdge := (h.unused _ hedge).2.1
  refine { h with
    catalogs := fun gr hgr gr' hgr' he => ?_
    complete := fun c hc => ?_
    vertexRows := fun gr hgr row hrow => ?_
    edgeRows := fun gr hgr row hrow => ?_
    edgeIds := fun gr hgr => ?_ }
  · rcases hmem gr hgr with hold | rfl <;> rcases hmem gr' hgr' with hold' | rfl
    · exact h.catalogs gr hold gr' hold' he
    · exact absurd he (hapart gr hold)
    · exact absurd (by simpa only [eq_comm] using he) (hapart gr' hold')
    · rfl
  · refine (h.complete c hc).imp_right fun hrec gr hgr hid => ?_
    rcases hmem gr hgr with hold | rfl
    · exact hrec gr hold hid
    · exact absurd hid.symm (hnone c hc)
  · rcases hmem gr hgr with hold | rfl
    · exact h.vertexRows gr hold row hrow
    · rw [hnoVertex] at hrow
      exact absurd hrow List.not_mem_nil
  · rcases hmem gr hgr with hold | rfl
    · exact h.edgeRows gr hold row hrow
    · rw [hnoEdge] at hrow
      exact absurd hrow List.not_mem_nil
  · rcases hmem gr hgr with hold | rfl
    · exact h.edgeIds gr hold
    · rw [hnoEdge]
      exact ⟨List.nodup_nil, nofun⟩

/-- A relation of the graph itself that its row names. -/
theorem Inv.createGraphRel {rel : GraphRel} (h : Inv graphs db []) (hgr : graph ∈ graphs)
    (hr : (Storage.createTable (.graph graph.id rel) ns).Runs db o db')
    (hrec : ∀ c : PgClass, db'.getRelnameRelid (.graph graph.id rel) ns = some o →
      c.relname = .graph graph.id rel → c.oid = o → GraphRecorded db' graph c rel) :
    Inv graphs db' [] ∧ Made (.graph graph.id rel) ns db o db' := by
  refine h.createRecorded hr fun hmade gr hgr' hid c _ hoid hname => ?_
  obtain rfl := h.catalogs gr hgr' graph hgr (Or.inl hid)
  unfold Recorded
  rw [hname]
  exact hrec c hmade.relid hname hoid

/-- An index on a catalog of the graph. -/
theorem Inv.createGraphIndex {rel idx : GraphRel} (h : Inv graphs db []) (hgr : graph ∈ graphs)
    (hr : (Storage.createIndex (.graph graph.id rel) (.graph graph.id idx)).Runs db u db')
    (hfound : db.getRelnameRelid (.graph graph.id rel) npNamespaceId = some o)
    (htbl : ∃ c ∈ db.pgClass, c.oid = o ∧ c.relname = .graph graph.id rel ∧ c.indrelid = none)
    (hrec : Grows db db' → ∀ c : PgClass, c.indrelid = some o → GraphRecorded db' graph c idx) :
    Inv graphs db' [] ∧ Grows db db' := by
  obtain ⟨c, hc, hoid, hname, hno⟩ := htbl
  refine h.createIndex hr ⟨o, hfound, c, hc, hoid, by rw [hname]; rfl, hno⟩
    fun hgrow gr hgr' hid c' _ hname' hidx => ?_
  obtain rfl := h.catalogs gr hgr' graph hgr (Or.inl hid)
  unfold Recorded
  rw [hname']
  exact hrec hgrow c' (hidx.trans hfound)

theorem setupVertexLabelCatalog_fresh {seq labels : Oid}
    (hr : (setupVertexLabelCatalog g ns).Runs db (seq, labels) db') : db.nextOid ≤ labels := by
  obtain ⟨seq', db₁, hseq, hr₁⟩ := Prog.runs_bind_iff.mp hr
  obtain ⟨labels', db₂, hlabels, hr₂⟩ := Prog.runs_bind_iff.mp hr₁
  simp only [Prog.runs_bind_iff, Prog.pure_eq, Prog.runs_ret_iff, Prod.mk.injEq] at hr₂
  obtain ⟨-, -, -, -, -, -, -, -, -, -, -, -, ⟨-, rfl⟩, -⟩ := hr₂
  rw [(createTable_made hlabels).fresh]
  exact (createTable_made hseq).grows.nextOid

theorem setupEdgeLabelCatalog_fresh {seq labels : Oid}
    (hr : (setupEdgeLabelCatalog g ns).Runs db (seq, labels) db') : db.nextOid ≤ labels := by
  obtain ⟨seq', db₁, hseq, hr₁⟩ := Prog.runs_bind_iff.mp hr
  obtain ⟨labels', db₂, hlabels, hr₂⟩ := Prog.runs_bind_iff.mp hr₁
  simp only [Prog.runs_bind_iff, Prog.pure_eq, Prog.runs_ret_iff, Prod.mk.injEq] at hr₂
  obtain ⟨-, -, -, -, -, -, -, -, -, -, -, -, ⟨-, rfl⟩, -⟩ := hr₂
  rw [(createTable_made hlabels).fresh]
  exact (createTable_made hseq).grows.nextOid

/-- What the set-up of a catalog of labels leaves behind. -/
structure CatalogMade (graph : NpGraphRow) (seqRel labelRel : GraphRel) (seq labels : Oid)
    (db db' : ObjectDb) : Prop where
  grows : Grows db db'
  hasSeq : db'.Has seq (.graph graph.id seqRel)
  hasLabels : db'.Has labels (.graph graph.id labelRel)
  named : db'.getRelnameRelid (.graph graph.id labelRel) npNamespaceId = some labels

theorem Inv.setupVertexLabelCatalog (h : Inv graphs db []) (hgr : graph ∈ graphs)
    (hr : (Storage.setupVertexLabelCatalog graph.id ns).Runs db (graph.vertexIdSeq, graph.vertexLabels) db') :
    Inv graphs db' [] ∧ CatalogMade graph .vertexLabelIdSeq .vertexLabel graph.vertexIdSeq
      graph.vertexLabels db db' := by
  obtain ⟨seq, db₁, hseq, hr₁⟩ := Prog.runs_bind_iff.mp hr
  obtain ⟨labels, db₂, hlabels, hr₂⟩ := Prog.runs_bind_iff.mp hr₁
  obtain ⟨u₃, db₃, hbtree, hr₃⟩ := Prog.runs_bind_iff.mp hr₂
  obtain ⟨u₄, db₄, hgist, hr₄⟩ := Prog.runs_bind_iff.mp hr₃
  obtain ⟨l, db₅, hnext, hr₅⟩ := Prog.runs_bind_iff.mp hr₄
  obtain ⟨u₆, db₆, hbuild, hr₆⟩ := Prog.runs_bind_iff.mp hr₅
  obtain ⟨he, rfl⟩ := Prog.runs_ret_iff.mp hr₆
  injection he with hseqEq hlabelsEq
  subst hseqEq hlabelsEq
  obtain ⟨h₁, hmade₁⟩ := h.createGraphRel hgr hseq fun _ _ _ hoid => hoid
  obtain ⟨h₂, hmade₂⟩ := h₁.createGraphRel hgr hlabels fun _ _ _ hoid => hoid
  have hentry : ∃ c ∈ db₂.pgClass, c.oid = graph.vertexLabels ∧
      c.relname = .graph graph.id .vertexLabel ∧ c.indrelid = none := by
    obtain ⟨c, hc, hoid, hname, -, hno⟩ := hmade₂.entry
    exact ⟨c, hc, hoid, hname, hno⟩
  obtain ⟨h₃, hgrow₃⟩ := h₂.createGraphIndex hgr hbtree hmade₂.relid hentry fun _ _ hidx => hidx
  obtain ⟨c, hc, hspec⟩ := hentry
  obtain ⟨h₄, hgrow₄⟩ := h₃.createGraphIndex hgr hgist (hgrow₃.relid hmade₂.relid)
    ⟨c, hgrow₃.mem hc, hspec⟩ fun _ _ hidx => hidx
  obtain ⟨h₅, hgrow₅⟩ := h₄.buildNextVertexLabel hgr (hgrow₄.relid (hgrow₃.relid hmade₂.relid)) hnext hbuild
  have hgrow := (hgrow₃.trans hgrow₄).trans hgrow₅
  exact ⟨h₅, (hmade₁.grows.trans hmade₂.grows).trans hgrow, (hmade₂.grows.trans hgrow).has hmade₁.has,
    hgrow.has hmade₂.has, hgrow.relid hmade₂.relid⟩

theorem Inv.setupEdgeLabelCatalog (h : Inv graphs db []) (hgr : graph ∈ graphs)
    (hr : (Storage.setupEdgeLabelCatalog graph.id graph.namespaceOid).Runs db
      (graph.edgeIdSeq, graph.edgeLabels) db') :
    Inv graphs db' [] ∧ CatalogMade graph .edgeLabelIdSeq .edgeLabel graph.edgeIdSeq
      graph.edgeLabels db db' := by
  obtain ⟨seq, db₁, hseq, hr₁⟩ := Prog.runs_bind_iff.mp hr
  obtain ⟨labels, db₂, hlabels, hr₂⟩ := Prog.runs_bind_iff.mp hr₁
  obtain ⟨u₃, db₃, hbtree, hr₃⟩ := Prog.runs_bind_iff.mp hr₂
  obtain ⟨u₄, db₄, hgist, hr₄⟩ := Prog.runs_bind_iff.mp hr₃
  obtain ⟨l, db₅, hnext, hr₅⟩ := Prog.runs_bind_iff.mp hr₄
  obtain ⟨u₆, db₆, hbuild, hr₆⟩ := Prog.runs_bind_iff.mp hr₅
  obtain ⟨he, rfl⟩ := Prog.runs_ret_iff.mp hr₆
  injection he with hseqEq hlabelsEq
  subst hseqEq hlabelsEq
  obtain ⟨h₁, hmade₁⟩ := h.createGraphRel hgr hseq fun _ _ _ hoid => hoid
  obtain ⟨h₂, hmade₂⟩ := h₁.createGraphRel hgr hlabels fun _ _ _ hoid => hoid
  have hentry : ∃ c ∈ db₂.pgClass, c.oid = graph.edgeLabels ∧
      c.relname = .graph graph.id .edgeLabel ∧ c.indrelid = none := by
    obtain ⟨c, hc, hoid, hname, -, hno⟩ := hmade₂.entry
    exact ⟨c, hc, hoid, hname, hno⟩
  obtain ⟨h₃, hgrow₃⟩ := h₂.createGraphIndex hgr hbtree hmade₂.relid hentry fun _ _ hidx => hidx
  obtain ⟨c, hc, hspec⟩ := hentry
  obtain ⟨h₄, hgrow₄⟩ := h₃.createGraphIndex hgr hgist (hgrow₃.relid hmade₂.relid)
    ⟨c, hgrow₃.mem hc, hspec⟩ fun _ _ hidx => hidx
  obtain ⟨h₅, hgrow₅⟩ := h₄.buildNextEdgeLabel hgr (hgrow₄.relid (hgrow₃.relid hmade₂.relid)) hnext hbuild
  have hgrow := (hgrow₃.trans hgrow₄).trans hgrow₅
  exact ⟨h₅, (hmade₁.grows.trans hmade₂.grows).trans hgrow, (hmade₂.grows.trans hgrow).has hmade₁.has,
    hgrow.has hmade₂.has, hgrow.relid hmade₂.relid⟩

theorem Inv.createLabelCatalogTable (h : Inv graphs db []) (hgr : graph ∈ graphs)
    (hr : (Storage.createLabelCatalogTable graph.id).Runs db u db') : Inv graphs db' [] ∧ Grows db db' := by
  obtain ⟨o, db₁, htbl, hidx⟩ := Prog.runs_bind_iff.mp hr
  obtain ⟨h₁, hmade⟩ := h.createGraphRel hgr htbl fun c hfound hname hoid => by
    show db₁.getRelnameRelid c.relname npNamespaceId = some c.oid
    rw [hname, hoid, hfound]
  obtain ⟨c, hc, hoid, hname, -, hno⟩ := hmade.entry
  obtain ⟨h₂, hgrow⟩ := h₁.createGraphIndex hgr hidx hmade.relid ⟨c, hc, hoid, hname, hno⟩
    fun hgrow _ hidx => ⟨o, hidx, hgrow.relid hmade.relid⟩
  exact ⟨h₂, hmade.grows.trans hgrow⟩

namespace StorageInv

/-- A call that makes relations of one graph and records them. -/
theorem of_within (h : StorageInv db) (hinv : Inv db.npGraph db' []) (hgrow : Grows db db')
    (hw : Within g db db') (hg : g ≤ db.npGraphIdSeq) : StorageInv db' := by
  obtain ⟨hgraphs, hseq, -, -, hmade⟩ := hw
  refine ⟨hgraphs ▸ hinv, fun gr hgr => ?_, fun gr hgr => ?_, ?_, hgraphs ▸ h.nodup, fun c hc => ?_⟩
  · rw [hgraphs] at hgr
    exact (h.rows gr hgr).grows hgrow
  · rw [hgraphs] at hgr
    rw [hseq]
    exact h.ids gr hgr
  · rw [hgraphs]
    exact h.names
  · rw [hseq]
    rcases hmade c hc with hold | rfl
    · exact h.relIds c hold
    · exact hg

theorem seeRows (h : StorageInv db) : StorageInv db.commandCounterIncrement := by
  obtain ⟨hinv, hgrow⟩ := h.inv.seeRows
  exact ⟨hinv, fun gr hgr => (h.rows gr hgr).grows hgrow, h.ids, h.names, h.nodup, h.relIds⟩

theorem createGraph {name : String} (h : StorageInv db)
    (hr : (Storage.createGraph name ns).Runs db u db') : StorageInv db' := by
  obtain ⟨u₀, db₀, hcheck, hr₀⟩ := Prog.runs_bind_iff.mp hr
  obtain ⟨hcheck, rfl⟩ := Prog.runs_read_iff.mp hcheck
  obtain ⟨g, db₁, hnext, hr₁⟩ := Prog.runs_bind_iff.mp hr₀
  obtain ⟨⟨vertexIdSeq, vertexLabels⟩, db₂, hvertex, hr₂⟩ := Prog.runs_bind_iff.mp hr₁
  obtain ⟨⟨edgeIdSeq, edgeLabels⟩, db₃, hedge, hr₃⟩ := Prog.runs_bind_iff.mp hr₂
  obtain ⟨schemaTbl, db₄, htbl, hr₄⟩ := Prog.runs_bind_iff.mp hr₃
  obtain ⟨schemaPmap, db₅, hpmap, hr₅⟩ := Prog.runs_bind_iff.mp hr₄
  obtain ⟨u₆, db₆, hcatalog, hinsert⟩ := Prog.runs_bind_iff.mp hr₅
  -- the row that is inserted at the end
  let graph : NpGraphRow :=
    ⟨g, name, ns, vertexLabels, vertexIdSeq, edgeLabels, edgeIdSeq, schemaTbl, schemaPmap⟩
  have hfree : ∀ gr ∈ db₀.npGraph, gr.name = name → gr.namespaceOid ≠ ns := by
    cases hsearch : db₀.searchGraph name ns with
    | some gr => simp [hsearch] at hcheck
    | none => simpa [ObjectDb.searchGraph] using hsearch
  have hw₂ := within_setupVertexLabelCatalog.runs hvertex (Within.refl g db₁)
  have hw₃ := within_setupEdgeLabelCatalog.runs hedge hw₂
  have hw₄ := within_graphTable.runs htbl hw₃
  have hw₅ := within_graphTable.runs hpmap hw₄
  have hw₆ := within_createLabelCatalogTable.runs hcatalog hw₅
  obtain ⟨hg, rfl⟩ : g = db₀.npGraphIdSeq + 1 ∧ db₁ = { db₀ with npGraphIdSeq := db₀.npGraphIdSeq + 1 } := by
    have hstep := Prog.runs_step_iff.mp hnext
    simpa [eq_comm] using hstep
  have h₁ : Inv db₀.npGraph { db₀ with npGraphIdSeq := db₀.npGraphIdSeq + 1 } [] :=
    { h.inv with
      vertexRows := fun gr hgr row hrow => { h.inv.vertexRows gr hgr row hrow with }
      edgeRows := fun gr hgr row hrow => { h.inv.edgeRows gr hgr row hrow with } }
  have h₁' : Inv (db₀.npGraph ++ [graph]) { db₀ with npGraphIdSeq := db₀.npGraphIdSeq + 1 } [] := by
    refine h₁.addGraph (fun gr hgr => { h.rows gr hgr with }) (fun gr hgr => ?_) (fun c hc => ?_)
      (setupVertexLabelCatalog_fresh hvertex)
      (Nat.le_trans hw₂.nextOid (setupEdgeLabelCatalog_fresh hedge))
    · have := h.ids gr hgr
      show gr.id ≠ g
      omega
    · have := h.relIds c hc
      show c.relname.graphId ≠ g
      omega
  have hmem : graph ∈ db₀.npGraph ++ [graph] := List.mem_append_right _ List.mem_cons_self
  obtain ⟨h₂, hmade₂⟩ := h₁'.setupVertexLabelCatalog hmem hvertex
  obtain ⟨h₃, hmade₃⟩ := h₂.setupEdgeLabelCatalog hmem hedge
  obtain ⟨h₄, hmade₄⟩ := h₃.createGraphRel hmem htbl fun _ _ _ hoid => hoid
  obtain ⟨h₅, hmade₅⟩ := h₄.createGraphRel hmem hpmap fun _ _ _ hoid => hoid
  obtain ⟨h₆, hgrow₆⟩ := h₅.createLabelCatalogTable hmem hcatalog
  have hgrow₅ := hmade₅.grows.trans hgrow₆
  have hgrow₄ := hmade₄.grows.trans hgrow₅
  have hgrow₃ := hmade₃.grows.trans hgrow₄
  have hgrow : Grows db₀ db₆ := Grows.trans { hmade₂.grows with } hgrow₃
  obtain rfl := (Except.ok.inj (Prog.runs_write_iff.mp hinsert)).symm
  have hnames : db₆.npGraph = db₀.npGraph := hw₆.npGraph
  have hseq : db₆.npGraphIdSeq = g := by rw [hw₆.npGraphIdSeq, hg]
  have h₇ : Inv (db₀.npGraph ++ [graph]) { db₆ with npGraph := db₆.npGraph ++ [graph] } [] :=
    { h₆ with
      vertexRows := fun gr hgr row hrow => { h₆.vertexRows gr hgr row hrow with }
      edgeRows := fun gr hgr row hrow => { h₆.edgeRows gr hgr row hrow with } }
  have hnew : graph ∉ db₀.npGraph := fun hold => hfree graph hold rfl rfl
  have hsplit : ∀ gr ∈ db₆.npGraph ++ [graph], gr ∈ db₀.npGraph ∨ gr = graph := fun gr hgr => by
    rw [hnames] at hgr
    simpa using hgr
  refine seeRows ⟨by simpa only [hnames] using h₇, fun gr hgr => ?_, fun gr hgr => ?_,
    fun gr hgr gr' hgr' hname hns => ?_, ?_, fun c hc => ?_⟩
  · rcases hsplit gr hgr with hold | rfl
    · exact { (h.rows gr hold).grows hgrow with }
    · exact ⟨hgrow₃.has hmade₂.hasSeq, hgrow₃.has hmade₂.hasLabels,
        hgrow₄.has hmade₃.hasSeq, hgrow₄.has hmade₃.hasLabels, hgrow₅.has hmade₄.has,
        hgrow₆.has hmade₅.has, hgrow₃.relid hmade₂.named, hgrow₄.relid hmade₃.named⟩
  · rcases hsplit gr hgr with hold | rfl
    · have := h.ids gr hold
      show gr.id ≤ db₆.npGraphIdSeq
      omega
    · exact Nat.le_of_eq hseq.symm
  · rcases hsplit gr hgr with hold | rfl <;> rcases hsplit gr' hgr' with hold' | rfl
    · exact h.names gr hold gr' hold' hname hns
    · exact absurd hns (hfree gr hold hname)
    · exact absurd hns.symm (hfree gr' hold' hname.symm)
    · rfl
  · show (db₆.npGraph ++ [graph]).Nodup
    rw [hnames]
    refine List.nodup_append.mpr ⟨h.nodup, List.nodup_singleton _, fun a ha b hb he => ?_⟩
    obtain rfl := List.mem_singleton.mp hb
    exact hnew (he ▸ ha)
  · show c.relname.graphId ≤ db₆.npGraphIdSeq
    rw [hseq]
    rcases hw₆.made c hc with hold | hid
    · have := h.relIds c hold
      omega
    · exact Nat.le_of_eq hid

/-! ## Labels -/

theorem mem_of_findGraph {name : String} (hr : (findGraph name ns).Runs db graph db') :
    db' = db ∧ graph ∈ db.npGraph ∧ graph.name = name ∧ graph.namespaceOid = ns := by
  obtain ⟨hfound, rfl⟩ := Prog.runs_read_iff.mp hr
  cases hsearch : db'.searchGraph name ns with
  | none => simp [hsearch] at hfound
  | some gr =>
    obtain rfl : gr = graph := by simpa [hsearch] using hfound
    have hspec : gr.name = name ∧ gr.namespaceOid = ns := by simpa using List.find?_some hsearch
    exact ⟨rfl, List.mem_of_find?_eq_some hsearch, hspec⟩

theorem mem_of_findGraphById {graphId : Nat} (hr : (findGraphById graphId).Runs db graph db') :
    db' = db ∧ graph ∈ db.npGraph := by
  obtain ⟨hfound, rfl⟩ := Prog.runs_read_iff.mp hr
  cases hsearch : db'.npGraph.find? fun graph => graph.id = graphId with
  | none => simp [hsearch] at hfound
  | some gr =>
    obtain rfl : gr = graph := by simpa [hsearch] using hfound
    exact ⟨rfl, List.mem_of_find?_eq_some hsearch⟩

theorem createVlabel {name : String} (h : StorageInv db)
    (hr : (Storage.createVlabel name ns).Runs db u db') : StorageInv db' := by
  obtain ⟨graph, db₁, hfind, hr₁⟩ := Prog.runs_bind_iff.mp hr
  obtain ⟨rfl, hgr, -⟩ := mem_of_findGraph hfind
  obtain ⟨l, db₂, hnext, hbuild⟩ := Prog.runs_bind_iff.mp hr₁
  obtain ⟨hinv, hgrow⟩ := h.inv.buildNextVertexLabel hgr (h.rows graph hgr).vertexNamed hnext hbuild
  exact h.of_within hinv hgrow
    (within_buildVertexLabelInfrastructure.runs hbuild (within_nextval.runs hnext (Within.refl _ _)))
    (h.ids graph hgr)

theorem createVlabelFromPath {graphId : Nat} (h : StorageInv db)
    (hr : (Storage.createVlabelFromPath graphId).Runs db u db') : StorageInv db' := by
  obtain ⟨graph, db₁, hfind, hr₁⟩ := Prog.runs_bind_iff.mp hr
  obtain ⟨rfl, hgr⟩ := mem_of_findGraphById hfind
  obtain ⟨seq, db₂, hseq, hr₂⟩ := Prog.runs_bind_iff.mp hr₁
  obtain ⟨-, rfl⟩ := Prog.runs_read_iff.mp hseq
  obtain ⟨l, db₃, hnext, hbuild⟩ := Prog.runs_bind_iff.mp hr₂
  obtain ⟨hinv, hgrow⟩ := h.inv.buildNextVertexLabel hgr (h.rows graph hgr).vertexNamed hnext hbuild
  exact h.of_within hinv hgrow
    (within_buildVertexLabelInfrastructure.runs hbuild (within_nextval.runs hnext (Within.refl _ _)))
    (h.ids graph hgr)

theorem buildNextEdgeLabel {annotated : Bool} {db₁ : ObjectDb} (h : StorageInv db)
    (hgr : graph ∈ db.npGraph) (hnext : (nextval graph.edgeIdSeq).Runs db l db₁)
    (hbuild : (Storage.buildEdgeLabel graph.id l graph.namespaceOid annotated).Runs db₁ u db') :
    StorageInv db' := by
  obtain ⟨hinv, hgrow⟩ := h.inv.buildNextEdgeLabel hgr (h.rows graph hgr).edgeNamed hnext hbuild
  exact h.of_within hinv hgrow
    (within_buildEdgeLabel.runs hbuild (within_nextval.runs hnext (Within.refl _ _))) (h.ids graph hgr)

theorem createElabel {name : String} {annotated : Bool} (h : StorageInv db)
    (hr : (Storage.createElabel name ns annotated).Runs db u db') : StorageInv db' := by
  obtain ⟨graph, db₁, hfind, hr₁⟩ := Prog.runs_bind_iff.mp hr
  obtain ⟨rfl, hgr, -, rfl⟩ := mem_of_findGraph hfind
  obtain ⟨l, db₂, hnext, hbuild⟩ := Prog.runs_bind_iff.mp hr₁
  exact h.buildNextEdgeLabel hgr hnext hbuild

theorem forgeEdgeLabel {graphId : Nat} {annotated : Bool} (h : StorageInv db)
    (hr : (Storage.forgeEdgeLabel graphId annotated).Runs db u db') : StorageInv db' := by
  obtain ⟨graph, db₁, hfind, hr₁⟩ := Prog.runs_bind_iff.mp hr
  obtain ⟨rfl, hgr⟩ := mem_of_findGraphById hfind
  obtain ⟨l, db₂, hnext, hbuild⟩ := Prog.runs_bind_iff.mp hr₁
  exact h.buildNextEdgeLabel hgr hnext hbuild

end StorageInv

/-! ## Annotations -/

/-- One edge label gets its table. That the name was free shows that the label had none. -/
theorem Inv.npApplyAddAnnotationToTuple {row : EdgeLabelRow} (h : Inv graphs db []) (hgr : graph ∈ graphs)
    (hlt : graph.edgeLabels < db.nextOid)
    (hrow : ∃ r ∈ db.edgeLabels graph.edgeLabels, r.id = row.id)
    (hr : (Storage.npApplyAddAnnotationToTuple graph.id graph.namespaceOid graph.edgeLabels row).Runs
      db u db') : Inv graphs db' [] ∧ Grows db db' := by
  unfold Storage.npApplyAddAnnotationToTuple at hr
  split at hr
  · obtain ⟨-, rfl⟩ := Prog.runs_ret_iff.mp hr
    exact ⟨h, Grows.refl _⟩
  · obtain ⟨o, db₁, hmake, hupdate⟩ := Prog.runs_bind_iff.mp hr
    obtain ⟨h₁, hmade⟩ := h.createTable hmake
    obtain ⟨hfree, -⟩ := createRelation_runs_iff.mp hmake
    have hnone : ∀ r ∈ db₁.edgeLabels graph.edgeLabels, r.id = row.id → r.annotationsTbl = none := by
      intro r hr hid
      rw [hmade.edgeLabels] at hr
      obtain ⟨r', hr', rfl⟩ := List.mem_map.mp hr
      refine Option.eq_none_iff_forall_ne_some.mpr fun a ha => ?_
      obtain ⟨c, hc, -, hname, hns, -⟩ := (h.edgeRows graph hgr r' hr').annotationsTbl a ha
      exact hfree c hc (hname.trans (by rw [← hid]; rfl)) hns
    obtain ⟨h₂, hgrow₂⟩ := h₁.updateAnnotationsTbl hgr (Nat.lt_of_lt_of_le hlt hmade.grows.nextOid) hnone
      hmade.entry
    obtain rfl := (Except.ok.inj (Prog.runs_write_iff.mp hupdate)).symm
    refine ⟨h₂.discharge fun c hc ho gr hgr' hid => ?_, hmade.grows.trans hgrow₂⟩
    obtain rfl := List.mem_singleton.mp ho
    have hname := h₁.relname_of_has hc hmade.has
    rw [hname] at hid
    obtain rfl := h.catalogs gr hgr' graph hgr (Or.inl hid)
    obtain ⟨r, hmem, hl⟩ := hrow
    obtain ⟨r₁, hmem₁, hl₁, -⟩ := hmade.grows.edgeLabels _ r hmem
    unfold Recorded
    rw [hname]
    refine ⟨{ r₁ with annotationsTbl := some c.oid }, ?_, hl₁.trans hl, rfl⟩
    rw [db₁.setEdgeLabels_self]
    refine List.mem_map.mpr ⟨r₁, hmem₁, ?_⟩
    rw [if_pos (hl₁.trans hl)]

/-- The loop over the labels. -/
theorem Inv.forEachRow {rows : List EdgeLabelRow} (h : Inv graphs db []) (hgr : graph ∈ graphs)
    (hlt : graph.edgeLabels < db.nextOid)
    (hrows : ∀ row ∈ rows, ∃ r ∈ db.edgeLabels graph.edgeLabels, r.id = row.id)
    (hr : (Storage.forEachRow (Storage.npApplyAddAnnotationToTuple graph.id graph.namespaceOid
      graph.edgeLabels) rows).Runs db u db') : Inv graphs db' [] ∧ Grows db db' := by
  induction rows generalizing db with
  | nil =>
    obtain ⟨-, rfl⟩ := Prog.runs_ret_iff.mp hr
    exact ⟨h, Grows.refl _⟩
  | cons row rest ih =>
    obtain ⟨u₁, db₁, happly, hrest⟩ := Prog.runs_bind_iff.mp hr
    obtain ⟨h₁, hgrow₁⟩ := h.npApplyAddAnnotationToTuple hgr hlt (hrows row List.mem_cons_self) happly
    obtain ⟨h₂, hgrow₂⟩ := ih h₁ (Nat.lt_of_lt_of_le hlt hgrow₁.nextOid) (fun r hr => by
      obtain ⟨r₀, hr₀, hid⟩ := hrows r (List.mem_cons_of_mem _ hr)
      obtain ⟨r₁, hr₁, hid₁, -⟩ := hgrow₁.edgeLabels _ r₀ hr₀
      exact ⟨r₁, hr₁, hid₁.trans hid⟩) hrest
    exact ⟨h₂, hgrow₁.trans hgrow₂⟩

theorem StorageInv.addAnnotationLabel {name : String} {labelIds : List Nat} (h : StorageInv db)
    (hr : (Storage.addAnnotationLabel name ns labelIds).Runs db u db') : StorageInv db' := by
  obtain ⟨graph, db₁, hfind, hr₁⟩ := Prog.runs_bind_iff.mp hr
  obtain ⟨rfl, hgr, -, rfl⟩ := StorageInv.mem_of_findGraph hfind
  obtain ⟨rel, db₂, hrel, hr₂⟩ := Prog.runs_bind_iff.mp hr₁
  obtain ⟨hrel, rfl⟩ := npRelationId_runs_iff.mp hrel
  obtain rfl := Option.some.inj (hrel.symm.trans (h.rows graph hgr).edgeNamed)
  obtain ⟨tups, db₃, htups, hloop⟩ := Prog.runs_bind_iff.mp hr₂
  obtain ⟨htups, rfl⟩ := Prog.runs_read_iff.mp htups
  obtain rfl := Except.ok.inj htups
  obtain ⟨hinv, hgrow⟩ := h.inv.forEachRow hgr (h.inv.lt_of_has (h.rows graph hgr).edgeLabels)
    (fun row hrow => ⟨row, (List.mem_filter.mp hrow).1, rfl⟩) hloop
  exact h.of_within hinv hgrow ((within_forEachRow _).runs hloop (Within.refl _ _)) (h.ids graph hgr)

/-! ## Partitions -/

theorem map_tbl_deactivate (rows : List LinkedListMeta) :
    (deactivate rows).map LinkedListMeta.tbl = rows.map LinkedListMeta.tbl := by
  induction rows with
  | nil => rfl
  | cons row rest ih =>
    unfold deactivate
    split
    · rfl
    · simp only [List.map_cons, ih]

theorem mem_markCompacted {oldest : Oid} {rows : List LinkedListMeta} {part : LinkedListMeta}
    (h : part ∈ markCompacted oldest rows) : ∃ row ∈ rows, row.id = part.id ∧ row.tbl = part.tbl := by
  induction rows with
  | nil => exact absurd h List.not_mem_nil
  | cons row rest ih =>
    unfold markCompacted at h
    split at h
    · rcases List.mem_cons.mp h with rfl | hrest
      · exact ⟨row, List.mem_cons_self, rfl, rfl⟩
      · exact ⟨part, List.mem_cons_of_mem _ hrest, rfl, rfl⟩
    · rcases List.mem_cons.mp h with rfl | hrest
      · exact ⟨part, List.mem_cons_self, rfl, rfl⟩
      · obtain ⟨row', hrow', hspec⟩ := ih hrest
        exact ⟨row', List.mem_cons_of_mem _ hrow', hspec⟩

theorem map_tbl_markCompacted (oldest : Oid) (rows : List LinkedListMeta) :
    (markCompacted oldest rows).map LinkedListMeta.tbl = rows.map LinkedListMeta.tbl := by
  induction rows with
  | nil => rfl
  | cons row rest ih =>
    unfold markCompacted
    split
    · rfl
    · simp only [List.map_cons, ih]

/-- No table is lost from the partitions when the list of their tables starts as it was. -/
theorem tables_kept {rows rows' more : List LinkedListMeta}
    (h : rows'.map LinkedListMeta.tbl = rows.map LinkedListMeta.tbl) :
    ∀ part ∈ rows, ∃ part' ∈ rows' ++ more, part'.tbl = part.tbl := by
  intro part hpart
  have hmem : part.tbl ∈ rows'.map LinkedListMeta.tbl := h ▸ List.mem_map_of_mem hpart
  obtain ⟨part', hpart', htbl⟩ := List.mem_map.mp hmem
  exact ⟨part', List.mem_append_left _ hpart', htbl⟩

/-- The new partition is recorded in the partitions' rows. -/
theorem Inv.createNewActiveLinkedList {label : VertexLabelRow} (h : Inv graphs db []) (hgr : graph ∈ graphs)
    (hlabel : label ∈ db.vertexLabels graph.vertexLabels)
    (hr : (Storage.createNewActiveLinkedList graph.id label.id label ns).Runs db u db') :
    Inv graphs db' [] ∧ Grows db db' := by
  obtain ⟨partitionId, db₁, hnext, hr₁⟩ := Prog.runs_bind_iff.mp hr
  obtain ⟨newListOid, db₂, hmake, hwrite⟩ := Prog.runs_bind_iff.mp hr₁
  obtain ⟨-, -, rfl⟩ := nextval_runs_iff.mp hnext
  obtain ⟨h₁, hgrow₁⟩ := h.advance label.linkedListSeq
  obtain ⟨h₂, hmade⟩ := h₁.createTable hmake
  obtain rfl := (Except.ok.inj (Prog.runs_write_iff.mp hwrite)).symm
  have hlabel₂ : label ∈ db₂.vertexLabels graph.vertexLabels := by
    rw [hmade.vertexLabels]
    exact hlabel
  have hok := h₂.vertexRows graph hgr label hlabel₂
  have hparts : ∀ part ∈ deactivate (db₂.linkedListMeta label.linkedListMeta) ++
      [⟨partitionId, newListOid, true, false⟩],
      db₂.Has part.tbl (.vertex graph.id label.id (.linkedList part.id)) := by
    intro part hpart
    rcases List.mem_append.mp hpart with hold | hnew
    · obtain ⟨row, hrow, hid, htbl, -⟩ := exists_of_mem_deactivate hold
      rw [← hid, ← htbl]
      exact hok.partitions row hrow
    · rw [List.mem_singleton.mp hnew]
      exact hmade.has
  obtain ⟨h₃, hgrow₃⟩ := h₂.writeMeta hok.linkedListMeta hparts (tables_kept (map_tbl_deactivate _))
  obtain ⟨h₄, hgrow₄⟩ := h₃.seeRows
  refine ⟨h₄.discharge fun c hc ho gr hgr' hid => ?_,
    ((hgrow₁.trans hmade.grows).trans hgrow₃).trans hgrow₄⟩
  obtain rfl := List.mem_singleton.mp ho
  have hname := h₂.relname_of_has hc hmade.has
  rw [hname] at hid
  obtain rfl := h.catalogs gr hgr' graph hgr (Or.inl hid)
  unfold Recorded
  rw [hname]
  refine ⟨label, hlabel₂, rfl, ⟨partitionId, c.oid, true, false⟩, ?_, rfl⟩
  show _ ∈ (db₂.setLinkedListMeta label.linkedListMeta _).linkedListMeta label.linkedListMeta
  rw [db₂.setLinkedListMeta_self]
  exact List.mem_append_right _ List.mem_cons_self

theorem mem_of_findVertexLabel {e : StorageErr} {label : VertexLabelRow}
    (hr : (findVertexLabel graph l e).Runs db label db') :
    db' = db ∧ label ∈ db.vertexLabels graph.vertexLabels ∧ label.id = l := by
  obtain ⟨hfound, rfl⟩ := Prog.runs_read_iff.mp hr
  cases hsearch : (db'.vertexLabels graph.vertexLabels).find? fun row => row.id = l with
  | none => simp [hsearch] at hfound
  | some row =>
    obtain rfl : row = label := by simpa [hsearch] using hfound
    exact ⟨rfl, List.mem_of_find?_eq_some hsearch, by simpa using List.find?_some hsearch⟩

theorem StorageInv.rotateActiveLinkedListTable {name : String} (h : StorageInv db)
    (hr : (Storage.rotateActiveLinkedListTable name ns l).Runs db u db') : StorageInv db' := by
  obtain ⟨graph, db₁, hfind, hr₁⟩ := Prog.runs_bind_iff.mp hr
  obtain ⟨rfl, hgr, -⟩ := StorageInv.mem_of_findGraph hfind
  obtain ⟨label, db₂, hlabel, hcreate⟩ := Prog.runs_bind_iff.mp hr₁
  obtain ⟨rfl, hmem, rfl⟩ := mem_of_findVertexLabel hlabel
  obtain ⟨hinv, hgrow⟩ := h.inv.createNewActiveLinkedList hgr hmem hcreate
  exact h.of_within hinv hgrow (within_createNewActiveLinkedList.runs hcreate (Within.refl _ _))
    (h.ids graph hgr)

/-- A partition is chosen, after a rotation if there is none to choose. -/
theorem Inv.chooseOldest {label : VertexLabelRow} (h : Inv graphs db []) (hgr : graph ∈ graphs)
    (hlabel : label ∈ db.vertexLabels graph.vertexLabels)
    (hr : (Storage.chooseOldest graph.id label.id label ns).Runs db o db') :
    Inv graphs db' [] ∧ Grows db db' := by
  obtain ⟨oldest, db₁, hread, hr₁⟩ := Prog.runs_bind_iff.mp hr
  obtain ⟨-, rfl⟩ := Prog.runs_read_iff.mp hread
  cases oldest with
  | some oldest =>
    obtain ⟨-, rfl⟩ := Prog.runs_ret_iff.mp hr₁
    exact ⟨h, Grows.refl _⟩
  | none =>
    obtain ⟨u₂, db₂, hcreate, hr₂⟩ := Prog.runs_bind_iff.mp hr₁
    obtain ⟨again, db₃, hread', hr₃⟩ := Prog.runs_bind_iff.mp hr₂
    obtain ⟨-, rfl⟩ := Prog.runs_read_iff.mp hread'
    cases again with
    | some again =>
      obtain ⟨-, rfl⟩ := Prog.runs_ret_iff.mp hr₃
      exact h.createNewActiveLinkedList hgr hlabel hcreate
    | none => exact absurd hr₃ (by simp)

theorem StorageInv.compactOldestLinkedListTable {name : String} (h : StorageInv db)
    (hr : (Storage.compactOldestLinkedListTable name ns l).Runs db u db') : StorageInv db' := by
  obtain ⟨graph, db₁, hfind, hr₁⟩ := Prog.runs_bind_iff.mp hr
  obtain ⟨rfl, hgr, -⟩ := StorageInv.mem_of_findGraph hfind
  obtain ⟨label, db₂, hlabel, hr₂⟩ := Prog.runs_bind_iff.mp hr₁
  obtain ⟨rfl, hmem, rfl⟩ := mem_of_findVertexLabel hlabel
  obtain ⟨oldest, db₃, hchoose, hwrite⟩ := Prog.runs_bind_iff.mp hr₂
  obtain ⟨h₃, hgrow₃⟩ := h.inv.chooseOldest hgr hmem hchoose
  have hw := within_chooseOldest.runs hchoose (Within.refl _ _)
  obtain rfl := (Except.ok.inj (Prog.runs_write_iff.mp hwrite)).symm
  have hok := h₃.vertexRows graph hgr label (hgrow₃.vertexLabels _ label hmem)
  have hparts : ∀ part ∈ markCompacted oldest (db₃.linkedListMeta label.linkedListMeta),
      db₃.Has part.tbl (.vertex graph.id label.id (.linkedList part.id)) := by
    intro part hpart
    obtain ⟨row, hrow, hid, htbl⟩ := mem_markCompacted hpart
    rw [← hid, ← htbl]
    exact hok.partitions row hrow
  obtain ⟨h₄, hgrow₄⟩ := h₃.writeMeta hok.linkedListMeta hparts (by
    simpa only [List.append_nil] using
      @tables_kept _ _ [] (map_tbl_markCompacted oldest (db₃.linkedListMeta label.linkedListMeta)))
  exact h.of_within h₄ (hgrow₃.trans hgrow₄)
    (hw.trans ⟨rfl, rfl, Nat.le_refl _, fun _ => Nat.le_refl _, fun _ hc => Or.inl hc⟩) (h.ids graph hgr)

end NeoPostGraph.Storage
