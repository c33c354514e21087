import NeoPostGraph.Storage.Recorded

/-!
# Making the relations of a label

The routines that make a label leave every relation recorded: those they make wait until the row of the
label is inserted, or are found by their names.

Results: `Inv.buildVertexLabelInfrastructure`, `Inv.buildEdgeLabel`, `Inv.setupVertexLabelCatalog`,
`Inv.setupEdgeLabelCatalog`, `Inv.createLabelCatalogTable`.
-/

namespace NeoPostGraph.Storage

variable {db db' : ObjectDb} {graphs : List NpGraphRow} {graph : NpGraphRow} {pending : List Oid}
  {name : RelName} {ns o : Oid} {idx : Option Oid} {g l n : Nat} {u : Unit}

/-! ## Single steps -/

theorem createRelation_runs_iff : (createRelation name ns idx).Runs db o db' ↔
    (∀ c ∈ db.pgClass, c.relname = name → c.relnamespace ≠ ns) ∧ o = db.nextOid ∧
      db' = db.addRelation name ns idx := by
  unfold createRelation
  rw [Prog.runs_step_iff]
  constructor
  · intro h
    split_ifs at h with hexists
    cases h
    exact ⟨fun c hc hname hns => hexists ⟨c, hc, hname, hns⟩, rfl, rfl⟩
  · rintro ⟨hfree, rfl, rfl⟩
    rw [if_neg]
    rintro ⟨c, hc, hname, hns⟩
    exact hfree c hc hname hns

theorem npRelationId_runs_iff : (npRelationId name).Runs db o db' ↔
    db.getRelnameRelid name npNamespaceId = some o ∧ db' = db := by
  unfold npRelationId
  rw [Prog.runs_read_iff]
  refine and_congr_left fun _ => ?_
  cases db.getRelnameRelid name npNamespaceId <;> simp

theorem nextval_runs_iff {seq : Oid} : (nextval seq).Runs db n db' ↔
    db.Exists seq ∧ n = db.seqs seq + 1 ∧ db' = db.advance seq := by
  unfold nextval
  rw [Prog.runs_step_iff]
  constructor
  · intro h
    split_ifs at h with hexists
    cases h
    exact ⟨hexists, rfl, rfl⟩
  · rintro ⟨hexists, rfl, rfl⟩
    rw [if_pos hexists]

/-- What holds after a table or a sequence is made. -/
structure Made (name : RelName) (ns : Oid) (db : ObjectDb) (o : Oid) (db' : ObjectDb) : Prop where
  grows : Grows db db'
  fresh : o = db.nextOid
  entry : ∃ c ∈ db'.pgClass, c.oid = o ∧ c.relname = name ∧ c.relnamespace = ns ∧ c.indrelid = none
  relid : db'.getRelnameRelid name ns = some o
  vertexLabels : db'.vertexLabels = db.vertexLabels
  edgeLabels : ∀ rel, db'.edgeLabels rel = (db.edgeLabels rel).map EdgeLabelRow.see
  linkedListMeta : db'.linkedListMeta = db.linkedListMeta
  seqs : db'.seqs = db.seqs

theorem Made.has (h : Made name ns db o db') : db'.Has o name := by
  obtain ⟨c, hc, hoid, hname, -⟩ := h.entry
  exact ⟨c, hc, hoid, hname⟩

theorem relid_addRelation (hfree : ∀ c ∈ db.pgClass, c.relname = name → c.relnamespace ≠ ns) :
    (db.addRelation name ns idx).getRelnameRelid name ns = some db.nextOid := by
  have hnone : db.pgClass.find? (fun c => decide (c.relname = name ∧ c.relnamespace = ns)) = none := by
    refine List.find?_eq_none.mpr fun c hc => ?_
    simpa using hfree c hc
  show ((db.pgClass ++ [_]).find? _).map PgClass.oid = _
  rw [List.find?_append, hnone]
  simp

theorem createTable_made (hr : (createTable name ns).Runs db o db') : Made name ns db o db' := by
  obtain ⟨hfree, rfl, rfl⟩ := createRelation_runs_iff.mp hr
  refine ⟨Grows.addRelation db name ns none, rfl, ⟨⟨db.nextOid, name, ns, none⟩, ?_, rfl, rfl, rfl, rfl⟩,
    relid_addRelation hfree, rfl, fun _ => rfl, rfl, rfl⟩
  exact List.mem_append_right _ List.mem_cons_self

/-- A table waits to be recorded. -/
theorem Inv.createTable (h : Inv graphs db pending) (hr : (Storage.createTable name ns).Runs db o db') :
    Inv graphs db' (o :: pending) ∧ Made name ns db o db' := by
  have hmade := createTable_made hr
  obtain ⟨-, rfl, rfl⟩ := createRelation_runs_iff.mp hr
  exact ⟨(@addRelation db graphs pending name ns none h (by simp)).1, hmade⟩

/-- A table that is recorded when it is made. -/
theorem Inv.createRecorded (h : Inv graphs db []) (hr : (Storage.createTable name ns).Runs db o db')
    (hrec : Made name ns db o db' → ∀ gr ∈ graphs, gr.id = name.graphId →
      ∀ c ∈ db'.pgClass, c.oid = o → c.relname = name → Recorded db' gr c) :
    Inv graphs db' [] ∧ Made name ns db o db' := by
  obtain ⟨hinv, hmade⟩ := h.createTable hr
  refine ⟨hinv.discharge fun c hc ho gr hgr hid => ?_, hmade⟩
  obtain rfl := List.mem_singleton.mp ho
  have hname := hinv.relname_of_has hc hmade.has
  exact hrec hmade gr hgr (by rw [hid, hname]) c hc rfl hname

/-- An index on a table of the extension's schema. -/
theorem Inv.createIndex {tblName : RelName} (h : Inv graphs db [])
    (hr : (Storage.createIndex tblName name).Runs db u db')
    (htbl : ∃ t, db.getRelnameRelid tblName npNamespaceId = some t ∧
      ∃ c ∈ db.pgClass, c.oid = t ∧ c.relname.graphId = name.graphId ∧ c.indrelid = none)
    (hrec : Grows db db' → ∀ gr ∈ graphs, gr.id = name.graphId → ∀ c ∈ db'.pgClass, c.relname = name →
      c.indrelid = db.getRelnameRelid tblName npNamespaceId → Recorded db' gr c) :
    Inv graphs db' [] ∧ Grows db db' := by
  obtain ⟨t, db₁, htblRuns, hr₁⟩ := Prog.runs_bind_iff.mp hr
  obtain ⟨hfound, rfl⟩ := npRelationId_runs_iff.mp htblRuns
  obtain ⟨o, db₂, hmake, hr₂⟩ := Prog.runs_bind_iff.mp hr₁
  obtain ⟨-, rfl⟩ := Prog.runs_ret_iff.mp hr₂
  obtain ⟨hfree, rfl, rfl⟩ := createRelation_runs_iff.mp hmake
  obtain ⟨t', hfound', hentry⟩ := htbl
  obtain rfl := Option.some.inj (hfound.symm.trans hfound')
  have hidx : ∀ a, some t = some a → ∃ c ∈ db₁.pgClass, c.oid = a ∧
      c.relname.graphId = name.graphId ∧ c.indrelid = none := by
    intro a ha
    obtain rfl := Option.some.inj ha
    exact hentry
  obtain ⟨hinv, hgrow⟩ := @addRelation db₁ graphs [] name npNamespaceId (some t) h hidx
  refine ⟨hinv.discharge fun c hc ho gr hgr hid => ?_, hgrow⟩
  have hentry' : ⟨db₁.nextOid, name, npNamespaceId, some t⟩ ∈
      (db₁.addRelation name npNamespaceId (some t)).pgClass :=
    List.mem_append_right _ List.mem_cons_self
  obtain rfl := List.inj_on_of_nodup_map hinv.distinct hc hentry' (List.mem_singleton.mp ho)
  exact hrec hgrow gr hgr hid _ hc rfl hfound.symm

/-! ## Vertex labels -/

theorem insertVertexLlMeta_runs_iff {part : LinkedListMeta} :
    (insertVertexLlMeta g l ns part).Runs db u db' ↔
      ∃ m, db.getRelnameRelid (.vertex g l .linkedListMeta) ns = some m ∧
        db' = (db.setLinkedListMeta m (db.linkedListMeta m ++ [part])).commandCounterIncrement := by
  unfold insertVertexLlMeta
  rw [Prog.runs_write_iff]
  cases db.getRelnameRelid (.vertex g l .linkedListMeta) ns <;> simp [eq_comm]

theorem insertVertexLabel_runs_iff {row : VertexLabelRow} :
    (insertVertexLabel g row).Runs db u db' ↔
      ∃ rel, db.getRelnameRelid (.graph g .vertexLabel) npNamespaceId = some rel ∧
        db' = (db.setVertexLabels rel (db.vertexLabels rel ++ [row])).commandCounterIncrement := by
  unfold insertVertexLabel
  simp only [Prog.runs_bind_iff, npRelationId_runs_iff, Prog.runs_write_iff, Except.ok.injEq]
  constructor
  · rintro ⟨rel, db₁, ⟨hfound, rfl⟩, rfl⟩
    exact ⟨rel, hfound, rfl⟩
  · rintro ⟨rel, hfound, rfl⟩
    exact ⟨rel, db, ⟨hfound, rfl⟩, rfl⟩

/-- The dictionary of a label that has its row. -/
theorem Inv.createVertexPropertyDictionary (h : Inv graphs db [])
    (hrow : ∀ gr ∈ graphs, gr.id = g → ∃ row ∈ db.vertexLabels gr.vertexLabels, row.id = l)
    (hr : (createVertexPropertyDictionary g l).Runs db u db') : Inv graphs db' [] ∧ Grows db db' := by
  obtain ⟨dict, db₁, hdict, hr₁⟩ := Prog.runs_bind_iff.mp hr
  obtain ⟨seq, db₂, hseq, hidx⟩ := Prog.runs_bind_iff.mp hr₁
  obtain ⟨h₁, hmade₁⟩ := h.createRecorded hdict fun hmade gr hgr hid c _ hoid hname => by
    obtain ⟨row, hmem, hl⟩ := hrow gr hgr hid
    unfold Recorded
    rw [hname]
    refine ⟨row, hmade.grows.vertexLabels _ row hmem, hl, ?_⟩
    show _ = some c.oid
    rw [hname, hoid]
    exact hmade.relid
  obtain ⟨h₂, hmade₂⟩ := h₁.createRecorded hseq fun hmade gr hgr hid c _ hoid hname => by
    obtain ⟨row, hmem, hl⟩ := hrow gr hgr hid
    unfold Recorded
    rw [hname]
    refine ⟨row, (hmade₁.grows.trans hmade.grows).vertexLabels _ row hmem, hl, ?_⟩
    show _ = some c.oid
    rw [hname, hoid]
    exact hmade.relid
  have hfound := hmade₂.grows.relid hmade₁.relid
  obtain ⟨c₁, hc₁, hoid, hname, -, hno⟩ := hmade₁.entry
  obtain ⟨h₃, hgrow⟩ := h₂.createIndex hidx
    ⟨dict, hfound, c₁, hmade₂.grows.mem hc₁, hoid, by rw [hname]; rfl, hno⟩
    fun hgrow gr hgr hid c _ hcname hcidx => by
      obtain ⟨row, hmem, rfl⟩ := hrow gr hgr hid
      unfold Recorded
      rw [hcname]
      exact ⟨row, ((hmade₁.grows.trans hmade₂.grows).trans hgrow).vertexLabels _ row hmem, rfl,
        dict, hcidx.trans hfound, hgrow.relid hfound⟩
  exact ⟨h₃, (hmade₁.grows.trans hmade₂.grows).trans hgrow⟩

/-- **The relations of a vertex label** are all recorded. -/
theorem Inv.buildVertexLabelInfrastructure (h : Inv graphs db []) (hgr : graph ∈ graphs)
    (hid : graph.id = g)
    (hnamed : db.getRelnameRelid (.graph g .vertexLabel) npNamespaceId = some graph.vertexLabels)
    (hr : (buildVertexLabelInfrastructure g l ns).Runs db u db') : Inv graphs db' [] ∧ Grows db db' := by
  subst hid
  obtain ⟨tbl, db₁, htbl, hr₁⟩ := Prog.runs_bind_iff.mp hr
  obtain ⟨physMap, db₂, hphys, hr₂⟩ := Prog.runs_bind_iff.mp hr₁
  obtain ⟨arraylist, db₃, harray, hr₃⟩ := Prog.runs_bind_iff.mp hr₂
  obtain ⟨llSeq, db₄, hllSeq, hr₄⟩ := Prog.runs_bind_iff.mp hr₃
  obtain ⟨llId, db₅, hnext, hr₅⟩ := Prog.runs_bind_iff.mp hr₄
  obtain ⟨llTable, db₆, hllTable, hr₆⟩ := Prog.runs_bind_iff.mp hr₅
  obtain ⟨llMeta, db₇, hllMeta, hr₇⟩ := Prog.runs_bind_iff.mp hr₆
  obtain ⟨u₈, db₈, hpart, hr₈⟩ := Prog.runs_bind_iff.mp hr₇
  obtain ⟨annots, db₉, hannots, hr₉⟩ := Prog.runs_bind_iff.mp hr₈
  obtain ⟨u₁₀, db₁₀, hinsert, hr₁₀⟩ := Prog.runs_bind_iff.mp hr₉
  obtain ⟨idSeq, db₁₁, hidSeq, hdict⟩ := Prog.runs_bind_iff.mp hr₁₀
  obtain ⟨h₁, hmade₁⟩ := h.createTable htbl
  obtain ⟨h₂, hmade₂⟩ := h₁.createTable hphys
  obtain ⟨h₃, hmade₃⟩ := h₂.createTable harray
  obtain ⟨h₄, hmade₄⟩ := h₃.createTable hllSeq
  obtain ⟨-, hllId, rfl⟩ := nextval_runs_iff.mp hnext
  obtain ⟨h₅, hgrow₅⟩ := h₄.advance llSeq
  obtain ⟨h₆, hmade₆⟩ := h₅.createTable hllTable
  obtain ⟨h₇, hmade₇⟩ := h₆.createTable hllMeta
  -- the first partition
  obtain ⟨m, hm, rfl⟩ := insertVertexLlMeta_runs_iff.mp hpart
  obtain rfl := Option.some.inj (hmade₇.relid.symm.trans hm)
  have hempty : db₇.linkedListMeta llMeta = [] := by
    rw [hmade₇.linkedListMeta, hmade₇.fresh]
    exact (h₆.unused _ (Nat.le_refl _)).2.2
  have hparts : ∀ part ∈ db₇.linkedListMeta llMeta ++ [⟨llId, llTable, true, false⟩],
      db₇.Has part.tbl (.vertex graph.id l (.linkedList part.id)) := by
    rw [hempty]
    intro part hmem
    obtain rfl := List.mem_singleton.mp hmem
    exact hmade₇.grows.has hmade₆.has
  obtain ⟨h₈', hgrow₈'⟩ := h₇.writeMeta hmade₇.has hparts
    fun part hmem => ⟨part, List.mem_append_left _ hmem, rfl⟩
  obtain ⟨h₈, hgrow₈⟩ := h₈'.seeRows
  obtain ⟨h₉, hmade₉⟩ := h₈.createTable hannots
  -- the row of the label
  have hgrow₉ : Grows db₇ db₉ := (hgrow₈'.trans hgrow₈).trans hmade₉.grows
  have hgrow₆ : Grows db₆ db₉ := hmade₇.grows.trans hgrow₉
  have hgrow₄ : Grows db₄ db₉ := (hgrow₅.trans hmade₆.grows).trans hgrow₆
  have hgrow₃ : Grows db₃ db₉ := hmade₄.grows.trans hgrow₄
  have hgrow₂ : Grows db₂ db₉ := hmade₃.grows.trans hgrow₃
  have hgrow₁ : Grows db₁ db₉ := hmade₂.grows.trans hgrow₂
  have hgrow : Grows db db₉ := hmade₁.grows.trans hgrow₁
  obtain ⟨rel, hrel, rfl⟩ := insertVertexLabel_runs_iff.mp hinsert
  obtain rfl := Option.some.inj (hrel.symm.trans (hgrow.relid hnamed))
  have hmetaRows : db₉.linkedListMeta llMeta = [⟨llId, llTable, true, false⟩] := by
    rw [hmade₉.linkedListMeta]
    exact (db₇.setLinkedListMeta_self _).trans (by rw [hempty]; rfl)
  have hrow : VertexRowOk db₉ graph.id ⟨l, tbl, physMap, llMeta, llSeq, arraylist, annots⟩ := by
    refine ⟨hgrow₁.has hmade₁.has, hgrow₂.has hmade₂.has, hgrow₉.has hmade₇.has, hgrow₄.has hmade₄.has,
      hgrow₃.has hmade₃.has, hmade₉.has, fun part hmem => ?_⟩
    rw [hmetaRows] at hmem
    obtain rfl := List.mem_singleton.mp hmem
    exact hgrow₆.has hmade₆.has
  obtain ⟨h₁₀', hgrow₁₀'⟩ := h₉.insertVertexLabel hgr (h₉.lt_of_has (Inv.has_of_relid hrel)) hrow
  obtain ⟨h₁₀, hgrow₁₀⟩ := h₁₀'.seeRows
  have hgrow' := hgrow₁₀'.trans hgrow₁₀
  have hmem : ⟨l, tbl, physMap, llMeta, llSeq, arraylist, annots⟩ ∈
      (db₉.setVertexLabels graph.vertexLabels (db₉.vertexLabels graph.vertexLabels ++
        [⟨l, tbl, physMap, llMeta, llSeq, arraylist, annots⟩])).commandCounterIncrement.vertexLabels
        graph.vertexLabels := by
    show _ ∈ (db₉.setVertexLabels graph.vertexLabels _).vertexLabels graph.vertexLabels
    rw [db₉.setVertexLabels_self]
    exact List.mem_append_right _ List.mem_cons_self
  have hrec : ∀ rel : VertexRel, ∀ c ∈ db₉.pgClass, db₉.Has c.oid (.vertex graph.id l rel) →
      VertexRecorded db₉ graph.id ⟨l, tbl, physMap, llMeta, llSeq, arraylist, annots⟩ c rel →
      ∀ gr ∈ graphs, gr.id = c.relname.graphId → Recorded (db₉.setVertexLabels graph.vertexLabels
        (db₉.vertexLabels graph.vertexLabels ++
          [⟨l, tbl, physMap, llMeta, llSeq, arraylist, annots⟩])).commandCounterIncrement gr c := by
    intro rel c hc hhas hspec gr hgr' hid
    have hname := h₉.relname_of_has hc hhas
    rw [hname] at hid
    obtain rfl := h₉.catalogs gr hgr' graph hgr (Or.inl hid)
    unfold Recorded
    rw [hname]
    exact ⟨_, hmem, rfl, by cases rel <;> exact hspec⟩
  have h₁₀' := h₁₀.discharge fun c hc ho => by
    simp only [List.mem_cons, List.not_mem_nil, or_false] at ho
    rcases ho with ho | ho | ho | ho | ho | ho | ho
    · exact hrec .annotations c hc (ho ▸ hmade₉.has) ho
    · exact hrec .linkedListMeta c hc (ho ▸ hgrow₉.has hmade₇.has) ho
    · exact hrec (.linkedList llId) c hc (ho ▸ hgrow₆.has hmade₆.has)
        ⟨_, by rw [hmetaRows]; exact List.mem_cons_self, ho.symm⟩
    · exact hrec .linkedListSeq c hc (ho ▸ hgrow₄.has hmade₄.has) ho
    · exact hrec .arraylist c hc (ho ▸ hgrow₃.has hmade₃.has) ho
    · exact hrec .physMap c hc (ho ▸ hgrow₂.has hmade₂.has) ho
    · exact hrec .tbl c hc (ho ▸ hgrow₁.has hmade₁.has) ho
  -- what is found by its name
  have hrowOf : ∀ gr ∈ graphs, gr.id = graph.id → ∃ row ∈ (db₉.setVertexLabels graph.vertexLabels
      (db₉.vertexLabels graph.vertexLabels ++
        [⟨l, tbl, physMap, llMeta, llSeq, arraylist, annots⟩])).commandCounterIncrement.vertexLabels
        gr.vertexLabels, row.id = l := by
    intro gr hgr' hid
    obtain rfl := h₉.catalogs gr hgr' graph hgr (Or.inl hid)
    exact ⟨_, hmem, rfl⟩
  obtain ⟨h₁₁, hmade₁₁⟩ := h₁₀'.createRecorded hidSeq fun hmade gr hgr hid c _ hoid hname => by
    obtain ⟨row, hrow, hl⟩ := hrowOf gr hgr hid
    unfold Recorded
    rw [hname]
    refine ⟨row, hmade.grows.vertexLabels _ row hrow, hl, ?_⟩
    show _ = some c.oid
    rw [hname, hoid]
    exact hmade.relid
  obtain ⟨h₁₂, hgrow₁₂⟩ := h₁₁.createVertexPropertyDictionary (fun gr hgr hid => by
    obtain ⟨row, hrow, hl⟩ := hrowOf gr hgr hid
    exact ⟨row, hmade₁₁.grows.vertexLabels _ row hrow, hl⟩) hdict
  exact ⟨h₁₂, ((hgrow.trans hgrow').trans hmade₁₁.grows).trans hgrow₁₂⟩

/-! ## Edge labels -/

theorem insertLabel_runs_iff {row : EdgeLabelRow} :
    (insertLabel g row).Runs db u db' ↔
      ∃ rel, db.getRelnameRelid (.graph g .edgeLabel) npNamespaceId = some rel ∧
        db' = (db.setEdgeLabels rel (db.edgeLabels rel ++ [row])).commandCounterIncrement := by
  unfold insertLabel
  simp only [Prog.runs_bind_iff, npRelationId_runs_iff, Prog.runs_write_iff, Except.ok.injEq]
  constructor
  · rintro ⟨rel, db₁, ⟨hfound, rfl⟩, rfl⟩
    exact ⟨rel, hfound, rfl⟩
  · rintro ⟨rel, hfound, rfl⟩
    exact ⟨rel, db, ⟨hfound, rfl⟩, rfl⟩

theorem map_id_see (rows : List EdgeLabelRow) :
    (rows.map EdgeLabelRow.see).map EdgeLabelRow.id = rows.map EdgeLabelRow.id := by
  rw [List.map_map]
  rfl

/-- What holds after the table for annotations is made, where there is one. -/
structure MadeAnnotations (g l : Nat) (ns : Oid) (db : ObjectDb) (annotTbl : Option Oid) (db' : ObjectDb) :
    Prop where
  grows : Grows db db'
  entry : ∀ a, annotTbl = some a → ∃ c ∈ db'.pgClass, c.oid = a ∧
    c.relname = .edge g l .annotations ∧ c.relnamespace = ns ∧ c.indrelid = none
  ids : ∀ rel, (db'.edgeLabels rel).map EdgeLabelRow.id = (db.edgeLabels rel).map EdgeLabelRow.id
  seqs : db'.seqs = db.seqs

theorem Inv.createEdgeAnnotations {annotated : Bool} {annotTbl : Option Oid} (h : Inv graphs db pending)
    (hr : (Storage.createEdgeAnnotations g l ns annotated).Runs db annotTbl db') :
    Inv graphs db' (annotTbl.toList ++ pending) ∧ MadeAnnotations g l ns db annotTbl db' := by
  unfold Storage.createEdgeAnnotations at hr
  split at hr
  · obtain ⟨o, db₁, hmake, hr₁⟩ := Prog.runs_bind_iff.mp hr
    obtain ⟨rfl, rfl⟩ := Prog.runs_ret_iff.mp hr₁
    obtain ⟨hinv, hmade⟩ := h.createTable hmake
    refine ⟨hinv, hmade.grows, fun a ha => ?_, fun rel => ?_, hmade.seqs⟩
    · obtain rfl := Option.some.inj ha
      exact hmade.entry
    · rw [hmade.edgeLabels, map_id_see]
  · obtain ⟨rfl, rfl⟩ := Prog.runs_ret_iff.mp hr
    exact ⟨h, Grows.refl _, nofun, fun _ => rfl, rfl⟩

/-- **The relations of an edge label** are all recorded. -/
theorem Inv.buildEdgeLabel {annotated : Bool} (h : Inv graphs db []) (hgr : graph ∈ graphs)
    (hnamed : db.getRelnameRelid (.graph graph.id .edgeLabel) npNamespaceId = some graph.edgeLabels)
    (hnew : ∀ r ∈ db.edgeLabels graph.edgeLabels, r.id ≠ l) (hseq : l ≤ db.seqs graph.edgeIdSeq)
    (hr : (Storage.buildEdgeLabel graph.id l graph.namespaceOid annotated).Runs db u db') :
    Inv graphs db' [] ∧ Grows db db' := by
  obtain ⟨tbl, db₁, htbl, hr₁⟩ := Prog.runs_bind_iff.mp hr
  obtain ⟨physMap, db₂, hphys, hr₂⟩ := Prog.runs_bind_iff.mp hr₁
  obtain ⟨annotTbl, db₃, hannots, hr₃⟩ := Prog.runs_bind_iff.mp hr₂
  obtain ⟨u₄, db₄, hinsert, hr₄⟩ := Prog.runs_bind_iff.mp hr₃
  obtain ⟨idSeq, db₅, hidSeq, hr₅⟩ := Prog.runs_bind_iff.mp hr₄
  obtain ⟨-, rfl⟩ := Prog.runs_ret_iff.mp hr₅
  obtain ⟨h₁, hmade₁⟩ := h.createTable htbl
  obtain ⟨h₂, hmade₂⟩ := h₁.createTable hphys
  obtain ⟨h₃, hmade₃⟩ := h₂.createEdgeAnnotations hannots
  have hgrow₁ : Grows db₁ db₃ := hmade₂.grows.trans hmade₃.grows
  have hgrow : Grows db db₃ := hmade₁.grows.trans hgrow₁
  -- the row of the label
  obtain ⟨rel, hrel, rfl⟩ := insertLabel_runs_iff.mp hinsert
  obtain rfl := Option.some.inj (hrel.symm.trans (hgrow.relid hnamed))
  have hids : (db₃.edgeLabels graph.edgeLabels).map EdgeLabelRow.id =
      (db.edgeLabels graph.edgeLabels).map EdgeLabelRow.id := by
    rw [hmade₃.ids, hmade₂.edgeLabels, map_id_see, hmade₁.edgeLabels, map_id_see]
  have hseqs : db₃.seqs = db.seqs := by rw [hmade₃.seqs, hmade₂.seqs, hmade₁.seqs]
  have hrow : EdgeRowOk db₃ graph ⟨l, tbl, physMap, annotTbl, annotTbl⟩ :=
    ⟨hgrow₁.has hmade₁.has, hmade₃.grows.has hmade₂.has, hmade₃.entry, Or.inr rfl⟩
  have hnew' : ∀ r ∈ db₃.edgeLabels graph.edgeLabels, r.id ≠ l := by
    intro r hr he
    have hmem : r.id ∈ (db₃.edgeLabels graph.edgeLabels).map EdgeLabelRow.id := List.mem_map_of_mem hr
    rw [hids] at hmem
    obtain ⟨r', hr', he'⟩ := List.mem_map.mp hmem
    exact hnew r' hr' (he'.trans he)
  obtain ⟨h₄', hgrow₄'⟩ := h₃.insertLabel hgr (h₃.lt_of_has (Inv.has_of_relid hrel)) hrow hnew'
    (hseqs ▸ hseq)
  obtain ⟨h₄, hgrow₄⟩ := h₄'.seeRows
  obtain ⟨row, hmem, hid, htblEq, hphysEq, hannotEq⟩ := hgrow₄.edgeLabels graph.edgeLabels
    ⟨l, tbl, physMap, annotTbl, annotTbl⟩ (by
      rw [db₃.setEdgeLabels_self]
      exact List.mem_append_right _ List.mem_cons_self)
  have hrec : ∀ rel : EdgeRel, ∀ c ∈ db₃.pgClass, db₃.Has c.oid (.edge graph.id l rel) →
      EdgeRecorded (db₃.setEdgeLabels graph.edgeLabels (db₃.edgeLabels graph.edgeLabels ++
        [⟨l, tbl, physMap, annotTbl, annotTbl⟩])).commandCounterIncrement row c rel →
      ∀ gr ∈ graphs, gr.id = c.relname.graphId → Recorded (db₃.setEdgeLabels graph.edgeLabels
        (db₃.edgeLabels graph.edgeLabels ++
          [⟨l, tbl, physMap, annotTbl, annotTbl⟩])).commandCounterIncrement gr c := by
    intro rel c hc hhas hspec gr hgr' hgid
    have hname := h₃.relname_of_has hc hhas
    rw [hname] at hgid
    obtain rfl := h₃.catalogs gr hgr' graph hgr (Or.inl hgid)
    unfold Recorded
    rw [hname]
    exact ⟨row, hmem, hid, hspec⟩
  have h₅ := h₄.discharge fun c hc ho => by
    simp only [List.mem_append, List.mem_cons, List.not_mem_nil, or_false, Option.mem_toList]
      at ho
    rcases ho with ho | ho | ho
    · obtain ⟨c', hc', hoid, hname, -⟩ := hmade₃.entry _ ho
      exact hrec .annotations c hc ⟨c', hc', hoid, hname⟩ (hannotEq _ ho)
    · exact hrec .physMap c hc (ho ▸ hmade₃.grows.has hmade₂.has) (ho.trans hphysEq.symm)
    · exact hrec .tbl c hc (ho ▸ hgrow₁.has hmade₁.has) (ho.trans htblEq.symm)
  obtain ⟨h₆, hmade₆⟩ := h₅.createRecorded hidSeq fun hmade gr hgr' hgid c _ hoid hname => by
    obtain rfl := h₃.catalogs gr hgr' graph hgr (Or.inl hgid)
    obtain ⟨row', hmem', hid', -⟩ := hmade.grows.edgeLabels _ row hmem
    unfold Recorded
    rw [hname]
    refine ⟨row', hmem', hid'.trans hid, ?_⟩
    show _ = some c.oid
    rw [hname, hoid]
    exact hmade.relid
  exact ⟨h₆, ((hgrow.trans hgrow₄').trans hgrow₄).trans hmade₆.grows⟩

/-- The next id of the graph's edge labels is new. -/
theorem Inv.buildNextEdgeLabel {annotated : Bool} {db₁ : ObjectDb} (h : Inv graphs db [])
    (hgr : graph ∈ graphs)
    (hnamed : db.getRelnameRelid (.graph graph.id .edgeLabel) npNamespaceId = some graph.edgeLabels)
    (hnext : (nextval graph.edgeIdSeq).Runs db l db₁)
    (hr : (Storage.buildEdgeLabel graph.id l graph.namespaceOid annotated).Runs db₁ u db') :
    Inv graphs db' [] ∧ Grows db db' := by
  obtain ⟨-, rfl, rfl⟩ := nextval_runs_iff.mp hnext
  obtain ⟨h₁, hgrow₁⟩ := h.advance graph.edgeIdSeq
  obtain ⟨h₂, hgrow₂⟩ := h₁.buildEdgeLabel hgr (hgrow₁.relid hnamed)
    (fun r hr => Nat.ne_of_lt (Nat.lt_succ_of_le ((h.edgeIds graph hgr).2 r hr)))
    (Nat.le_of_eq (db.seqs_advance_self _).symm) hr
  exact ⟨h₂, hgrow₁.trans hgrow₂⟩

/-- The id of a vertex label does not matter. -/
theorem Inv.buildNextVertexLabel {seq : Oid} {db₁ : ObjectDb} (h : Inv graphs db []) (hgr : graph ∈ graphs)
    (hnamed : db.getRelnameRelid (.graph graph.id .vertexLabel) npNamespaceId = some graph.vertexLabels)
    (hnext : (nextval seq).Runs db l db₁)
    (hr : (Storage.buildVertexLabelInfrastructure graph.id l ns).Runs db₁ u db') :
    Inv graphs db' [] ∧ Grows db db' := by
  obtain ⟨-, rfl, rfl⟩ := nextval_runs_iff.mp hnext
  obtain ⟨h₁, hgrow₁⟩ := h.advance seq
  obtain ⟨h₂, hgrow₂⟩ := h₁.buildVertexLabelInfrastructure hgr rfl (hgrow₁.relid hnamed) hr
  exact ⟨h₂, hgrow₁.trans hgrow₂⟩

end NeoPostGraph.Storage
