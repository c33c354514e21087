import NeoPostGraph.Storage.MoveRun
import NeoPostGraph.Storage.Recreate

/-!
# What holds of graphs that have been moved and renamed

Results, in every history of the calls that make, change, move, rename and drop graphs:
* `MoveRun.names_unique`: no two relations have the same name, in whatever schemas they are.
* `MoveRun.labels_made`: a label can be made, and a partition, for none of their relations is there yet.
* `MoveRun.alterGraph_exact`: `alter_graph` fails only when the schema has a graph of the name. It moves every
  relation of the graph but for a table for annotations that the running command does not see.
* `MoveRun.alterGraph_usable_iff`: a graph that is moved out of the extension's own schema gets no more
  labels, since its catalogs have left that schema with it; any other can be used as before.
* `MoveRun.droppedCleanly_iff`: a graph that has been moved or renamed is dropped as cleanly as before.
-/

namespace NeoPostGraph.Storage

variable {db db' before : ObjectDb} {graph : NpGraphRow} {names : List RelName} {name : RelName}
  {ns o t newNsp : Oid} {g l : Nat} {u : Unit}

/-! ## Labels can be made -/

/-- An edge label of a new id can be made, with a table for annotations or without. -/
theorem Taken.buildEdgeLabelOf (h : Taken db g names) (ns : Oid) (annotated : Bool)
    (hnew : ∀ rel, RelName.edge g l rel ∉ names)
    (hnamed : db.getRelnameRelid (.graph g .edgeLabel) npNamespaceId = some t) :
    ∃ db', (Storage.buildEdgeLabel g l ns annotated).Runs db () db' := by
  cases annotated with
  | false =>
    obtain ⟨db', -, hr, -⟩ := h.buildEdgeLabel ns hnew hnamed
    exact ⟨db', hr⟩
  | true =>
    obtain ⟨tbl, db₁, hr₁, -, -, h₁⟩ := h.createTable (.edge g l .tbl) ns rfl (hnew _)
    obtain ⟨physMap, db₂, hr₂, -, -, h₂⟩ :=
      h₁.taken.createTable (.edge g l .physMap) ns rfl (by simp [hnew])
    obtain ⟨annots, db₃, hr₃, -, -, h₃⟩ :=
      h₂.taken.createTable (.edge g l .annotations) ns rfl (by simp [hnew])
    obtain ⟨db₄, hr₄, h₄⟩ := h₃.taken.insertLabel (h₃.relid (h₂.relid (h₁.relid hnamed)))
      ⟨l, tbl, physMap, some annots, some annots⟩
    obtain ⟨idSeq, db₅, hr₅, -, -, -⟩ :=
      h₄.taken.createTable (.edge g l .idSeq) npNamespaceId rfl (by simp [hnew])
    have hannots : (createEdgeAnnotations g l ns true).Runs db₂ (some annots) db₃ :=
      hr₃.bind (Prog.runs_ret_iff.mpr ⟨rfl, rfl⟩)
    exact ⟨db₅, hr₁.bind (hr₂.bind (hannots.bind (hr₄.bind (hr₅.bind (Prog.runs_ret_iff.mpr ⟨rfl, rfl⟩)))))⟩

theorem taken_relnames (db : ObjectDb) (g : Nat) : Taken db g db.relnames :=
  fun _ hc _ => List.mem_map_of_mem hc

namespace MoveInv

theorem findGraph (h : MoveInv db) (hgr : graph ∈ db.npGraph) :
    (Storage.findGraph graph.name graph.namespaceOid).Runs db graph db :=
  (findGraph_runs_iff h.storage).mpr ⟨⟨hgr, rfl, rfl⟩, rfl⟩

theorem createVlabel_runs (h : MoveInv db) (hgr : graph ∈ db.npGraph) :
    ∃ db', (createVlabel graph.name graph.namespaceOid).Runs db () db' := by
  have hok := h.storage.rows graph hgr
  obtain ⟨l, db₁, hnext, h₁⟩ := (taken_relnames db graph.id).nextval hok.vertexIdSeq
  obtain ⟨-, hl, rfl⟩ := nextval_runs_iff.mp hnext
  have hnew : ∀ rel, RelName.vertex graph.id l rel ∉ db.relnames := fun rel =>
    h.names.not_mem_of_lt hok.vertexIdSeq (by rw [hl]; exact Nat.lt_succ_self _)
      (RelName.mem_numbers_vertex graph.id l rel)
  obtain ⟨db₂, -, hbuild, -⟩ :=
    h₁.taken.buildVertexLabelInfrastructure graph.namespaceOid hnew (h₁.relid hok.vertexNamed)
  exact ⟨db₂, (h.findGraph hgr).bind (hnext.bind hbuild)⟩

theorem createElabel_runs (h : MoveInv db) (hgr : graph ∈ db.npGraph) (annotated : Bool) :
    ∃ db', (createElabel graph.name graph.namespaceOid annotated).Runs db () db' := by
  have hok := h.storage.rows graph hgr
  obtain ⟨l, db₁, hnext, h₁⟩ := (taken_relnames db graph.id).nextval hok.edgeIdSeq
  obtain ⟨-, hl, rfl⟩ := nextval_runs_iff.mp hnext
  have hnew : ∀ rel, RelName.edge graph.id l rel ∉ db.relnames := fun rel =>
    h.names.not_mem_of_lt hok.edgeIdSeq (by rw [hl]; exact Nat.lt_succ_self _) (List.mem_singleton.mpr rfl)
  obtain ⟨db₂, hbuild⟩ :=
    h₁.taken.buildEdgeLabelOf graph.namespaceOid annotated hnew (h₁.relid hok.edgeNamed)
  exact ⟨db₂, (h.findGraph hgr).bind (hnext.bind hbuild)⟩

theorem rotate_runs (h : MoveInv db) (hgr : graph ∈ db.npGraph) {label : VertexLabelRow}
    (hlabel : label ∈ db.vertexLabels graph.vertexLabels) :
    ∃ db', (rotateActiveLinkedListTable graph.name graph.namespaceOid label.id).Runs db () db' := by
  obtain ⟨row, hfind⟩ : ∃ row, (db.vertexLabels graph.vertexLabels).find? (fun r => r.id = label.id) =
      some row := by
    cases hsearch : (db.vertexLabels graph.vertexLabels).find? fun r => r.id = label.id with
    | none => exact absurd (List.find?_eq_none.mp hsearch label hlabel) (by simp)
    | some row => exact ⟨row, rfl⟩
  have hid : row.id = label.id := by simpa using List.find?_some hfind
  have hfound : (findVertexLabel graph label.id .noLinkedListSetup).Runs db row db :=
    Prog.runs_read_iff.mpr ⟨by rw [hfind], rfl⟩
  have hok := h.storage.inv.vertexRows graph hgr row (List.mem_of_find?_eq_some hfind)
  obtain ⟨p, db₁, hnext, h₁⟩ := (taken_relnames db graph.id).nextval hok.linkedListSeq
  obtain ⟨-, hp, rfl⟩ := nextval_runs_iff.mp hnext
  have hnew : RelName.vertex graph.id row.id (.linkedList p) ∉ db.relnames :=
    h.names.not_mem_of_lt hok.linkedListSeq (by rw [hp]; exact Nat.lt_succ_self _)
      (List.mem_cons_of_mem _ (List.mem_singleton.mpr rfl))
  obtain ⟨o, db₂, hmake, -, -, -⟩ := h₁.taken.createTable (.vertex graph.id row.id (.linkedList p))
    graph.namespaceOid rfl hnew
  rw [hid] at hmake
  exact ⟨_, (h.findGraph hgr).bind (hfound.bind (hnext.bind (hmake.bind (Prog.runs_write_iff.mpr rfl))))⟩

end MoveInv

/-- A vertex label is entered in a catalog that is in the extension's schema. -/
theorem catalog_of_buildVertexLabelInfrastructure
    (hr : (buildVertexLabelInfrastructure g l ns).Runs db u db') :
    ∃ c ∈ db.pgClass, c.relname = .graph g .vertexLabel ∧ c.relnamespace = npNamespaceId := by
  obtain ⟨tbl, db₁, htbl, hr₁⟩ := Prog.runs_bind_iff.mp hr
  obtain ⟨physMap, db₂, hphys, hr₂⟩ := Prog.runs_bind_iff.mp hr₁
  obtain ⟨arraylist, db₃, harray, hr₃⟩ := Prog.runs_bind_iff.mp hr₂
  obtain ⟨llSeq, db₄, hllSeq, hr₄⟩ := Prog.runs_bind_iff.mp hr₃
  obtain ⟨llId, db₅, hnext, hr₅⟩ := Prog.runs_bind_iff.mp hr₄
  obtain ⟨llTable, db₆, hllTable, hr₆⟩ := Prog.runs_bind_iff.mp hr₅
  obtain ⟨llMeta, db₇, hllMeta, hr₇⟩ := Prog.runs_bind_iff.mp hr₆
  obtain ⟨u₈, db₈, hpart, hr₈⟩ := Prog.runs_bind_iff.mp hr₇
  obtain ⟨annots, db₉, hannots, hr₉⟩ := Prog.runs_bind_iff.mp hr₈
  obtain ⟨u₁₀, db₁₀, hinsert, -⟩ := Prog.runs_bind_iff.mp hr₉
  have hadds := ((((((((adds_createTable htbl).trans (adds_createTable hphys)).trans
    (adds_createTable harray)).trans (adds_createTable hllSeq)).trans (adds_nextval hnext).1).trans
    (adds_createTable hllTable)).trans (adds_createTable hllMeta)).trans
    (adds_insertVertexLlMeta hpart)).trans (adds_createTable hannots)
  obtain ⟨rel, hrel, -⟩ := insertVertexLabel_runs_iff.mp hinsert
  unfold ObjectDb.getRelnameRelid at hrel
  obtain ⟨c, hc, -⟩ := Option.map_eq_some_iff.mp hrel
  have hspec : c.relname = .graph g .vertexLabel ∧ c.relnamespace = npNamespaceId := by
    simpa using List.find?_some hc
  obtain ⟨more, hmore, hnames⟩ := hadds.pgClass
  have hmem := List.mem_of_find?_eq_some hc
  rw [hmore] at hmem
  refine ⟨c, (List.mem_append.mp hmem).resolve_right fun hnew => ?_, hspec⟩
  have hin := List.mem_map_of_mem (f := PgClass.relname) hnew
  rw [hnames, hspec.1] at hin
  simp at hin

/-! ## In every history -/

/-- A call that has run. -/
theorem MoveRun.step (h : MoveRun before db) (c : MoveCall) (hs : c.Safe db)
    (hok : (c.run.exec db).1 = .ok ()) : MoveRun before (c.run.exec db).2 :=
  h.call c hs (Prog.runs_of_ok hok)

/-- The state after calls, each in a command of its own. -/
def afterMoves (calls : List MoveCall) : ObjectDb :=
  calls.foldl (fun db c => (c.run.exec db).2.commandCounterIncrement) .empty

/-- A graph with labels is moved and renamed, and gets an annotation in between. -/
def movedCalls : List MoveCall :=
  [.storage (.createGraph "g" 2200), .storage (.createElabel "g" 2200 false), .alterGraph "g" 2300 2200,
    .storage (.addAnnotationLabel "g" 2300 [2]), .renameGraph "g" "h" 2300]

theorem movedCalls_run : MoveRun .empty (afterMoves movedCalls) := by
  refine .nextCommand (.step (.nextCommand (.step (.nextCommand (.step (.nextCommand (.step (.nextCommand
    (.step .start (.storage (.createGraph "g" 2200)) trivial ?_)) (.storage (.createElabel "g" 2200 false))
    trivial ?_)) (.alterGraph "g" 2300 2200) ?_ ?_)) (.storage (.addAnnotationLabel "g" 2300 [2])) trivial ?_))
    (.renameGraph "g" "h" 2300) trivial ?_)
  all_goals decide +kernel

/-- Its row. -/
def movedGraph : NpGraphRow := ⟨1, "h", 2300, 3, 2, 18, 17, 24, 25⟩

theorem movedGraph_mem : movedGraph ∈ (afterMoves movedCalls).npGraph := by decide +kernel

/-- **No two relations have the same name**, in whatever schemas they are. -/
theorem MoveRun.names_unique (h : MoveRun before db) : (db.pgClass.map fun c => c.relname.text).Nodup := by
  have hnodup := h.inv.2.1.names.nodup.map fun _ _ he => RelName.text_injective he
  unfold ObjectDb.relnames at hnodup
  rwa [List.map_map] at hnodup

theorem MoveRun.names_unique_example : ((afterMoves movedCalls).pgClass.map fun c => c.relname.text).Nodup :=
  movedCalls_run.names_unique

/-- **A graph gets its labels and partitions**: none of their relations has a name that is there. -/
theorem MoveRun.labels_made (h : MoveRun before db) (hgr : graph ∈ db.npGraph) :
    (∃ db', (createVlabel graph.name graph.namespaceOid).Runs db () db') ∧
      (∀ annotated, ∃ db', (createElabel graph.name graph.namespaceOid annotated).Runs db () db') ∧
      ∀ label ∈ db.vertexLabels graph.vertexLabels,
        ∃ db', (rotateActiveLinkedListTable graph.name graph.namespaceOid label.id).Runs db () db' :=
  ⟨h.inv.2.1.createVlabel_runs hgr, h.inv.2.1.createElabel_runs hgr, fun _ => h.inv.2.1.rotate_runs hgr⟩

theorem MoveRun.labels_made_example :
    (∃ db', (createVlabel movedGraph.name movedGraph.namespaceOid).Runs (afterMoves movedCalls) () db') ∧
      (∀ annotated, ∃ db', (createElabel movedGraph.name movedGraph.namespaceOid annotated).Runs
        (afterMoves movedCalls) () db') ∧
      ∀ label ∈ (afterMoves movedCalls).vertexLabels movedGraph.vertexLabels,
        ∃ db', (rotateActiveLinkedListTable movedGraph.name movedGraph.namespaceOid label.id).Runs
          (afterMoves movedCalls) () db' :=
  movedCalls_run.labels_made movedGraph_mem

/-- **`alter_graph` fails only when the schema has a graph of the name**, and it leaves every relation where
it should be, unless there is a table for annotations that the running command does not see. -/
theorem MoveRun.alterGraph_exact (h : MoveRun before db) (hgr : graph ∈ db.npGraph)
    (hne : newNsp ≠ graph.namespaceOid) :
    ((∃ db', (alterGraph graph.name newNsp graph.namespaceOid).Runs db () db') ↔
      db.searchGraph graph.name newNsp = none) ∧
    ∀ db', (alterGraph graph.name newNsp graph.namespaceOid).Runs db () db' →
      (db' = relocate graph { graph with namespaceOid := newNsp } db ↔
        ∀ row ∈ db.edgeLabels graph.edgeLabels, row.annotationsSeen = row.annotationsTbl) := by
  obtain ⟨-, ⟨hs, hn⟩, -⟩ := h.inv
  refine ⟨⟨?_, fun hfree => ⟨_, (alterGraph_runs_iff hs hn hgr hne).mpr ⟨hfree, rfl⟩⟩⟩, fun db' hr => ?_⟩
  · rintro ⟨db', hr⟩
    exact ((alterGraph_runs_iff hs hn hgr hne).mp hr).1
  · obtain ⟨-, rfl⟩ := (alterGraph_runs_iff hs hn hgr hne).mp hr
    exact alteredGraph_eq_iff hs hn hgr hne

theorem MoveRun.alterGraph_exact_example :
    ((∃ db', (alterGraph movedGraph.name 2400 movedGraph.namespaceOid).Runs (afterMoves movedCalls) () db') ↔
      (afterMoves movedCalls).searchGraph movedGraph.name 2400 = none) ∧
    ∀ db', (alterGraph movedGraph.name 2400 movedGraph.namespaceOid).Runs (afterMoves movedCalls) () db' →
      (db' = relocate movedGraph { movedGraph with namespaceOid := 2400 } (afterMoves movedCalls) ↔
        ∀ row ∈ (afterMoves movedCalls).edgeLabels movedGraph.edgeLabels,
          row.annotationsSeen = row.annotationsTbl) :=
  movedCalls_run.alterGraph_exact movedGraph_mem (by decide)

/-- **A graph can be used after a move**, unless it has been moved out of the extension's own schema. -/
theorem MoveRun.alterGraph_usable_iff (h : MoveRun before db) (hgr : graph ∈ db.npGraph)
    (hne : newNsp ≠ graph.namespaceOid)
    (hseen : ∀ row ∈ db.edgeLabels graph.edgeLabels, row.annotationsSeen = row.annotationsTbl)
    (hr : (alterGraph graph.name newNsp graph.namespaceOid).Runs db () db') :
    (∃ db'', (createVlabel graph.name newNsp).Runs db' () db'') ↔ graph.namespaceOid ≠ npNamespaceId := by
  obtain ⟨-, ⟨hs, hn⟩, -⟩ := h.inv
  obtain ⟨hfree, rfl⟩ := (alterGraph_runs_iff hs hn hgr hne).mp hr
  rw [(alteredGraph_eq_iff hs hn hgr hne).mpr hseen]
  have hmem : { graph with namespaceOid := newNsp } ∈
      (relocate graph { graph with namespaceOid := newNsp } db).npGraph :=
    List.mem_map.mpr ⟨graph, hgr, if_pos rfl⟩
  constructor
  · rintro ⟨db'', hcreate⟩ hnp
    obtain ⟨gr, db₁, hfind, hr₁⟩ := Prog.runs_bind_iff.mp hcreate
    obtain ⟨rfl, hgr', hname, hns⟩ := StorageInv.mem_of_findGraph hfind
    obtain ⟨l, db₂, hnext, hbuild⟩ := Prog.runs_bind_iff.mp hr₁
    obtain ⟨-, -, rfl⟩ := nextval_runs_iff.mp hnext
    -- the row that is found is that of the graph
    obtain ⟨gr₀, hgr₀, rfl⟩ := mem_npGraph_relocate hgr'
    have hgraph : gr₀ = graph := by
      by_contra hno
      rw [if_neg hno] at hname hns
      exact searchGraph_free hfree gr₀ hgr₀ hname hns
    rw [hgraph, if_pos rfl] at hbuild
    -- its catalog has left the extension's schema with it
    obtain ⟨c, hc, hcname, hcns⟩ := catalog_of_buildVertexLabelInfrastructure hbuild
    obtain ⟨c₀, hc₀, rfl⟩ := mem_relocate.mp hc
    obtain ⟨cat, hcat, -, hcatName, hcatNs⟩ := hn.relid_iff.mp (hs.rows graph hgr).vertexNamed
    rw [follow_relname] at hcname
    obtain rfl := hn.eq_of_relname hc₀ hcat (hcname.trans hcatName.symm)
    unfold follow at hcns
    rw [if_pos ⟨by rw [hcatName]; rfl, hcatNs.trans hnp.symm⟩] at hcns
    exact hne (hcns.trans hnp.symm)
  · intro hnp
    have hinv : MoveInv (relocate graph { graph with namespaceOid := newNsp } db) :=
      ⟨hs.relocate hn hgr rfl (fun gr hmem hname hns => absurd hns (searchGraph_free hfree gr hmem hname))
        (Or.inr hnp), hn.relocate hs⟩
    exact hinv.createVlabel_runs hmem

theorem MoveRun.alterGraph_usable_iff_example :
    (∃ db'', (createVlabel movedGraph.name 2400).Runs
      ((alterGraph movedGraph.name 2400 movedGraph.namespaceOid).exec (afterMoves movedCalls)).2 () db'') ↔
      movedGraph.namespaceOid ≠ npNamespaceId :=
  movedCalls_run.alterGraph_usable_iff movedGraph_mem (by decide) (by decide +kernel)
    (Prog.runs_of_ok (by decide +kernel))

/-- **A graph that has been moved or renamed is dropped cleanly**, but for a table of annotations that the
running command does not see. -/
theorem MoveRun.droppedCleanly_iff (h : MoveRun before db) (hgr : graph ∈ db.npGraph) :
    DropsCleanly db graph ↔
      ∀ row ∈ db.edgeLabels graph.edgeLabels, row.annotationsSeen = row.annotationsTbl :=
  h.inv.2.1.storage.dropsCleanly_iff hgr

theorem MoveRun.droppedCleanly_iff_example : DropsCleanly (afterMoves movedCalls) movedGraph ↔
    ∀ row ∈ (afterMoves movedCalls).edgeLabels movedGraph.edgeLabels, row.annotationsSeen = row.annotationsTbl :=
  movedCalls_run.droppedCleanly_iff movedGraph_mem

end NeoPostGraph.Storage
