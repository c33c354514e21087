import NeoPostGraph.Storage.Collect
import NeoPostGraph.Storage.Recreate

/-!
# Dropping a graph

* `Dropped`: what is left after the relations of a list are dropped.
* `DropsCleanly`: nothing of the graph is left, all else is, and the graph can be made again.

Result: `drop_graph` drops a graph cleanly but for the table of annotations of an edge label that has got
it in the running command, whose row is not read anew.
-/

namespace NeoPostGraph.Storage

variable {db db' before : ObjectDb} {graph : NpGraphRow} {os : List Oid} {name : RelName} {ns o t : Oid}
  {u : Unit}

/-! ## What is left -/

/-- **What is left** when the relations of a list are dropped. -/
structure Dropped (os : List Oid) (db db' : ObjectDb) : Prop where
  pgClass : db'.pgClass = db.pgClass.filter fun c => ¬ Covered os c
  npGraph : db'.npGraph = db.npGraph
  npGraphIdSeq : db'.npGraphIdSeq = db.npGraphIdSeq
  seqs : db'.seqs = db.seqs
  nextOid : db'.nextOid = db.nextOid
  vertexLabels : ∀ o, o ∉ os → db'.vertexLabels o = db.vertexLabels o
  edgeLabels : ∀ o, o ∉ os →
    (db'.edgeLabels o).map EdgeLabelRow.see = (db.edgeLabels o).map EdgeLabelRow.see
  linkedListMeta : ∀ o, o ∉ os → db'.linkedListMeta o = db.linkedListMeta o

/-- Indexes are on tables. -/
def Indexed (db : ObjectDb) : Prop :=
  ∀ c ∈ db.pgClass, ∀ t, c.indrelid = some t → ∃ c' ∈ db.pgClass, c'.oid = t ∧ c'.indrelid = none

theorem covered_cons {c : PgClass} : Covered (o :: os) c ↔ Covered [o] c ∨ Covered os c := by
  simp only [Covered, List.mem_cons, List.not_mem_nil, or_false, exists_eq_or_imp, exists_eq_left]
  tauto

theorem covered_singleton {c : PgClass} : Covered [o] c ↔ c.oid = o ∨ c.indrelid = some o := by
  simp [Covered]

theorem map_see_see (rows : List EdgeLabelRow) :
    (rows.map EdgeLabelRow.see).map EdgeLabelRow.see = rows.map EdgeLabelRow.see := by
  rw [List.map_map]
  rfl

theorem Dropped.trans {db₁ : ObjectDb} (h : Dropped [o] db db₁) (h' : Dropped os db₁ db') :
    Dropped (o :: os) db db' := by
  refine ⟨?_, h'.npGraph.trans h.npGraph, h'.npGraphIdSeq.trans h.npGraphIdSeq, h'.seqs.trans h.seqs,
    h'.nextOid.trans h.nextOid, fun t ht => ?_, fun t ht => ?_, fun t ht => ?_⟩
  · rw [h'.pgClass, h.pgClass, List.filter_filter]
    refine List.filter_congr fun c _ => ?_
    rw [Bool.eq_iff_iff]
    simp only [Bool.and_eq_true, decide_eq_true_eq]
    rw [@covered_cons os o c]
    tauto
  all_goals
    obtain ⟨hne, hrest⟩ := List.ne_and_not_mem_of_not_mem_cons ht
    have hone : t ∉ [o] := fun hmem => hne (List.mem_singleton.mp hmem)
  · exact (h'.vertexLabels t hrest).trans (h.vertexLabels t hone)
  · exact (h'.edgeLabels t hrest).trans (h.edgeLabels t hone)
  · exact (h'.linkedListMeta t hrest).trans (h.linkedListMeta t hone)

/-- One relation is dropped, or it is gone already. -/
theorem npDropRel_runs (hidx : Indexed db) (o : Oid) :
    ∃ db', (npDropRel o).Runs db () db' ∧ Dropped [o] db db' ∧ Indexed db' := by
  refine ⟨_, Prog.runs_write_iff.mpr rfl, ?_⟩
  split
  · have hclass : (db.dropRelation o).pgClass = db.pgClass.filter fun c => ¬ Covered [o] c := by
      refine List.filter_congr fun c _ => ?_
      rw [Bool.eq_iff_iff]
      simp only [decide_eq_true_eq, covered_singleton]
      tauto
    have hne : ∀ t, t ∉ [o] → t ≠ o := fun t ht he => ht (List.mem_singleton.mpr he)
    refine ⟨⟨hclass, rfl, rfl, rfl, rfl, fun t ht => ?_, fun t ht => ?_, fun t ht => ?_⟩, fun c hc t ht => ?_⟩
    · exact Function.update_of_ne (hne t ht) _ _
    · show ((Function.update db.edgeLabels o [] t).map EdgeLabelRow.see).map EdgeLabelRow.see = _
      rw [Function.update_of_ne (hne t ht), map_see_see]
    · exact Function.update_of_ne (hne t ht) _ _
    · rw [hclass] at hc ⊢
      obtain ⟨hmem, hkept⟩ := List.mem_filter.mp hc
      obtain ⟨c', hc', hoid, hno⟩ := hidx c hmem t ht
      refine ⟨c', List.mem_filter.mpr ⟨hc', ?_⟩, hoid, hno⟩
      simp only [decide_eq_true_eq, covered_singleton, hoid, hno, ht] at hkept ⊢
      rintro (rfl | hsome)
      · exact hkept (Or.inr rfl)
      · cases hsome
  · next hgone =>
    refine ⟨⟨?_, rfl, rfl, rfl, rfl, fun _ _ => rfl, fun _ _ => rfl, fun _ _ => rfl⟩, hidx⟩
    refine (List.filter_eq_self.mpr fun c hc => ?_).symm
    simp only [decide_eq_true_eq, covered_singleton]
    rintro (rfl | hsome)
    · exact hgone ⟨c, hc, rfl⟩
    · obtain ⟨c', hc', hoid, -⟩ := hidx c hc o hsome
      exact hgone ⟨c', hc', hoid⟩

/-- The loop drops the relations of its list. -/
theorem dropRels_runs (hidx : Indexed db) (os : List Oid) :
    ∃ db', (dropRels os).Runs db () db' ∧ Dropped os db db' := by
  induction os generalizing db with
  | nil =>
    refine ⟨db, rfl, ⟨?_, rfl, rfl, rfl, rfl, fun _ _ => rfl, fun _ _ => rfl, fun _ _ => rfl⟩⟩
    exact (List.filter_eq_self.mpr fun c _ => by simp [Covered]).symm
  | cons o rest ih =>
    obtain ⟨db₁, hr₁, hdrop₁, hidx₁⟩ := npDropRel_runs hidx o
    obtain ⟨db₂, hr₂, hdrop₂⟩ := ih hidx₁
    exact ⟨db₂, hr₁.bind hr₂, hdrop₁.trans hdrop₂⟩

/-! ## Other graphs -/

/-- **What is kept of a graph**: its relations, and the rows that name them as a new command reads
them. -/
structure Kept (gr : NpGraphRow) (db db' : ObjectDb) : Prop where
  relations : ∀ c ∈ db.pgClass, c.relname.graphId = gr.id → c ∈ db'.pgClass
  relid : ∀ (name : RelName) (ns t : Oid), name.graphId = gr.id →
    db.getRelnameRelid name ns = some t → db'.getRelnameRelid name ns = some t
  vertexLabels : db'.vertexLabels gr.vertexLabels = db.vertexLabels gr.vertexLabels
  edgeLabels : (db'.edgeLabels gr.edgeLabels).map EdgeLabelRow.see =
    (db.edgeLabels gr.edgeLabels).map EdgeLabelRow.see
  linkedListMeta : ∀ row ∈ db.vertexLabels gr.vertexLabels,
    db'.linkedListMeta row.linkedListMeta = db.linkedListMeta row.linkedListMeta

theorem find?_filter_of_mem {α : Type} {p q : α → Bool} {l : List α} {a : α} (h : l.find? p = some a)
    (ha : q a = true) : (l.filter q).find? p = some a := by
  rw [List.find?_filter]
  obtain ⟨hp, as, bs, rfl, has⟩ := List.find?_eq_some_iff_append.mp h
  refine List.find?_eq_some_iff_append.mpr ⟨by simp [hp, ha], as, bs, rfl, fun b hb => ?_⟩
  simp [has b hb]

/-- The relations of another graph are not on the list. -/
theorem Dropped.kept (h : StorageInv db) (hfound : ∀ o ∈ os, Found db graph o) (hdrop : Dropped os db db')
    {gr : NpGraphRow} (hmem : gr ∈ db.npGraph) (hne : gr.id ≠ graph.id) : Kept gr db db' := by
  have hapart : ∀ o name, db.Has o name → name.graphId = gr.id → o ∉ os := by
    intro o name hhas hid ho
    obtain ⟨name', hhas', hid', -⟩ := hfound o ho
    obtain rfl := h.inv.has_unique hhas hhas'
    exact hne (hid.symm.trans hid')
  have hstays : ∀ c ∈ db.pgClass, c.relname.graphId = gr.id → ¬ Covered os c := by
    rintro c hc hid (ho | ⟨t, ht, hidx⟩)
    · exact hapart c.oid c.relname ⟨c, hc, rfl, rfl⟩ hid ho
    · obtain ⟨c', hc', hoid, hgid, -⟩ := h.inv.indexes c hc t hidx
      exact hapart t c'.relname ⟨c', hc', hoid, rfl⟩ (hgid.trans hid) ht
  have hok := h.rows gr hmem
  refine ⟨fun c hc hid => ?_, fun name ns t hid hfind => ?_, ?_, ?_, fun row hrow => ?_⟩
  · rw [hdrop.pgClass]
    exact List.mem_filter.mpr ⟨hc, by simpa using hstays c hc hid⟩
  · unfold ObjectDb.getRelnameRelid at hfind ⊢
    obtain ⟨c, hc, rfl⟩ := Option.map_eq_some_iff.mp hfind
    have hspec : c.relname = name ∧ c.relnamespace = ns := by simpa using List.find?_some hc
    rw [hdrop.pgClass, find?_filter_of_mem hc
      (by simpa using hstays c (List.mem_of_find?_eq_some hc) (by rw [hspec.1, hid]))]
    rfl
  · exact hdrop.vertexLabels _ (hapart _ _ hok.vertexLabels rfl)
  · exact hdrop.edgeLabels _ (hapart _ _ hok.edgeLabels rfl)
  · exact hdrop.linkedListMeta _ (hapart _ _ (h.inv.vertexRows gr hmem row hrow).linkedListMeta rfl)

namespace Kept

variable {gr : NpGraphRow}

theorem has (h : Kept gr db db') (hhas : db.Has o name) (hid : name.graphId = gr.id) : db'.Has o name := by
  obtain ⟨c, hc, hoid, rfl⟩ := hhas
  exact ⟨c, h.relations c hc hid, hoid, rfl⟩

/-- A row is there still, but for what the running command sees of it. -/
theorem edgeRow (h : Kept gr db db') {row : EdgeLabelRow} (hrow : row ∈ db.edgeLabels gr.edgeLabels) :
    ∃ row' ∈ db'.edgeLabels gr.edgeLabels, row'.see = row.see := by
  have hmem : row.see ∈ (db'.edgeLabels gr.edgeLabels).map EdgeLabelRow.see := by
    rw [h.edgeLabels]
    exact List.mem_map_of_mem hrow
  exact List.mem_map.mp hmem

theorem edgeRow_of (h : Kept gr db db') {row' : EdgeLabelRow} (hrow : row' ∈ db'.edgeLabels gr.edgeLabels) :
    ∃ row ∈ db.edgeLabels gr.edgeLabels, row.see = row'.see := by
  have hmem : row'.see ∈ (db.edgeLabels gr.edgeLabels).map EdgeLabelRow.see := by
    rw [← h.edgeLabels]
    exact List.mem_map_of_mem hrow
  exact List.mem_map.mp hmem

theorem recorded (h : Kept gr db db') {c : PgClass} (hid : c.relname.graphId = gr.id)
    (hrec : Recorded db gr c) : Recorded db' gr c := by
  unfold Recorded at hrec ⊢
  split at hrec
  · next rel hname =>
    cases rel with
    | labelCatalog => exact h.relid _ _ _ hid hrec
    | labelCatalogIdx =>
      obtain ⟨t, ht, hfound⟩ := hrec
      exact ⟨t, ht, h.relid _ _ _ rfl hfound⟩
    | _ => exact hrec
  · next g l rel hname =>
    obtain ⟨row, hrow, hl, hrec⟩ := hrec
    obtain rfl : g = gr.id := by
      rw [hname] at hid
      exact hid
    refine ⟨row, h.vertexLabels ▸ hrow, hl, ?_⟩
    cases rel with
    | linkedList p =>
      unfold VertexRecorded at hrec ⊢
      rwa [h.linkedListMeta row hrow]
    | idSeq => exact h.relid _ _ _ hid hrec
    | dictionary => exact h.relid _ _ _ hid hrec
    | dictionarySeq => exact h.relid _ _ _ hid hrec
    | dictionaryIndex =>
      obtain ⟨t, ht, hfound⟩ := hrec
      exact ⟨t, ht, h.relid _ _ _ rfl hfound⟩
    | _ => exact hrec
  · next rel hname =>
    obtain ⟨row, hrow, hl, hrec⟩ := hrec
    obtain ⟨row', hrow', hsee⟩ := h.edgeRow hrow
    simp only [EdgeLabelRow.see, EdgeLabelRow.mk.injEq] at hsee
    obtain ⟨hid', htbl, hphys, hannot, -⟩ := hsee
    refine ⟨row', hrow', hid'.trans hl, ?_⟩
    cases rel with
    | tbl => exact hrec.trans htbl.symm
    | physMap => exact hrec.trans hphys.symm
    | annotations => exact hannot.trans hrec
    | idSeq => exact h.relid _ _ _ hid hrec

theorem graphRowOk (h : Kept gr db db') (hok : GraphRowOk db gr) : GraphRowOk db' gr :=
  ⟨h.has hok.vertexIdSeq rfl, h.has hok.vertexLabels rfl, h.has hok.edgeIdSeq rfl, h.has hok.edgeLabels rfl,
    h.has hok.annotSchemaTbl rfl, h.has hok.annotSchemaPhysMap rfl, h.relid _ _ _ rfl hok.vertexNamed,
    h.relid _ _ _ rfl hok.edgeNamed⟩

end Kept

/-- The state after the row of the graph is deleted. -/
def withoutGraph (graph : NpGraphRow) (db : ObjectDb) : ObjectDb :=
  ObjectDb.commandCounterIncrement { db with npGraph := db.npGraph.erase graph }

theorem Kept.withoutGraph {gr : NpGraphRow} (h : Kept gr db db') : Kept gr db (withoutGraph graph db') :=
  ⟨h.relations, h.relid, h.vertexLabels, (map_see_see _).trans h.edgeLabels, h.linkedListMeta⟩

theorem StorageInv.id_ne (h : StorageInv db) (hgr : graph ∈ db.npGraph) {gr : NpGraphRow}
    (hmem : gr ∈ db.npGraph) (hne : gr ≠ graph) : gr.id ≠ graph.id :=
  fun hid => hne (h.inv.catalogs gr hmem graph hgr (Or.inl hid))

/-- **A drop keeps the invariant**, also when the list is not complete. -/
theorem StorageInv.dropped (h : StorageInv db) (hgr : graph ∈ db.npGraph)
    (hfound : ∀ o ∈ os, Found db graph o) (hdrop : Dropped os db db') :
    StorageInv (Storage.withoutGraph graph db') ∧
      ∀ gr ∈ (Storage.withoutGraph graph db').npGraph, Kept gr db (Storage.withoutGraph graph db') := by
  have hmem : ∀ gr ∈ (Storage.withoutGraph graph db').npGraph, gr ∈ db.npGraph ∧ gr ≠ graph := by
    intro gr hgr'
    have hgr'' : gr ∈ db.npGraph.erase graph := hdrop.npGraph ▸ hgr'
    obtain ⟨hne, hmem⟩ := h.nodup.mem_erase_iff.mp hgr''
    exact ⟨hmem, hne⟩
  have hkept : ∀ gr ∈ (Storage.withoutGraph graph db').npGraph,
      Kept gr db (Storage.withoutGraph graph db') := by
    intro gr hgr'
    obtain ⟨hold, hne⟩ := hmem gr hgr'
    exact (hdrop.kept h hfound hold (h.id_ne hgr hold hne)).withoutGraph
  have hclass : ∀ c, c ∈ (Storage.withoutGraph graph db').pgClass ↔ c ∈ db.pgClass ∧ ¬ Covered os c := by
    intro c
    show c ∈ db'.pgClass ↔ _
    rw [hdrop.pgClass, List.mem_filter, decide_eq_true_eq]
  have hsub : (Storage.withoutGraph graph db').pgClass.Sublist db.pgClass := by
    show db'.pgClass.Sublist db.pgClass
    rw [hdrop.pgClass]
    exact List.filter_sublist
  have hbelow : ∀ o ∈ os, o < db.nextOid := by
    intro o ho
    obtain ⟨name, hhas, -⟩ := hfound o ho
    exact h.inv.lt_of_has hhas
  have hinv : Inv (Storage.withoutGraph graph db').npGraph (Storage.withoutGraph graph db') [] := by
    refine ⟨fun c hc => ?_, (hsub.map PgClass.oid).nodup h.inv.distinct, fun c hc t ht => ?_, fun o ho => ?_,
      fun gr hgr₁ gr' hgr₂ he => ?_, fun c hc => Or.inr fun gr hgr' hid => ?_, fun gr hgr' row hrow => ?_,
      fun gr hgr' row hrow => ?_, fun gr hgr' => ⟨?_, fun row hrow => ?_⟩⟩
    · exact hdrop.nextOid ▸ h.inv.below c ((hclass c).mp hc).1
    · obtain ⟨hc, hno⟩ := (hclass c).mp hc
      obtain ⟨c', hc', rfl, hid, hnone⟩ := h.inv.indexes c hc t ht
      refine ⟨c', (hclass c').mpr ⟨hc', ?_⟩, rfl, hid, hnone⟩
      rintro (ho | ⟨a, -, ha⟩)
      · exact hno (Or.inr ⟨c'.oid, ho, ht⟩)
      · rw [hnone] at ha
        cases ha
    · have ho' : db.nextOid ≤ o := hdrop.nextOid ▸ ho
      have hno : o ∉ os := fun hmem => Nat.not_le_of_lt (hbelow o hmem) ho'
      obtain ⟨hv, he, hm⟩ := h.inv.unused o ho'
      refine ⟨(hdrop.vertexLabels o hno).trans hv, ?_, (hdrop.linkedListMeta o hno).trans hm⟩
      show (db'.edgeLabels o).map EdgeLabelRow.see = []
      rw [hdrop.edgeLabels o hno, he]
      rfl
    · exact h.inv.catalogs gr (hmem gr hgr₁).1 gr' (hmem gr' hgr₂).1 he
    · obtain ⟨hc, -⟩ := (hclass c).mp hc
      rcases h.inv.complete c hc with hpend | hrec
      · exact absurd hpend List.not_mem_nil
      · exact (hkept gr hgr').recorded hid.symm (hrec gr (hmem gr hgr').1 hid)
    · have hk := hkept gr hgr'
      rw [hk.vertexLabels] at hrow
      have hok := h.inv.vertexRows gr (hmem gr hgr').1 row hrow
      refine ⟨hk.has hok.tbl rfl, hk.has hok.physMap rfl, hk.has hok.linkedListMeta rfl,
        hk.has hok.linkedListSeq rfl, hk.has hok.arraylist rfl, hk.has hok.annotationsTbl rfl,
        fun part hpart => ?_⟩
      rw [hk.linkedListMeta row hrow] at hpart
      exact hk.has (hok.partitions part hpart) rfl
    · have hk := hkept gr hgr'
      obtain ⟨r, hr, hsee⟩ := hk.edgeRow_of hrow
      have hok := h.inv.edgeRows gr (hmem gr hgr').1 r hr
      simp only [EdgeLabelRow.see, EdgeLabelRow.mk.injEq] at hsee
      obtain ⟨hid, htbl, hphys, hannot, -⟩ := hsee
      refine ⟨?_, ?_, fun a ha => ?_, ?_⟩
      · rw [← hid, ← htbl]
        exact hk.has hok.tbl rfl
      · rw [← hid, ← hphys]
        exact hk.has hok.physMap rfl
      · rw [← hannot] at ha
        obtain ⟨c, hc, hoid, hname, hspec⟩ := hok.annotationsTbl a ha
        exact ⟨c, hk.relations c hc (by rw [hname]; rfl), hoid, hname.trans (by rw [hid]), hspec⟩
      · obtain ⟨r', -, rfl⟩ := List.mem_map.mp hrow
        exact Or.inr rfl
    · have hids := congrArg (List.map EdgeLabelRow.id) (hkept gr hgr').edgeLabels
      rw [map_id_see, map_id_see] at hids
      rw [hids]
      exact (h.inv.edgeIds gr (hmem gr hgr').1).1
    · obtain ⟨r, hr, hsee⟩ := (hkept gr hgr').edgeRow_of hrow
      have hid : r.id = row.id := by simpa [EdgeLabelRow.see] using congrArg EdgeLabelRow.id hsee
      show row.id ≤ db'.seqs gr.edgeIdSeq
      rw [hdrop.seqs, ← hid]
      exact (h.inv.edgeIds gr (hmem gr hgr').1).2 r hr
  refine ⟨⟨hinv, fun gr hgr' => (hkept gr hgr').graphRowOk (h.rows gr (hmem gr hgr').1), fun gr hgr' => ?_,
    fun gr hgr₁ gr' hgr₂ => h.names gr (hmem gr hgr₁).1 gr' (hmem gr' hgr₂).1, ?_, fun c hc => ?_⟩, hkept⟩
  · show gr.id ≤ db'.npGraphIdSeq
    rw [hdrop.npGraphIdSeq]
    exact h.ids gr (hmem gr hgr').1
  · show (db'.npGraph.erase graph).Nodup
    rw [hdrop.npGraph]
    exact h.nodup.erase graph
  · show c.relname.graphId ≤ db'.npGraphIdSeq
    rw [hdrop.npGraphIdSeq]
    exact h.relIds c ((hclass c).mp hc).1

theorem searchGraph_self (h : StorageInv db) (hgr : graph ∈ db.npGraph) :
    db.searchGraph graph.name graph.namespaceOid = some graph := by
  cases hsearch : db.searchGraph graph.name graph.namespaceOid with
  | none =>
    have hfree := List.find?_eq_none.mp hsearch graph hgr
    simp at hfree
  | some gr =>
    have hspec : gr.name = graph.name ∧ gr.namespaceOid = graph.namespaceOid := by
      simpa using List.find?_some hsearch
    rw [h.names gr (List.mem_of_find?_eq_some hsearch) graph hgr hspec.1 hspec.2]

theorem npCollectGraphNamespaceRels_runs (h : StorageInv db) (hgr : graph ∈ db.npGraph) :
    (npCollectGraphNamespaceRels graph).Runs db (db.graphRels graph) db := by
  have hopened : (db.opened graph).find? (fun o => ¬ db.Exists o) = none := by
    refine List.find?_eq_none.mpr fun o ho => ?_
    simp only [decide_eq_true_eq, not_not]
    have hexists : ∀ o name, db.Has o name → db.Exists o := fun _ _ ⟨c, hc, hoid, _⟩ => ⟨c, hc, hoid⟩
    simp only [ObjectDb.opened, List.cons_append, List.nil_append, List.mem_cons, List.mem_map] at ho
    rcases ho with rfl | rfl | ⟨row, hrow, rfl⟩
    · exact hexists _ _ (h.rows graph hgr).vertexLabels
    · exact hexists _ _ (h.rows graph hgr).edgeLabels
    · exact hexists _ _ (h.inv.vertexRows graph hgr row hrow).linkedListMeta
  refine Prog.runs_read_iff.mpr ⟨?_, rfl⟩
  rw [hopened]

/-- **`drop_graph` drops its list** and does not fail. -/
theorem dropGraph_runs (h : StorageInv db) (hgr : graph ∈ db.npGraph) :
    ∃ db', (dropGraph graph.name graph.namespaceOid).Runs db () (withoutGraph graph db') ∧
      Dropped (db.graphRels graph) db db' := by
  have hfind : (findGraph graph.name graph.namespaceOid).Runs db graph db :=
    Prog.runs_read_iff.mpr ⟨by rw [searchGraph_self h hgr], rfl⟩
  have hidx : Indexed db := fun c hc t ht => by
    obtain ⟨c', hc', hoid, -, hno⟩ := h.inv.indexes c hc t ht
    exact ⟨c', hc', hoid, hno⟩
  obtain ⟨db', hr, hdrop⟩ := dropRels_runs hidx (db.graphRels graph)
  refine ⟨db', hfind.bind ((npCollectGraphNamespaceRels_runs h hgr).bind (hr.bind ?_)), hdrop⟩
  refine Prog.runs_write_iff.mpr ?_
  have hsearch : db'.searchGraph graph.name graph.namespaceOid = some graph := by
    unfold ObjectDb.searchGraph
    rw [hdrop.npGraph]
    exact searchGraph_self h hgr
  rw [hsearch]
  rfl

theorem StorageInv.dropGraph {name : String} (h : StorageInv db)
    (hr : (Storage.dropGraph name ns).Runs db u db') : StorageInv db' := by
  obtain ⟨graph, db₁, hfind, -⟩ := Prog.runs_bind_iff.mp hr
  obtain ⟨rfl, hgr, rfl, rfl⟩ := StorageInv.mem_of_findGraph hfind
  obtain ⟨db₂, hr₂, hdrop⟩ := dropGraph_runs h hgr
  obtain ⟨-, rfl⟩ := hr.det hr₂
  exact (h.dropped hgr (fun o ho => found_graphRels h hgr ho) hdrop).1

/-! ## Histories -/

theorem StorageInv.empty : StorageInv .empty where
  inv :=
    { below := nofun
      distinct := List.nodup_nil
      indexes := nofun
      unused := fun _ _ => ⟨rfl, rfl, rfl⟩
      catalogs := nofun
      complete := nofun
      vertexRows := nofun
      edgeRows := nofun
      edgeIds := nofun }
  rows := nofun
  ids := nofun
  names := nofun
  nodup := List.nodup_nil
  relIds := nofun

/-- **Every call keeps the invariant.** -/
theorem StorageInv.run (h : StorageInv db) {c : StorageCall} (hr : c.run.Runs db u db') :
    StorageInv db' := by
  cases c with
  | createGraph name ns => exact h.createGraph hr
  | createVlabel name ns => exact h.createVlabel hr
  | createVlabelFromPath graphId => exact h.createVlabelFromPath hr
  | createElabel name ns annotated => exact h.createElabel hr
  | forgeEdgeLabel graphId annotated => exact h.forgeEdgeLabel hr
  | addAnnotationLabel name ns labelIds => exact h.addAnnotationLabel hr
  | rotateActiveLinkedListTable name ns labelId => exact h.rotateActiveLinkedListTable hr
  | compactOldestLinkedListTable name ns labelId => exact h.compactOldestLinkedListTable hr
  | dropGraph name ns => exact h.dropGraph hr

/-- A transaction that is rolled back leaves a gap in the oids and the sequences. -/
theorem StorageInv.rollback (h : StorageInv before) (hforward : Forward before db) :
    StorageInv (before.rollback db) := by
  obtain ⟨hid, hoid, hseqs⟩ := hforward
  refine ⟨{ h.inv with
    below := fun c hc => Nat.lt_of_lt_of_le (h.inv.below c hc) hoid
    unused := fun o ho => h.inv.unused o (Nat.le_trans hoid ho)
    vertexRows := fun gr hgr row hrow => { h.inv.vertexRows gr hgr row hrow with }
    edgeRows := fun gr hgr row hrow => { h.inv.edgeRows gr hgr row hrow with }
    edgeIds := fun gr hgr => ⟨(h.inv.edgeIds gr hgr).1, fun row hrow => ?_⟩ },
    fun gr hgr => { h.rows gr hgr with }, fun gr hgr => Nat.le_trans (h.ids gr hgr) hid, h.names, h.nodup,
    fun c hc => Nat.le_trans (h.relIds c hc) hid⟩
  exact Nat.le_trans ((h.inv.edgeIds gr hgr).2 row hrow) (hseqs gr.edgeIdSeq)

/-- **In every history** the relations of every graph are recorded. -/
theorem StorageRun.inv (h : StorageRun before db) :
    StorageInv before ∧ StorageInv db ∧ Forward before db := by
  induction h with
  | start => exact ⟨.empty, .empty, Forward.refl _⟩
  | call _ c hr ih =>
    obtain ⟨hbefore, hdb, hforward⟩ := ih
    exact ⟨hbefore, hdb.run hr, (forward_run c).runs hr hforward⟩
  | nextCommand _ ih =>
    obtain ⟨hbefore, hdb, hforward⟩ := ih
    exact ⟨hbefore, hdb.seeRows, hforward.trans ⟨Nat.le_refl _, Nat.le_refl _, fun _ => Nat.le_refl _⟩⟩
  | commit _ ih => exact ⟨ih.2.1.seeRows, ih.2.1.seeRows, Forward.refl _⟩
  | abort _ ih => exact ⟨ih.1.rollback ih.2.2, ih.1.rollback ih.2.2, Forward.refl _⟩
  | fail _ c hr ih =>
    obtain ⟨hbefore, -, hforward⟩ := ih
    have hforward' := (forward_run c).exec hforward
    rw [hr] at hforward'
    exact ⟨hbefore.rollback hforward', hbefore.rollback hforward', Forward.refl _⟩

/-! ## The graph is gone -/

/-- **Nothing of the graph is left and everything else is**, and a graph of the name can be made again. -/
def DropsCleanly (db : ObjectDb) (graph : NpGraphRow) : Prop :=
  ∃ db', (dropGraph graph.name graph.namespaceOid).Runs db () db' ∧
    db'.pgClass = db.pgClass.filter (fun c => c.relname.graphId ≠ graph.id) ∧
    db'.npGraph = db.npGraph.filter (fun gr => gr ≠ graph) ∧
    (∀ gr ∈ db'.npGraph, Kept gr db db') ∧
    ∃ db'', (createGraph graph.name graph.namespaceOid).Runs db' () db''

theorem covered_iff (h : StorageInv db) (hgr : graph ∈ db.npGraph)
    (hseen : ∀ row ∈ db.edgeLabels graph.edgeLabels, row.annotationsSeen = row.annotationsTbl)
    {c : PgClass} (hc : c ∈ db.pgClass) :
    Covered (db.graphRels graph) c ↔ c.relname.graphId = graph.id := by
  refine ⟨?_, covered_graphRels h hgr hseen hc⟩
  rintro (ho | ⟨t, ht, hidx⟩)
  · obtain ⟨name, hhas, hid, -⟩ := found_graphRels h hgr ho
    rw [h.inv.relname_of_has hc hhas, hid]
  · obtain ⟨name, hhas, hid, -⟩ := found_graphRels h hgr ht
    obtain ⟨c', hc', rfl, hgid, -⟩ := h.inv.indexes c hc t hidx
    rw [← hgid, h.inv.relname_of_has hc' hhas, hid]

/-- A table of annotations that the running command does not see is not on the list. -/
theorem not_covered_unseen (h : StorageInv db) (hgr : graph ∈ db.npGraph) {row : EdgeLabelRow}
    (hrow : row ∈ db.edgeLabels graph.edgeLabels) (hne : row.annotationsSeen ≠ row.annotationsTbl) :
    ∃ c ∈ db.pgClass, c.relname.graphId = graph.id ∧ ¬ Covered (db.graphRels graph) c := by
  have hok := h.inv.edgeRows graph hgr row hrow
  have hnone : row.annotationsSeen = none := hok.seen.resolve_right hne
  obtain ⟨a, ha⟩ : ∃ a, row.annotationsTbl = some a :=
    Option.ne_none_iff_exists'.mp fun htbl => hne (hnone.trans htbl.symm)
  obtain ⟨c, hc, rfl, hname, -, hno⟩ := hok.annotationsTbl a ha
  refine ⟨c, hc, by rw [hname]; rfl, ?_⟩
  rintro (ho | ⟨t, -, ht⟩)
  · obtain ⟨name, hhas, -, hseen⟩ := found_graphRels h hgr ho
    have heq : name = .edge graph.id row.id .annotations :=
      (h.inv.relname_of_has hc hhas).symm.trans hname
    obtain ⟨row', hrow', hid, hsome⟩ := hseen row.id heq
    -- the ids of edge labels are distinct
    obtain rfl := List.inj_on_of_nodup_map (h.inv.edgeIds graph hgr).1 hrow' hrow hid
    exact hsome hnone
  · rw [hno] at ht
    cases ht

theorem StorageInv.dropsCleanly_iff (h : StorageInv db) (hgr : graph ∈ db.npGraph) :
    DropsCleanly db graph ↔
      ∀ row ∈ db.edgeLabels graph.edgeLabels, row.annotationsSeen = row.annotationsTbl := by
  obtain ⟨db', hr, hdrop⟩ := dropGraph_runs h hgr
  have hclass : (withoutGraph graph db').pgClass =
      db.pgClass.filter fun c => ¬ Covered (db.graphRels graph) c := hdrop.pgClass
  constructor
  · rintro ⟨db₁, hr₁, hleft, -⟩ row hrow
    obtain ⟨-, rfl⟩ := hr₁.det hr
    by_contra hne
    obtain ⟨c, hc, hid, hno⟩ := not_covered_unseen h hgr hrow hne
    have hmem : c ∈ (withoutGraph graph db').pgClass := by
      rw [hclass]
      exact List.mem_filter.mpr ⟨hc, by simpa using hno⟩
    rw [hleft] at hmem
    have hcid := (List.mem_filter.mp hmem).2
    simp [hid] at hcid
  · intro hseen
    obtain ⟨hinv, hkept⟩ := h.dropped hgr (fun o ho => found_graphRels h hgr ho) hdrop
    have hgraphs : (withoutGraph graph db').npGraph = db.npGraph.filter fun gr => gr ≠ graph := by
      show db'.npGraph.erase graph = _
      rw [hdrop.npGraph, h.nodup.erase_eq_filter]
      exact List.filter_congr fun gr _ => by simp [bne, beq_eq_decide]
    refine ⟨_, hr, ?_, hgraphs, hkept, createGraph_succeeds ?_ fun c hc => ?_⟩
    · rw [hclass]
      refine List.filter_congr fun c hc => ?_
      exact decide_eq_decide.mpr (not_congr (covered_iff h hgr hseen hc))
    · refine List.find?_eq_none.mpr fun gr hmem => ?_
      rw [hgraphs] at hmem
      obtain ⟨hmem, hne⟩ := List.mem_filter.mp hmem
      simp only [decide_eq_true_eq]
      rintro ⟨hname, hns⟩
      exact (by simpa using hne : gr ≠ graph) (h.names gr hmem graph hgr hname hns)
    · have := hinv.relIds c hc
      omega

/-- **`drop_graph` drops cleanly, or an edge label has got its table for annotations in the running
command.** -/
theorem dropGraph_clean_iff (hrun : StorageRun before db) (hgr : graph ∈ db.npGraph) :
    DropsCleanly db graph ↔
      ∀ row ∈ db.edgeLabels graph.edgeLabels, row.annotationsSeen = row.annotationsTbl :=
  hrun.inv.2.1.dropsCleanly_iff hgr

/-- A call that has run. -/
theorem StorageRun.step (h : StorageRun before db) (c : StorageCall) (hok : (c.run.exec db).1 = .ok ()) :
    StorageRun before (c.run.exec db).2 :=
  h.call c (Prog.runs_of_ok hok)

/-- A graph with an edge label that gets an annotation. -/
def annotatedCalls : List StorageCall :=
  [.createGraph "g" 2200, .createElabel "g" 2200 false, .addAnnotationLabel "g" 2200 [2]]

/-- The state after calls of one command. -/
def afterCalls (calls : List StorageCall) : ObjectDb :=
  calls.foldl (fun db c => (c.run.exec db).2) .empty

theorem annotatedCalls_run : StorageRun .empty (afterCalls annotatedCalls) :=
  StorageRun.step (StorageRun.step (StorageRun.step .start (.createGraph "g" 2200) (by decide +kernel))
    (.createElabel "g" 2200 false) (by decide +kernel)) (.addAnnotationLabel "g" 2200 [2]) (by decide +kernel)

/-- The row of that graph. -/
def annotatedGraph : NpGraphRow := ⟨1, "g", 2200, 3, 2, 18, 17, 24, 25⟩

theorem annotatedGraph_mem : annotatedGraph ∈ (afterCalls annotatedCalls).npGraph := by decide +kernel

/-- In the next command the graph is dropped cleanly. -/
theorem dropGraph_clean_nextCommand :
    DropsCleanly (afterCalls annotatedCalls).commandCounterIncrement annotatedGraph :=
  (dropGraph_clean_iff annotatedCalls_run.nextCommand annotatedGraph_mem).mpr (by decide +kernel)

/-- In the same command the table of annotations is left behind. -/
theorem dropGraph_leaves_annotations : ¬ ∀ before db : ObjectDb, StorageRun before db →
    ∀ graph ∈ db.npGraph, DropsCleanly db graph := by
  intro h
  have hclean := h _ _ annotatedCalls_run annotatedGraph annotatedGraph_mem
  have hseen := (annotatedCalls_run.inv.2.1.dropsCleanly_iff annotatedGraph_mem).mp hclean
  exact absurd hseen (by decide +kernel)

end NeoPostGraph.Storage
