import NeoPostGraph.Storage.Labels

/-!
# Calls stay within their graph

A call that makes relations makes them for one graph, and it does not touch `np_graph`. Oids and the
values of sequences only go up, also when the call fails.

* `Within g db db'`: only relations of the graph `g` are made.
* `Forward db db'`: the counters go up.

Results: `within_buildVertexLabelInfrastructure` and its like, every step of the routine stays within the
graph; `forward_run`, every step of every call goes forward.
-/

namespace NeoPostGraph.Storage

variable {db db' db₀ : ObjectDb} {name : RelName} {ns o : Oid} {idx : Option Oid} {g l : Nat} {u : Unit}

/-- Relations are made for the graph only. -/
structure Within (g : Nat) (db db' : ObjectDb) : Prop where
  npGraph : db'.npGraph = db.npGraph
  npGraphIdSeq : db'.npGraphIdSeq = db.npGraphIdSeq
  nextOid : db.nextOid ≤ db'.nextOid
  seqs : ∀ o, db.seqs o ≤ db'.seqs o
  made : ∀ c ∈ db'.pgClass, c ∈ db.pgClass ∨ c.relname.graphId = g

/-- Oids and the values of sequences are not given out again. -/
structure Forward (db db' : ObjectDb) : Prop where
  npGraphIdSeq : db.npGraphIdSeq ≤ db'.npGraphIdSeq
  nextOid : db.nextOid ≤ db'.nextOid
  seqs : ∀ o, db.seqs o ≤ db'.seqs o

theorem Within.refl (g : Nat) (db : ObjectDb) : Within g db db :=
  ⟨rfl, rfl, Nat.le_refl _, fun _ => Nat.le_refl _, fun _ hc => Or.inl hc⟩

theorem Forward.refl (db : ObjectDb) : Forward db db :=
  ⟨Nat.le_refl _, Nat.le_refl _, fun _ => Nat.le_refl _⟩

theorem Within.trans {db₁ : ObjectDb} (h : Within g db db₁) (h' : Within g db₁ db') : Within g db db' :=
  ⟨h'.npGraph.trans h.npGraph, h'.npGraphIdSeq.trans h.npGraphIdSeq, Nat.le_trans h.nextOid h'.nextOid,
    fun o => Nat.le_trans (h.seqs o) (h'.seqs o),
    fun c hc => (h'.made c hc).elim (h.made c) Or.inr⟩

theorem Forward.trans {db₁ : ObjectDb} (h : Forward db db₁) (h' : Forward db₁ db') : Forward db db' :=
  ⟨Nat.le_trans h.npGraphIdSeq h'.npGraphIdSeq, Nat.le_trans h.nextOid h'.nextOid,
    fun o => Nat.le_trans (h.seqs o) (h'.seqs o)⟩

theorem Within.forward (h : Within g db db') : Forward db db' :=
  ⟨Nat.le_of_eq h.npGraphIdSeq.symm, h.nextOid, h.seqs⟩

/-! ## Steps -/

/-- A step that writes rows. -/
theorem within_write {f : ObjectDb → Except StorageErr ObjectDb}
    (h : ∀ s s', f s = .ok s' → s'.pgClass = s.pgClass ∧ s'.npGraph = s.npGraph ∧
      s'.npGraphIdSeq = s.npGraphIdSeq ∧ s'.nextOid = s.nextOid ∧ s'.seqs = s.seqs) :
    (Prog.write f).Keeps (Within g db₀) :=
  Prog.keeps_write fun s s' hs hf => by
    obtain ⟨hclass, hgraph, hid, hoid, hseqs⟩ := h s s' hf
    refine hs.trans ⟨hgraph, hid, Nat.le_of_eq hoid.symm, fun o => ?_, fun c hc => ?_⟩
    · rw [hseqs]
    · rw [hclass] at hc
      exact Or.inl hc

/-- A step that always succeeds. -/
theorem within_writeRows {f : ObjectDb → ObjectDb}
    (h : ∀ s, (f s).pgClass = s.pgClass ∧ (f s).npGraph = s.npGraph ∧
      (f s).npGraphIdSeq = s.npGraphIdSeq ∧ (f s).nextOid = s.nextOid ∧ (f s).seqs = s.seqs) :
    (Prog.write fun s => (.ok (f s) : Except StorageErr ObjectDb)).Keeps (Within g db₀) :=
  within_write fun s s' hf => by
    cases hf
    exact h s

theorem within_createRelation (hname : name.graphId = g) :
    (createRelation name ns idx).Keeps (Within g db₀) :=
  Prog.keeps_of_runs fun s o s' hs hr => by
    obtain ⟨-, -, rfl⟩ := createRelation_runs_iff.mp hr
    refine hs.trans ⟨rfl, rfl, Nat.le_succ _, fun _ => Nat.le_refl _, fun c hc => ?_⟩
    rcases List.mem_append.mp hc with hold | hnew
    · exact Or.inl hold
    · rw [List.mem_singleton.mp hnew]
      exact Or.inr hname

theorem within_createIndex {tblName : RelName} (hname : name.graphId = g) :
    (createIndex tblName name).Keeps (Within g db₀) :=
  (Prog.keeps_read _ _).bind fun _ => (within_createRelation hname).bind fun _ => Prog.keeps_ret _ _

theorem within_graphTable {rel : GraphRel} : (createTable (.graph g rel) ns).Keeps (Within g db₀) :=
  within_createRelation rfl

theorem within_vertexTable {rel : VertexRel} : (createTable (.vertex g l rel) ns).Keeps (Within g db₀) :=
  within_createRelation rfl

theorem within_edgeTable {rel : EdgeRel} : (createTable (.edge g l rel) ns).Keeps (Within g db₀) :=
  within_createRelation rfl

theorem within_graphIndex {tblName : RelName} {rel : GraphRel} :
    (createIndex tblName (.graph g rel)).Keeps (Within g db₀) :=
  within_createIndex rfl

theorem within_vertexIndex {tblName : RelName} {rel : VertexRel} :
    (createIndex tblName (.vertex g l rel)).Keeps (Within g db₀) :=
  within_createIndex rfl

theorem within_nextval {seq : Oid} : (nextval seq).Keeps (Within g db₀) :=
  Prog.keeps_of_runs fun s n s' hs hr => by
    obtain ⟨-, -, rfl⟩ := nextval_runs_iff.mp hr
    exact hs.trans ⟨rfl, rfl, Nat.le_refl _, s.seqs_le_advance seq, fun _ hc => Or.inl hc⟩

theorem within_insertVertexLlMeta {part : LinkedListMeta} :
    (insertVertexLlMeta g l ns part).Keeps (Within g db₀) :=
  within_write fun s s' hf => by
    split at hf
    · cases hf
      exact ⟨rfl, rfl, rfl, rfl, rfl⟩
    · cases hf

theorem within_insertVertexLabel {row : VertexLabelRow} :
    (insertVertexLabel g row).Keeps (Within g db₀) :=
  (Prog.keeps_read _ _).bind fun _ => within_writeRows fun _ => ⟨rfl, rfl, rfl, rfl, rfl⟩

theorem within_insertLabel {row : EdgeLabelRow} : (insertLabel g row).Keeps (Within g db₀) :=
  (Prog.keeps_read _ _).bind fun _ => within_writeRows fun _ => ⟨rfl, rfl, rfl, rfl, rfl⟩

/-! ## Labels -/

theorem within_buildVertexLabelInfrastructure :
    (buildVertexLabelInfrastructure g l ns).Keeps (Within g db₀) := by
  refine within_vertexTable.bind fun tbl => within_vertexTable.bind fun physMap =>
    within_vertexTable.bind fun arraylist => within_vertexTable.bind fun llSeq =>
    within_nextval.bind fun llId => within_vertexTable.bind fun llTable =>
    within_vertexTable.bind fun llMeta => within_insertVertexLlMeta.bind fun _ =>
    within_vertexTable.bind fun annots => within_insertVertexLabel.bind fun _ =>
    within_vertexTable.bind fun idSeq => ?_
  exact within_vertexTable.bind fun dict => within_vertexTable.bind fun seq =>
    within_vertexIndex

theorem within_createEdgeAnnotations {annotated : Bool} :
    (createEdgeAnnotations g l ns annotated).Keeps (Within g db₀) := by
  unfold createEdgeAnnotations
  split
  · exact within_edgeTable.bind fun _ => Prog.keeps_ret _ _
  · exact Prog.keeps_ret _ _

theorem within_buildEdgeLabel {annotated : Bool} :
    (buildEdgeLabel g l ns annotated).Keeps (Within g db₀) :=
  within_edgeTable.bind fun _ => within_edgeTable.bind fun _ =>
    within_createEdgeAnnotations.bind fun _ => within_insertLabel.bind fun _ =>
    within_edgeTable.bind fun _ => Prog.keeps_ret _ _

theorem within_setupVertexLabelCatalog : (setupVertexLabelCatalog g ns).Keeps (Within g db₀) :=
  within_graphTable.bind fun _ => within_graphTable.bind fun _ =>
    within_graphIndex.bind fun _ => within_graphIndex.bind fun _ =>
    within_nextval.bind fun _ => within_buildVertexLabelInfrastructure.bind fun _ => Prog.keeps_ret _ _

theorem within_setupEdgeLabelCatalog : (setupEdgeLabelCatalog g ns).Keeps (Within g db₀) :=
  within_graphTable.bind fun _ => within_graphTable.bind fun _ =>
    within_graphIndex.bind fun _ => within_graphIndex.bind fun _ =>
    within_nextval.bind fun _ => within_buildEdgeLabel.bind fun _ => Prog.keeps_ret _ _

theorem within_createLabelCatalogTable : (createLabelCatalogTable g).Keeps (Within g db₀) :=
  within_graphTable.bind fun _ => within_graphIndex

theorem within_npApplyAddAnnotationToTuple {rel : Oid} {row : EdgeLabelRow} :
    (npApplyAddAnnotationToTuple g ns rel row).Keeps (Within g db₀) := by
  unfold npApplyAddAnnotationToTuple
  split
  · exact Prog.keeps_ret _ _
  · exact within_edgeTable.bind fun _ => within_writeRows fun _ => ⟨rfl, rfl, rfl, rfl, rfl⟩

theorem within_forEachRow {rel : Oid} (rows : List EdgeLabelRow) :
    (forEachRow (npApplyAddAnnotationToTuple g ns rel) rows).Keeps (Within g db₀) := by
  induction rows with
  | nil => exact Prog.keeps_ret _ _
  | cons row rest ih => exact within_npApplyAddAnnotationToTuple.bind fun _ => ih

theorem within_createNewActiveLinkedList {label : VertexLabelRow} :
    (createNewActiveLinkedList g l label ns).Keeps (Within g db₀) :=
  within_nextval.bind fun _ => within_vertexTable.bind fun _ => within_writeRows fun _ => ⟨rfl, rfl, rfl, rfl, rfl⟩

theorem within_chooseOldest {label : VertexLabelRow} :
    (chooseOldest g l label ns).Keeps (Within g db₀) := by
  refine (Prog.keeps_read _ _).bind fun oldest => ?_
  split
  · exact Prog.keeps_ret _ _
  · refine within_createNewActiveLinkedList.bind fun _ => (Prog.keeps_read _ _).bind fun oldest => ?_
    split
    · exact Prog.keeps_ret _ _
    · exact Prog.keeps_fail _ _

/-! ## Calls -/

/-- Steps within some graph go forward. -/
theorem forward_of_within {α : Type} {p : StorageOp α} (h : ∀ s, p.Keeps (Within g s)) :
    p.Keeps (Forward db₀) :=
  Prog.Keeps.trans_rel (Within.refl g) (fun _ _ _ hs hw => hs.trans hw.forward) h db₀

theorem forward_dropRels (os : List Oid) : (dropRels os).Keeps (Forward db₀) := by
  induction os with
  | nil => exact Prog.keeps_ret _ _
  | cons o rest ih =>
    refine Prog.Keeps.bind (Prog.keeps_write fun s s' hs hf => ?_) fun _ => ih
    cases hf
    split
    · exact hs.trans ⟨Nat.le_refl _, Nat.le_refl _, fun _ => Nat.le_refl _⟩
    · exact hs

theorem forward_createGraph (name : String) : (createGraph name ns).Keeps (Forward db₀) := by
  refine (Prog.keeps_read _ _).bind fun _ => Prog.Keeps.bind ?_ fun g => ?_
  · refine Prog.keeps_step fun s a s' hs hf => ?_
    cases hf
    exact hs.trans ⟨Nat.le_succ _, Nat.le_refl _, fun _ => Nat.le_refl _⟩
  · refine (forward_of_within fun s => within_setupVertexLabelCatalog).bind fun _ =>
      (forward_of_within fun s => within_setupEdgeLabelCatalog).bind fun _ => ?_
    refine (forward_of_within fun s => within_graphTable).bind fun _ =>
      (forward_of_within fun s => within_graphTable).bind fun _ =>
      (forward_of_within fun s => within_createLabelCatalogTable).bind fun _ => ?_
    refine Prog.keeps_write fun s s' hs hf => ?_
    cases hf
    exact hs.trans ⟨Nat.le_refl _, Nat.le_refl _, fun _ => Nat.le_refl _⟩

theorem forward_dropGraph (name : String) : (dropGraph name ns).Keeps (Forward db₀) := by
  refine (Prog.keeps_read _ _).bind fun _ => (Prog.keeps_read _ _).bind fun os =>
    (forward_dropRels os).bind fun _ => Prog.keeps_write fun s s' hs hf => ?_
  split at hf
  · cases hf
  · cases hf
    exact hs.trans ⟨Nat.le_refl _, Nat.le_refl _, fun _ => Nat.le_refl _⟩

/-- **Every step of every call goes forward.** -/
theorem forward_run (c : StorageCall) : c.run.Keeps (Forward db₀) := by
  cases c with
  | createGraph name ns => exact forward_createGraph name
  | createVlabel name ns =>
    exact (Prog.keeps_read _ _).bind fun graph => forward_of_within fun s =>
      within_nextval.bind fun _ => within_buildVertexLabelInfrastructure
  | createVlabelFromPath graphId =>
    exact (Prog.keeps_read _ _).bind fun graph => (Prog.keeps_read _ _).bind fun seq =>
      forward_of_within fun s => within_nextval.bind fun _ => within_buildVertexLabelInfrastructure
  | createElabel name ns annotated =>
    exact (Prog.keeps_read _ _).bind fun graph => forward_of_within fun s =>
      within_nextval.bind fun _ => within_buildEdgeLabel
  | forgeEdgeLabel graphId annotated =>
    exact (Prog.keeps_read _ _).bind fun graph => forward_of_within fun s =>
      within_nextval.bind fun _ => within_buildEdgeLabel
  | addAnnotationLabel name ns labelIds =>
    exact (Prog.keeps_read _ _).bind fun graph => (Prog.keeps_read _ _).bind fun rel =>
      (Prog.keeps_read _ _).bind fun tups => forward_of_within fun s => within_forEachRow tups
  | rotateActiveLinkedListTable name ns labelId =>
    exact (Prog.keeps_read _ _).bind fun graph => (Prog.keeps_read _ _).bind fun label =>
      forward_of_within fun s => within_createNewActiveLinkedList
  | compactOldestLinkedListTable name ns labelId =>
    refine (Prog.keeps_read _ _).bind fun graph => (Prog.keeps_read _ _).bind fun label =>
      forward_of_within (g := graph.id) fun s => within_chooseOldest.bind fun oldest => ?_
    exact within_writeRows fun _ => ⟨rfl, rfl, rfl, rfl, rfl⟩
  | dropGraph name ns => exact forward_dropGraph name

end NeoPostGraph.Storage
