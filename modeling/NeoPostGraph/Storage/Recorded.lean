import NeoPostGraph.Storage.Objects

/-!
# Every relation of a graph is recorded

A relation can be found from the row of its graph: its oid is in a column of that row or of the row of a
label, or in a partition's row, or it has the name that is looked up, or it is an index of such a table.

* `Recorded`: where the catalogs name a relation.
* `Inv`: every relation but a few that are being made is recorded, and what the catalogs name are
  relations of the graph.
* `Grows`: relations and rows are added.

Results: `Inv.create` and what the routines that make a label do to the invariant,
`Inv.buildVertexLabelInfrastructure` and `Inv.buildEdgeLabel`.
-/

namespace NeoPostGraph.Storage

variable {db db' : ObjectDb} {graphs : List NpGraphRow} {graph : NpGraphRow} {pending : List Oid}
  {name : RelName} {ns o : Oid} {idx : Option Oid} {g l : Nat} {u : Unit}

/-! ## Where relations are recorded -/

/-- There is a relation of this oid and this name. -/
def ObjectDb.Has (db : ObjectDb) (o : Oid) (name : RelName) : Prop :=
  ∃ c ∈ db.pgClass, c.oid = o ∧ c.relname = name

/-- A lookup of its name finds the relation. -/
def ObjectDb.Named (db : ObjectDb) (c : PgClass) : Prop :=
  db.getRelnameRelid c.relname npNamespaceId = some c.oid

/-- It is an index on the table that a lookup of the name finds. -/
def ObjectDb.IndexOf (db : ObjectDb) (c : PgClass) (name : RelName) : Prop :=
  ∃ t, c.indrelid = some t ∧ db.getRelnameRelid name npNamespaceId = some t

/-- A relation of a vertex label is recorded in its row. -/
def VertexRecorded (db : ObjectDb) (g : Nat) (row : VertexLabelRow) (c : PgClass) : VertexRel → Prop
  | .tbl => c.oid = row.tbl
  | .physMap => c.oid = row.physMap
  | .arraylist => c.oid = row.arraylist
  | .linkedListSeq => c.oid = row.linkedListSeq
  | .linkedList _ => ∃ part ∈ db.linkedListMeta row.linkedListMeta, part.tbl = c.oid
  | .linkedListMeta => c.oid = row.linkedListMeta
  | .annotations => c.oid = row.annotationsTbl
  | .idSeq => db.Named c
  | .dictionary => db.Named c
  | .dictionarySeq => db.Named c
  | .dictionaryIndex => db.IndexOf c (.vertex g row.id .dictionary)

/-- A relation of an edge label is recorded in its row. -/
def EdgeRecorded (db : ObjectDb) (row : EdgeLabelRow) (c : PgClass) : EdgeRel → Prop
  | .tbl => c.oid = row.tbl
  | .physMap => c.oid = row.physMap
  | .annotations => row.annotationsTbl = some c.oid
  | .idSeq => db.Named c

/-- A relation of the graph itself. -/
def GraphRecorded (db : ObjectDb) (graph : NpGraphRow) (c : PgClass) : GraphRel → Prop
  | .vertexLabelIdSeq => c.oid = graph.vertexIdSeq
  | .vertexLabel => c.oid = graph.vertexLabels
  | .vertexLabelBtreeIdx => c.indrelid = some graph.vertexLabels
  | .vertexLabelGistIdx => c.indrelid = some graph.vertexLabels
  | .edgeLabelIdSeq => c.oid = graph.edgeIdSeq
  | .edgeLabel => c.oid = graph.edgeLabels
  | .edgeLabelBtreeIdx => c.indrelid = some graph.edgeLabels
  | .edgeLabelGistIdx => c.indrelid = some graph.edgeLabels
  | .annotationSchema => c.oid = graph.annotSchemaTbl
  | .annotationSchemaPhysMap => c.oid = graph.annotSchemaPhysMap
  | .labelCatalog => db.Named c
  | .labelCatalogIdx => db.IndexOf c (.graph graph.id .labelCatalog)

/-- **The catalogs name the relation**, as one of the graph's. -/
def Recorded (db : ObjectDb) (graph : NpGraphRow) (c : PgClass) : Prop :=
  match c.relname with
  | .graph _ rel => GraphRecorded db graph c rel
  | .vertex g l rel =>
    ∃ row ∈ db.vertexLabels graph.vertexLabels, row.id = l ∧ VertexRecorded db g row c rel
  | .edge _ l rel => ∃ row ∈ db.edgeLabels graph.edgeLabels, row.id = l ∧ EdgeRecorded db row c rel

/-! ## What the catalogs name -/

/-- The columns of a vertex label name its relations, and so do the rows of its partitions. -/
structure VertexRowOk (db : ObjectDb) (g : Nat) (row : VertexLabelRow) : Prop where
  tbl : db.Has row.tbl (.vertex g row.id .tbl)
  physMap : db.Has row.physMap (.vertex g row.id .physMap)
  linkedListMeta : db.Has row.linkedListMeta (.vertex g row.id .linkedListMeta)
  linkedListSeq : db.Has row.linkedListSeq (.vertex g row.id .linkedListSeq)
  arraylist : db.Has row.arraylist (.vertex g row.id .arraylist)
  annotationsTbl : db.Has row.annotationsTbl (.vertex g row.id .annotations)
  partitions : ∀ part ∈ db.linkedListMeta row.linkedListMeta,
    db.Has part.tbl (.vertex g row.id (.linkedList part.id))

/-- The columns of an edge label name its relations. A command that is running may not see the table
for annotations. -/
structure EdgeRowOk (db : ObjectDb) (graph : NpGraphRow) (row : EdgeLabelRow) : Prop where
  tbl : db.Has row.tbl (.edge graph.id row.id .tbl)
  physMap : db.Has row.physMap (.edge graph.id row.id .physMap)
  annotationsTbl : ∀ o, row.annotationsTbl = some o → ∃ c ∈ db.pgClass, c.oid = o ∧
    c.relname = .edge graph.id row.id .annotations ∧ c.relnamespace = graph.namespaceOid ∧
    c.indrelid = none
  seen : row.annotationsSeen = none ∨ row.annotationsSeen = row.annotationsTbl

/-- The columns of a graph name its relations. -/
structure GraphRowOk (db : ObjectDb) (graph : NpGraphRow) : Prop where
  vertexIdSeq : db.Has graph.vertexIdSeq (.graph graph.id .vertexLabelIdSeq)
  vertexLabels : db.Has graph.vertexLabels (.graph graph.id .vertexLabel)
  edgeIdSeq : db.Has graph.edgeIdSeq (.graph graph.id .edgeLabelIdSeq)
  edgeLabels : db.Has graph.edgeLabels (.graph graph.id .edgeLabel)
  annotSchemaTbl : db.Has graph.annotSchemaTbl (.graph graph.id .annotationSchema)
  annotSchemaPhysMap : db.Has graph.annotSchemaPhysMap (.graph graph.id .annotationSchemaPhysMap)
  vertexNamed : db.getRelnameRelid (.graph graph.id .vertexLabel) npNamespaceId = some graph.vertexLabels
  edgeNamed : db.getRelnameRelid (.graph graph.id .edgeLabel) npNamespaceId = some graph.edgeLabels

/-- **The invariant**, for graphs that are there or about to be, and relations that are not recorded
yet. -/
structure Inv (graphs : List NpGraphRow) (db : ObjectDb) (pending : List Oid) : Prop where
  below : ∀ c ∈ db.pgClass, c.oid < db.nextOid
  distinct : (db.pgClass.map PgClass.oid).Nodup
  indexes : ∀ c ∈ db.pgClass, ∀ t, c.indrelid = some t → ∃ c' ∈ db.pgClass, c'.oid = t ∧
    c'.relname.graphId = c.relname.graphId ∧ c'.indrelid = none
  unused : ∀ o, db.nextOid ≤ o →
    db.vertexLabels o = [] ∧ db.edgeLabels o = [] ∧ db.linkedListMeta o = []
  catalogs : ∀ gr ∈ graphs, ∀ gr' ∈ graphs,
    gr.id = gr'.id ∨ gr.vertexLabels = gr'.vertexLabels ∨ gr.edgeLabels = gr'.edgeLabels → gr = gr'
  complete : ∀ c ∈ db.pgClass, c.oid ∈ pending ∨
    ∀ gr ∈ graphs, gr.id = c.relname.graphId → Recorded db gr c
  vertexRows : ∀ gr ∈ graphs, ∀ row ∈ db.vertexLabels gr.vertexLabels, VertexRowOk db gr.id row
  edgeRows : ∀ gr ∈ graphs, ∀ row ∈ db.edgeLabels gr.edgeLabels, EdgeRowOk db gr row
  edgeIds : ∀ gr ∈ graphs, ((db.edgeLabels gr.edgeLabels).map EdgeLabelRow.id).Nodup ∧
    ∀ row ∈ db.edgeLabels gr.edgeLabels, row.id ≤ db.seqs gr.edgeIdSeq

/-! ## Adding relations and rows -/

/-- Relations and rows are added, and rows change in what does not name a relation. -/
structure Grows (db db' : ObjectDb) : Prop where
  pgClass : ∃ more, db'.pgClass = db.pgClass ++ more
  vertexLabels : ∀ o, ∀ row ∈ db.vertexLabels o, row ∈ db'.vertexLabels o
  edgeLabels : ∀ o, ∀ row ∈ db.edgeLabels o, ∃ row' ∈ db'.edgeLabels o, row'.id = row.id ∧
    row'.tbl = row.tbl ∧ row'.physMap = row.physMap ∧
    ∀ a, row.annotationsTbl = some a → row'.annotationsTbl = some a
  linkedListMeta : ∀ o, ∀ part ∈ db.linkedListMeta o, ∃ part' ∈ db'.linkedListMeta o,
    part'.tbl = part.tbl
  nextOid : db.nextOid ≤ db'.nextOid

theorem Grows.refl (db : ObjectDb) : Grows db db :=
  ⟨⟨[], (List.append_nil _).symm⟩, fun _ _ h => h,
    fun _ row h => ⟨row, h, rfl, rfl, rfl, fun _ ha => ha⟩, fun _ part h => ⟨part, h, rfl⟩, Nat.le_refl _⟩

theorem Grows.trans {db₁ : ObjectDb} (h : Grows db db₁) (h' : Grows db₁ db') : Grows db db' := by
  refine ⟨?_, fun o row hrow => h'.vertexLabels o row (h.vertexLabels o row hrow), fun o row hrow => ?_,
    fun o part hpart => ?_, Nat.le_trans h.nextOid h'.nextOid⟩
  · obtain ⟨more, hmore⟩ := h.pgClass
    obtain ⟨more', hmore'⟩ := h'.pgClass
    exact ⟨more ++ more', by rw [hmore', hmore, List.append_assoc]⟩
  · obtain ⟨row₁, hrow₁, hid, htbl, hphys, hannot⟩ := h.edgeLabels o row hrow
    obtain ⟨row₂, hrow₂, hid', htbl', hphys', hannot'⟩ := h'.edgeLabels o row₁ hrow₁
    exact ⟨row₂, hrow₂, hid'.trans hid, htbl'.trans htbl, hphys'.trans hphys,
      fun a ha => hannot' a (hannot a ha)⟩
  · obtain ⟨part₁, hpart₁, htbl⟩ := h.linkedListMeta o part hpart
    obtain ⟨part₂, hpart₂, htbl'⟩ := h'.linkedListMeta o part₁ hpart₁
    exact ⟨part₂, hpart₂, htbl'.trans htbl⟩

/-- A command reads the rows anew. -/
theorem Grows.see (db : ObjectDb) : Grows db db.commandCounterIncrement :=
  { Grows.refl db with
    edgeLabels := fun _ row hrow =>
      ⟨row.see, List.mem_map_of_mem hrow, rfl, rfl, rfl, fun _ ha => ha⟩ }

theorem Grows.addRelation (db : ObjectDb) (name : RelName) (ns : Oid) (idx : Option Oid) :
    Grows db (db.addRelation name ns idx) := by
  have hadd : Grows db { db with
      pgClass := db.pgClass ++ [⟨db.nextOid, name, ns, idx⟩], nextOid := db.nextOid + 1 } :=
    { Grows.refl db with
      pgClass := ⟨[⟨db.nextOid, name, ns, idx⟩], rfl⟩
      nextOid := Nat.le_succ _ }
  exact hadd.trans (Grows.see _)

theorem Grows.initial (h : Grows db db') : db.pgClass <+: db'.pgClass := by
  obtain ⟨more, hmore⟩ := h.pgClass
  exact ⟨more, hmore.symm⟩

theorem Grows.mem (h : Grows db db') {c : PgClass} (hc : c ∈ db.pgClass) : c ∈ db'.pgClass :=
  h.initial.subset hc

theorem Grows.has (h : Grows db db') (hhas : db.Has o name) : db'.Has o name := by
  obtain ⟨c, hc, hspec⟩ := hhas
  exact ⟨c, h.mem hc, hspec⟩

/-- A lookup finds what it has found before more relations are added. -/
theorem relid_of_initial (h : db.pgClass <+: db'.pgClass) {t : Oid}
    (hfound : db.getRelnameRelid name ns = some t) : db'.getRelnameRelid name ns = some t := by
  obtain ⟨more, hmore⟩ := h
  unfold ObjectDb.getRelnameRelid at hfound ⊢
  obtain ⟨c, hc, rfl⟩ := Option.map_eq_some_iff.mp hfound
  rw [← hmore, List.find?_append, hc]
  rfl

theorem Grows.relid (h : Grows db db') {t : Oid} (hfound : db.getRelnameRelid name ns = some t) :
    db'.getRelnameRelid name ns = some t :=
  relid_of_initial h.initial hfound

/-- **What is recorded stays recorded.** -/
theorem Grows.recorded (h : Grows db db') {c : PgClass} (hrec : Recorded db graph c) :
    Recorded db' graph c := by
  unfold Recorded at hrec ⊢
  split at hrec
  · next rel _ =>
    cases rel with
    | labelCatalog => exact h.relid hrec
    | labelCatalogIdx =>
      obtain ⟨t, ht, hfound⟩ := hrec
      exact ⟨t, ht, h.relid hfound⟩
    | _ => exact hrec
  · next rel _ =>
    obtain ⟨row, hrow, hid, hrec⟩ := hrec
    refine ⟨row, h.vertexLabels _ row hrow, hid, ?_⟩
    cases rel with
    | linkedList p =>
      obtain ⟨part, hpart, htbl⟩ := hrec
      obtain ⟨part', hpart', he⟩ := h.linkedListMeta _ part hpart
      exact ⟨part', hpart', he.trans htbl⟩
    | idSeq => exact h.relid hrec
    | dictionary => exact h.relid hrec
    | dictionarySeq => exact h.relid hrec
    | dictionaryIndex =>
      obtain ⟨t, ht, hfound⟩ := hrec
      exact ⟨t, ht, h.relid hfound⟩
    | _ => exact hrec
  · next rel _ =>
    obtain ⟨row, hrow, hid, hrec⟩ := hrec
    obtain ⟨row', hrow', hid', htbl, hphys, hannot⟩ := h.edgeLabels _ row hrow
    refine ⟨row', hrow', hid'.trans hid, ?_⟩
    cases rel with
    | tbl => exact hrec.trans htbl.symm
    | physMap => exact hrec.trans hphys.symm
    | annotations => exact hannot _ hrec
    | idSeq => exact h.relid hrec

theorem VertexRowOk.grows {row : VertexLabelRow} (h : VertexRowOk db g row) (hgrow : Grows db db')
    (hparts : ∀ part ∈ db'.linkedListMeta row.linkedListMeta,
      db'.Has part.tbl (.vertex g row.id (.linkedList part.id))) : VertexRowOk db' g row :=
  ⟨hgrow.has h.tbl, hgrow.has h.physMap, hgrow.has h.linkedListMeta, hgrow.has h.linkedListSeq,
    hgrow.has h.arraylist, hgrow.has h.annotationsTbl, hparts⟩

theorem EdgeRowOk.grows {row : EdgeLabelRow} (h : EdgeRowOk db graph row) (hgrow : Grows db db') :
    EdgeRowOk db' graph row := by
  refine ⟨hgrow.has h.tbl, hgrow.has h.physMap, fun a ha => ?_, h.seen⟩
  obtain ⟨c, hc, hspec⟩ := h.annotationsTbl a ha
  exact ⟨c, hgrow.mem hc, hspec⟩

theorem GraphRowOk.grows (h : GraphRowOk db graph) (hgrow : Grows db db') : GraphRowOk db' graph :=
  ⟨hgrow.has h.vertexIdSeq, hgrow.has h.vertexLabels, hgrow.has h.edgeIdSeq, hgrow.has h.edgeLabels,
    hgrow.has h.annotSchemaTbl, hgrow.has h.annotSchemaPhysMap, hgrow.relid h.vertexNamed,
    hgrow.relid h.edgeNamed⟩

/-! ## Names and oids -/

namespace Inv

/-- An oid has one relation. -/
theorem relname_of_has (h : Inv graphs db pending) {c : PgClass} (hc : c ∈ db.pgClass)
    (hhas : db.Has c.oid name) : c.relname = name := by
  obtain ⟨c', hc', hoid, hname⟩ := hhas
  rw [List.inj_on_of_nodup_map h.distinct hc hc' hoid.symm, hname]

theorem has_unique (h : Inv graphs db pending) {name' : RelName} (hhas : db.Has o name)
    (hhas' : db.Has o name') : name = name' := by
  obtain ⟨c, hc, rfl, rfl⟩ := hhas
  exact h.relname_of_has hc hhas'

theorem lt_of_has (h : Inv graphs db pending) (hhas : db.Has o name) : o < db.nextOid := by
  obtain ⟨c, hc, rfl, -⟩ := hhas
  exact h.below c hc

theorem has_of_relid (hfound : db.getRelnameRelid name ns = some o) : db.Has o name := by
  unfold ObjectDb.getRelnameRelid at hfound
  obtain ⟨c, hc, rfl⟩ := Option.map_eq_some_iff.mp hfound
  have hspec : c.relname = name ∧ c.relnamespace = ns := by simpa using List.find?_some hc
  exact ⟨c, List.mem_of_find?_eq_some hc, rfl, hspec.1⟩

/-- The relations that were being made are all recorded now. -/
theorem discharge (h : Inv graphs db pending) (hrec : ∀ c ∈ db.pgClass, c.oid ∈ pending →
    ∀ gr ∈ graphs, gr.id = c.relname.graphId → Recorded db gr c) : Inv graphs db [] :=
  { h with
    complete := fun c hc => Or.inr ((h.complete c hc).elim (hrec c hc) id) }

/-! ## Single writes -/

theorem seeRows (h : Inv graphs db pending) :
    Inv graphs db.commandCounterIncrement pending ∧ Grows db db.commandCounterIncrement := by
  have hgrow := Grows.see db
  refine ⟨⟨h.below, h.distinct, h.indexes, fun o ho => ?_, h.catalogs, fun c hc => ?_,
    fun gr hgr row hrow => ?_, fun gr hgr row hrow => ?_, fun gr hgr => ⟨?_, fun row hrow => ?_⟩⟩, hgrow⟩
  · obtain ⟨hv, he, hm⟩ := h.unused o ho
    exact ⟨hv, by simp [ObjectDb.commandCounterIncrement, he], hm⟩
  · exact (h.complete c hc).imp_right fun hrec gr hgr hid => hgrow.recorded (hrec gr hgr hid)
  · have hok := h.vertexRows gr hgr row hrow
    exact hok.grows hgrow hok.partitions
  · obtain ⟨r, hr, rfl⟩ := List.mem_map.mp hrow
    have hok := (h.edgeRows gr hgr r hr).grows hgrow
    exact ⟨hok.tbl, hok.physMap, hok.annotationsTbl, Or.inr rfl⟩
  · have := (h.edgeIds gr hgr).1
    simpa [ObjectDb.commandCounterIncrement, Function.comp_def, EdgeLabelRow.see] using this
  · obtain ⟨r, hr, rfl⟩ := List.mem_map.mp hrow
    exact (h.edgeIds gr hgr).2 r hr

/-- A relation is made: it waits to be recorded. -/
theorem addRelation (h : Inv graphs db pending) (hidx : ∀ t, idx = some t →
      ∃ c ∈ db.pgClass, c.oid = t ∧ c.relname.graphId = name.graphId ∧ c.indrelid = none) :
    Inv graphs (db.addRelation name ns idx) (db.nextOid :: pending) ∧
      Grows db (db.addRelation name ns idx) := by
  let c₀ : PgClass := ⟨db.nextOid, name, ns, idx⟩
  let db₁ : ObjectDb := { db with pgClass := db.pgClass ++ [c₀], nextOid := db.nextOid + 1 }
  have hgrow : Grows db db₁ :=
    { Grows.refl db with
      pgClass := ⟨[c₀], rfl⟩
      nextOid := Nat.le_succ _ }
  have hinv : Inv graphs db₁ (db.nextOid :: pending) := by
    refine ⟨fun c hc => ?_, ?_, fun c hc t ht => ?_, fun o ho => ?_, h.catalogs, fun c hc => ?_,
      fun gr hgr row hrow => ?_, fun gr hgr row hrow => ?_, h.edgeIds⟩
    · rcases List.mem_append.mp hc with hold | hnew
      · exact Nat.lt_succ_of_lt (h.below c hold)
      · rw [List.mem_singleton.mp hnew]
        exact Nat.lt_succ_self _
    · show ((db.pgClass ++ [c₀]).map PgClass.oid).Nodup
      rw [List.map_append]
      refine List.nodup_append.mpr ⟨h.distinct, List.nodup_singleton _, fun a ha b hb he => ?_⟩
      obtain ⟨c, hc, rfl⟩ := List.mem_map.mp ha
      rw [List.mem_singleton.mp hb] at he
      exact absurd he (Nat.ne_of_lt (h.below c hc))
    · rcases List.mem_append.mp hc with hold | hnew
      · obtain ⟨c', hc', hspec⟩ := h.indexes c hold t ht
        exact ⟨c', hgrow.mem hc', hspec⟩
      · obtain rfl := List.mem_singleton.mp hnew
        obtain ⟨c', hc', hspec⟩ := hidx t ht
        exact ⟨c', hgrow.mem hc', hspec⟩
    · exact h.unused o (Nat.le_of_succ_le ho)
    · rcases List.mem_append.mp hc with hold | hnew
      · exact (h.complete c hold).imp (List.mem_cons_of_mem _) fun hrec gr hgr hid =>
          hgrow.recorded (hrec gr hgr hid)
      · rw [List.mem_singleton.mp hnew]
        exact Or.inl List.mem_cons_self
    · have hok := h.vertexRows gr hgr row hrow
      exact hok.grows hgrow fun part hpart => hgrow.has (hok.partitions part hpart)
    · exact (h.edgeRows gr hgr row hrow).grows hgrow
  exact ⟨hinv.seeRows.1, Grows.addRelation db name ns idx⟩

/-- The partitions of a label change: none is lost, and those that are new are tables of the label. -/
theorem writeMeta (h : Inv graphs db pending) {m : Oid} {parts : List LinkedListMeta}
    (hm : db.Has m (.vertex g l .linkedListMeta))
    (hparts : ∀ part ∈ parts, db.Has part.tbl (.vertex g l (.linkedList part.id)))
    (hkept : ∀ part ∈ db.linkedListMeta m, ∃ part' ∈ parts, part'.tbl = part.tbl) :
    Inv graphs (db.setLinkedListMeta m parts) pending ∧
      Grows db (db.setLinkedListMeta m parts) := by
  have hgrow : Grows db (db.setLinkedListMeta m parts) :=
    { Grows.refl db with
      linkedListMeta := fun o part hpart => by
        by_cases ho : o = m
        · subst ho
          rw [db.setLinkedListMeta_self]
          exact hkept part hpart
        · rw [db.setLinkedListMeta_of_ne _ ho]
          exact ⟨part, hpart, rfl⟩ }
  refine ⟨{ h with
    unused := fun o ho => ?_
    complete := fun c hc => (h.complete c hc).imp_right fun hrec gr hgr hid =>
      hgrow.recorded (hrec gr hgr hid)
    vertexRows := fun gr hgr row hrow => ?_
    edgeRows := fun gr hgr row hrow => (h.edgeRows gr hgr row hrow).grows hgrow }, hgrow⟩
  · obtain ⟨hv, he, hmeta⟩ := h.unused o ho
    exact ⟨hv, he, (db.setLinkedListMeta_of_ne _ (Nat.ne_of_gt (Nat.lt_of_lt_of_le (h.lt_of_has hm) ho))).trans
      hmeta⟩
  · have hok := h.vertexRows gr hgr row hrow
    refine hok.grows hgrow fun part hpart => ?_
    by_cases hmeta : row.linkedListMeta = m
    · -- the table of the partitions is that of one label only
      have hname := h.has_unique (hmeta ▸ hok.linkedListMeta) hm
      injection hname with hg hl
      rw [hg, hl]
      rw [hmeta, db.setLinkedListMeta_self] at hpart
      exact hgrow.has (hparts part hpart)
    · rw [db.setLinkedListMeta_of_ne _ hmeta] at hpart
      exact hgrow.has (hok.partitions part hpart)

/-- The row of a vertex label is added. -/
theorem insertVertexLabel (h : Inv graphs db pending) (hgr : graph ∈ graphs)
    (hlt : graph.vertexLabels < db.nextOid) {row : VertexLabelRow} (hrow : VertexRowOk db graph.id row) :
    Inv graphs (db.setVertexLabels graph.vertexLabels (db.vertexLabels graph.vertexLabels ++ [row])) pending ∧
      Grows db (db.setVertexLabels graph.vertexLabels (db.vertexLabels graph.vertexLabels ++ [row])) := by
  have hgrow : Grows db (db.setVertexLabels graph.vertexLabels (db.vertexLabels graph.vertexLabels ++ [row])) :=
    { Grows.refl db with
      vertexLabels := fun o r hr => by
        by_cases ho : o = graph.vertexLabels
        · subst ho
          rw [db.setVertexLabels_self]
          exact List.mem_append_left _ hr
        · rw [db.setVertexLabels_of_ne _ ho]
          exact hr }
  refine ⟨{ h with
    unused := fun o ho => ?_
    complete := fun c hc => (h.complete c hc).imp_right fun hrec gr hgr hid =>
      hgrow.recorded (hrec gr hgr hid)
    vertexRows := fun gr hgr' r hr => ?_
    edgeRows := fun gr hgr r hr => (h.edgeRows gr hgr r hr).grows hgrow }, hgrow⟩
  · obtain ⟨hv, he, hmeta⟩ := h.unused o ho
    exact ⟨(db.setVertexLabels_of_ne _ (Nat.ne_of_gt (Nat.lt_of_lt_of_le hlt ho))).trans hv, he, hmeta⟩
  · have hold : r ∈ db.vertexLabels gr.vertexLabels ∨ gr = graph ∧ r = row := by
      by_cases ho : gr.vertexLabels = graph.vertexLabels
      · rw [ho] at hr ⊢
        rw [db.setVertexLabels_self] at hr
        refine (List.mem_append.mp hr).imp_right fun hnew => ?_
        exact ⟨h.catalogs gr hgr' graph hgr (Or.inr (Or.inl ho)), List.mem_singleton.mp hnew⟩
      · rw [db.setVertexLabels_of_ne _ ho] at hr
        exact Or.inl hr
    rcases hold with hold | ⟨rfl, rfl⟩
    · have hok := h.vertexRows gr hgr' r hold
      exact hok.grows hgrow fun part hpart => hgrow.has (hok.partitions part hpart)
    · exact hrow.grows hgrow fun part hpart => hgrow.has (hrow.partitions part hpart)

/-- The row of an edge label with a new id is added. -/
theorem insertLabel (h : Inv graphs db pending) (hgr : graph ∈ graphs)
    (hlt : graph.edgeLabels < db.nextOid) {row : EdgeLabelRow} (hrow : EdgeRowOk db graph row)
    (hnew : ∀ r ∈ db.edgeLabels graph.edgeLabels, r.id ≠ row.id)
    (hseq : row.id ≤ db.seqs graph.edgeIdSeq) :
    Inv graphs (db.setEdgeLabels graph.edgeLabels (db.edgeLabels graph.edgeLabels ++ [row])) pending ∧
      Grows db (db.setEdgeLabels graph.edgeLabels (db.edgeLabels graph.edgeLabels ++ [row])) := by
  have hgrow : Grows db (db.setEdgeLabels graph.edgeLabels (db.edgeLabels graph.edgeLabels ++ [row])) :=
    { Grows.refl db with
      edgeLabels := fun o r hr => by
        refine ⟨r, ?_, rfl, rfl, rfl, fun _ ha => ha⟩
        by_cases ho : o = graph.edgeLabels
        · subst ho
          rw [db.setEdgeLabels_self]
          exact List.mem_append_left _ hr
        · rw [db.setEdgeLabels_of_ne _ ho]
          exact hr }
  have hrows : ∀ gr ∈ graphs,
      gr = graph ∧ (db.setEdgeLabels graph.edgeLabels (db.edgeLabels graph.edgeLabels ++ [row])).edgeLabels
        gr.edgeLabels = db.edgeLabels gr.edgeLabels ++ [row] ∨
      (db.setEdgeLabels graph.edgeLabels (db.edgeLabels graph.edgeLabels ++ [row])).edgeLabels
        gr.edgeLabels = db.edgeLabels gr.edgeLabels := by
    intro gr hgr'
    by_cases ho : gr.edgeLabels = graph.edgeLabels
    · obtain rfl := h.catalogs gr hgr' graph hgr (Or.inr (Or.inr ho))
      exact Or.inl ⟨rfl, db.setEdgeLabels_self _⟩
    · exact Or.inr (db.setEdgeLabels_of_ne _ ho)
  refine ⟨{ h with
    unused := fun o ho => ?_
    complete := fun c hc => (h.complete c hc).imp_right fun hrec gr hgr hid =>
      hgrow.recorded (hrec gr hgr hid)
    vertexRows := fun gr hgr r hr => ?_
    edgeRows := fun gr hgr' r hr => ?_
    edgeIds := fun gr hgr' => ?_ }, hgrow⟩
  · obtain ⟨hv, he, hmeta⟩ := h.unused o ho
    exact ⟨hv, (db.setEdgeLabels_of_ne _ (Nat.ne_of_gt (Nat.lt_of_lt_of_le hlt ho))).trans he, hmeta⟩
  · have hok := h.vertexRows gr hgr r hr
    exact hok.grows hgrow fun part hpart => hgrow.has (hok.partitions part hpart)
  · rcases hrows gr hgr' with ⟨rfl, heq⟩ | heq
    · rw [heq] at hr
      rcases List.mem_append.mp hr with hold | hmem
      · exact (h.edgeRows gr hgr' r hold).grows hgrow
      · rw [List.mem_singleton.mp hmem]
        exact hrow.grows hgrow
    · rw [heq] at hr
      exact (h.edgeRows gr hgr' r hr).grows hgrow
  · obtain ⟨hnodup, hle⟩ := h.edgeIds gr hgr'
    rcases hrows gr hgr' with ⟨rfl, heq⟩ | heq
    · rw [heq, List.map_append]
      refine ⟨List.nodup_append.mpr ⟨hnodup, List.nodup_singleton _, fun a ha b hb he => ?_⟩,
        fun r hr => ?_⟩
      · obtain ⟨r, hr, rfl⟩ := List.mem_map.mp ha
        rw [List.mem_singleton.mp hb] at he
        exact hnew r hr he
      · rcases List.mem_append.mp hr with hold | hmem
        · exact hle r hold
        · rw [List.mem_singleton.mp hmem]
          exact hseq
    · rw [heq]
      exact ⟨hnodup, hle⟩

/-- The row of an edge label gets its table for annotations. -/
theorem updateAnnotationsTbl (h : Inv graphs db pending) (hgr : graph ∈ graphs)
    (hlt : graph.edgeLabels < db.nextOid)
    (hnone : ∀ r ∈ db.edgeLabels graph.edgeLabels, r.id = l → r.annotationsTbl = none)
    (hentry : ∃ c ∈ db.pgClass, c.oid = o ∧ c.relname = .edge graph.id l .annotations ∧
      c.relnamespace = graph.namespaceOid ∧ c.indrelid = none) :
    Inv graphs (db.setEdgeLabels graph.edgeLabels ((db.edgeLabels graph.edgeLabels).map fun row =>
        if row.id = l then { row with annotationsTbl := some o } else row)) pending ∧
      Grows db (db.setEdgeLabels graph.edgeLabels ((db.edgeLabels graph.edgeLabels).map fun row =>
        if row.id = l then { row with annotationsTbl := some o } else row)) := by
  let upd : EdgeLabelRow → EdgeLabelRow := fun row =>
    if row.id = l then { row with annotationsTbl := some o } else row
  have hid : ∀ row, (upd row).id = row.id := fun row => by
    dsimp only [upd]
    split <;> rfl
  have hgrow : Grows db (db.setEdgeLabels graph.edgeLabels ((db.edgeLabels graph.edgeLabels).map upd)) :=
    { Grows.refl db with
      edgeLabels := fun rel row hrow => by
        by_cases ho : rel = graph.edgeLabels
        · subst ho
          rw [db.setEdgeLabels_self]
          refine ⟨upd row, List.mem_map_of_mem hrow, hid row, ?_⟩
          dsimp only [upd]
          split
          · next hl => exact ⟨rfl, rfl, fun a ha => by simp [hnone row hrow hl] at ha⟩
          · exact ⟨rfl, rfl, fun _ ha => ha⟩
        · rw [db.setEdgeLabels_of_ne _ ho]
          exact ⟨row, hrow, rfl, rfl, rfl, fun _ ha => ha⟩ }
  have hrows : ∀ gr ∈ graphs, gr = graph ∧
        (db.setEdgeLabels graph.edgeLabels ((db.edgeLabels graph.edgeLabels).map upd)).edgeLabels
          gr.edgeLabels = (db.edgeLabels gr.edgeLabels).map upd ∨
      (db.setEdgeLabels graph.edgeLabels ((db.edgeLabels graph.edgeLabels).map upd)).edgeLabels
        gr.edgeLabels = db.edgeLabels gr.edgeLabels := by
    intro gr hgr'
    by_cases ho : gr.edgeLabels = graph.edgeLabels
    · obtain rfl := h.catalogs gr hgr' graph hgr (Or.inr (Or.inr ho))
      exact Or.inl ⟨rfl, db.setEdgeLabels_self _⟩
    · exact Or.inr (db.setEdgeLabels_of_ne _ ho)
  refine ⟨{ h with
    unused := fun rel ho => ?_
    complete := fun c hc => (h.complete c hc).imp_right fun hrec gr hgr hid =>
      hgrow.recorded (hrec gr hgr hid)
    vertexRows := fun gr hgr r hr => ?_
    edgeRows := fun gr hgr' r hr => ?_
    edgeIds := fun gr hgr' => ?_ }, hgrow⟩
  · obtain ⟨hv, he, hmeta⟩ := h.unused rel ho
    exact ⟨hv, (db.setEdgeLabels_of_ne _ (Nat.ne_of_gt (Nat.lt_of_lt_of_le hlt ho))).trans he, hmeta⟩
  · have hok := h.vertexRows gr hgr r hr
    exact hok.grows hgrow fun part hpart => hgrow.has (hok.partitions part hpart)
  · rcases hrows gr hgr' with ⟨rfl, heq⟩ | heq
    · rw [heq] at hr
      obtain ⟨row, hrow, rfl⟩ := List.mem_map.mp hr
      have hok := (h.edgeRows gr hgr' row hrow).grows hgrow
      by_cases hl : row.id = l
      · have hupd : upd row = { row with annotationsTbl := some o } := if_pos hl
        have hseen : row.annotationsSeen = none := by
          rcases hok.seen with hseen | hseen
          · exact hseen
          · exact hseen.trans (hnone row hrow hl)
        rw [hupd]
        refine ⟨hok.tbl, hok.physMap, fun a ha => ?_, Or.inl hseen⟩
        obtain rfl := Option.some.inj ha
        obtain ⟨c, hc, hoid, hname, hspec⟩ := hentry
        exact ⟨c, hgrow.mem hc, hoid, hname.trans (by rw [hl]), hspec⟩
      · rw [show upd row = row from if_neg hl]
        exact hok
    · rw [heq] at hr
      exact (h.edgeRows gr hgr' r hr).grows hgrow
  · obtain ⟨hnodup, hle⟩ := h.edgeIds gr hgr'
    rcases hrows gr hgr' with ⟨rfl, heq⟩ | heq
    · rw [heq, List.map_map]
      refine ⟨?_, fun r hr => ?_⟩
      · rwa [show EdgeLabelRow.id ∘ upd = EdgeLabelRow.id from funext hid]
      · obtain ⟨row, hrow, rfl⟩ := List.mem_map.mp hr
        exact hid row ▸ hle row hrow
    · rw [heq]
      exact ⟨hnodup, hle⟩

/-- A sequence is advanced. -/
theorem advance (h : Inv graphs db pending) (s : Oid) :
    Inv graphs (db.advance s) pending ∧
      Grows db (db.advance s) := by
  have hgrow : Grows db (db.advance s) := { Grows.refl db with }
  refine ⟨{ h with
    complete := fun c hc => (h.complete c hc).imp_right fun hrec gr hgr hid =>
      hgrow.recorded (hrec gr hgr hid)
    vertexRows := fun gr hgr row hrow => ?_
    edgeRows := fun gr hgr row hrow => (h.edgeRows gr hgr row hrow).grows hgrow
    edgeIds := fun gr hgr => ⟨(h.edgeIds gr hgr).1, fun row hrow => ?_⟩ }, hgrow⟩
  · have hok := h.vertexRows gr hgr row hrow
    exact hok.grows hgrow fun part hpart => hgrow.has (hok.partitions part hpart)
  · exact Nat.le_trans ((h.edgeIds gr hgr).2 row hrow) (db.seqs_le_advance s gr.edgeIdSeq)

end Inv

end NeoPostGraph.Storage
