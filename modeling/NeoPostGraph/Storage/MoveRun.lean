import NeoPostGraph.Storage.MoveGraph
import NeoPostGraph.Storage.UniqueNames

/-!
# Histories with moves and renames

A graph that is moved or renamed keeps its relations: the catalogs name them by their oids, and those that
are looked up by their names are in the extension's schema, whatever the schema of the graph is.

* `moveRels_runs_iff`: what the loop of `alter_graph` moves, and when it fails.
* `StorageInv.relocate`: the relations of a graph stay recorded when some of them get another schema.
* `alterGraph_runs_iff`, `renameGraph_runs_iff`: when the two calls succeed, and what they leave.
* `MoveInv`, `MoveRun.inv`: the invariant of the histories, and that every call keeps it.
-/

namespace NeoPostGraph.Storage

variable {db db' seen before : ObjectDb} {graph : NpGraphRow} {os ms : List Oid} {name : RelName}
  {o ns oldNsp newNsp : Oid} {u : Unit}

/-! ## What the loop moves -/

/-- The relations of a list that are in the schema. -/
def movedOids (seen : ObjectDb) (oldNsp : Oid) (os : List Oid) : List Oid :=
  os.filter fun o => seen.getRelNamespace o = some oldNsp

theorem moveRelations_nil : db.moveRelations [] newNsp = db := by
  have hmap : ∀ c : PgClass, (if Covered [] c then { c with relnamespace := newNsp } else c) = c :=
    fun c => if_neg (by simp [Covered])
  unfold ObjectDb.moveRelations
  simp only [hmap, List.map_id']

theorem moveRelations_cons : db.moveRelations (o :: os) newNsp =
    (db.moveRelations [o] newNsp).moveRelations os newNsp := by
  unfold ObjectDb.moveRelations
  simp only [List.map_map]
  congr 1
  refine List.map_congr_left fun c _ => ?_
  have hcons := @covered_cons os o c
  by_cases ho : Covered [o] c
  · have hos : Covered os { c with relnamespace := newNsp } ↔ Covered os c := Iff.rfl
    simp [Function.comp, ho, hcons]
  · simp [Function.comp, ho, hcons]

theorem npMoveRelToNamespace_runs_iff : (npMoveRelToNamespace seen oldNsp newNsp o).Runs db u db' ↔
    (seen.getRelNamespace o = some oldNsp → ∀ c ∈ seen.pgClass, Covered [o] c →
      seen.getRelnameRelid c.relname newNsp = none) ∧
      db' = if seen.getRelNamespace o = some oldNsp then db.moveRelations [o] newNsp else db := by
  unfold npMoveRelToNamespace alterObjectNamespaceOid
  by_cases ho : seen.getRelNamespace o = some oldNsp
  · rw [if_pos ho, if_pos ho, Prog.runs_write_iff]
    cases hclash : seen.pgClass.find? fun c => Covered [o] c ∧ seen.nameTaken newNsp c with
    | some c =>
      have hspec : Covered [o] c ∧ seen.nameTaken newNsp c = true := by
        simpa using List.find?_some hclash
      simp only [reduceCtorEq, false_iff, not_and]
      intro hfree
      have hnone := hfree ho c (List.mem_of_find?_eq_some hclash) hspec.1
      simp [ObjectDb.nameTaken, hnone] at hspec
    | none =>
      have hfree : ∀ c ∈ seen.pgClass, Covered [o] c → seen.getRelnameRelid c.relname newNsp = none := by
        intro c hc hcov
        have hno := List.find?_eq_none.mp hclash c hc
        simpa [hcov, ObjectDb.nameTaken] using hno
      simp only [Except.ok.injEq]
      exact ⟨fun h => ⟨fun _ => hfree, h.symm⟩, fun h => h.2.symm⟩
  · simp [ho]

/-- **The loop moves the relations that are in the old schema**, unless the new one has a name. -/
theorem moveRels_runs_iff : (moveRels seen oldNsp newNsp os).Runs db u db' ↔
    (∀ o ∈ movedOids seen oldNsp os, ∀ c ∈ seen.pgClass, Covered [o] c →
      seen.getRelnameRelid c.relname newNsp = none) ∧
      db' = db.moveRelations (movedOids seen oldNsp os) newNsp := by
  induction os generalizing db with
  | nil =>
    unfold moveRels movedOids
    rw [Prog.pure_eq, Prog.runs_ret_iff, List.filter_nil, moveRelations_nil]
    simp
  | cons o rest ih =>
    unfold moveRels
    simp only [Prog.runs_bind_iff, npMoveRelToNamespace_runs_iff, ih]
    by_cases ho : seen.getRelNamespace o = some oldNsp
    · have hmoved : movedOids seen oldNsp (o :: rest) = o :: movedOids seen oldNsp rest :=
        List.filter_cons_of_pos (by simpa using ho)
      rw [hmoved, List.forall_mem_cons, @moveRelations_cons db (movedOids seen oldNsp rest) o newNsp]
      constructor
      · rintro ⟨_, _, ⟨hfree, rfl⟩, hrest, rfl⟩
        rw [if_pos ho]
        exact ⟨⟨hfree ho, hrest⟩, rfl⟩
      · rintro ⟨⟨hfree, hrest⟩, rfl⟩
        exact ⟨(), _, ⟨fun _ => hfree, (if_pos ho).symm⟩, hrest, rfl⟩
    · have hmoved : movedOids seen oldNsp (o :: rest) = movedOids seen oldNsp rest :=
        List.filter_cons_of_neg (by simpa using ho)
      rw [hmoved]
      constructor
      · rintro ⟨_, _, ⟨-, rfl⟩, h⟩
        rwa [if_neg ho] at h
      · intro h
        exact ⟨(), db, ⟨fun he => absurd he ho, (if_neg ho).symm⟩, h⟩

/-! ## Relations keep their records -/

/-- The relations of a graph that are in its schema follow its row to the row's new one. -/
def follow (graph row : NpGraphRow) (c : PgClass) : PgClass :=
  if c.relname.graphId = graph.id ∧ c.relnamespace = graph.namespaceOid then
    { c with relnamespace := row.namespaceOid }
  else c

/-- What a graph with a new name or a new schema should be: its row is replaced, and its relations follow. -/
def relocate (graph row : NpGraphRow) (db : ObjectDb) : ObjectDb :=
  .commandCounterIncrement { db with
    pgClass := db.pgClass.map (follow graph row)
    npGraph := db.npGraph.map fun gr => if gr = graph then row else gr }

section Follow

variable {row : NpGraphRow} (c : PgClass)

@[simp] theorem follow_oid : (follow graph row c).oid = c.oid := by
  unfold follow
  split <;> rfl

@[simp] theorem follow_relname : (follow graph row c).relname = c.relname := by
  unfold follow
  split <;> rfl

@[simp] theorem follow_indrelid : (follow graph row c).indrelid = c.indrelid := by
  unfold follow
  split <;> rfl

theorem follow_of_ne (h : c.relnamespace ≠ graph.namespaceOid) : follow graph row c = c :=
  if_neg fun hc => h hc.2

/-- In its own schema nothing moves. -/
theorem follow_self (h : row.namespaceOid = graph.namespaceOid) : follow graph row c = c := by
  unfold follow
  split
  · next hc => rw [h, ← hc.2]
  · rfl

end Follow

section Relocate

variable {row : NpGraphRow}

theorem mem_relocate {c' : PgClass} : c' ∈ (relocate graph row db).pgClass ↔
    ∃ c ∈ db.pgClass, follow graph row c = c' := List.mem_map

theorem has_relocate_iff : (relocate graph row db).Has o name ↔ db.Has o name := by
  unfold ObjectDb.Has
  constructor
  · rintro ⟨c', hc', hoid, hname⟩
    obtain ⟨c, hc, rfl⟩ := mem_relocate.mp hc'
    exact ⟨c, hc, (follow_oid c).symm.trans hoid, (follow_relname c).symm.trans hname⟩
  · rintro ⟨c, hc, hoid, hname⟩
    exact ⟨_, mem_relocate.mpr ⟨c, hc, rfl⟩, (follow_oid c).trans hoid, (follow_relname c).trans hname⟩

theorem relnames_relocate : (relocate graph row db).relnames = db.relnames := by
  show (db.pgClass.map (follow graph row)).map PgClass.relname = _
  rw [List.map_map]
  exact List.map_congr_left fun c _ => follow_relname c

/-- **Names stay different**, and indexes with their tables. -/
theorem UniqueNames.relocate (h : UniqueNames db) (hs : StorageInv db) :
    UniqueNames (Storage.relocate graph row db) := by
  refine ⟨by rw [relnames_relocate]; exact h.nodup, fun n hn x hx s hhas => ?_, fun c' hc' t ht => ?_⟩
  · rw [relnames_relocate] at hn
    exact h.given n hn x hx s (has_relocate_iff.mp hhas)
  · obtain ⟨c, hc, rfl⟩ := mem_relocate.mp hc'
    rw [follow_indrelid] at ht
    obtain ⟨tbl, htbl, hoid, hns⟩ := h.placed c hc t ht
    obtain ⟨tbl', htbl', hoid', hid, -⟩ := hs.inv.indexes c hc t ht
    obtain rfl := List.inj_on_of_nodup_map hs.inv.distinct htbl' htbl (hoid'.trans hoid.symm)
    refine ⟨_, mem_relocate.mpr ⟨tbl', htbl, rfl⟩, (follow_oid tbl').trans hoid, ?_⟩
    unfold follow
    rw [hid, hns]
    split
    · rfl
    · exact hns

/-- A lookup in the extension's schema finds what it has found, when nothing leaves that schema. -/
theorem relid_relocate (h : UniqueNames db) (hs : StorageInv db)
    (hnp : row.namespaceOid = graph.namespaceOid ∨ graph.namespaceOid ≠ npNamespaceId)
    (hfound : db.getRelnameRelid name npNamespaceId = some o) :
    (relocate graph row db).getRelnameRelid name npNamespaceId = some o := by
  obtain ⟨c, hc, hoid, hname, hns⟩ := h.relid_iff.mp hfound
  refine (h.relocate hs).relid_iff.mpr ⟨c, mem_relocate.mpr ⟨c, hc, ?_⟩, hoid, hname, hns⟩
  rcases hnp with hsame | hne
  · exact follow_self c hsame
  · exact follow_of_ne c fun he => hne (he.symm.trans hns)

/-- The rows after the replacement, with the rows they come from. -/
theorem mem_npGraph_relocate {gr' : NpGraphRow} (h : gr' ∈ (relocate graph row db).npGraph) :
    ∃ gr ∈ db.npGraph, gr' = (if gr = graph then row else gr) := by
  obtain ⟨gr, hgr, rfl⟩ := List.mem_map.mp h
  exact ⟨gr, hgr, rfl⟩

/-- A row that keeps all but the name and the schema. -/
def SameColumns (gr gr' : NpGraphRow) : Prop :=
  gr' = { gr with name := gr'.name, namespaceOid := gr'.namespaceOid }

theorem recorded_relocate (h : UniqueNames db) (hs : StorageInv db) {gr gr' : NpGraphRow} {c : PgClass}
    (hsame : SameColumns gr gr')
    (hnp : row.namespaceOid = graph.namespaceOid ∨ graph.namespaceOid ≠ npNamespaceId)
    (hrec : Recorded db gr c) : Recorded (relocate graph row db) gr' (follow graph row c) := by
  have hnamed : db.Named c → (relocate graph row db).Named (follow graph row c) := fun hfound => by
    unfold ObjectDb.Named
    rw [follow_oid, follow_relname]
    exact relid_relocate h hs hnp hfound
  have hindex : ∀ name, db.IndexOf c name → (relocate graph row db).IndexOf (follow graph row c) name :=
    fun name ⟨t, ht, hfound⟩ => ⟨t, (follow_indrelid c).trans ht, relid_relocate h hs hnp hfound⟩
  rw [hsame]
  unfold Recorded at hrec ⊢
  rw [follow_relname]
  split at hrec
  · next rel _ =>
    cases rel with
    | labelCatalog => exact hnamed hrec
    | labelCatalogIdx => exact hindex _ hrec
    | vertexLabelBtreeIdx => exact (follow_indrelid c).trans hrec
    | vertexLabelGistIdx => exact (follow_indrelid c).trans hrec
    | edgeLabelBtreeIdx => exact (follow_indrelid c).trans hrec
    | edgeLabelGistIdx => exact (follow_indrelid c).trans hrec
    | _ => exact (follow_oid c).trans hrec
  · next rel _ =>
    obtain ⟨r, hr, hid, hrec⟩ := hrec
    refine ⟨r, hr, hid, ?_⟩
    cases rel with
    | linkedList p =>
      obtain ⟨part, hpart, htbl⟩ := hrec
      exact ⟨part, hpart, htbl.trans (follow_oid c).symm⟩
    | idSeq => exact hnamed hrec
    | dictionary => exact hnamed hrec
    | dictionarySeq => exact hnamed hrec
    | dictionaryIndex => exact hindex _ hrec
    | _ => exact (follow_oid c).trans hrec
  · next rel _ =>
    obtain ⟨r, hr, hid, hrec⟩ := hrec
    refine ⟨r.see, List.mem_map_of_mem hr, hid, ?_⟩
    cases rel with
    | idSeq => exact hnamed hrec
    | annotations =>
      show r.annotationsTbl = some (follow graph row c).oid
      rw [follow_oid]
      exact hrec
    | _ => exact (follow_oid c).trans hrec

theorem sameColumns_replaced (hrow : SameColumns graph row) (gr : NpGraphRow) :
    SameColumns gr (if gr = graph then row else gr) := by
  by_cases hg : gr = graph
  · rw [if_pos hg, hg]
    exact hrow
  · rw [if_neg hg]
    exact rfl

theorem graphRowOk_relocate (h : UniqueNames db) (hs : StorageInv db) {gr gr' : NpGraphRow}
    (hsame : SameColumns gr gr')
    (hnp : row.namespaceOid = graph.namespaceOid ∨ graph.namespaceOid ≠ npNamespaceId)
    (hok : GraphRowOk db gr) : GraphRowOk (relocate graph row db) gr' := by
  rw [hsame]
  exact ⟨has_relocate_iff.mpr hok.vertexIdSeq, has_relocate_iff.mpr hok.vertexLabels,
    has_relocate_iff.mpr hok.edgeIdSeq, has_relocate_iff.mpr hok.edgeLabels,
    has_relocate_iff.mpr hok.annotSchemaTbl, has_relocate_iff.mpr hok.annotSchemaPhysMap,
    relid_relocate h hs hnp hok.vertexNamed, relid_relocate h hs hnp hok.edgeNamed⟩

/-- The table for annotations follows its graph. -/
theorem edgeRowOk_relocate (hs : StorageInv db) (hgr : graph ∈ db.npGraph) (hrow : SameColumns graph row)
    {gr : NpGraphRow} (hmem : gr ∈ db.npGraph) {r : EdgeLabelRow} (hok : EdgeRowOk db gr r) :
    EdgeRowOk (relocate graph row db) (if gr = graph then row else gr) r.see := by
  have hid : (if gr = graph then row else gr).id = gr.id := by rw [sameColumns_replaced hrow gr]
  refine ⟨?_, ?_, fun a ha => ?_, Or.inr rfl⟩
  · rw [hid]
    exact has_relocate_iff.mpr hok.tbl
  · rw [hid]
    exact has_relocate_iff.mpr hok.physMap
  · obtain ⟨c, hc, hoid, hname, hns, hno⟩ := hok.annotationsTbl a ha
    refine ⟨_, mem_relocate.mpr ⟨c, hc, rfl⟩, (follow_oid c).trans hoid, ?_, ?_,
      (follow_indrelid c).trans hno⟩
    · rw [hid]
      exact (follow_relname c).trans hname
    · unfold follow
      rw [hname, hns]
      by_cases hg : gr = graph
      · subst hg
        rw [if_pos ⟨rfl, rfl⟩, if_pos rfl]
      · rw [if_neg fun hc => hs.id_ne hgr hmem hg hc.1, if_neg hg]
        exact hns

theorem inv_relocate (hs : StorageInv db) (h : UniqueNames db) (hgr : graph ∈ db.npGraph)
    (hrow : SameColumns graph row)
    (hnp : row.namespaceOid = graph.namespaceOid ∨ graph.namespaceOid ≠ npNamespaceId) :
    Inv (relocate graph row db).npGraph (relocate graph row db) [] := by
  have hsame := sameColumns_replaced hrow
  refine ⟨fun c' hc' => ?_, ?_, fun c' hc' t ht => ?_, fun o ho => ?_, fun a ha b hb he => ?_,
    fun c' hc' => Or.inr fun a ha he => ?_, fun a ha r hr => ?_, fun a ha r hr => ?_, fun a ha => ?_⟩
  · obtain ⟨c, hc, rfl⟩ := mem_relocate.mp hc'
    rw [follow_oid]
    exact hs.inv.below c hc
  · show ((db.pgClass.map (follow graph row)).map PgClass.oid).Nodup
    rw [List.map_map, show PgClass.oid ∘ follow graph row = PgClass.oid from funext follow_oid]
    exact hs.inv.distinct
  · obtain ⟨c, hc, rfl⟩ := mem_relocate.mp hc'
    rw [follow_indrelid] at ht
    obtain ⟨tbl, htbl, hoid, hgid, hno⟩ := hs.inv.indexes c hc t ht
    refine ⟨_, mem_relocate.mpr ⟨tbl, htbl, rfl⟩, ?_⟩
    rw [follow_oid, follow_relname, follow_relname, follow_indrelid]
    exact ⟨hoid, hgid, hno⟩
  · obtain ⟨hv, he, hm⟩ := hs.inv.unused o ho
    exact ⟨hv, by simp [relocate, ObjectDb.commandCounterIncrement, he], hm⟩
  · obtain ⟨gr, hgr₁, rfl⟩ := mem_npGraph_relocate ha
    obtain ⟨gr', hgr₂, rfl⟩ := mem_npGraph_relocate hb
    rw [hsame gr, hsame gr'] at he
    rw [hs.inv.catalogs gr hgr₁ gr' hgr₂ he]
  · obtain ⟨c, hc, rfl⟩ := mem_relocate.mp hc'
    obtain ⟨gr, hgr₁, rfl⟩ := mem_npGraph_relocate ha
    rw [hsame gr, follow_relname] at he
    have hrec := (hs.inv.complete c hc).resolve_left List.not_mem_nil gr hgr₁ he
    exact recorded_relocate h hs (hsame gr) hnp hrec
  · obtain ⟨gr, hgr₁, rfl⟩ := mem_npGraph_relocate ha
    rw [hsame gr] at hr ⊢
    have hok := hs.inv.vertexRows gr hgr₁ r hr
    exact ⟨has_relocate_iff.mpr hok.tbl, has_relocate_iff.mpr hok.physMap,
      has_relocate_iff.mpr hok.linkedListMeta, has_relocate_iff.mpr hok.linkedListSeq,
      has_relocate_iff.mpr hok.arraylist, has_relocate_iff.mpr hok.annotationsTbl,
      fun part hpart => has_relocate_iff.mpr (hok.partitions part hpart)⟩
  · obtain ⟨gr, hgr₁, rfl⟩ := mem_npGraph_relocate ha
    rw [hsame gr] at hr
    obtain ⟨r₀, hr₀, rfl⟩ := List.mem_map.mp hr
    exact edgeRowOk_relocate hs hgr hrow hgr₁ (hs.inv.edgeRows gr hgr₁ r₀ hr₀)
  · obtain ⟨gr, hgr₁, rfl⟩ := mem_npGraph_relocate ha
    obtain ⟨hnodup, hle⟩ := hs.inv.edgeIds gr hgr₁
    rw [hsame gr]
    refine ⟨?_, fun r hr => ?_⟩
    · show (((db.edgeLabels gr.edgeLabels).map EdgeLabelRow.see).map EdgeLabelRow.id).Nodup
      rw [map_id_see]
      exact hnodup
    · obtain ⟨r₀, hr₀, rfl⟩ := List.mem_map.mp hr
      exact hle r₀ hr₀

/-- **A graph keeps its relations**: they stay recorded when its row has a new name or a new schema and
they follow, unless they leave the extension's own schema. -/
theorem StorageInv.relocate (hs : StorageInv db) (h : UniqueNames db) (hgr : graph ∈ db.npGraph)
    (hrow : SameColumns graph row)
    (hfree : ∀ gr ∈ db.npGraph, gr.name = row.name → gr.namespaceOid = row.namespaceOid → gr = graph)
    (hnp : row.namespaceOid = graph.namespaceOid ∨ graph.namespaceOid ≠ npNamespaceId) :
    StorageInv (Storage.relocate graph row db) := by
  have hnames : ∀ gr ∈ db.npGraph, ∀ gr' ∈ db.npGraph,
      (if gr = graph then row else gr).name = (if gr' = graph then row else gr').name →
      (if gr = graph then row else gr).namespaceOid = (if gr' = graph then row else gr').namespaceOid →
      gr = gr' := by
    intro gr hmem gr' hmem' hname hns
    by_cases hg : gr = graph <;> by_cases hg' : gr' = graph
    · rw [hg, hg']
    · rw [if_pos hg, if_neg hg'] at hname hns
      exact absurd (hfree gr' hmem' hname.symm hns.symm) hg'
    · rw [if_neg hg, if_pos hg'] at hname hns
      exact absurd (hfree gr hmem hname hns) hg
    · rw [if_neg hg, if_neg hg'] at hname hns
      exact hs.names gr hmem gr' hmem' hname hns
  refine ⟨inv_relocate hs h hgr hrow hnp, fun a ha => ?_, fun a ha => ?_, fun a ha b hb hname hns => ?_, ?_,
    fun c' hc' => ?_⟩
  · obtain ⟨gr, hmem, rfl⟩ := mem_npGraph_relocate ha
    exact graphRowOk_relocate h hs (sameColumns_replaced hrow gr) hnp (hs.rows gr hmem)
  · obtain ⟨gr, hmem, rfl⟩ := mem_npGraph_relocate ha
    rw [sameColumns_replaced hrow gr]
    exact hs.ids gr hmem
  · obtain ⟨gr, hmem, rfl⟩ := mem_npGraph_relocate ha
    obtain ⟨gr', hmem', rfl⟩ := mem_npGraph_relocate hb
    rw [hnames gr hmem gr' hmem' hname hns]
  · refine hs.nodup.map_on fun gr hmem gr' hmem' he => ?_
    exact hnames gr hmem gr' hmem' (congrArg NpGraphRow.name he) (congrArg NpGraphRow.namespaceOid he)
  · obtain ⟨c, hc, rfl⟩ := mem_relocate.mp hc'
    rw [follow_relname]
    exact hs.relIds c hc

end Relocate

/-! ## The calls -/

/-- A row of `np_graph` is updated. -/
theorem updateGraph_runs_iff {upd : NpGraphRow → NpGraphRow} {name : String}
    (hsearch : db.searchGraph name ns = some graph) : (updateGraph name ns upd).Runs db u db' ↔
      db' = .commandCounterIncrement { db with
        npGraph := db.npGraph.map fun gr => if gr = graph then upd graph else gr } := by
  have hupd : (fun gr => if gr = graph then upd gr else gr) = fun gr => if gr = graph then upd graph else gr := by
    funext gr
    split
    · next he => rw [he]
    · rfl
  unfold updateGraph
  rw [Prog.runs_write_iff, hsearch]
  simp only [Except.ok.injEq, hupd]
  exact eq_comm

theorem checkNoGraph_runs_iff {name : String} : (checkNoGraph name ns).Runs db u db' ↔
    db.searchGraph name ns = none ∧ db' = db := by
  unfold checkNoGraph
  rw [Prog.runs_read_iff]
  cases db.searchGraph name ns <;> simp

theorem findGraph_runs_iff (hs : StorageInv db) {name : String} : (findGraph name ns).Runs db graph db' ↔
    (graph ∈ db.npGraph ∧ graph.name = name ∧ graph.namespaceOid = ns) ∧ db' = db := by
  constructor
  · intro hr
    obtain ⟨rfl, hgr, hspec⟩ := StorageInv.mem_of_findGraph hr
    exact ⟨⟨hgr, hspec⟩, rfl⟩
  · rintro ⟨⟨hgr, rfl, rfl⟩, rfl⟩
    exact Prog.runs_read_iff.mpr ⟨by rw [searchGraph_self hs hgr], rfl⟩

/-- **`rename_graph` replaces the row**, when there is no graph of the new name. -/
theorem renameGraph_runs_iff (hs : StorageInv db) (hgr : graph ∈ db.npGraph) {newName : String}
    (hne : graph.name ≠ newName) : (renameGraph graph.name newName graph.namespaceOid).Runs db u db' ↔
      db.searchGraph newName graph.namespaceOid = none ∧
        db' = relocate graph { graph with name := newName } db := by
  have hpg : db.pgClass.map (follow graph { graph with name := newName }) = db.pgClass := by
    rw [show follow graph { graph with name := newName } = id from funext fun c => follow_self c rfl,
      List.map_id]
  unfold renameGraph relocate
  simp only [if_neg hne, Prog.runs_bind_iff, findGraph_runs_iff hs, checkNoGraph_runs_iff, hpg]
  constructor
  · rintro ⟨gr, _, ⟨⟨hmem, hname, hns⟩, rfl⟩, _, _, ⟨hfree, rfl⟩, hupd⟩
    exact ⟨hfree, (updateGraph_runs_iff (searchGraph_self hs hgr)).mp hupd⟩
  · rintro ⟨hfree, hdb⟩
    exact ⟨graph, db, ⟨⟨hgr, rfl, rfl⟩, rfl⟩, (), db, ⟨hfree, rfl⟩,
      (updateGraph_runs_iff (searchGraph_self hs hgr)).mpr hdb⟩

/-- What `alter_graph` leaves. -/
def alteredGraph (graph : NpGraphRow) (newNsp : Oid) (db : ObjectDb) : ObjectDb :=
  .commandCounterIncrement
    { db.moveRelations (movedOids db graph.namespaceOid (db.graphRels graph)) newNsp with
      npGraph := db.npGraph.map fun gr => if gr = graph then { graph with namespaceOid := newNsp } else gr }

theorem getRelNamespace_of_mem (hs : StorageInv db) {c : PgClass} (hc : c ∈ db.pgClass) :
    db.getRelNamespace c.oid = some c.relnamespace := by
  unfold ObjectDb.getRelNamespace
  cases hsearch : db.pgClass.find? fun c' => c'.oid = c.oid with
  | none => exact absurd (List.find?_eq_none.mp hsearch c hc) (by simp)
  | some c' =>
    have hoid : c'.oid = c.oid := by simpa using List.find?_some hsearch
    rw [List.inj_on_of_nodup_map hs.inv.distinct (List.mem_of_find?_eq_some hsearch) hc hoid]
    rfl

/-- A relation, or an index of it, is in the schema that is read. -/
theorem getRelNamespace_of_covered (hs : StorageInv db) (h : UniqueNames db) {c : PgClass}
    (hc : c ∈ db.pgClass) (hcov : Covered [o] c) : db.getRelNamespace o = some c.relnamespace := by
  rcases covered_singleton.mp hcov with rfl | hidx
  · exact getRelNamespace_of_mem hs hc
  · obtain ⟨tbl, htbl, rfl, hns⟩ := h.placed c hc o hidx
    rw [← hns]
    exact getRelNamespace_of_mem hs htbl

theorem covered_iff_exists {c : PgClass} : Covered os c ↔ ∃ o ∈ os, Covered [o] c := by
  constructor
  · rintro (ho | ⟨t, ht, hidx⟩)
    · exact ⟨c.oid, ho, covered_singleton.mpr (Or.inl rfl)⟩
    · exact ⟨t, ht, covered_singleton.mpr (Or.inr hidx)⟩
  · rintro ⟨o, ho, hcov⟩
    rcases covered_singleton.mp hcov with rfl | hidx
    · exact Or.inl ho
    · exact Or.inr ⟨o, ho, hidx⟩

/-- What moves is what is on the list and in the schema. -/
theorem covered_movedOids_iff (hs : StorageInv db) (h : UniqueNames db) {c : PgClass} (hc : c ∈ db.pgClass) :
    Covered (movedOids db oldNsp os) c ↔ Covered os c ∧ c.relnamespace = oldNsp := by
  rw [covered_iff_exists, @covered_iff_exists os]
  constructor
  · rintro ⟨o, ho, hcov⟩
    obtain ⟨hmem, hns⟩ := List.mem_filter.mp ho
    have hread := getRelNamespace_of_covered hs h hc hcov
    exact ⟨⟨o, hmem, hcov⟩, Option.some.inj (hread.symm.trans (by simpa using hns))⟩
  · rintro ⟨⟨o, ho, hcov⟩, hns⟩
    have hread := getRelNamespace_of_covered hs h hc hcov
    exact ⟨o, List.mem_filter.mpr ⟨ho, by simpa [hns] using hread⟩, hcov⟩

/-- **`alter_graph` fails only when the schema has a graph of the name**: its relations have names that no
other relation has. -/
theorem alterGraph_runs_iff (hs : StorageInv db) (h : UniqueNames db) (hgr : graph ∈ db.npGraph)
    (hne : newNsp ≠ graph.namespaceOid) : (alterGraph graph.name newNsp graph.namespaceOid).Runs db u db' ↔
      db.searchGraph graph.name newNsp = none ∧ db' = alteredGraph graph newNsp db := by
  have hapart : ∀ o ∈ movedOids db graph.namespaceOid (db.graphRels graph), ∀ c ∈ db.pgClass, Covered [o] c →
      db.getRelnameRelid c.relname newNsp = none := by
    intro o ho c hc hcov
    have hns : c.relnamespace = graph.namespaceOid :=
      ((covered_movedOids_iff hs h hc).mp (covered_iff_exists.mpr ⟨o, ho, hcov⟩)).2
    refine Option.eq_none_iff_forall_ne_some.mpr fun t ht => hne ?_
    obtain ⟨c', hc', -, hname, hns'⟩ := h.relid_iff.mp ht
    rw [← hns', h.eq_of_relname hc' hc hname, hns]
  have hcollect := npCollectGraphNamespaceRels_runs hs hgr
  have hsearch : (db.moveRelations (movedOids db graph.namespaceOid (db.graphRels graph)) newNsp).searchGraph
      graph.name graph.namespaceOid = some graph := by
    show db.searchGraph graph.name graph.namespaceOid = some graph
    exact searchGraph_self hs hgr
  unfold alterGraph
  simp only [if_neg hne, Prog.runs_bind_iff, findGraph_runs_iff hs, checkNoGraph_runs_iff,
    Prog.runs_read_iff, moveRels_runs_iff, Except.ok.injEq]
  constructor
  · rintro ⟨gr, _, ⟨⟨hmem, hname, hns⟩, rfl⟩, _, _, ⟨hfree, rfl⟩, os, _, hos, seen, _, ⟨rfl, rfl⟩, _, _,
      ⟨-, rfl⟩, hupd⟩
    obtain rfl := hs.names gr hmem graph hgr hname hns
    obtain ⟨rfl, rfl⟩ := hcollect.det hos
    exact ⟨hfree, (updateGraph_runs_iff hsearch).mp hupd⟩
  · rintro ⟨hfree, hdb⟩
    exact ⟨graph, db, ⟨⟨hgr, rfl, rfl⟩, rfl⟩, (), db, ⟨hfree, rfl⟩, _, db, hcollect, db, db, ⟨rfl, rfl⟩, (), _,
      ⟨hapart, rfl⟩, (updateGraph_runs_iff hsearch).mpr hdb⟩

/-- A table for annotations that the running command does not see is not on the list, but it is in the
schema. -/
theorem unseen_of_ne (hs : StorageInv db) (hgr : graph ∈ db.npGraph) {row : EdgeLabelRow}
    (hrow : row ∈ db.edgeLabels graph.edgeLabels) (hne : row.annotationsSeen ≠ row.annotationsTbl) :
    ∃ c ∈ db.pgClass, c.relname.graphId = graph.id ∧ c.relnamespace = graph.namespaceOid ∧
      ¬ Covered (db.graphRels graph) c := by
  have hok := hs.inv.edgeRows graph hgr row hrow
  have hnone : row.annotationsSeen = none := hok.seen.resolve_right hne
  obtain ⟨a, ha⟩ : ∃ a, row.annotationsTbl = some a :=
    Option.ne_none_iff_exists'.mp fun htbl => hne (hnone.trans htbl.symm)
  obtain ⟨c, hc, rfl, hname, hns, hno⟩ := hok.annotationsTbl a ha
  refine ⟨c, hc, by rw [hname]; rfl, hns, ?_⟩
  rintro (ho | ⟨t, -, ht⟩)
  · obtain ⟨name, hhas, -, hseen⟩ := found_graphRels hs hgr ho
    obtain ⟨row', hrow', hid, hsome⟩ := hseen row.id ((hs.inv.relname_of_has hc hhas).symm.trans hname)
    obtain rfl := List.inj_on_of_nodup_map (hs.inv.edgeIds graph hgr).1 hrow' hrow hid
    exact hsome hnone
  · rw [hno] at ht
    cases ht

/-- **What `alter_graph` leaves is what it should be**, unless there is a table that the running command
does not see. -/
theorem alteredGraph_eq_iff (hs : StorageInv db) (h : UniqueNames db) (hgr : graph ∈ db.npGraph)
    (hne : newNsp ≠ graph.namespaceOid) :
    alteredGraph graph newNsp db = relocate graph { graph with namespaceOid := newNsp } db ↔
      ∀ row ∈ db.edgeLabels graph.edgeLabels, row.annotationsSeen = row.annotationsTbl := by
  have hmap : alteredGraph graph newNsp db = relocate graph { graph with namespaceOid := newNsp } db ↔
      ∀ c ∈ db.pgClass, (if Covered (movedOids db graph.namespaceOid (db.graphRels graph)) c then
        { c with relnamespace := newNsp } else c) = follow graph { graph with namespaceOid := newNsp } c := by
    rw [← List.map_inj_left]
    refine ⟨fun he => congrArg ObjectDb.pgClass he, fun he => ?_⟩
    unfold alteredGraph relocate ObjectDb.moveRelations
    rw [he]
  rw [hmap]
  constructor
  · intro heq row hrow
    by_contra hunseen
    obtain ⟨c, hc, hid, hns, hno⟩ := unseen_of_ne hs hgr hrow hunseen
    have hc' := heq c hc
    rw [if_neg fun hcov => hno ((covered_movedOids_iff hs h hc).mp hcov).1] at hc'
    unfold follow at hc'
    rw [if_pos ⟨hid, hns⟩] at hc'
    exact hne ((congrArg PgClass.relnamespace hc').symm.trans hns)
  · intro hseen c hc
    unfold follow
    have hcov := (@covered_movedOids_iff db (db.graphRels graph) graph.namespaceOid hs h c hc).trans
      (and_congr_left' (covered_iff hs hgr hseen hc))
    simp only [hcov]

/-! ## Histories -/

/-- The relations of every graph are recorded, and names are different. -/
structure MoveInv (db : ObjectDb) : Prop where
  storage : StorageInv db
  names : UniqueNames db

theorem searchGraph_free {name : String} (hfree : db.searchGraph name ns = none) :
    ∀ gr ∈ db.npGraph, gr.name = name → gr.namespaceOid ≠ ns := by
  simpa [ObjectDb.searchGraph] using hfree

namespace MoveInv

theorem alterGraph {name : String} (h : MoveInv db) (hsafe : (MoveCall.alterGraph name newNsp oldNsp).Safe db)
    (hr : (Storage.alterGraph name newNsp oldNsp).Runs db u db') : MoveInv db' := by
  obtain ⟨graph, _, hfind, hrest⟩ := Prog.runs_bind_iff.mp hr
  obtain ⟨⟨hgr, rfl, rfl⟩, rfl⟩ := (findGraph_runs_iff h.storage).mp hfind
  by_cases hne : newNsp = graph.namespaceOid
  · rw [if_pos hne] at hrest
    obtain ⟨-, rfl⟩ := Prog.runs_ret_iff.mp hrest
    exact h
  · obtain ⟨hfree, rfl⟩ := (alterGraph_runs_iff h.storage h.names hgr hne).mp hr
    rw [(alteredGraph_eq_iff h.storage h.names hgr hne).mpr (hsafe.2 graph hgr rfl rfl)]
    exact ⟨h.storage.relocate h.names hgr rfl
      (fun gr hmem hname hns => absurd hns (searchGraph_free hfree gr hmem hname)) (Or.inr hsafe.1),
      h.names.relocate h.storage⟩

theorem renameGraph {name newName : String} (h : MoveInv db)
    (hr : (Storage.renameGraph name newName ns).Runs db u db') : MoveInv db' := by
  obtain ⟨graph, _, hfind, hrest⟩ := Prog.runs_bind_iff.mp hr
  obtain ⟨⟨hgr, rfl, rfl⟩, rfl⟩ := (findGraph_runs_iff h.storage).mp hfind
  by_cases hne : graph.name = newName
  · rw [if_pos hne] at hrest
    obtain ⟨-, rfl⟩ := Prog.runs_ret_iff.mp hrest
    exact h
  · obtain ⟨hfree, rfl⟩ := (renameGraph_runs_iff h.storage hgr hne).mp hr
    exact ⟨h.storage.relocate h.names hgr rfl
      (fun gr hmem hname hns => absurd hns (searchGraph_free hfree gr hmem hname)) (Or.inl rfl),
      h.names.relocate h.storage⟩

/-- **Every call keeps the invariant.** -/
theorem run {c : MoveCall} (h : MoveInv db) (hsafe : c.Safe db) (hr : c.run.Runs db u db') : MoveInv db' := by
  cases c with
  | storage c => exact ⟨h.storage.run hr, h.names.run h.storage hr⟩
  | alterGraph name newNsp oldNsp => exact h.alterGraph hsafe hr
  | renameGraph name newName nsp => exact h.renameGraph hr

theorem seeRows (h : MoveInv db) : MoveInv db.commandCounterIncrement :=
  ⟨h.storage.seeRows, h.names.seeRows⟩

theorem rollback (h : MoveInv before) (hforward : Forward before db) : MoveInv (before.rollback db) :=
  ⟨h.storage.rollback hforward, h.names.rollback hforward⟩

end MoveInv

theorem forward_updateGraph {db₀ : ObjectDb} {name : String} {upd : NpGraphRow → NpGraphRow} :
    (updateGraph name ns upd).Keeps (Forward db₀) := by
  refine Prog.keeps_write fun s s' hs hf => ?_
  split at hf
  · cases hf
  · cases hf
    exact hs.trans ⟨Nat.le_refl _, Nat.le_refl _, fun _ => Nat.le_refl _⟩

theorem forward_moveRels {db₀ : ObjectDb} : (moveRels seen oldNsp newNsp os).Keeps (Forward db₀) := by
  induction os with
  | nil => exact Prog.keeps_ret _ _
  | cons o rest ih =>
    refine Prog.Keeps.bind ?_ fun _ => ih
    unfold npMoveRelToNamespace
    split
    · refine Prog.keeps_write fun s s' hs hf => ?_
      split at hf
      · cases hf
      · cases hf
        exact hs.trans ⟨Nat.le_refl _, Nat.le_refl _, fun _ => Nat.le_refl _⟩
    · exact Prog.keeps_ret _ _

/-- **Every step of every call goes forward**, that of one that fails, too. -/
theorem MoveCall.forward {db₀ : ObjectDb} (c : MoveCall) : c.run.Keeps (Forward db₀) := by
  cases c with
  | storage c => exact forward_run c
  | alterGraph name newNsp oldNsp =>
    refine (Prog.keeps_read _ _).bind fun graph => ?_
    split
    · exact Prog.keeps_ret _ _
    · exact (Prog.keeps_read _ _).bind fun _ => (Prog.keeps_read _ _).bind fun _ =>
        (Prog.keeps_read _ _).bind fun _ => forward_moveRels.bind fun _ => forward_updateGraph
  | renameGraph name newName nsp =>
    refine (Prog.keeps_read _ _).bind fun graph => ?_
    split
    · exact Prog.keeps_ret _ _
    · exact (Prog.keeps_read _ _).bind fun _ => forward_updateGraph

/-- **In every history** with moves and renames the invariant holds. -/
theorem MoveRun.inv (h : MoveRun before db) : MoveInv before ∧ MoveInv db ∧ Forward before db := by
  have hempty : MoveInv .empty := ⟨.empty, .empty⟩
  induction h with
  | start => exact ⟨hempty, hempty, Forward.refl _⟩
  | call _ c hs hr ih =>
    obtain ⟨hbefore, hdb, hforward⟩ := ih
    exact ⟨hbefore, hdb.run hs hr, c.forward.runs hr hforward⟩
  | nextCommand _ ih =>
    obtain ⟨hbefore, hdb, hforward⟩ := ih
    exact ⟨hbefore, hdb.seeRows, hforward.trans ⟨Nat.le_refl _, Nat.le_refl _, fun _ => Nat.le_refl _⟩⟩
  | commit _ ih => exact ⟨ih.2.1.seeRows, ih.2.1.seeRows, Forward.refl _⟩
  | abort _ ih => exact ⟨ih.1.rollback ih.2.2, ih.1.rollback ih.2.2, Forward.refl _⟩
  | fail _ c hr ih =>
    obtain ⟨hbefore, -, hforward⟩ := ih
    have hforward' := c.forward.exec hforward
    rw [hr] at hforward'
    exact ⟨hbefore.rollback hforward', hbefore.rollback hforward', Forward.refl _⟩

end NeoPostGraph.Storage
