import NeoPostGraph.Cache.Invalidate

/-!
# What the caches return while the catalogs change

A lookup by a name, or of a label, does not find what an earlier one has entered: that was entered under
the bytes at `&key`, and behind the name of a graph is what the memory held. So it reads the catalog, and
what it returns is the row as it is, whether an entry has been invalidated or not. A lookup by id takes any
entry of the graph, and so its row may be an old one.

* `CacheInv`: the invariant of a run.
* `CacheInv.search`, `CacheInv.change`: a lookup keeps it, and a change of the catalogs.
* `CachesCoherent`: what the lookups return, and what the invalidations find.

Results:
* `CacheInv.byId`: a lookup by id returns the row of the graph, all but its name and its schema; and these,
  too, if the row has not changed since the table was flushed.
* `CacheRun.coherent`: the caches are coherent in every run.
-/

namespace NeoPostGraph

open KeyedTable

variable {hash : NameData → UInt32} {cat cat' : CacheCatalog} {c : CacheCall} {st : CacheState}
  {calls : List CacheCall} {stale stale' ids : List Nat} {db db' : CacheDb} {seq seq' : Nat}

/-! ## Entries after a lookup -/

theorem graphById_of_mem (hd : (cat.graphs.map GraphCacheData.id).Nodup) {row : GraphCacheData}
    (hrow : row ∈ cat.graphs) : cat.graphById row.id = some row := by
  unfold CacheCatalog.graphById
  cases hf : cat.graphs.find? fun r => r.id = row.id with
  | none => exact absurd (List.find?_eq_none.mp hf row hrow) (by simp)
  | some r =>
    have hid : r.id = row.id := by simpa using List.find?_some hf
    rw [List.inj_on_of_nodup_map hd (List.mem_of_find?_eq_some hf) hrow hid]

theorem mem_of_graphById {g : Nat} {row : GraphCacheData} (h : cat.graphById g = some row) :
    row ∈ cat.graphs ∧ row.id = g :=
  ⟨List.mem_of_find?_eq_some h, by simpa using List.find?_some h⟩

/-- The row a lookup of a graph enters is one of the catalog. -/
theorem mem_of_graphProbe {p : Probe (Option GraphCacheData) GraphKey GraphCacheData}
    {row : GraphCacheData} (hp : CacheCall.graphProbe hash cat c = some p) (hrow : p.key = some row) :
    row ∈ cat.graphs := by
  cases c with
  | byName name namespaceOid addr left =>
    cases hp
    exact List.mem_of_find?_eq_some hrow
  | byId graphId left =>
    cases hp
    exact (mem_of_graphById hrow).1
  | vertexLabel => cases hp
  | edgeLabel => cases hp

/-- Behind the name it is entered under is what the memory held. -/
theorem left_of_graphProbe {p : Probe (Option GraphCacheData) GraphKey GraphCacheData}
    (hp : CacheCall.graphProbe hash cat c = some p) : c.left = some p.stored.namespaceOid := by
  cases c with
  | byName name namespaceOid addr left =>
    cases hp
    rfl
  | byId graphId left =>
    cases hp
    dsimp only
    cases cat.graphById graphId <;> rfl
  | vertexLabel => cases hp
  | edgeLabel => cases hp

theorem stored_of_vertexProbe {p : Probe LabelKey LabelKey VertexLabelCacheData}
    (hp : c.vertexProbe = some p) : c.labelAddr = some p.stored := by
  cases c <;> cases hp
  rfl

theorem stored_of_edgeProbe {p : Probe LabelKey LabelKey EdgeLabelCacheData}
    (hp : c.edgeProbe = some p) : c.labelAddr = some p.stored := by
  cases c <;> cases hp
  rfl

/-! ## The invariant -/

/-- The catalogs as they are and as they may be again. -/
def CacheDb.catalogs (db : CacheDb) : List CacheCatalog := db.cat :: db.before :: db.savepoints

/-- The rows of `np_graph` in the catalogs and in the table. -/
def CacheDb.rows (db : CacheDb) : List GraphCacheData :=
  db.catalogs.flatMap CacheCatalog.graphs ++ db.tables.graphs.map Prod.snd

/-- **The invariant**: a graph has the same relations in all its rows, keys have what was there when they
were entered, and a row that has not changed is the one that was entered. -/
structure CacheInv (calls : List CacheCall) (stale : List Nat) (db : CacheDb) : Prop where
  below : ∀ row ∈ db.rows, row.id ≤ db.graphIdSeq
  distinct : ∀ cat ∈ db.catalogs, (cat.graphs.map GraphCacheData.id).Nodup
  same : ∀ row ∈ db.rows, ∀ row' ∈ db.rows, row.id = row'.id → row.fixed = row'.fixed
  lefts : ∀ e ∈ db.tables.graphs, e.1.namespaceOid ∈ calls.filterMap CacheCall.left
  vertexAddrs : ∀ e ∈ db.tables.vertexLabels, e.1 ∈ calls.filterMap CacheCall.labelAddr
  edgeAddrs : ∀ e ∈ db.tables.edgeLabels, e.1 ∈ calls.filterMap CacheCall.labelAddr
  fresh : ∀ e ∈ db.tables.graphs, e.2.id ∉ stale → db.cat.graphById e.2.id = some e.2

theorem CacheDb.mem_rows {row : GraphCacheData} :
    row ∈ db.rows ↔ (∃ cat ∈ db.catalogs, row ∈ cat.graphs) ∨ ∃ e ∈ db.tables.graphs, e.2 = row := by
  simp [CacheDb.rows]

theorem CacheDb.mem_rows_of_cat {row : GraphCacheData} (h : row ∈ db.cat.graphs) : row ∈ db.rows :=
  CacheDb.mem_rows.mpr (Or.inl ⟨db.cat, List.mem_cons_self, h⟩)

theorem CacheDb.mem_rows_of_entry {e : GraphKey × GraphCacheData} (h : e ∈ db.tables.graphs) :
    e.2 ∈ db.rows :=
  CacheDb.mem_rows.mpr (Or.inr ⟨e, h, rfl⟩)

namespace CacheInv

/-- One catalog, and empty tables. -/
theorem ofCatalog (calls : List CacheCall) (stale : List Nat)
    (hd : (cat.graphs.map GraphCacheData.id).Nodup) (hb : ∀ row ∈ cat.graphs, row.id ≤ seq) :
    CacheInv calls stale ⟨cat, cat, [], seq, .empty⟩ := by
  have hcat : ∀ cat' ∈ CacheDb.catalogs ⟨cat, cat, [], seq, .empty⟩, cat' = cat := by
    simp [CacheDb.catalogs]
  have hrows : ∀ row ∈ CacheDb.rows ⟨cat, cat, [], seq, .empty⟩, row ∈ cat.graphs := fun row hrow => by
    rcases CacheDb.mem_rows.mp hrow with ⟨cat', hmem, hr⟩ | ⟨e, hmem, -⟩
    · exact hcat cat' hmem ▸ hr
    · cases hmem
  exact ⟨fun row hrow => hb row (hrows row hrow), fun cat' hmem => hcat cat' hmem ▸ hd,
    fun row hrow row' hrow' hid => by
      rw [List.inj_on_of_nodup_map hd (hrows row hrow) (hrows row' hrow') hid],
    fun _ he => by (cases he), fun _ he => by (cases he), fun _ he => by (cases he), fun _ he => by (cases he)⟩

/-- Catalogs that have been there come back, or entries go. -/
theorem mono (h : CacheInv calls stale db) (hseq : db'.graphIdSeq = db.graphIdSeq)
    (hcat : ∀ cat ∈ db'.catalogs, cat ∈ db.catalogs)
    (hg : ∀ e ∈ db'.tables.graphs, e ∈ db.tables.graphs)
    (hv : ∀ e ∈ db'.tables.vertexLabels, e ∈ db.tables.vertexLabels)
    (he : ∀ e ∈ db'.tables.edgeLabels, e ∈ db.tables.edgeLabels)
    (hf : ∀ e ∈ db'.tables.graphs, e.2.id ∉ stale' → db'.cat.graphById e.2.id = some e.2) :
    CacheInv calls stale' db' := by
  have hrows : ∀ row ∈ db'.rows, row ∈ db.rows := fun row hrow => by
    rcases CacheDb.mem_rows.mp hrow with ⟨cat, hmem, hr⟩ | ⟨e, hmem, rfl⟩
    · exact CacheDb.mem_rows.mpr (Or.inl ⟨cat, hcat cat hmem, hr⟩)
    · exact CacheDb.mem_rows_of_entry (hg e hmem)
  exact ⟨fun row hrow => hseq ▸ h.below row (hrows row hrow), fun cat hmem => h.distinct cat (hcat cat hmem),
    fun row hrow row' hrow' => h.same row (hrows row hrow) row' (hrows row' hrow'),
    fun e hmem => h.lefts e (hg e hmem), fun e hmem => h.vertexAddrs e (hv e hmem),
    fun e hmem => h.edgeAddrs e (he e hmem), hf⟩

/-- The tables change, and no entry of a graph is new. -/
theorem tables (h : CacheInv calls stale db) {tables : CacheState}
    (hg : ∀ e ∈ tables.graphs, e ∈ db.tables.graphs)
    (hv : ∀ e ∈ tables.vertexLabels, e ∈ db.tables.vertexLabels)
    (he : ∀ e ∈ tables.edgeLabels, e ∈ db.tables.edgeLabels) :
    CacheInv calls stale { db with tables := tables } :=
  h.mono rfl (fun _ hmem => hmem) hg hv he fun e hmem => h.fresh e (hg e hmem)

/-- What of the catalogs is unchanged since the entries were made stays so. -/
theorem fresh_of_listsChanges (h : CacheInv calls stale db)
    (hids : ListsChanges db.cat cat' db.graphIdSeq ids) {e : GraphKey × GraphCacheData}
    (hmem : e ∈ db.tables.graphs) (hno : e.2.id ∉ stale ++ ids) : cat'.graphById e.2.id = some e.2 := by
  rw [List.mem_append, not_or] at hno
  have hsame : cat'.graphById e.2.id = db.cat.graphById e.2.id := by
    by_contra hne
    exact hno.2 (hids e.2.id (h.below e.2 (CacheDb.mem_rows_of_entry hmem)) hne)
  rw [hsame]
  exact h.fresh e hmem hno.1

/-- **A lookup keeps the invariant.** -/
theorem search (h : CacheInv calls stale db) (c : CacheCall) :
    CacheInv (calls ++ [c]) stale { db with tables := (db.tables.search hash db.cat c).2 } := by
  have hlast : ∀ {α : Type} {f : CacheCall → Option α} {a : α}, f c = some a →
      a ∈ (calls ++ [c]).filterMap f := fun hc => by simp [hc]
  have hbefore : ∀ {α : Type} {f : CacheCall → Option α} {a : α}, a ∈ calls.filterMap f →
      a ∈ (calls ++ [c]).filterMap f := fun hmem => by
    rw [List.filterMap_append]
    exact List.mem_append_left _ hmem
  have hentry : ∀ e ∈ (db.tables.search hash db.cat c).2.graphs, e ∈ db.tables.graphs ∨ e.2 ∈ db.cat.graphs :=
    fun e he => (row_of_mem_step (graphs_looksUp hash db.cat) he).imp_right fun ⟨p, hp, hrow⟩ =>
      mem_of_graphProbe hp hrow
  have hrows : ∀ row ∈ CacheDb.rows { db with tables := (db.tables.search hash db.cat c).2 },
      row ∈ db.rows := fun row hrow => by
    rcases CacheDb.mem_rows.mp hrow with hcat | ⟨e, he, rfl⟩
    · exact CacheDb.mem_rows.mpr (Or.inl hcat)
    · exact (hentry e he).elim CacheDb.mem_rows_of_entry CacheDb.mem_rows_of_cat
  refine ⟨fun row hrow => h.below row (hrows row hrow), h.distinct,
    fun row hrow row' hrow' => h.same row (hrows row hrow) row' (hrows row' hrow'), fun e he => ?_,
    fun e he => ?_, fun e he => ?_, fun e he hno => ?_⟩
  · rcases key_of_mem_step (graphs_looksUp hash db.cat) he with ⟨p, hp, hkey⟩ | hold
    · exact hlast (hkey ▸ left_of_graphProbe hp)
    · obtain ⟨e', he', hkey⟩ := List.mem_map.mp hold
      exact hbefore (hkey ▸ h.lefts e' he')
  · rcases key_of_mem_step (vertexLabels_looksUp hash db.cat) he with ⟨p, hp, hkey⟩ | hold
    · exact hlast (hkey ▸ stored_of_vertexProbe hp)
    · obtain ⟨e', he', hkey⟩ := List.mem_map.mp hold
      exact hbefore (hkey ▸ h.vertexAddrs e' he')
  · rcases key_of_mem_step (edgeLabels_looksUp hash db.cat) he with ⟨p, hp, hkey⟩ | hold
    · exact hlast (hkey ▸ stored_of_edgeProbe hp)
    · obtain ⟨e', he', hkey⟩ := List.mem_map.mp hold
      exact hbefore (hkey ▸ h.edgeAddrs e' he')
  · rcases hentry e he with hold | hnew
    · exact h.fresh e hold hno
    · exact graphById_of_mem (h.distinct db.cat List.mem_cons_self) hnew

/-- **A change of the catalogs keeps the invariant.** -/
theorem change (h : CacheInv calls stale db) (hf : db.cat.Follows db.graphIdSeq cat' seq')
    (hids : ListsChanges db.cat cat' db.graphIdSeq ids) :
    CacheInv calls (stale ++ ids) { db with cat := cat', graphIdSeq := seq' } := by
  -- a row is one that was there, but for its name and its schema, or it is new
  have hrows : ∀ row ∈ CacheDb.rows { db with cat := cat', graphIdSeq := seq' },
      (∃ old ∈ db.rows, old.fixed = row.fixed) ∨ db.graphIdSeq < row.id ∧ row ∈ cat'.graphs := by
    intro row hrow
    rcases CacheDb.mem_rows.mp hrow with ⟨cat, hmem, hr⟩ | ⟨e, hmem, rfl⟩
    · rcases List.mem_cons.mp hmem with rfl | hother
      · rcases Nat.lt_or_ge db.graphIdSeq row.id with hnew | hold
        · exact Or.inr ⟨hnew, hr⟩
        · obtain ⟨old, hold, heq⟩ := hf.kept row hr hold
          exact Or.inl ⟨old, CacheDb.mem_rows_of_cat hold, heq⟩
      · exact Or.inl ⟨row, CacheDb.mem_rows.mpr (Or.inl ⟨cat, List.mem_cons_of_mem _ hother, hr⟩), rfl⟩
    · exact Or.inl ⟨e.2, CacheDb.mem_rows_of_entry hmem, rfl⟩
  have hid : ∀ {row row' : GraphCacheData}, row.fixed = row'.fixed → row.id = row'.id :=
    fun {row row'} heq => show row.fixed.id = row'.fixed.id from congrArg GraphCacheData.id heq
  refine ⟨fun row hrow => ?_, fun cat hmem => ?_, fun row hrow row' hrow' heq => ?_, h.lefts, h.vertexAddrs,
    h.edgeAddrs, fun e => h.fresh_of_listsChanges hids⟩
  · rcases hrows row hrow with ⟨old, hold, hfix⟩ | ⟨-, hnew⟩
    · exact Nat.le_trans (hid hfix ▸ h.below old hold) hf.seq_le
    · exact hf.below row hnew
  · rcases List.mem_cons.mp hmem with rfl | hother
    · exact hf.distinct
    · exact h.distinct cat (List.mem_cons_of_mem _ hother)
  · rcases hrows row hrow with ⟨old, hold, hfix⟩ | ⟨hlt, hnew⟩ <;>
      rcases hrows row' hrow' with ⟨old', hold', hfix'⟩ | ⟨hlt', hnew'⟩
    · rw [← hfix, ← hfix']
      exact h.same old hold old' hold' ((hid hfix).trans (heq.trans (hid hfix').symm))
    · have hle := h.below old hold
      rw [hid hfix, heq] at hle
      exact absurd hle (Nat.not_le_of_lt hlt')
    · have hle := h.below old' hold'
      rw [hid hfix', ← heq] at hle
      exact absurd hle (Nat.not_le_of_lt hlt)
    · rw [List.inj_on_of_nodup_map hf.distinct hnew hnew' heq]

end CacheInv

/-- **In every run** the invariant holds. -/
theorem CacheRun.inv (h : CacheRun hash calls stale db) : CacheInv calls stale db := by
  induction h with
  | start cat h =>
    exact .ofCatalog _ _ (by rw [h]; exact .nil) fun row hrow => by rw [h] at hrow; cases hrow
  | lookup _ c ih => exact ih.search c
  | change _ cat' seq' ids hf hids ih => exact ih.change hf hids
  | invalidateGraph _ name namespaceOid ih =>
    exact ih.tables (fun _ => mem_of_mem_remove) (fun _ he => he) fun _ he => he
  | invalidateVertexLabel _ graphId labelId ih =>
    exact ih.tables (fun _ he => he) (fun _ => mem_of_mem_remove) fun _ he => he
  | invalidateEdgeLabel _ graphId labelId ih =>
    exact ih.tables (fun _ he => he) (fun _ he => he) fun _ => mem_of_mem_remove
  | schemaChange _ ht ih =>
    rw [invalidateCaches_eq] at ht
    cases ht
    exact ih.mono rfl (fun _ hmem => hmem) (fun _ he => by cases he) (fun _ he => by cases he)
      (fun _ he => he) fun _ he => by cases he
  | savepoint _ ih =>
    refine ih.mono rfl (fun cat hmem => ?_) (fun _ he => he) (fun _ he => he) (fun _ he => he) ih.fresh
    simp only [CacheDb.catalogs, List.mem_cons] at hmem ⊢
    tauto
  | rollbackTo _ hc ids hids ih =>
    refine ih.mono rfl (fun cat hmem => ?_) (fun _ he => he) (fun _ he => he) (fun _ he => he)
      fun e => ih.fresh_of_listsChanges hids
    rcases List.mem_cons.mp hmem with rfl | hother
    · exact List.mem_cons_of_mem _ (List.mem_cons_of_mem _ hc)
    · exact List.mem_cons_of_mem _ hother
  | commit _ ht ih =>
    cases ht
    refine ih.mono rfl (fun cat hmem => ?_) (fun _ he => he) (fun _ he => he) (fun _ he => he) ih.fresh
    simp only [CacheDb.catalogs, List.mem_cons, List.not_mem_nil, or_false, or_self] at hmem
    exact hmem ▸ List.mem_cons_self
  | abort _ ht ih =>
    rw [npCacheXactCallback_abort] at ht
    cases ht
    refine ih.mono rfl (fun cat hmem => ?_) (fun _ he => by cases he) (fun _ he => by cases he)
      (fun _ he => by cases he) fun _ he => by cases he
    simp only [CacheDb.catalogs, List.mem_cons, List.not_mem_nil, or_false, or_self] at hmem ⊢
    exact Or.inr (Or.inl hmem)
  | restart _ seq' hb ih =>
    exact .ofCatalog _ _ (ih.distinct _ (List.mem_cons_of_mem _ List.mem_cons_self)) hb
  | reorder _ hg hv he ih =>
    exact ih.tables (fun _ hmem => hg.mem_iff.mp hmem) (fun _ hmem => hv.mem_iff.mp hmem)
      fun _ hmem => he.mem_iff.mp hmem

/-! ## What lookups return -/

namespace CacheInv

/-- No entry is one of a name in a schema that no new entry had in its memory. -/
theorem graphMatch_eq_false (h : CacheInv calls stale db) {key : GraphKey}
    (hno : key.namespaceOid ∉ calls.filterMap CacheCall.left) :
    ∀ e ∈ db.tables.graphs, graphMatch hash key e.1 = false := by
  intro e he
  by_contra hmatch
  rw [Bool.not_eq_false] at hmatch
  exact hno (namespaceOid_of_graphMatch hmatch ▸ h.lefts e he)

/-- No entry is one of a label that no bytes at `&key` have spelled. -/
theorem labelMatch_eq_false {ρ : Type} {t : List (LabelKey × ρ)} {addrs : List LabelKey}
    (h : ∀ e ∈ t, e.1 ∈ addrs) {key : LabelKey} (hno : key ∉ addrs) : ∀ e ∈ t, labelMatch key e.1 = false := by
  intro e he
  by_contra hmatch
  rw [Bool.not_eq_false, labelMatch_iff] at hmatch
  exact hno (hmatch ▸ h e he)

/-- **A lookup by id** takes any entry of the graph. -/
theorem byId (h : CacheInv calls stale db) {graphId : Nat} {row : GraphCacheData} (left : Nat)
    (hrow : db.cat.graphById graphId = some row) :
    ∃ found, db.tables.graphFound hash db.cat (.byId graphId left) = some found ∧
      found.fixed = row.fixed ∧ (graphId ∉ stale → found = row) := by
  have hread := readBy_eq (graphs_looksUp hash db.cat)
    (show CacheCall.graphProbe hash db.cat (.byId graphId left) = some _ from rfl) (s := db.tables)
  obtain ⟨hmem, hid⟩ := mem_of_graphById hrow
  rcases @Probe.read_cases _ _ _ id _ db.tables.graphs with hmiss | ⟨e, he, hhit, hentry⟩
  · exact ⟨row, (hread.trans hmiss).trans hrow, rfl, fun _ => rfl⟩
  · have heid : e.2.id = graphId := by simpa using hhit
    refine ⟨e.2, hread.trans hentry, ?_, fun hfresh => ?_⟩
    · exact h.same e.2 (CacheDb.mem_rows_of_entry he) row (CacheDb.mem_rows_of_cat hmem) (heid.trans hid.symm)
    · have hcurrent := h.fresh e he (by rwa [heid])
      rw [heid, hrow] at hcurrent
      exact (Option.some.inj hcurrent).symm

end CacheInv

/-- **What the lookups return**, and what the invalidations find: unless the memory of a new entry has had
the schema behind the name, or the bytes at `&key` have spelled the label. -/
structure CachesCoherent (hash : NameData → UInt32) (calls : List CacheCall) (stale : List Nat)
    (db : CacheDb) : Prop where
  /-- A lookup by a name returns the row as it is. -/
  byName : ∀ name namespaceOid addr left, namespaceOid ∉ calls.filterMap CacheCall.left →
    db.tables.graphFound hash db.cat (.byName name namespaceOid addr left) =
      db.cat.graphByName ⟨namestrcpy name, namespaceOid⟩
  /-- So does one of a label. -/
  vertexLabel : ∀ graphId labelId addr, ⟨graphId, labelId⟩ ∉ calls.filterMap CacheCall.labelAddr →
    db.tables.vertexLabelFound hash db.cat (.vertexLabel graphId labelId addr) =
      db.cat.vertexRow ⟨graphId, labelId⟩
  edgeLabel : ∀ graphId labelId addr, ⟨graphId, labelId⟩ ∉ calls.filterMap CacheCall.labelAddr →
    db.tables.edgeLabelFound hash db.cat (.edgeLabel graphId labelId addr) =
      db.cat.edgeRow ⟨graphId, labelId⟩
  /-- A lookup by id may return the name and the schema of before a change. -/
  byId : ∀ graphId left row, db.cat.graphById graphId = some row →
    ∃ found, db.tables.graphFound hash db.cat (.byId graphId left) = some found ∧
      found.fixed = row.fixed ∧ (graphId ∉ stale → found = row)
  /-- What removes the entry of a key finds no entry. -/
  invalidateGraph : ∀ name namespaceOid, namespaceOid ∉ calls.filterMap CacheCall.left →
    invalidateGraphNameNamespaceCacheEntry hash name namespaceOid db.tables = db.tables
  invalidateVertexLabel : ∀ graphId labelId, ⟨graphId, labelId⟩ ∉ calls.filterMap CacheCall.labelAddr →
    invalidateVertexLabelGraphIdLabelIdCacheEntry graphId labelId db.tables = db.tables
  invalidateEdgeLabel : ∀ graphId labelId, ⟨graphId, labelId⟩ ∉ calls.filterMap CacheCall.labelAddr →
    invalidateEdgeLabelGraphIdLabelIdCacheEntry graphId labelId db.tables = db.tables

/-- **The caches are coherent in every run**, whether an entry has been invalidated or not. -/
theorem CacheRun.coherent (h : CacheRun hash calls stale db) : CachesCoherent hash calls stale db where
  byName name namespaceOid addr left hno :=
    (readBy_eq (graphs_looksUp hash db.cat) rfl).trans
      (Probe.read_of_miss (h.inv.graphMatch_eq_false hno))
  vertexLabel graphId labelId addr hno :=
    (readBy_eq (vertexLabels_looksUp hash db.cat) rfl).trans
      (Probe.read_of_miss (CacheInv.labelMatch_eq_false h.inv.vertexAddrs hno))
  edgeLabel graphId labelId addr hno :=
    (readBy_eq (edgeLabels_looksUp hash db.cat) rfl).trans
      (Probe.read_of_miss (CacheInv.labelMatch_eq_false h.inv.edgeAddrs hno))
  byId graphId left row hrow := h.inv.byId left hrow
  invalidateGraph name namespaceOid hno := by
    unfold invalidateGraphNameNamespaceCacheEntry
    rw [remove_eq_self (h.inv.graphMatch_eq_false hno)]
  invalidateVertexLabel graphId labelId hno := by
    unfold invalidateVertexLabelGraphIdLabelIdCacheEntry
    rw [remove_eq_self (CacheInv.labelMatch_eq_false h.inv.vertexAddrs hno)]
  invalidateEdgeLabel graphId labelId hno := by
    unfold invalidateEdgeLabelGraphIdLabelIdCacheEntry
    rw [remove_eq_self (CacheInv.labelMatch_eq_false h.inv.edgeAddrs hno)]

/-- The graph has got another name. -/
def renamedCacheCatalog : CacheCatalog :=
  { exampleCacheCatalog with graphs := [⟨1, namestrcpy [104], 2200, 11, 12, 13, 14, 15, 16⟩] }

/-- Lookups of the graph and of one of its labels, and what they have made of the tables. -/
def exampleCachedCalls : List CacheCall := [.byId 1 0, .edgeLabel 1 2 ⟨100, 32765⟩]

def exampleCachedTables : CacheState :=
  ((CacheState.empty.search (fun _ => 0) exampleCacheCatalog (.byId 1 0)).2.search (fun _ => 0)
    exampleCacheCatalog (.edgeLabel 1 2 ⟨100, 32765⟩)).2

/-- The graph is made, looked up and renamed, and the entry of its old name is removed. -/
theorem renamed_run : CacheRun (fun _ => 0) exampleCachedCalls [1] ⟨renamedCacheCatalog,
    { exampleCacheCatalog with graphs := [] }, [], 1,
    invalidateGraphNameNamespaceCacheEntry (fun _ => 0) [103] 2200 exampleCachedTables⟩ := by
  have hmade := (@CacheRun.start (fun _ => 0) { exampleCacheCatalog with graphs := [] } rfl).change
    exampleCacheCatalog 1 [] ⟨by decide, by decide +kernel, by decide +kernel, by decide +kernel⟩
    (by decide +kernel)
  have hlooked := (hmade.lookup (.byId 1 0)).lookup (.edgeLabel 1 2 ⟨100, 32765⟩)
  have hrenamed := hlooked.change renamedCacheCatalog 1 [1]
    ⟨by decide, by decide +kernel, by decide +kernel, by decide +kernel⟩ (by decide +kernel)
  exact hrenamed.invalidateGraph [103] 2200

/-- By its new name the graph is found, by its id its old name is. -/
theorem CacheRun.coherent_example :
    CacheState.graphFound (fun _ => 0) renamedCacheCatalog (.byName [104] 2200 ⟨namestrcpy [7], 0⟩ 0)
        (invalidateGraphNameNamespaceCacheEntry (fun _ => 0) [103] 2200 exampleCachedTables) =
      some ⟨1, namestrcpy [104], 2200, 11, 12, 13, 14, 15, 16⟩ ∧
    CacheState.graphFound (fun _ => 0) renamedCacheCatalog (.byId 1 0)
        (invalidateGraphNameNamespaceCacheEntry (fun _ => 0) [103] 2200 exampleCachedTables) =
      some ⟨1, namestrcpy [103], 2200, 11, 12, 13, 14, 15, 16⟩ := by
  refine ⟨(renamed_run.coherent.byName [104] 2200 ⟨namestrcpy [7], 0⟩ 0 (by decide)).trans ?_, ?_⟩
  · decide +kernel
  · decide +kernel

end NeoPostGraph
