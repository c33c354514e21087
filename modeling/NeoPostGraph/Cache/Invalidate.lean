import NeoPostGraph.Cache.Keying
import NeoPostGraph.Lib.TableReads

/-!
# What takes entries out of the caches

`rename_graph`, `alter_graph` and `drop_graph` remove the entry of a name, `rename_vlabel` and
`rename_elabel` that of a label. Every change of a schema flushes the graphs and the vertex labels, and an
abort flushes all tables; a rollback to a savepoint flushes none.

* `invalidateGraphNameNamespaceCacheEntry` and so on: the entry of a key is removed.
* `npCacheXactCallback`, `invalidateCaches`: the tables are flushed.
* `CacheDb`, `CacheRun`: lookups among changes of the catalogs, in the order they happen. The tables are
  shared, and so are they between sessions whose transactions follow one another.

A run says nothing about which calls are followed by which invalidations: they may come at any time, or
not at all. The dictionaries' table, which is keyed and flushed like that of the vertex labels, is left out.
-/

namespace NeoPostGraph

open KeyedTable

/-! ## Invalidation -/

/-- `invalidate_graph_name_namespace_cache_entry` (`np_cache.c:453-467`). -/
def invalidateGraphNameNamespaceCacheEntry (hash : NameData → UInt32) (name : List UInt8)
    (namespaceOid : Nat) (st : CacheState) : CacheState :=
  { st with graphs := remove (graphMatch hash ⟨namestrcpy name, namespaceOid⟩) st.graphs }

/-- `invalidate_vertex_label_graph_id_label_id_cache_entry` (`np_cache.c:469-483`). -/
def invalidateVertexLabelGraphIdLabelIdCacheEntry (graphId labelId : Int32) (st : CacheState) :
    CacheState :=
  { st with vertexLabels := remove (labelMatch ⟨graphId, labelId⟩) st.vertexLabels }

/-- `invalidate_edge_label_graph_id_label_id_cache_entry` (`np_cache.c:485-499`). -/
def invalidateEdgeLabelGraphIdLabelIdCacheEntry (graphId labelId : Int32) (st : CacheState) :
    CacheState :=
  { st with edgeLabels := remove (labelMatch ⟨graphId, labelId⟩) st.edgeLabels }

/-- `flush_graph_name_namespace_cache` (`np_cache.c:377-394`), nothing where it finds the table
corrupted. -/
def flushGraphNameNamespaceCache (hash : NameData → UInt32) (st : CacheState) : Option CacheState :=
  (flush (graphMatch hash) st.graphs).map fun t => { st with graphs := t }

/-- `flush_vertex_label_cache` (`np_cache.c:396-413`). -/
def flushVertexLabelCache (st : CacheState) : Option CacheState :=
  (flush labelMatch st.vertexLabels).map fun t => { st with vertexLabels := t }

/-- `flush_edge_label_cache` (`np_cache.c:415-432`). -/
def flushEdgeLabelCache (st : CacheState) : Option CacheState :=
  (flush labelMatch st.edgeLabels).map fun t => { st with edgeLabels := t }

/-- `invalidate_graph_caches` and `invalidate_label_caches` (`np_cache.c:356-368`), which a change of
`pg_namespace` calls. The edge labels stay. -/
def invalidateCaches (hash : NameData → UInt32) (st : CacheState) : Option CacheState := do
  let st ← flushGraphNameNamespaceCache hash st
  flushVertexLabelCache st

/-- `XactEvent`. -/
inductive XactEvent where
  | commit | parallelCommit | abort | parallelAbort | prepare
  | preCommit | parallelPreCommit | prePrepare
deriving DecidableEq

/-- `np_cache_xact_callback` (`np_cache.c:879-899`). -/
def npCacheXactCallback (hash : NameData → UInt32) (event : XactEvent) (st : CacheState) :
    Option CacheState :=
  match event with
  | .abort | .parallelAbort => do
    let st ← flushGraphNameNamespaceCache hash st
    let st ← flushVertexLabelCache st
    flushEdgeLabelCache st
  | _ => some st

/-! ## Entries answer to their own keys -/

theorem compareLex_self (l : List UInt8) : List.compareLex compare l l = .eq := by
  induction l with
  | nil => rfl
  | cons x rest ih =>
    rw [List.compareLex_cons_cons, ih]
    simp

theorem graphMatch_self (hash : NameData → UInt32) (key : GraphKey) : graphMatch hash key key = true := by
  unfold graphMatch graphCompare
  simp [compareLex_self]

theorem graphLabelHashCompare_eq_iff {k k' : LabelKey} : graphLabelHashCompare k k' = .eq ↔ k = k' := by
  obtain ⟨g, l⟩ := k
  obtain ⟨g', l'⟩ := k'
  unfold graphLabelHashCompare
  rw [LabelKey.mk.injEq]
  dsimp only
  constructor
  · intro h
    split_ifs at h with hg hg' hl hl'
    exact ⟨Int32.le_antisymm (Int32.not_lt.mp hg') (Int32.not_lt.mp hg),
      Int32.le_antisymm (Int32.not_lt.mp hl') (Int32.not_lt.mp hl)⟩
  · rintro ⟨rfl, rfl⟩
    simp

/-- The entry of a label is that of its key. -/
theorem labelMatch_iff {key stored : LabelKey} : labelMatch key stored = true ↔ stored = key := by
  unfold labelMatch
  rw [beq_iff_eq, graphLabelHashCompare_eq_iff]

/-- The entry of a name is in the schema of its key. -/
theorem namespaceOid_of_graphMatch {hash : NameData → UInt32} {key stored : GraphKey}
    (h : graphMatch hash key stored = true) : stored.namespaceOid = key.namespaceOid := by
  unfold graphMatch graphCompare at h
  rw [Bool.and_eq_true, beq_iff_eq, beq_iff_eq, Ordering.then_eq_eq] at h
  exact Nat.compare_eq_eq.mp h.2.1

/-- **An abort empties the tables.** -/
theorem npCacheXactCallback_abort (hash : NameData → UInt32) (st : CacheState) :
    npCacheXactCallback hash .abort st = some .empty := by
  unfold npCacheXactCallback flushGraphNameNamespaceCache flushVertexLabelCache flushEdgeLabelCache
  simp only [flush_eq (graphMatch_self hash), flush_eq fun k => labelMatch_iff.mpr (Eq.refl k)]
  rfl

/-- A change of a schema empties the tables of the graphs and of the vertex labels. -/
theorem invalidateCaches_eq (hash : NameData → UInt32) (st : CacheState) :
    invalidateCaches hash st = some { st with graphs := [], vertexLabels := [] } := by
  unfold invalidateCaches flushGraphNameNamespaceCache flushVertexLabelCache
  simp only [flush_eq (graphMatch_self hash), flush_eq fun k => labelMatch_iff.mpr (Eq.refl k)]
  rfl

/-! ## What a lookup returns -/

namespace CacheState

variable (hash : NameData → UInt32) (cat : CacheCatalog) (c : CacheCall) (st : CacheState)

/-- The data a lookup of a graph returns. -/
def graphFound : Option GraphCacheData := readBy (CacheState.search hash cat) CacheState.graphs c st

/-- The data a lookup of a vertex label returns. -/
def vertexLabelFound : Option VertexLabelCacheData :=
  readBy (CacheState.search hash cat) CacheState.vertexLabels c st

/-- The data a lookup of an edge label returns. -/
def edgeLabelFound : Option EdgeLabelCacheData :=
  readBy (CacheState.search hash cat) CacheState.edgeLabels c st

end CacheState

/-- The bytes at `&key` in a lookup of a label. -/
def CacheCall.labelAddr : CacheCall → Option LabelKey
  | .vertexLabel _ _ addr | .edgeLabel _ _ addr => some addr
  | _ => none

/-- What the memory of a new entry holds behind the name. -/
def CacheCall.left : CacheCall → Option Nat
  | .byName _ _ _ left | .byId _ left => some left
  | _ => none

/-! ## Runs -/

/-- A row of `np_graph` but for what `rename_graph` and `alter_graph` change. -/
def GraphCacheData.fixed (row : GraphCacheData) : GraphCacheData :=
  { row with name := namestrcpy [], namespaceOid := 0 }

/-- The catalogs as the running transaction sees them, as they were before it and at its savepoints, the
last value of `np_graph_id_seq`, and the tables. -/
structure CacheDb where
  cat : CacheCatalog
  before : CacheCatalog
  savepoints : List CacheCatalog
  graphIdSeq : Nat
  tables : CacheState

/-- `np_graph` changes: a row keeps all but its name and its schema, and a new one has a new id. The label
catalogs may change in any way. -/
structure CacheCatalog.Follows (cat : CacheCatalog) (seq : Nat) (cat' : CacheCatalog) (seq' : Nat) :
    Prop where
  seq_le : seq ≤ seq'
  below : ∀ row ∈ cat'.graphs, row.id ≤ seq'
  distinct : (cat'.graphs.map GraphCacheData.id).Nodup
  kept : ∀ row' ∈ cat'.graphs, row'.id ≤ seq → ∃ row ∈ cat.graphs, row.fixed = row'.fixed

/-- The list has the graphs, up to an id, whose rows are not the same. -/
def ListsChanges (cat cat' : CacheCatalog) (seq : Nat) (ids : List Nat) : Prop :=
  ∀ g ≤ seq, cat'.graphById g ≠ cat.graphById g → g ∈ ids

instance (cat cat' : CacheCatalog) (seq : Nat) (ids : List Nat) :
    Decidable (ListsChanges cat cat' seq ids) :=
  inferInstanceAs (Decidable (∀ g ≤ seq, cat'.graphById g ≠ cat.graphById g → g ∈ ids))

/-- The lookups so far, the graphs whose rows have changed since their table was flushed, and the
state. -/
inductive CacheRun (hash : NameData → UInt32) : List CacheCall → List Nat → CacheDb → Prop where
  /-- The extension is installed. -/
  | start (cat : CacheCatalog) (h : cat.graphs = []) : CacheRun hash [] [] ⟨cat, cat, [], 0, .empty⟩
  | lookup {calls : List CacheCall} {stale : List Nat} {db : CacheDb} (h : CacheRun hash calls stale db)
      (c : CacheCall) : CacheRun hash (calls ++ [c]) stale
        { db with tables := (db.tables.search hash db.cat c).2 }
  | change {calls : List CacheCall} {stale : List Nat} {db : CacheDb} (h : CacheRun hash calls stale db)
      (cat' : CacheCatalog) (seq' : Nat) (ids : List Nat) (hf : db.cat.Follows db.graphIdSeq cat' seq')
      (hids : ListsChanges db.cat cat' db.graphIdSeq ids) :
      CacheRun hash calls (stale ++ ids) { db with cat := cat', graphIdSeq := seq' }
  | invalidateGraph {calls : List CacheCall} {stale : List Nat} {db : CacheDb}
      (h : CacheRun hash calls stale db) (name : List UInt8) (namespaceOid : Nat) :
      CacheRun hash calls stale
        { db with tables := invalidateGraphNameNamespaceCacheEntry hash name namespaceOid db.tables }
  | invalidateVertexLabel {calls : List CacheCall} {stale : List Nat} {db : CacheDb}
      (h : CacheRun hash calls stale db) (graphId labelId : Int32) : CacheRun hash calls stale
        { db with tables := invalidateVertexLabelGraphIdLabelIdCacheEntry graphId labelId db.tables }
  | invalidateEdgeLabel {calls : List CacheCall} {stale : List Nat} {db : CacheDb}
      (h : CacheRun hash calls stale db) (graphId labelId : Int32) : CacheRun hash calls stale
        { db with tables := invalidateEdgeLabelGraphIdLabelIdCacheEntry graphId labelId db.tables }
  | schemaChange {calls : List CacheCall} {stale : List Nat} {db : CacheDb} {tables : CacheState}
      (h : CacheRun hash calls stale db) (ht : invalidateCaches hash db.tables = some tables) :
      CacheRun hash calls [] { db with tables := tables }
  | savepoint {calls : List CacheCall} {stale : List Nat} {db : CacheDb}
      (h : CacheRun hash calls stale db) :
      CacheRun hash calls stale { db with savepoints := db.cat :: db.savepoints }
  /-- The tables are not flushed: the callback is for whole transactions only. -/
  | rollbackTo {calls : List CacheCall} {stale : List Nat} {db : CacheDb} {cat : CacheCatalog}
      (h : CacheRun hash calls stale db) (hc : cat ∈ db.savepoints) (ids : List Nat)
      (hids : ListsChanges db.cat cat db.graphIdSeq ids) :
      CacheRun hash calls (stale ++ ids) { db with cat := cat }
  | commit {calls : List CacheCall} {stale : List Nat} {db : CacheDb} {tables : CacheState}
      (h : CacheRun hash calls stale db) (ht : npCacheXactCallback hash .commit db.tables = some tables) :
      CacheRun hash calls stale { db with before := db.cat, savepoints := [], tables := tables }
  | abort {calls : List CacheCall} {stale : List Nat} {db : CacheDb} {tables : CacheState}
      (h : CacheRun hash calls stale db) (ht : npCacheXactCallback hash .abort db.tables = some tables) :
      CacheRun hash calls [] { db with cat := db.before, savepoints := [], tables := tables }
  /-- The shared memory is new after a restart. An id that was not committed may be given out again. -/
  | restart {calls : List CacheCall} {stale : List Nat} {db : CacheDb} (h : CacheRun hash calls stale db)
      (seq' : Nat) (hb : ∀ row ∈ db.before.graphs, row.id ≤ seq') : CacheRun hash calls []
        { db with cat := db.before, savepoints := [], graphIdSeq := seq', tables := .empty }
  /-- A scan meets the entries in the order of their buckets. -/
  | reorder {calls : List CacheCall} {stale : List Nat} {db : CacheDb} {tables : CacheState}
      (h : CacheRun hash calls stale db) (hg : tables.graphs.Perm db.tables.graphs)
      (hv : tables.vertexLabels.Perm db.tables.vertexLabels)
      (he : tables.edgeLabels.Perm db.tables.edgeLabels) :
      CacheRun hash calls stale { db with tables := tables }

end NeoPostGraph
