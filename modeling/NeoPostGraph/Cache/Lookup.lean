import NeoPostGraph.Lib.KeyedTable

/-!
# The graph and label caches

`np_cache.c` keeps the rows of `np_graph` and of the label catalogs in hash tables. A lookup probes the
table with the bytes of its key, and when that misses it reads the catalog and enters the row. The
miss functions take a pointer `key` and pass `&key` to `hash_search(HASH_ENTER)`: the row is entered
under the bytes at the address of the pointer variable, the pointer itself and the stack behind it.
Only `search_graph_id_cache` enters a key.

* `CacheCall`: a lookup, with the bytes at `&key` in this call of it and with what the memory of a new
  entry held before.
* `searchGraphNameNamespaceCache` and so on: the lookups, on the table and the catalog.
* `CacheState.search`: a lookup on the three tables.

The key size of the graph table is that of the name, so that only the name is copied to a new entry
and hashed, but `graph_compare` compares the namespace, too.
-/

namespace NeoPostGraph

open KeyedTable

/-! ## Keys -/

/-- `NameData`. -/
abbrev NameData := Vector UInt8 64

/-- The string in a `NameData`: the bytes before the first NUL. -/
def nameStr (name : NameData) : List UInt8 := name.toList.takeWhile (· ≠ 0)

/-- `namestrcpy`: at most 63 bytes of the string, padded with NULs. -/
def namestrcpy (s : List UInt8) : NameData :=
  Vector.ofFn fun i => if i.val < 63 then s.getD i 0 else 0

/-- `graph_name_namespace_cache_key`. -/
structure GraphKey where
  name : NameData
  namespaceOid : Nat
deriving DecidableEq

/-- `graph_id_label_id_cache_key`. -/
structure LabelKey where
  graphId : Int32
  labelId : Int32
deriving DecidableEq

/-- `graph_compare` (`np_cache.c:164-177`). -/
def graphCompare (key1 key2 : GraphKey) : Ordering :=
  (compare key1.namespaceOid key2.namespaceOid).then
    (List.compareLex compare (nameStr key1.name) (nameStr key2.name))

/-- `graph_label_hash_compare` (`np_cache.c:179-190`). -/
def graphLabelHashCompare (key1 key2 : LabelKey) : Ordering :=
  if key1.graphId < key2.graphId then .lt
  else if key2.graphId < key1.graphId then .gt
  else if key1.labelId < key2.labelId then .lt
  else if key2.labelId < key1.labelId then .gt
  else .eq

/-- Whether `hash_search` takes the entry stored under `stored` for `key`: the hash of the name is the
same, and the keys compare equal. -/
def graphMatch (hash : NameData → UInt32) (key stored : GraphKey) : Bool :=
  hash stored.name == hash key.name && graphCompare stored key == .eq

/-- The same for the label tables, whose key size is that of the key: keys that compare equal have the
same bytes and the same hash. -/
def labelMatch (key stored : LabelKey) : Bool := graphLabelHashCompare stored key == .eq

/-- The key of a new graph entry: the name is copied to it, the namespace is what was there. -/
def graphKeycopy (left : Nat) (key : GraphKey) : GraphKey := ⟨key.name, left⟩

/-! ## Rows -/

/-- `graph_cache_data`: it has the fields of `np_graph`. -/
structure GraphCacheData where
  id : Nat
  name : NameData
  namespaceOid : Nat
  vertexLabels : Nat
  vertexIdSeq : Nat
  edgeLabels : Nat
  edgeIdSeq : Nat
  annotSchemaTbl : Nat
  annotSchemaPhysMap : Nat
deriving DecidableEq

/-- A row of a vertex label catalog. The path is given by its tokens. -/
structure VertexLabelTuple where
  id : Int32
  label : List String
  vertexTbl : Nat
  physMap : Nat
  linkedListMeta : Nat
  linkedListSeq : Nat
  arraylist : Nat
  annotationsTbl : Option Nat
  annotationMap : Option (List (Option String))
deriving DecidableEq

/-- A row of an edge label catalog. -/
structure EdgeLabelTuple where
  id : Int32
  label : List String
  vertexTbl : Nat
  physMap : Nat
  annotationsTbl : Nat
  annotationMap : Option (List (Option String))
deriving DecidableEq

/-- `label_cache_data`, the fields that are set for a vertex label. -/
structure VertexLabelCacheData where
  id : Int32
  label : List String
  labelString : String
  vertexTbl : Nat
  physMap : Nat
  linkedListMeta : Nat
  linkedListSeq : Nat
  arraylist : Nat
  annotationsTbl : Nat
  annotationMap : Option (List (Option String))
  annotationByteSize : Nat
deriving DecidableEq

/-- `label_cache_data`, the fields that are set for an edge label. -/
structure EdgeLabelCacheData where
  id : Int32
  label : List String
  vertexTbl : Nat
  physMap : Nat
  annotationsTbl : Nat
  annotationMap : Option (List (Option String))
  linkedListMeta : Nat
  linkedListSeq : Nat
  arraylist : Nat
  annotationByteSize : Nat
deriving DecidableEq

/-- The path without the root, with colons for dots. -/
def labelString : List String → String
  | "_" :: rest => ":".intercalate rest
  | path => ":".intercalate path

/-- `fill_vertex_label_cache_data` (`np_cache.c:729-790`). -/
def fillVertexLabelCacheData (tuple : VertexLabelTuple) : VertexLabelCacheData where
  id := tuple.id
  label := tuple.label
  labelString := labelString tuple.label
  vertexTbl := tuple.vertexTbl
  physMap := tuple.physMap
  linkedListMeta := tuple.linkedListMeta
  linkedListSeq := tuple.linkedListSeq
  arraylist := tuple.arraylist
  annotationsTbl := tuple.annotationsTbl.getD 0
  annotationMap := tuple.annotationMap
  annotationByteSize := (tuple.annotationMap.map fun names => (names.length + 7) / 8).getD 0

/-- `fill_edge_label_cache_data` (`np_cache.c:792-811`). -/
def fillEdgeLabelCacheData (tuple : EdgeLabelTuple) : EdgeLabelCacheData where
  id := tuple.id
  label := tuple.label
  vertexTbl := tuple.vertexTbl
  physMap := tuple.physMap
  annotationsTbl := tuple.annotationsTbl
  annotationMap := tuple.annotationMap
  linkedListMeta := 0
  linkedListSeq := 0
  arraylist := 0
  annotationByteSize := 0

/-- The rows a lookup sees. A graph that has been dropped has no label catalogs. -/
structure CacheCatalog where
  graphs : List GraphCacheData
  vertexLabels : Int32 → Option (List VertexLabelTuple)
  edgeLabels : Int32 → Option (List EdgeLabelTuple)

namespace CacheCatalog

/-- The scan of `np_graph` by its unique index. `nameeq` compares the strings. -/
def graphByName (cat : CacheCatalog) (key : GraphKey) : Option GraphCacheData :=
  cat.graphs.find? fun row => nameStr row.name = nameStr key.name ∧ row.namespaceOid = key.namespaceOid

/-- The scan of `np_graph` for an id. -/
def graphById (cat : CacheCatalog) (graphId : Nat) : Option GraphCacheData :=
  cat.graphs.find? fun row => row.id = graphId

/-- The scan of the vertex label catalog of a graph, which `table_open` must find. -/
def vertexLabel (cat : CacheCatalog) (key : LabelKey) : Option VertexLabelTuple :=
  (cat.vertexLabels key.graphId).bind fun rows => rows.find? fun row => row.id = key.labelId

/-- The scan of the edge label catalog of a graph, which `table_open` must find. -/
def edgeLabel (cat : CacheCatalog) (key : LabelKey) : Option EdgeLabelTuple :=
  (cat.edgeLabels key.graphId).bind fun rows => rows.find? fun row => row.id = key.labelId

end CacheCatalog

/-! ## Lookups

A lookup returns a pointer to the data of an entry, given here by the place of the entry in its table,
or NULL. Where `table_open` raises an error it returns nothing, too, and writes nothing. -/

/-- The graph table. -/
abbrev GraphTable := List (GraphKey × GraphCacheData)

/-- `search_graph_name_namespace_cache_miss` (`np_cache.c:514-549`). -/
def searchGraphNameNamespaceCacheMiss (hash : NameData → UInt32) (cat : CacheCatalog)
    (key addr : GraphKey) (left : Nat) (t : GraphTable) : Option Nat × GraphTable :=
  match cat.graphByName key with
  | none => (none, t)
  | some tuple =>
    -- `&key` for `key`
    let (i, t') := enter (graphMatch hash addr) (graphKeycopy left addr) tuple t
    (some i, t')

/-- `search_graph_name_namespace_cache` (`np_cache.c:501-512`). -/
def searchGraphNameNamespaceCache (hash : NameData → UInt32) (cat : CacheCatalog)
    (name : List UInt8) (namespaceOid : Nat) (addr : GraphKey) (left : Nat) (t : GraphTable) :
    Option Nat × GraphTable :=
  let key : GraphKey := ⟨namestrcpy name, namespaceOid⟩
  match find (graphMatch hash key) t with
  | some i => (some i, t)
  | none => searchGraphNameNamespaceCacheMiss hash cat key addr left t

/-- `search_graph_id_cache` (`np_cache.c:550-608`). -/
def searchGraphIdCache (hash : NameData → UInt32) (cat : CacheCatalog) (graphId left : Nat)
    (t : GraphTable) : Option Nat × GraphTable :=
  match t.findIdx? fun e => e.2.id = graphId with
  | some i => (some i, t)
  | none =>
    match cat.graphById graphId with
    | none => (none, t)
    | some tuple =>
      let key : GraphKey := ⟨namestrcpy (nameStr tuple.name), tuple.namespaceOid⟩
      let (i, t') := enter (graphMatch hash key) (graphKeycopy left key) tuple t
      (some i, t')

/-- The body of the two lookups below and their miss functions. -/
def searchLabelCache {τ ρ : Type} (scan : LabelKey → Option τ) (fill : τ → ρ) (key addr : LabelKey)
    (t : List (LabelKey × ρ)) : Option Nat × List (LabelKey × ρ) :=
  match find (labelMatch key) t with
  | some i => (some i, t)
  | none =>
    match scan key with
    | none => (none, t)
    | some tuple =>
      -- `&key` for `key`
      let (i, t') := enter (labelMatch addr) addr (fill tuple) t
      (some i, t')

/-- `search_vertex_label_graph_id_label_id_cache` (`np_cache.c:681-726`). -/
def searchVertexLabelGraphIdLabelIdCache (cat : CacheCatalog) (graphId labelId : Int32)
    (addr : LabelKey) (t : List (LabelKey × VertexLabelCacheData)) :
    Option Nat × List (LabelKey × VertexLabelCacheData) :=
  searchLabelCache cat.vertexLabel fillVertexLabelCacheData ⟨graphId, labelId⟩ addr t

/-- `search_edge_label_graph_id_label_id_cache` (`np_cache.c:632-679`). -/
def searchEdgeLabelGraphIdLabelIdCache (cat : CacheCatalog) (graphId labelId : Int32)
    (addr : LabelKey) (t : List (LabelKey × EdgeLabelCacheData)) :
    Option Nat × List (LabelKey × EdgeLabelCacheData) :=
  searchLabelCache cat.edgeLabel fillEdgeLabelCacheData ⟨graphId, labelId⟩ addr t

/-- A lookup. `addr` are the bytes at `&key` in the miss function, `left` the namespace in the memory
of a new graph entry. -/
inductive CacheCall where
  | byName (name : List UInt8) (namespaceOid : Nat) (addr : GraphKey) (left : Nat)
  | byId (graphId left : Nat)
  | vertexLabel (graphId labelId : Int32) (addr : LabelKey)
  | edgeLabel (graphId labelId : Int32) (addr : LabelKey)
deriving DecidableEq

/-- The three tables. -/
structure CacheState where
  graphs : GraphTable
  vertexLabels : List (LabelKey × VertexLabelCacheData)
  edgeLabels : List (LabelKey × EdgeLabelCacheData)

/-- Empty tables. -/
def CacheState.empty : CacheState := ⟨[], [], []⟩

/-- A lookup. -/
def CacheState.search (hash : NameData → UInt32) (cat : CacheCatalog) (c : CacheCall)
    (st : CacheState) : Option Nat × CacheState :=
  match c with
  | .byName name namespaceOid addr left =>
    let x := searchGraphNameNamespaceCache hash cat name namespaceOid addr left st.graphs
    (x.1, { st with graphs := x.2 })
  | .byId graphId left =>
    let x := searchGraphIdCache hash cat graphId left st.graphs
    (x.1, { st with graphs := x.2 })
  | .vertexLabel graphId labelId addr =>
    let x := searchVertexLabelGraphIdLabelIdCache cat graphId labelId addr st.vertexLabels
    (x.1, { st with vertexLabels := x.2 })
  | .edgeLabel graphId labelId addr =>
    let x := searchEdgeLabelGraphIdLabelIdCache cat graphId labelId addr st.edgeLabels
    (x.1, { st with edgeLabels := x.2 })

end NeoPostGraph
