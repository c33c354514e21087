import NeoPostGraph.Cache.Lookup

/-!
# One entry for each key

A sequence of lookups in the caches, while the catalogs stay as they are. A caller may keep the entry it
got while it makes further lookups, as `merge_elabels_internal` does with two labels.

* `CachesKeyed`: every entry returned so far still describes the row of the key it was looked up by,
  two keys never have one entry, and a key looked up again has the same entry.
* `KeysApart`: what the bytes at `&key` must be for that. A lookup must not find its own key's bytes
  under an entry another key was entered in; and one that enters its row must find at `&key` bytes
  that lead to the entry of its own key or, the first time, to none.

Results:
* `cachesKeyed_of_keysApart`: then the entries are right after every lookup.
-/

namespace NeoPostGraph

open KeyedTable

/-! ## Lookups as probes -/

section

variable (hash : NameData → UInt32) (cat : CacheCatalog)

/-- The lookups of the graph table, by the row they are for. -/
def CacheCall.graphProbe : CacheCall → Option (Probe (Option GraphCacheData) GraphKey GraphCacheData)
  | .byName name namespaceOid addr left =>
    let key : GraphKey := ⟨namestrcpy name, namespaceOid⟩
    some ⟨cat.graphByName key, fun stored _ => graphMatch hash key stored, graphMatch hash addr,
      graphKeycopy left addr⟩
  | .byId graphId left =>
    let key (row : GraphCacheData) : GraphKey := ⟨namestrcpy (nameStr row.name), row.namespaceOid⟩
    let row := cat.graphById graphId
    some ⟨row, fun _ r => r.id = graphId, fun stored => row.any fun r => graphMatch hash (key r) stored,
      (row.map fun r => graphKeycopy left (key r)).getD ⟨namestrcpy [], left⟩⟩
  | _ => none

/-- The lookups of the vertex label table. -/
def CacheCall.vertexProbe : CacheCall → Option (Probe LabelKey LabelKey VertexLabelCacheData)
  | .vertexLabel graphId labelId addr =>
    some ⟨⟨graphId, labelId⟩, fun stored _ => labelMatch ⟨graphId, labelId⟩ stored, labelMatch addr, addr⟩
  | _ => none

/-- The lookups of the edge label table. -/
def CacheCall.edgeProbe : CacheCall → Option (Probe LabelKey LabelKey EdgeLabelCacheData)
  | .edgeLabel graphId labelId addr =>
    some ⟨⟨graphId, labelId⟩, fun stored _ => labelMatch ⟨graphId, labelId⟩ stored, labelMatch addr, addr⟩
  | _ => none

/-- The row of a vertex label. -/
def CacheCatalog.vertexRow (key : LabelKey) : Option VertexLabelCacheData :=
  (cat.vertexLabel key).map fillVertexLabelCacheData

/-- The row of an edge label. -/
def CacheCatalog.edgeRow (key : LabelKey) : Option EdgeLabelCacheData :=
  (cat.edgeLabel key).map fillEdgeLabelCacheData

/-- **The bytes at `&key` keep the keys apart**, in each table. -/
structure KeysApart (calls : List CacheCall) : Prop where
  graphs : Apart id [] (calls.filterMap (CacheCall.graphProbe hash cat))
  vertexLabels : Apart cat.vertexRow [] (calls.filterMap CacheCall.vertexProbe)
  edgeLabels : Apart cat.edgeRow [] (calls.filterMap CacheCall.edgeProbe)

theorem graphs_looksUp : LooksUp id (CacheState.search hash cat) CacheState.graphs
    (CacheCall.graphProbe hash cat) := by
  intro c st
  cases c with
  | byName name namespaceOid addr left =>
    simp only [CacheCall.graphProbe, CacheState.search, searchGraphNameNamespaceCache, find,
      Probe.search, searchGraphNameNamespaceCacheMiss, id]
    cases st.graphs.findIdx? fun e => graphMatch hash ⟨namestrcpy name, namespaceOid⟩ e.1 with
    | some i => exact ⟨rfl, rfl⟩
    | none => cases cat.graphByName ⟨namestrcpy name, namespaceOid⟩ <;> exact ⟨rfl, rfl⟩
  | byId graphId left =>
    simp only [CacheCall.graphProbe, CacheState.search, searchGraphIdCache, Probe.search, id]
    cases st.graphs.findIdx? fun e => decide (e.2.id = graphId) with
    | some i => exact ⟨rfl, rfl⟩
    | none => cases cat.graphById graphId <;> exact ⟨rfl, rfl⟩
  | vertexLabel graphId labelId addr => rfl
  | edgeLabel graphId labelId addr => rfl

/-- A lookup of a label is its probe. -/
theorem searchLabelCache_eq {τ ρ : Type} (scan : LabelKey → Option τ) (fill : τ → ρ)
    (key addr : LabelKey) (t : List (LabelKey × ρ)) : searchLabelCache scan fill key addr t =
      (⟨key, fun stored _ => labelMatch key stored, labelMatch addr, addr⟩ :
        Probe LabelKey LabelKey ρ).search (fun k => (scan k).map fill) t := by
  unfold searchLabelCache Probe.search find
  dsimp only
  cases t.findIdx? fun e => labelMatch key e.1 with
  | some i => rfl
  | none => cases scan key <;> rfl

theorem vertexLabels_looksUp : LooksUp cat.vertexRow (CacheState.search hash cat)
    CacheState.vertexLabels CacheCall.vertexProbe := by
  intro c st
  cases c with
  | vertexLabel graphId labelId addr =>
    simp only [CacheCall.vertexProbe, CacheState.search, searchVertexLabelGraphIdLabelIdCache,
      searchLabelCache_eq]
    exact ⟨rfl, rfl⟩
  | _ => rfl

theorem edgeLabels_looksUp : LooksUp cat.edgeRow (CacheState.search hash cat)
    CacheState.edgeLabels CacheCall.edgeProbe := by
  intro c st
  cases c with
  | edgeLabel graphId labelId addr =>
    simp only [CacheCall.edgeProbe, CacheState.search, searchEdgeLabelGraphIdLabelIdCache,
      searchLabelCache_eq]
    exact ⟨rfl, rfl⟩
  | _ => rfl

/-! ## The entries returned -/

/-- The key of a lookup: that of a graph is the graph, however it was looked up. -/
inductive CacheKey where
  | graph (row : Option GraphCacheData)
  | vertexLabel (key : LabelKey)
  | edgeLabel (key : LabelKey)
deriving DecidableEq

/-- The key of a lookup. -/
def CacheCall.key : CacheCall → CacheKey
  | .byName name namespaceOid _ _ => .graph (cat.graphByName ⟨namestrcpy name, namespaceOid⟩)
  | .byId graphId _ => .graph (cat.graphById graphId)
  | .vertexLabel graphId labelId _ => .vertexLabel ⟨graphId, labelId⟩
  | .edgeLabel graphId labelId _ => .edgeLabel ⟨graphId, labelId⟩

/-- The caches. -/
inductive CacheTable where
  | graphs
  | vertexLabels
  | edgeLabels
deriving DecidableEq

/-- The table of a lookup. -/
def CacheCall.table : CacheCall → CacheTable
  | .byName .. | .byId .. => .graphs
  | .vertexLabel .. => .vertexLabels
  | .edgeLabel .. => .edgeLabels

/-- The entry at a place describes the row of a key. -/
def CacheState.Describes (st : CacheState) (i : Nat) : CacheKey → Prop
  | .graph row => ∃ s r, st.graphs[i]? = some (s, r) ∧ row = some r
  | .vertexLabel key => ∃ s r, st.vertexLabels[i]? = some (s, r) ∧ cat.vertexRow key = some r
  | .edgeLabel key => ∃ s r, st.edgeLabels[i]? = some (s, r) ∧ cat.edgeRow key = some r

/-- **Each entry returned describes the row of its own key**, and belongs to that key alone and for
good. -/
structure CachesKeyed (returned : List (CacheCall × Nat)) (st : CacheState) : Prop where
  describes : ∀ x ∈ returned, st.Describes cat x.2 (x.1.key cat)
  same_iff : ∀ x ∈ returned, ∀ y ∈ returned, x.1.table = y.1.table →
    (x.2 = y.2 ↔ x.1.key cat = y.1.key cat)

/-- **The caches are keyed after every lookup** of a sequence whose `&key` bytes keep the keys apart. -/
theorem cachesKeyed_of_keysApart {calls : List CacheCall} (h : KeysApart hash cat calls) :
    CachesKeyed cat (run (CacheState.search hash cat) calls .empty).1
      (run (CacheState.search hash cat) calls .empty).2 := by
  obtain ⟨og, hg, -, hgp⟩ := run_keyed (graphs_looksUp hash cat) (s := .empty) keyed_nil h.graphs
  obtain ⟨ov, hv, -, hvp⟩ :=
    run_keyed (vertexLabels_looksUp hash cat) (s := .empty) keyed_nil h.vertexLabels
  obtain ⟨oe, he, -, hep⟩ :=
    run_keyed (edgeLabels_looksUp hash cat) (s := .empty) keyed_nil h.edgeLabels
  refine ⟨fun x hx => ?_, fun x hx y hy htable => ?_⟩
  · obtain ⟨c, i⟩ := x
    cases c with
    | byName | byId => exact hg.get (hgp _ hx _ rfl)
    | vertexLabel => exact hv.get (hvp _ hx _ rfl)
    | edgeLabel => exact he.get (hep _ hx _ rfl)
  · obtain ⟨c, i⟩ := x
    obtain ⟨d, j⟩ := y
    have hgraph : ∀ {k l : Option GraphCacheData}, (og.map Prod.fst)[i]? = some k →
        (og.map Prod.fst)[j]? = some l → (i = j ↔ CacheKey.graph k = CacheKey.graph l) :=
      fun hk hl => (hg.place_eq_iff hk hl).trans (by rw [CacheKey.graph.injEq])
    cases c <;> cases d <;> try cases htable
    any_goals exact hgraph (hgp _ hx _ rfl) (hgp _ hy _ rfl)
    · exact (hv.place_eq_iff (hvp _ hx _ rfl) (hvp _ hy _ rfl)).trans
        (by rw [CacheCall.key, CacheCall.key, CacheKey.vertexLabel.injEq])
    · exact (he.place_eq_iff (hep _ hx _ rfl) (hep _ hy _ rfl)).trans
        (by rw [CacheCall.key, CacheCall.key, CacheKey.edgeLabel.injEq])

end

/-- A graph with two edge labels. -/
def exampleCacheCatalog : CacheCatalog where
  graphs := [⟨1, namestrcpy [103], 2200, 11, 12, 13, 14, 15, 16⟩]
  vertexLabels := fun _ => none
  edgeLabels := fun graphId =>
    if graphId = 1 then some [⟨2, ["_", "knows"], 21, 22, 0, none⟩, ⟨3, ["_", "likes"], 31, 32, 0, none⟩]
    else none

/-- The label lookups of `merge_elabels_internal` (`np_label.c:413-414`), at some call depth. -/
def mergeElabelsLookups (graphId currentLabelId baseLabelId : Int32) (addr : LabelKey) :
    List CacheCall :=
  [.edgeLabel graphId currentLabelId addr, .edgeLabel graphId baseLabelId addr]

/-- Lookups of the graph and of its labels, each label from a call depth of its own. -/
def exampleApartCalls : List CacheCall :=
  [.byId 1 2200, .byName [103] 2200 ⟨namestrcpy [7], 0⟩ 0, .edgeLabel 1 2 ⟨100, 32765⟩,
    .edgeLabel 1 3 ⟨200, 32765⟩, .edgeLabel 1 2 ⟨100, 32765⟩]

theorem cachesKeyed_of_keysApart_example : CachesKeyed exampleCacheCatalog
    (run (CacheState.search (fun _ => 0) exampleCacheCatalog) exampleApartCalls .empty).1
    (run (CacheState.search (fun _ => 0) exampleCacheCatalog) exampleApartCalls .empty).2 :=
  cachesKeyed_of_keysApart (fun _ => 0) exampleCacheCatalog
    ⟨by decide +kernel, by decide +kernel, by decide +kernel⟩

/-- **The first label turns into the second.** `merge_elabels_internal` looks both labels up before it
reads either; both misses enter under the address of the same variable. -/
theorem cachesKeyed_fails : ¬ CachesKeyed exampleCacheCatalog
    (run (CacheState.search (fun _ => 0) exampleCacheCatalog)
      (mergeElabelsLookups 1 2 3 ⟨100, 32765⟩) .empty).1
    (run (CacheState.search (fun _ => 0) exampleCacheCatalog)
      (mergeElabelsLookups 1 2 3 ⟨100, 32765⟩) .empty).2 := by
  intro h
  have hmem : (.edgeLabel 1 2 ⟨100, 32765⟩, 0) ∈ (run (CacheState.search (fun _ => 0)
      exampleCacheCatalog) (mergeElabelsLookups 1 2 3 ⟨100, 32765⟩) .empty).1 := by decide +kernel
  obtain ⟨s, r, hget, hrow⟩ := h.describes _ hmem
  have hlikes : ((run (CacheState.search (fun _ => 0) exampleCacheCatalog)
      (mergeElabelsLookups 1 2 3 ⟨100, 32765⟩) .empty).2.edgeLabels[0]?).map
      (fun e => e.2.label) = some ["_", "likes"] := by decide +kernel
  have hknows : (exampleCacheCatalog.edgeRow ⟨1, 2⟩).map EdgeLabelCacheData.label =
      some ["_", "knows"] := by decide +kernel
  rw [hget] at hlikes
  rw [show exampleCacheCatalog.edgeRow ⟨1, 2⟩ = some r from hrow] at hknows
  have heq := hlikes.symm.trans hknows
  revert heq
  decide

end NeoPostGraph
