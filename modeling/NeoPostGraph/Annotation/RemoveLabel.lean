import NeoPostGraph.Annotation.LabelCatalog
import NeoPostGraph.Annotation.Relabel
import NeoPostGraph.Graph.VertexOps
import NeoPostGraph.Graph.Writes

/-!
# Taking a label out of a path

`remove_vertex_label` and `remove_edge_label` (`dml_labels.c:750-1078, 2112-2317`), called on a vertex
and on an edge whose labels have one path. Each works out the rest of the path on its own. The vertex
function leaves out the first level that is the label, the edge function all of them. Where there is
no such level the edge function returns; the vertex function goes on with the label the vertex has,
and inserts the vertex anew under it.

* `AnnotDb.Catalogued`: the label rows are those of a graph whose labels were changed by calls.
* `RemovalsAgree`: what the two calls are to do.

Results:
* `removalsAgree_iff`: they do exactly when the path has the label once.
* `removalsAgree_fails`: a path that has it twice, and one without it.
-/

namespace NeoPostGraph

open SlottedPage

variable {db db' db₁ : AnnotDb} {s s' : Session} {kind : LabelKind} {labelId target : Nat}
  {path : Ltree} {label : String} {behind : Nat → Nat} {x : Unspecified} {fuel : Nat}

/-! ## The rest of the path -/

theorem filter_ne_of_not_mem {α : Type} [DecidableEq α] {l : List α} {a : α} (h : a ∉ l) :
    l.filter (· ≠ a) = l := by
  refine List.filter_eq_self.mpr fun b hb => decide_eq_true fun he => h ?_
  rwa [← he]

/-- The first occurrence is the only one. -/
theorem erase_eq_filter_iff {α : Type} [DecidableEq α] (l : List α) (a : α) :
    l.erase a = l.filter (· ≠ a) ↔ l.count a ≤ 1 := by
  constructor
  · intro h
    have hnot : a ∉ l.erase a := by
      rw [h]
      simp
    have hcount := List.count_eq_zero.mpr hnot
    rw [List.count_erase_self] at hcount
    omega
  · intro h
    by_cases hmem : a ∈ l
    · obtain ⟨l₁, l₂, hl₁, rfl, herase⟩ := List.exists_erase_eq hmem
      have hl₂ : a ∉ l₂ := by
        rw [List.count_append, List.count_cons_self] at h
        exact List.count_eq_zero.mp (by omega)
      rw [herase, List.filter_append, List.filter_cons_of_neg (by simp), filter_ne_of_not_mem hl₁,
        filter_ne_of_not_mem hl₂]
    · rw [List.erase_of_not_mem hmem, filter_ne_of_not_mem hmem]

/-- A level that is neither the root nor the label is left. -/
def LeavesLevel (path : Ltree) (label : String) : Prop :=
  ∃ level ∈ path, level ≠ catalogLtreeRootLabel ∧ level ≠ label

/-- What the vertex function computes, where a level is left. -/
theorem LeavesLevel.reducedPath (h : LeavesLevel path label) :
    reducedPath path label = path.erase label := by
  obtain ⟨level, hlevel, -, hne⟩ := h
  have hmem : level ∈ path.erase label := (List.mem_erase_of_ne hne).mpr hlevel
  exact if_neg (List.ne_nil_of_mem hmem)

/-! ## Labels by their ids -/

/-- The path of the label of this id. -/
def AnnotDb.pathOf (db : AnnotDb) (kind : LabelKind) (labelId : Nat) : Option Ltree :=
  ((db.labels kind).find? fun row => row.id = labelId).map LabelRow.ltree

/-- The label rows are those of a graph whose labels were changed by any calls. The rest of the graph
is open. -/
def AnnotDb.Catalogued (db : AnnotDb) : Prop := ∃ ldb, LabelDdlRun ldb ∧ SameRows ldb.annot db

theorem AnnotDb.Catalogued.rowIds (h : db.Catalogued) (kind : LabelKind) : RowIds db kind := by
  obtain ⟨ldb, hrun, hrows⟩ := h
  exact (hrun.rowIds kind).same (by rw [hrows.labels]) (by rw [hrows.seq])

theorem RowIds.pathOf (h : RowIds db kind) {row : LabelRow} (hrow : row ∈ db.labels kind) :
    db.pathOf kind row.id = some row.ltree := by
  unfold AnnotDb.pathOf
  rw [h.find hrow]
  rfl

theorem RowIds.pathOf_found (h : RowIds db kind) (hfind : db.idOf kind path = some labelId) :
    db.pathOf kind labelId = some path := by
  obtain ⟨row, hrow, rfl⟩ := Option.map_eq_some_iff.mp hfind
  have hltree : row.ltree = path := by simpa using List.find?_some hrow
  rw [h.pathOf (List.mem_of_find?_eq_some hrow), hltree]

theorem RowIds.pathOf_added {annotMap : Option Names} (h : RowIds db kind)
    (hadd : RowAdded db db' kind path annotMap) :
    db'.pathOf kind (db.labelIdSeq kind) = some path := by
  have hrow : ⟨db.labelIdSeq kind, path, annotMap⟩ ∈ db'.labels kind := by
    rw [hadd.rows]
    simp
  exact (h.added hadd).pathOf hrow

/-- The label an entity has keeps its path when another is added. -/
theorem RowIds.pathOf_kept (h : RowIds db kind)
    (hgrow : db' = db ∨ ∃ ltree annotMap, RowAdded db db' kind ltree annotMap)
    (hpath : db.pathOf kind labelId = some path) : db'.pathOf kind labelId = some path := by
  rcases hgrow with rfl | ⟨ltree, annotMap, hadd⟩
  · exact hpath
  · obtain ⟨row, hfind, rfl⟩ := Option.map_eq_some_iff.mp hpath
    have hid : row.id = labelId := by simpa using List.find?_some hfind
    subst hid
    refine (h.added hadd).pathOf ?_
    rw [hadd.rows]
    exact List.mem_append_left _ (List.mem_of_find?_eq_some hfind)

theorem pathOf_congr (h : db'.labels = db.labels) (kind : LabelKind) (labelId : Nat) :
    db'.pathOf kind labelId = db.pathOf kind labelId := by
  unfold AnnotDb.pathOf
  rw [h]

/-! ## Moving a vertex -/

/-- What the two calls read of the annotations, and how the second call sifts them. -/
theorem extractAnnotations_keeps (I : AnnotDb → Prop) (aItemptr : ItemPointer) :
    (extractAnnotations behind labelId aItemptr).Keeps I := by
  refine (Prog.keeps_read _ _).bind fun row => ?_
  cases row with
  | none => exact Prog.keeps_ret _ _
  | some row =>
    dsimp only
    split
    · exact (Prog.keeps_read _ _).bind fun _ => (Prog.keeps_read _ _).bind fun _ => Prog.keeps_ret _ _
    · exact Prog.keeps_ret _ _

theorem filterAnnotations_keeps (I : AnnotDb → Prop) (extracted : List String) :
    (filterAnnotations labelId extracted).Keeps I := by
  refine (Prog.keeps_read _ _).bind fun row => ?_
  cases row with
  | none => exact Prog.keeps_ret _ _
  | some row =>
    dsimp only
    split
    · exact Prog.keeps_ret _ _
    · exact (Prog.keeps_read _ _).bind fun _ => Prog.keeps_ret _ _

theorem onAnnotations_keeps {I : AnnotDb → Prop} {α : Type}
    (hI : ∀ db tbl, I db → I (db.setAnnotations kind labelId tbl))
    (f : XactState → Table AnnotTuple → Except AnnotErr (α × Table AnnotTuple)) :
    (onAnnotations kind labelId f).Keeps I :=
  Prog.keeps_of_runs fun db a db' h hr => by
    change (onAnnotations kind labelId f).Runs db a db' at hr
    cases htbl : db.annotationsTbl kind labelId with
    | none =>
      unfold onAnnotations at hr
      rw [Prog.runs_step_iff, htbl] at hr
      cases hr
    | some tbl =>
      obtain ⟨tbl', -, rfl⟩ := (onAnnotations_runs_iff htbl).mp hr
      exact hI _ _ h

/-- Inserting with annotations writes the annotation table alone. -/
theorem insertAnnotations_keeps {I : AnnotDb → Prop}
    (hI : ∀ db kind labelId tbl, I db → I (db.setAnnotations kind labelId tbl)) (v : Vertex)
    (inputAnnots : Option Names) : (insertAnnotations s v inputAnnots).Keeps I := by
  cases inputAnnots with
  | none => exact Prog.keeps_ret _ _
  | some names =>
    exact (Prog.keeps_read _ _).bind fun bits => onAnnotations_keeps (fun db tbl => hI db _ _ tbl) _

/-- A vertex inserted with annotations is in the table of its label. The label rows stay. -/
theorem insertAnnotatedVertex_stores {u : Unit} {v : Vertex} {props : Gtype} {inputAnnots : Option Names}
    (hr : (insertAnnotatedVertex s v props inputAnnots).Runs db u db') :
    db'.labels = db.labels ∧ ∃ tid, db'.graph.store.vtuple (v.labelId, tid) =
      some (newEntityTuple s v.id .invalid v props) := by
  obtain ⟨tid, db₁, hwrite, h₁⟩ := Prog.runs_bind_iff.mp hr
  obtain ⟨aItemptr, db₂, hannots, h₂⟩ := Prog.runs_bind_iff.mp h₁
  obtain ⟨gr₁, hgr₁, rfl⟩ := onGraph_runs_iff.mp hwrite
  obtain ⟨hlabels, hgraph⟩ := (insertAnnotations_keeps
    (I := fun db₂ => db₂.labels = db.labels ∧ db₂.graph = gr₁) (fun _ _ _ _ h => h) v inputAnnots).runs
    hannots ⟨rfl, rfl⟩
  obtain ⟨gr₂, hplace, rfl⟩ := onGraph_runs_iff.mp h₂
  refine ⟨hlabels, tid, ?_⟩
  dsimp only
  obtain ⟨-, -, hst⟩ := placeVertexSlot_inv hplace
  rw [hst, hgraph, (writeVertexTuple_inv hgr₁).2.2.2.2.2]
  exact Function.update_self ..

theorem stampVertexTuple_other {gr gr' : Db} {u : Unit} {tid : ItemPointer} {k : Nat × ItemPointer}
    (h : (stampVertexTuple s labelId tid).Runs gr u gr') (hk : k.1 ≠ labelId) :
    gr'.store.vtuple k = gr.store.vtuple k := by
  obtain ⟨lab, lab', hlab, hf, -⟩ := runs_onVertexLabel.mp h
  obtain ⟨t, hi, -⟩ := bind_ok hf
  have ht : gr.store.vtuple (labelId, tid) = some t := by
    rw [store_vtuple hlab]
    exact readItem_ok hi
  rw [stampVertexTuple_inv ht h]
  exact Function.update_of_ne (fun he => hk (by rw [he])) ..

/-- The vertex is in the table of its label. -/
def Store.HoldsVertex (st : Store) (v : Vertex) : Prop :=
  ∃ tid t, st.vtuple (v.labelId, tid) = some t ∧ t.entity = v

/-- The edge is in the table of its label. -/
def Store.HoldsEdge (st : Store) (e : Edge) : Prop :=
  ∃ tid t, st.etuple (e.labelId, tid) = some t ∧ t.entity = e

/-- **What the move of a vertex leaves**, whatever it does with the annotations: the vertex in the
table of the target, and no pointer in its old slot. -/
theorem relabelAnnotatedVertex_inv {keep : List String → AnnotOp (List String)} {id : Nat}
    {pmapRec : NeoPhysMapRecord} {v : Vertex} (hkeep : ∀ I names, (keep names).Keeps I)
    (h : (relabelAnnotatedVertex behind x fuel s keep id labelId target pmapRec).Runs db v db') :
    v.labelId = target ∧ db'.labels = db.labels ∧
      (target ≠ labelId → db'.graph.store.HoldsVertex v) ∧
      ∃ rec, db'.graph.store.vslot (labelId, entitySlot id) = some rec ∧ rec.vItemptr = .invalid := by
  obtain ⟨oldTuple, db₁, hread, h⟩ := Prog.runs_bind_iff.mp h
  obtain ⟨newVertexId, db₂, hnext, h⟩ := Prog.runs_bind_iff.mp h
  obtain ⟨extracted, db₃, hextract, h⟩ := Prog.runs_bind_iff.mp h
  obtain ⟨kept, db₄, hkept, h⟩ := Prog.runs_bind_iff.mp h
  obtain ⟨u₅, db₅, hinsert, h⟩ := Prog.runs_bind_iff.mp h
  obtain ⟨u₆, db₆, hwalk, h⟩ := Prog.runs_bind_iff.mp h
  obtain ⟨u₇, db₇, hstamp, h⟩ := Prog.runs_bind_iff.mp h
  obtain ⟨u₈, db₈, hclear, h⟩ := Prog.runs_bind_iff.mp h
  obtain ⟨rfl, rfl⟩ := Prog.runs_ret_iff.mp h
  have hlabels₂ : db₂.labels = db.labels := by
    rw [(onGraph_rows hnext).labels, (onGraph_rows hread).labels]
  have hlabels₄ : db₄.labels = db.labels :=
    (hkeep (fun db₄ => db₄.labels = db.labels) extracted).runs hkept
      ((extractAnnotations_keeps (fun db₃ => db₃.labels = db.labels) _).runs hextract hlabels₂)
  obtain ⟨hlabels₅, tid, hstored⟩ := insertAnnotatedVertex_stores hinsert
  refine ⟨rfl, ?_, fun hne => ?_, ?_⟩
  · rw [(onGraph_rows hclear).labels, (onGraph_rows hstamp).labels, (onGraph_rows hwalk).labels,
      hlabels₅, hlabels₄]
  · -- the walk, the stamp and the cleared slot leave the new tuple alone
    obtain ⟨gr₆, hgr₆, rfl⟩ := onGraph_runs_iff.mp hwalk
    obtain ⟨gr₇, hgr₇, rfl⟩ := onGraph_runs_iff.mp hstamp
    obtain ⟨gr₈, hgr₈, rfl⟩ := onGraph_runs_iff.mp hclear
    have hsame := ((edgesKept_vtuple x s db₅.graph.store.vtuple).migrateWalk fuel _ _ _ _ _).runs hgr₆ rfl
    obtain ⟨rec, -, hst₈⟩ := clearVertexSlot_inv hgr₈
    refine ⟨tid, newEntityTuple s newVertexId .invalid _ oldTuple.props, ?_, rfl⟩
    dsimp only
    rw [hst₈]
    dsimp only
    rw [stampVertexTuple_other hgr₇ hne, hsame]
    exact hstored
  · obtain ⟨gr₈, hgr₈, rfl⟩ := onGraph_runs_iff.mp hclear
    obtain ⟨rec, -, hst⟩ := clearVertexSlot_inv hgr₈
    refine ⟨{ rec with vItemptr := .invalid }, ?_, rfl⟩
    dsimp only
    rw [hst]
    exact Function.update_self ..

/-- **What the move of an edge leaves**: the edge in the table of the target. -/
theorem relabelEdge_stores {gr gr' : Db} {id : Nat} {e : Edge}
    (h : (relabelEdge x fuel s id labelId target).Runs gr e gr') :
    e.labelId = target ∧ gr'.store.HoldsEdge e := by
  obtain ⟨pmapRec, gr₁, -, h⟩ := Prog.runs_bind_iff.mp h
  obtain ⟨oldTuple, gr₂, -, h⟩ := Prog.runs_bind_iff.mp h
  obtain ⟨u₃, gr₃, -, h⟩ := Prog.runs_bind_iff.mp h
  obtain ⟨startV, gr₄, -, h⟩ := Prog.runs_bind_iff.mp h
  obtain ⟨endV, gr₅, -, h⟩ := Prog.runs_bind_iff.mp h
  obtain ⟨u₆, gr₆, hinsert, h⟩ := Prog.runs_bind_iff.mp h
  obtain ⟨rfl, rfl⟩ := Prog.runs_ret_iff.mp h
  obtain ⟨tid, gr₇, gr₈, -, -, -, -, -, hst, hstart, hend⟩ := npInternalInsertEdge_inv hinsert
  have hlink {gr gr' : Db} {u : Unit} {ownerV otherV : Vertex} {dir : Nat} {e : Edge}
      (hr : (insertEdgeOneDirection s.nextCommand ownerV otherV e dir).Runs gr u gr') :
      gr'.store.etuple = gr.store.etuple :=
    (insertEdgeOneDirection_keeps (I := fun st => st.etuple = gr.store.etuple)
      (fun st st' hI hs => hs.etuple.trans hI) s.nextCommand ownerV otherV e dir).runs hr rfl
  refine ⟨rfl, tid, newEntityTuple s.nextCommand oldTuple.entity.id .invalid _ oldTuple.props, ?_, rfl⟩
  rw [hlink hend, hlink hstart, hst]
  exact Function.update_self ..

/-! ## The two calls -/

/-- **The label found for a vertex** has the path that is left, and the vertex's own keeps its path. -/
theorem RowIds.pathOf_reduced (h : RowIds db .vertex) (hpath : db.pathOf .vertex labelId = some path)
    (hmem : label ∈ path) (hr : (resolveReducedTargetLabel s labelId label path).Runs db target db') :
    db'.pathOf .vertex target = some (NeoPostGraph.reducedPath path label) ∧
      db'.pathOf .vertex labelId = some path := by
  rcases resolveReducedTargetLabel_inv hr with ⟨rfl, hnot | hfound⟩ | ⟨-, -, rfl, hadd⟩
  · exact absurd hmem hnot
  · exact ⟨h.pathOf_found hfound, hpath⟩
  · exact ⟨h.pathOf_added hadd, h.pathOf_kept (Or.inr ⟨_, _, hadd⟩) hpath⟩

/-- **The label found for an edge** has the path that is left, and the edge's own keeps its path. -/
theorem RowIds.pathOf_removed (h : RowIds db .edge) (hpath : db.pathOf .edge labelId = some path)
    (hmem : label ∈ path)
    (hr : (resolveTargetEdgeLabelForRemoval s labelId label path).Runs db target db') :
    db'.pathOf .edge target = some (path.filter (· ≠ label)) ∧
      db'.pathOf .edge labelId = some path := by
  rcases resolveTargetEdgeLabelForRemoval_inv hr with ⟨rfl, hnot | hfound⟩ | ⟨-, -, -, rfl, annotMap, hadd⟩
  · exact absurd hmem hnot
  · exact ⟨h.pathOf_found hfound, hpath⟩
  · exact ⟨h.pathOf_added hadd, h.pathOf_kept (Or.inr ⟨_, _, hadd⟩) hpath⟩

theorem requireLabel_runs {e : AnnotErr} {row : LabelRow} (hpath : db.pathOf kind labelId = some path)
    (hr : (requireLabel kind labelId e).Runs db row db') : row.ltree = path ∧ db' = db := by
  obtain ⟨hrow, rfl⟩ := scanLabels_runs_iff.mp hr
  obtain ⟨found, hfind, rfl⟩ := Option.map_eq_some_iff.mp hpath
  rw [hfind] at hrow
  exact ⟨congrArg LabelRow.ltree (Except.ok.inj hrow).symm, rfl⟩

/-- **What `remove_vertex_label` does** to a vertex whose label has this path. -/
theorem removeAnnotatedVertexLabel_inv {id : Nat} {v : Vertex} (h : RowIds db .vertex)
    (hpath : db.pathOf .vertex labelId = some path)
    (hr : (removeAnnotatedVertexLabel behind x fuel s s' id labelId [label]).Runs db v db') :
    (label ∈ path → db'.pathOf .vertex v.labelId = some (reducedPath path label) ∧
      (reducedPath path label ≠ path → db'.graph.store.HoldsVertex v)) ∧
    (label ∉ path → db' ≠ db) := by
  obtain ⟨current, db₁, hcurrent, h₁⟩ := Prog.runs_bind_iff.mp hr
  obtain ⟨rfl, rfl⟩ := requireLabel_runs hpath hcurrent
  obtain ⟨target, db₂, hresolve, h₂⟩ := Prog.runs_bind_iff.mp h₁
  obtain ⟨pmapRec, db₃, hslot, h₃⟩ := Prog.runs_bind_iff.mp h₂
  split at h₃
  · exact absurd h₃ Prog.runs_fail_iff.mp
  next hvalid =>
  obtain ⟨htarget, hlabels, hholds, rec, hrec, hcleared⟩ :=
    relabelAnnotatedVertex_inv (fun I names => filterAnnotations_keeps I names) h₃
  obtain ⟨gr₃, hgr₃, rfl⟩ := onGraph_runs_iff.mp hslot
  obtain ⟨lab, hlab, hread, rfl⟩ := runs_readVertexLabel.mp hgr₃
  constructor
  · intro hmem
    obtain ⟨hfound, hown⟩ := h.pathOf_reduced hpath hmem hresolve
    have hsame : db'.pathOf .vertex v.labelId = db₂.pathOf .vertex v.labelId := pathOf_congr hlabels _ _
    rw [hsame, htarget]
    refine ⟨hfound, fun hne => hholds fun he => hne ?_⟩
    rw [he, hown] at hfound
    exact (Option.some.inj hfound).symm
  · -- the slot had a pointer and has none
    rintro hnot rfl
    rcases resolveReducedTargetLabel_inv hresolve with ⟨rfl, -⟩ | ⟨hmem, -⟩
    · rw [store_vslot hlab, readItem_ok hread] at hrec
      obtain rfl := Option.some.inj hrec
      rw [hcleared] at hvalid
      exact hvalid rfl
    · exact hnot hmem

/-- **What `remove_edge_label` does** to an edge whose label has this path. -/
theorem removeAnnotatedEdgeLabel_inv {id : Nat} {e : Option Edge} (h : RowIds db .edge)
    (hpath : db.pathOf .edge labelId = some path)
    (hr : (removeAnnotatedEdgeLabel x fuel s s' id labelId label).Runs db e db') :
    (label ∈ path → ∃ newE, e = some newE ∧
      db'.pathOf .edge newE.labelId = some (path.filter (· ≠ label)) ∧
      db'.graph.store.HoldsEdge newE) ∧
    (label ∉ path → db' = db) := by
  obtain ⟨current, db₁, hcurrent, h₁⟩ := Prog.runs_bind_iff.mp hr
  obtain ⟨rfl, rfl⟩ := requireLabel_runs hpath hcurrent
  obtain ⟨target, db₂, hresolve, h₂⟩ := Prog.runs_bind_iff.mp h₁
  have hlabels := (onGraph_rows h₂).labels
  obtain ⟨gr, hgr, rfl⟩ := onGraph_runs_iff.mp h₂
  obtain ⟨u, gr₁, hcheck, h₃⟩ := Prog.runs_bind_iff.mp hgr
  obtain ⟨-, -, -, rfl⟩ := runs_readEdgeLabel.mp hcheck
  constructor
  · intro hmem
    obtain ⟨hfound, hown⟩ := h.pathOf_removed hpath hmem hresolve
    have hne : target ≠ labelId := by
      rintro rfl
      rw [hown] at hfound
      rw [Option.some.inj hfound] at hmem
      simp at hmem
    rw [if_neg hne] at h₃
    obtain ⟨newE, gr₂, hmove, h₄⟩ := Prog.runs_bind_iff.mp h₃
    obtain ⟨rfl, rfl⟩ := Prog.runs_ret_iff.mp h₄
    obtain ⟨htarget, hholds⟩ := relabelEdge_stores hmove
    refine ⟨newE, rfl, ?_, hholds⟩
    rw [pathOf_congr hlabels, htarget]
    exact hfound
  · intro hnot
    unfold resolveTargetEdgeLabelForRemoval at hresolve
    dsimp only at hresolve
    rw [if_pos hnot] at hresolve
    obtain ⟨rfl, rfl⟩ := Prog.runs_ret_iff.mp hresolve
    rw [if_pos rfl] at h₃
    obtain ⟨-, rfl⟩ := Prog.runs_ret_iff.mp h₃
    rfl

/-! ## Agreement -/

/-- **What the two calls are to do**, on a vertex and an edge whose labels have the path: move them to the
label of the path without `label`, or nothing if the path does not have it. -/
structure RemovalsAgree (path : Ltree) (label : String) (dbv : AnnotDb) (v : Vertex) (dbv' : AnnotDb)
    (dbe : AnnotDb) (e : Option Edge) (dbe' : AnnotDb) : Prop where
  vertexMoved : label ∈ path →
    dbv'.pathOf .vertex v.labelId = some (path.filter (· ≠ label)) ∧ dbv'.graph.store.HoldsVertex v
  edgeMoved : label ∈ path → ∃ newE, e = some newE ∧
    dbe'.pathOf .edge newE.labelId = some (path.filter (· ≠ label)) ∧ dbe'.graph.store.HoldsEdge newE
  vertexKept : label ∉ path → dbv' = dbv
  edgeKept : label ∉ path → dbe' = dbe

/-- **The two calls agree exactly when the path has the label once.** -/
theorem removalsAgree_iff {dbv dbv' dbe dbe' : AnnotDb} (hdbv : dbv.Catalogued) (hdbe : dbe.Catalogued)
    {vid lv eid le : Nat} (hlv : dbv.pathOf .vertex lv = some path)
    (hle : dbe.pathOf .edge le = some path) (hleaves : label ∈ path → LeavesLevel path label)
    {xe : Unspecified} {fuele : Nat} {t t' : Session} {v : Vertex} {e : Option Edge}
    (hv : (removeAnnotatedVertexLabel behind x fuel s s' vid lv [label]).Runs dbv v dbv')
    (he : (removeAnnotatedEdgeLabel xe fuele t t' eid le label).Runs dbe e dbe') :
    RemovalsAgree path label dbv v dbv' dbe e dbe' ↔ path.count label = 1 := by
  obtain ⟨hvmoved, hvkept⟩ := removeAnnotatedVertexLabel_inv (hdbv.rowIds .vertex) hlv hv
  obtain ⟨hemoved, hekept⟩ := removeAnnotatedEdgeLabel_inv (hdbe.rowIds .edge) hle he
  constructor
  · intro hagree
    by_cases hmem : label ∈ path
    · have hpath := (hvmoved hmem).1
      rw [(hagree.vertexMoved hmem).1, (hleaves hmem).reducedPath] at hpath
      have hle := (erase_eq_filter_iff path label).mp (Option.some.inj hpath).symm
      have hpos := List.count_pos_iff.mpr hmem
      omega
    · exact absurd (hagree.vertexKept hmem) (hvkept hmem)
  · intro hcount
    have hmem : label ∈ path := List.count_pos_iff.mp (by omega)
    have hpath := (erase_eq_filter_iff path label).mpr (by omega)
    obtain ⟨hfound, hholds⟩ := hvmoved hmem
    rw [(hleaves hmem).reducedPath, hpath] at hfound hholds
    have hne : path.filter (· ≠ label) ≠ path := fun he => by
      rw [← he] at hmem
      simp at hmem
    exact ⟨fun _ => ⟨hfound, hholds hne⟩, hemoved, fun hnot => absurd hmem hnot, hekept⟩

/-- Labels `_.A`, `_.B`, `_.A.B` and `_.A.A.B` of both kinds, with the ids 2 to 5. An edge label can be
created with its whole path. -/
def exampleRepeatedLabels : LabelDb :=
  [LabelOp.schema (.createVlabel ["A"] none), .schema (.setVertexLabel 2 ["B"]),
    .schema (.mergeVlabels 2 4), .schema (.createElabel ["A"] none), .schema (.setEdgeLabel 2 ["B"]),
    .schema (.createElabel ["A", "A", "B"] none)].foldl (fun db o => o.perform ⟨5, 0⟩ db)
      (LabelDb.created asciiLtree ⟨9, fun n => if n < 6 then .committed else .inProgress⟩ ⟨5, 0⟩)

/-- Two vertices of one of these labels and an edge of the same path between them. -/
def exampleEdgeUnder (l : Nat) : AnnotDb :=
  let insert : Op Unit := do
    let a ← nextVertexId l
    let b ← nextVertexId l
    npInternalInsertVertex ⟨5, 0⟩ ⟨a, l, 0⟩ npEmptyGtypeObject
    npInternalInsertVertex ⟨5, 0⟩ ⟨b, l, 0⟩ npEmptyGtypeObject
    npInternalInsertEdge exampleUnspecified ⟨5, 0⟩ ⟨a, l, 0⟩ ⟨b, l, 0⟩ ⟨1, l, 0, l, a, l, b⟩
      npEmptyGtypeObject
  { exampleRepeatedLabels.annot with graph := (insert.exec exampleRepeatedLabels.annot.graph).2 }

theorem catalogued_exampleEdgeUnder (l : Nat) : (exampleEdgeUnder l).Catalogued :=
  ⟨exampleRepeatedLabels, (LabelDdlRun.created _ _ _).calls _ _, rfl, rfl, rfl, rfl⟩

/-- Taking `B` from `_.A.B`. -/
theorem removalsAgree_iff_example : ∃ v dbv' e dbe',
    RemovalsAgree ["_", "A", "B"] "B" (exampleEdgeUnder 4) v dbv' (exampleEdgeUnder 4) e dbe' := by
  have hv : (removeAnnotatedVertexLabel (fun _ => 0) exampleUnspecified 9 ⟨6, 0⟩ ⟨6, 1⟩ 1 4 ["B"]).Runs
      (exampleEdgeUnder 4) ⟨1, 2, 0⟩ _ := Prog.runs_of_ok (by decide +kernel)
  have he : (removeAnnotatedEdgeLabel exampleUnspecified 9 ⟨6, 0⟩ ⟨6, 1⟩ 1 4 "B").Runs
      (exampleEdgeUnder 4) (some ⟨1, 2, 0, 4, 1, 4, 2⟩) _ := Prog.runs_of_ok (by decide +kernel)
  exact ⟨_, _, _, _, (removalsAgree_iff (catalogued_exampleEdgeUnder 4) (catalogued_exampleEdgeUnder 4)
    (by decide +kernel) (by decide +kernel) (fun _ => ⟨"A", by decide, by decide, by decide⟩) hv he).mpr
    (by decide)⟩

/-- **They part ways.** From `_.A.A.B` the vertex loses one `A` and the edge both; a vertex whose path has
no `Z` has another id when `Z` is taken out. -/
theorem removalsAgree_fails :
    (∃ v dbv' e dbe', (removeAnnotatedVertexLabel (fun _ => 0) exampleUnspecified 9 ⟨6, 0⟩ ⟨6, 1⟩ 1 5
        ["A"]).Runs (exampleEdgeUnder 5) v dbv' ∧
      (removeAnnotatedEdgeLabel exampleUnspecified 9 ⟨6, 0⟩ ⟨6, 1⟩ 1 5 "A").Runs
        (exampleEdgeUnder 5) (some e) dbe' ∧
      dbv'.pathOf .vertex v.labelId = some ["_", "A", "B"] ∧
      dbe'.pathOf .edge e.labelId = some ["_", "B"]) ∧
    ∃ v dbv', (removeAnnotatedVertexLabel (fun _ => 0) exampleUnspecified 9 ⟨6, 0⟩ ⟨6, 1⟩ 1 4
        ["Z"]).Runs (exampleEdgeUnder 4) v dbv' ∧ v.id ≠ 1 := by
  refine ⟨⟨⟨1, 4, 0⟩, _, ⟨1, 3, 0, 5, 1, 5, 2⟩, _, Prog.runs_of_ok (by decide +kernel),
    Prog.runs_of_ok (by decide +kernel), by decide +kernel, by decide +kernel⟩, ⟨3, 4, 0⟩, _,
    Prog.runs_of_ok (by decide +kernel), by decide⟩

end NeoPostGraph
