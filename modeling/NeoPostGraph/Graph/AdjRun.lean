import NeoPostGraph.Graph.Compaction
import NeoPostGraph.Graph.InsertRun

/-!
# Runs of adjacency operations

Labels, vertex and edge inserts, edge deletes, rotations and compactions in any order, by any
transactions. An operation that fails keeps what it had written before the error.

* `AdjRun x V db`: these operations lead from an empty graph to `db`, with the vertices `V`.

Results:
* `AdjRun.layout`: every state of a run has a layout.
* `compact_preserves_adjacency`: a compaction of any label there keeps the members of every vertex.
-/

namespace NeoPostGraph

open SlottedPage LinkedChain

/-- The states the operations lead to, with the vertices inserted. A vertex is inserted under an id
whose slot both computations agree on and that has no vertex yet; edges are inserted between
vertices that are there. Between operations, transactions begin and end as they like. -/
inductive AdjRun (x : Unspecified) : List VertexKey → Db → Prop
  | empty (xacts : XactState) : AdjRun x [] (Db.empty xacts)
  | xacts {V : List VertexKey} {db : Db} (h : AdjRun x V db) (xacts : XactState) :
      AdjRun x V { db with xacts := xacts }
  | vertexLabel {V : List VertexKey} {db db' : Db} {l : Nat} (h : AdjRun x V db)
      (hnew : db.store.vlabel l = none) (hr : (buildVertexLabelInfrastructure l).Runs db () db') :
      AdjRun x V db'
  | edgeLabel {V : List VertexKey} {db : Db} (h : AdjRun x V db) (l : Nat) :
      AdjRun x V ((createElabelInternal l).exec db).2
  | vertex {V : List VertexKey} {db db' : Db} {s : Session} {v : Vertex} {props : Gtype}
      (h : AdjRun x V db) (hagree : headSlot v.id = entitySlot v.id)
      (hnew : ∀ w ∈ V, w.1 = v.labelId → headSlot w.2 ≠ headSlot v.id)
      (hr : (insertVertex s v props).Runs db () db') : AdjRun x (v.key :: V) db'
  | edge {V : List VertexKey} {db : Db} {startV endV : Vertex} (h : AdjRun x V db)
      (hstart : startV.key ∈ V) (hend : endV.key ∈ V) (s : Session) (e : Edge) (props : Gtype) :
      AdjRun x V ((insertEdge x s startV endV e props).exec db).2
  | deleteEdge {V : List VertexKey} {db : Db} (h : AdjRun x V db) (fuel : Nat) (s : Session)
      (id l : Nat) : AdjRun x V ((deleteEdge fuel s id l).exec db).2
  | rotate {V : List VertexKey} {db : Db} (h : AdjRun x V db) (l : Nat) :
      AdjRun x V ((rotateActiveLinkedListTable l).exec db).2
  | compact {V : List VertexKey} {db : Db} (h : AdjRun x V db) (s : Session) (l : Nat) :
      AdjRun x V ((compactOldestLinkedListTable x s l).exec db).2

/-! ## The operations keep the layout -/

section

variable {db : Db} {V : List VertexKey} {l : Nat}

theorem exec_onVertexLabel_none {α : Type} (h : db.vlabels l = none) (e : Err)
    (f : XactState → VertexLabel → Except Err (α × VertexLabel)) :
    (onVertexLabel l e f).exec db = (.error e, db) := by
  unfold onVertexLabel
  rw [Prog.exec_step, h]

theorem exec_readVertexLabel_none {α : Type} (h : db.vlabels l = none) (e : Err)
    (f : XactState → VertexLabel → Except Err α) :
    (readVertexLabel l e f).exec db = (.error e, db) := by
  unfold readVertexLabel
  rw [Prog.exec_read, h]

/-- A rotation of a label that does not exist changes nothing. -/
theorem rotateActiveLinkedListTable_cases (hcat : Catalog db.store) (l : Nat) :
    (∃ e, (rotateActiveLinkedListTable l).exec db = (.error e, db)) ∨
      ∃ info db', db.store.vlabel l = some info ∧ (rotateActiveLinkedListTable l).Runs db () db' ∧
        db'.store = db.store.rotate l info := by
  cases hl : db.vlabels l with
  | none =>
    have h₁ : (nextPartitionId l).exec db = (.error .noLinkedListSetup, db) :=
      exec_onVertexLabel_none hl _ _
    have h₂ : (createNewActiveLinkedList l).exec db = (.error .noLinkedListSetup, db) :=
      Prog.exec_bind_error h₁ _
    exact Or.inl ⟨_, Prog.exec_bind_error h₂ _⟩
  | some lab =>
    obtain ⟨o, db', hr⟩ : ∃ o db', (createNewActiveLinkedList l).Runs db o db' :=
      createNewActiveLinkedList_runs (by rw [store_vlabel hl]; rfl)
    obtain ⟨info, hinfo, -, hst⟩ := createNewActiveLinkedList_inv hcat hr
    exact Or.inr ⟨info, db', hinfo, hr.bind (Prog.runs_ret_iff.mpr ⟨rfl, rfl⟩), hst⟩

theorem GraphLayout.rotate_exec (h : GraphLayout db.store V) (l : Nat) :
    GraphLayout ((rotateActiveLinkedListTable l).exec db).2.store V := by
  rcases rotateActiveLinkedListTable_cases h.catalog l with ⟨e, he⟩ | ⟨info, db', hinfo, hr, hst⟩
  · rw [he]
    exact h
  · rw [hr, hst]
    exact h.rotate hinfo

/-- Linking at a vertex of the graph always succeeds. -/
theorem GraphLayout.link_runs (h : GraphLayout db.store V) {ownerV : Vertex} (hmem : ownerV.key ∈ V)
    (s : Session) (otherV : Vertex) (e : Edge) (dir : Nat) :
    ∃ db', (insertEdgeOneDirection s ownerV otherV e dir).Runs db () db' ∧
      GraphLayout db'.store V := by
  obtain ⟨ls, bs, hlay⟩ := h.chain _ hmem
  obtain ⟨rec, hrec⟩ := hlay.slot
  obtain ⟨lab, hlab⟩ := exists_vlabel_of_vslot hrec
  have hl : (db.store.vlabel ownerV.labelId).isSome := by
    rw [store_vlabel (l := ownerV.labelId) hlab]
    rfl
  obtain ⟨db', hr⟩ := insertEdgeOneDirection_runs h.catalog hl hrec
    (fun a ha => by
      have hp := hlay.path
      unfold Store.Path at hp
      rw [show db.store.head ownerV.key.1 ownerV.key.2 = some a from ha] at hp
      generalize toPath ls bs = p at hp
      cases hp with
      | cons hn _ =>
        rw [hn]
        rfl) s otherV e dir
  exact ⟨db', hr, h.link hmem hr⟩

theorem GraphLayout.insertEdge_exec (h : GraphLayout db.store V) {startV endV : Vertex}
    (hstart : startV.key ∈ V) (hend : endV.key ∈ V) (x : Unspecified) (s : Session) (e : Edge)
    (props : Gtype) :
    GraphLayout ((insertEdge x s startV endV e props).exec db).2.store V := by
  refine Prog.exec_bind_ind (I := fun db : Db => GraphLayout db.store V) (fun er db₁ hr => ?_)
    fun tid db₁ hr => ?_
  · rw [Prog.step_error hr]
    exact h
  · obtain ⟨-, -, -, -, -, hst₁⟩ := writeEdgeTuple_inv hr
    have h₁ : GraphLayout db₁.store V := by
      rw [hst₁]
      exact h.same rfl rfl rfl rfl rfl
    refine Prog.exec_bind_ind (I := fun db : Db => GraphLayout db.store V) (fun er db₂ hr => ?_)
      fun u db₂ hr => ?_
    · rw [Prog.step_error hr]
      exact h₁
    · obtain ⟨-, -, hst₂⟩ := setEdgeSlot_inv hr
      have h₂ : GraphLayout db₂.store V := by
        rw [hst₂]
        exact h₁.same rfl rfl rfl rfl rfl
      obtain ⟨db₃, hr₃, h₃⟩ := h₂.link_runs hstart s endV e 0
      obtain ⟨db₄, hr₄, h₄⟩ := h₃.link_runs hend s startV e 1
      have hlinks : (insertEdgeOneDirection s startV endV e 0 >>= fun _ =>
          insertEdgeOneDirection s endV startV e 1).exec db₂ = (.ok (), db₄) := hr₃.bind hr₄
      rw [hlinks]
      exact h₄

theorem GraphLayout.deleteEdge_exec (h : GraphLayout db.store V) (fuel : Nat) (s : Session)
    (id l : Nat) : GraphLayout ((deleteEdge fuel s id l).exec db).2.store V :=
  (deleteEdge_keeps (I := fun st => GraphLayout st V) s
    (fun _ _ _ _ hI => hI.same rfl rfl rfl rfl rfl) (fun _ p hI => hI.stamp s p) fuel id l).exec h

theorem exec_compact_none (hl : db.vlabels l = none) (x : Unspecified) (s : Session) :
    ((compactOldestLinkedListTable x s l).exec db).2 = db := by
  have herr : (compactOldestLinkedListTable x s l).exec db = (.error (.labelNotFoundForGraph l), db) :=
    Prog.exec_bind_error (exec_readVertexLabel_none hl _ _) _
  rw [herr]

/-- **Every state of a run has a layout.** -/
theorem AdjRun.layout {x : Unspecified} (h : AdjRun x V db) : GraphLayout db.store V := by
  induction h with
  | empty xacts => exact graphLayout_empty xacts
  | xacts _ _ ih => exact ih.same rfl rfl rfl rfl rfl
  | vertexLabel _ hnew hr ih =>
    rw [buildVertexLabelInfrastructure_inv ih.catalog hnew hr]
    exact ih.addLabel hnew
  | edgeLabel _ l ih => exact ih.same rfl rfl rfl rfl rfl
  | vertex _ hagree hnew hr ih => exact ih.vertex hagree hnew hr
  | edge _ hstart hend s e props ih => exact ih.insertEdge_exec hstart hend x s e props
  | deleteEdge _ fuel s id l ih => exact ih.deleteEdge_exec fuel s id l
  | rotate _ l ih => exact ih.rotate_exec l
  | @compact V db _ s l ih =>
    cases hl : db.vlabels l with
    | none =>
      rw [exec_compact_none hl]
      exact ih
    | some lab =>
      obtain ⟨db', hr, h', -⟩ := compactOldestLinkedListTable_runs ih
        (by rw [store_vlabel hl]; rfl) x s
      rw [hr]
      exact h'

/-- **Compaction keeps the adjacency of every vertex**: in every state of a run, compacting a label
that exists succeeds, and leaves in the chain of each vertex the members that were there before, each
as often. -/
theorem compact_preserves_adjacency {x : Unspecified} (h : AdjRun x V db) (s : Session) (l : Nat) :
    ((db.store.vlabel l).isSome → ∃ db', (compactOldestLinkedListTable x s l).Runs db () db') ∧
      ∀ v ∈ V, ∃ p p', db.store.Path v p ∧
        ((compactOldestLinkedListTable x s l).exec db).2.store.Path v p' ∧
        p'.members.Perm p.members := by
  have hlayout := h.layout
  cases hl : db.vlabels l with
  | none =>
    refine ⟨fun hs => ?_, fun v hv => ?_⟩
    · obtain ⟨lab, hlab⟩ := exists_vlabel hs
      rw [hl] at hlab
      cases hlab
    · obtain ⟨ls, bs, hlay⟩ := hlayout.chain v hv
      rw [exec_compact_none hl]
      exact ⟨_, _, hlay.path, hlay.path, List.Perm.refl _⟩
  | some lab =>
    obtain ⟨db', hr, -, hmembers⟩ := compactOldestLinkedListTable_runs hlayout
      (by rw [store_vlabel hl]; rfl) x s
    rw [hr]
    exact ⟨fun _ => ⟨db', hr⟩, hmembers⟩

end

/-! ## A run -/

/-- Two vertices; an edge between them and a self-loop; after a rotation another edge, the deletion of
the self-loop, and a compaction. -/
def exampleAdjacency : List (Op Unit) :=
  let s : Session := ⟨5, 0⟩
  let v : Vertex := ⟨1, 1, 0⟩
  let w : Vertex := ⟨2, 1, 0⟩
  [buildVertexLabelInfrastructure 1, createElabelInternal 1,
    insertVertex s v npEmptyGtypeObject, insertVertex s w npEmptyGtypeObject,
    insertEdge exampleUnspecified s v w ⟨1, 1, 0, 1, 1, 1, 2⟩ npEmptyGtypeObject,
    insertEdge exampleUnspecified s v v ⟨2, 1, 0, 1, 1, 1, 1⟩ npEmptyGtypeObject,
    rotateActiveLinkedListTable 1,
    insertEdge exampleUnspecified s w v ⟨3, 1, 0, 1, 2, 1, 1⟩ npEmptyGtypeObject,
    deleteEdge 10 s 2 1,
    compactOldestLinkedListTable exampleUnspecified s 1]

/-- The state they leave. -/
def exampleAdjacencyDb : Db := execAll exampleAdjacency (Db.empty exampleXacts5)

/-- Compacting a second time, which rotates first and merges the blocks of the first time. -/
theorem compact_preserves_adjacency_example :
    ((exampleAdjacencyDb.store.vlabel 1).isSome → ∃ db',
      (compactOldestLinkedListTable exampleUnspecified ⟨5, 0⟩ 1).Runs exampleAdjacencyDb () db') ∧
      ∀ v ∈ [(1, 2), (1, 1)], ∃ p p', exampleAdjacencyDb.store.Path v p ∧
        ((compactOldestLinkedListTable exampleUnspecified ⟨5, 0⟩ 1).exec
          exampleAdjacencyDb).2.store.Path v p' ∧ p'.members.Perm p.members := by
  have h₀ := AdjRun.empty (x := exampleUnspecified) exampleXacts5
  have h₂ := (h₀.vertexLabel (l := 1) rfl (Prog.runs_of_ok rfl)).edgeLabel 1
  have h₃ := h₂.vertex (s := ⟨5, 0⟩) (v := ⟨1, 1, 0⟩) (by decide) (by decide)
    (Prog.runs_of_ok (p := insertVertex _ _ npEmptyGtypeObject) rfl)
  have h₄ := h₃.vertex (s := ⟨5, 0⟩) (v := ⟨2, 1, 0⟩) (by decide) (by decide)
    (Prog.runs_of_ok (p := insertVertex _ _ npEmptyGtypeObject) rfl)
  have hv : (⟨1, 1, 0⟩ : Vertex).key ∈ [(1, 2), (1, 1)] := by decide
  have hw : (⟨2, 1, 0⟩ : Vertex).key ∈ [(1, 2), (1, 1)] := by decide
  have h₆ := (h₄.edge hv hw ⟨5, 0⟩ ⟨1, 1, 0, 1, 1, 1, 2⟩ npEmptyGtypeObject).edge hv hv ⟨5, 0⟩
    ⟨2, 1, 0, 1, 1, 1, 1⟩ npEmptyGtypeObject
  have h₈ := (h₆.rotate 1).edge hw hv ⟨5, 0⟩ ⟨3, 1, 0, 1, 2, 1, 1⟩ npEmptyGtypeObject
  exact compact_preserves_adjacency ((h₈.deleteEdge 10 ⟨5, 0⟩ 2 1).compact ⟨5, 0⟩ 1) ⟨5, 0⟩ 1

end NeoPostGraph
