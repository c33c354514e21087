import NeoPostGraph.Graph.Relabel
import NeoPostGraph.Graph.EntityInv

/-!
# What the operations write to the adjacency

Whatever else they do, the operations of `dml_insert.c`, `dml_delete.c` and `dml_labels.c` write to
adjacency nodes in three ways: a new record of the session, another back pointer, a deletion stamp of
the session. `AdjKept s I` says that `I` does not mind these, and each operation keeps such an `I` at
every step, however it ends.
-/

namespace NeoPostGraph

open SlottedPage

/-! ## The walk over the edges of a vertex -/

/-- `I` is kept by the inserts and deletes of edges that a migration is made of. -/
structure EdgesKept (x : Unspecified) (s : Session) (I : Db → Prop) : Prop where
  insertEdge : ∀ startV endV e props, (NeoPostGraph.insertEdge x s startV endV e props).Keeps I
  deleteEdge : ∀ fuel id l, (NeoPostGraph.deleteEdge fuel s id l).Keeps I

namespace EdgesKept

variable {x : Unspecified} {s : Session} {I : Db → Prop}

theorem npInternalFetchVertex (I : Db → Prop) (s : Session) (l id : Nat) :
    (npInternalFetchVertex s l id).Keeps I :=
  (Prog.keeps_read _ _).bind fun _ => Prog.keeps_read _ _

theorem npInternalFetchEdge (I : Db → Prop) (s : Session) (l id : Nat) :
    (npInternalFetchEdge s l id).Keeps I :=
  (Prog.keeps_read _ _).bind fun _ => Prog.keeps_read _ _

theorem insertMigrated (h : EdgesKept x s I) (oldV newV neighborV : Vertex)
    (oId oLid : Nat) (e : Edge) (props : Gtype) :
    (insertMigrated x s oldV newV neighborV oId oLid e props).Keeps I := by
  unfold NeoPostGraph.insertMigrated
  dsimp only
  generalize (if oId = oldV.id ∧ oLid = oldV.labelId then newV else neighborV) = neighbor
  split
  · exact h.insertEdge newV neighbor _ props
  · exact h.insertEdge neighbor newV _ props

theorem migrateRecord (h : EdgesKept x s I) (fuel : Nat) (oldV newV : Vertex)
    (rec : NeoLinkedListRecord) :
    (migrateRecord x fuel s oldV newV rec).Keeps I := by
  unfold NeoPostGraph.migrateRecord
  split
  · exact Prog.keeps_ret _ _
  · exact (npInternalFetchVertex _ _ _ _).bind fun _ => (npInternalFetchEdge _ _ _ _).bind fun _ =>
      (h.deleteEdge fuel _ _).bind fun _ => h.insertMigrated _ _ _ _ _ _ _

theorem migrateFetch (h : EdgesKept x s I) (fuel : Nat) : ∀ ms : List AdjListMember,
    (migrateFetch fuel s ms).Keeps I
  | [] => Prog.keeps_ret _ _
  | m :: ms => by
    unfold NeoPostGraph.migrateFetch
    split
    · exact h.migrateFetch fuel ms
    · exact (npInternalFetchVertex _ _ _ _).bind fun _ =>
        (npInternalFetchEdge _ _ _ _).bind fun _ => (h.deleteEdge fuel _ _).bind fun _ =>
          (h.migrateFetch fuel ms).bind fun _ => Prog.keeps_ret _ _

theorem migrateInsert (h : EdgesKept x s I) (oldV newV : Vertex) :
    ∀ saved : List (Vertex × Edge × Gtype),
      (migrateInsert x s oldV newV saved).Keeps I
  | [] => Prog.keeps_ret _ _
  | (_, _, _) :: rest =>
    (h.insertMigrated _ _ _ _ _ _ _).bind fun _ => h.migrateInsert oldV newV rest

theorem migrateWalk (h : EdgesKept x s I) (fuel : Nat) (oldV newV : Vertex) :
    ∀ (n : Nat) (tbl : Oid) (tid : ItemPointer),
      (migrateWalk x fuel s oldV newV n tbl tid).Keeps I
  | 0, _, _ => Prog.keeps_fail _ _
  | n + 1, tbl, tid => by
    unfold NeoPostGraph.migrateWalk
    split
    · refine Prog.Keeps.bind (Prog.keeps_read _ _) fun r => ?_
      rcases r with - | rec | rec
      · exact Prog.keeps_ret _ _
      · exact (h.migrateRecord fuel oldV newV rec).bind fun _ =>
          h.migrateWalk fuel oldV newV n _ _
      · exact (h.migrateFetch fuel rec.adjList).bind fun saved =>
          (h.migrateInsert oldV newV saved).bind fun _ => h.migrateWalk fuel oldV newV n _ _
    · exact Prog.keeps_ret _ _

end EdgesKept

/-- The walk writes to no table of vertices. -/
theorem edgesKept_vtuple (x : Unspecified) (s : Session)
    (c : Nat × ItemPointer → Option (EntityTuple Vertex)) :
    EdgesKept x s fun db => db.store.vtuple = c where
  insertEdge startV endV e props := by
    have hlabel {α : Type} (l : Nat) (er : Err)
        (f : XactState → EdgeLabel → Except Err (α × EdgeLabel)) :
        (onEdgeLabel l er f).Keeps fun db => db.store.vtuple = c :=
      Prog.keeps_of_runs fun db a db' hI hr => by
        obtain ⟨lab, lab', -, -, rfl⟩ := runs_onEdgeLabel.mp hr
        exact hI
    have hlink (ownerV otherV : Vertex) (dir : Nat) :
        (insertEdgeOneDirection s ownerV otherV e dir).Keeps fun db => db.store.vtuple = c :=
      insertEdgeOneDirection_keeps (I := fun st => st.vtuple = c)
        (fun st st' hI hs => hs.vtuple.trans hI) s ownerV otherV e dir
    exact (hlabel _ _ _).bind fun _ => (hlabel _ _ _).bind fun _ => (hlink _ _ _).bind fun _ =>
      hlink _ _ _
  deleteEdge fuel id l := deleteEdge_keeps (I := fun st => st.vtuple = c) s (fun _ _ _ _ hI => hI)
    (fun _ _ hI => hI) fuel id l

/-! ## Adjacency nodes -/

/-- `I` is about the adjacency nodes alone, and kept by what the operations of `s` write there. -/
structure AdjKept (s : Session) (I : Store → Prop) : Prop where
  same : ∀ st st' : Store, st'.node = st.node → I st → I st'
  append : ∀ st a rec, rec.xmin = s.fxid → rec.xmax = invalidFullTransactionId → I st →
    I (st.putNode a (.linked rec))
  setPrev : ∀ st a n tbl tid, st.node a = some n → I st → I (st.putNode a (n.setPrev tbl tid))
  stamp : ∀ st p, I st → I (st.stamp s p)

namespace AdjKept

variable {s : Session} {I : Store → Prop}

theorem onVertexLabel (h : AdjKept s I) {α : Type} (l : Nat) (e : Err)
    (f : XactState → VertexLabel → Except Err (α × VertexLabel)) :
    (onVertexLabel l e f).Keeps fun db => I db.store :=
  Prog.keeps_of_runs fun db a db' hI hr => by
    obtain ⟨lab, lab', -, -, rfl⟩ := runs_onVertexLabel.mp hr
    exact h.same db.store _ rfl hI

theorem onEdgeLabel (h : AdjKept s I) {α : Type} (l : Nat) (e : Err)
    (f : XactState → EdgeLabel → Except Err (α × EdgeLabel)) :
    (onEdgeLabel l e f).Keeps fun db => I db.store :=
  Prog.keeps_of_runs fun db a db' hI hr => by
    obtain ⟨lab, lab', -, -, rfl⟩ := runs_onEdgeLabel.mp hr
    exact h.same db.store _ rfl hI

theorem insertVertex (h : AdjKept s I) (v : Vertex) (props : Gtype) :
    (insertVertex s v props).Keeps fun db => I db.store :=
  (h.onVertexLabel _ _ _).bind fun _ => h.onVertexLabel _ _ _

theorem insertEdgeOneDirection (h : AdjKept s I) (ownerV otherV : Vertex) (e : Edge) (dir : Nat) :
    (insertEdgeOneDirection s ownerV otherV e dir).Keeps fun db => I db.store := by
  refine (Prog.keeps_read _ _).bind fun o => (Prog.keeps_read _ _).bind fun hd =>
    Prog.Keeps.bind (Prog.keeps_of_runs fun db tid db' hI hr => ?_) fun tid =>
      Prog.Keeps.bind ?_ fun _ => h.onVertexLabel _ _ _
  · obtain ⟨-, -, -, hst⟩ := insertLinkedListRecord_inv hr
    rw [hst]
    exact h.append _ _ _ rfl rfl hI
  · unfold updateOldHead
    split
    · refine Prog.keeps_of_runs fun db u db' hI hr => ?_
      obtain ⟨n, hn, hst⟩ := updatePrevPointer_inv hr
      rw [hst]
      exact h.setPrev _ _ _ _ _ hn hI
    · exact Prog.keeps_ret _ _

theorem insertEdge (h : AdjKept s I) (x : Unspecified) (startV endV : Vertex) (e : Edge)
    (props : Gtype) : (insertEdge x s startV endV e props).Keeps fun db => I db.store :=
  (h.onEdgeLabel _ _ _).bind fun _ => (h.onEdgeLabel _ _ _).bind fun _ =>
    (h.insertEdgeOneDirection _ _ _ _).bind fun _ => h.insertEdgeOneDirection _ _ _ _

theorem deleteEdge (h : AdjKept s I) (fuel id l : Nat) :
    (deleteEdge fuel s id l).Keeps fun db => I db.store :=
  deleteEdge_keeps s (fun st _ _ _ hI => h.same st _ rfl hI) h.stamp fuel id l

theorem deleteVertex (h : AdjKept s I) (x : Unspecified) (fuel id l : Nat) (detach : Bool) :
    (deleteVertex x fuel s id l detach).Keeps fun db => I db.store := by
  refine (Prog.keeps_read _ _).bind fun r => (collectWalk_keeps _ _ _ _ _ _ _ _ _).bind fun edges =>
    Prog.Keeps.bind ?_ fun _ => h.onVertexLabel _ _ _
  exact deleteCollected_keeps s (fun st _ _ _ hI => h.same st _ rfl hI) h.stamp fuel edges

theorem edgesKept (h : AdjKept s I) (x : Unspecified) : EdgesKept x s fun db => I db.store :=
  ⟨h.insertEdge x, h.deleteEdge⟩

theorem relabelVertex (h : AdjKept s I) (x : Unspecified) (fuel oldVid currentLabelId
    targetLabelId : Nat) (pmapRec : NeoPhysMapRecord) :
    (relabelVertex x fuel s oldVid currentLabelId targetLabelId pmapRec).Keeps
      fun db => I db.store :=
  (Prog.keeps_read _ _).bind fun _ => (h.onVertexLabel _ _ _).bind fun _ =>
    (h.insertVertex _ _).bind fun _ => ((h.edgesKept x).migrateWalk fuel _ _ _ _ _).bind fun _ =>
      (h.onVertexLabel _ _ _).bind fun _ => (h.onVertexLabel _ _ _).bind fun _ =>
        Prog.keeps_ret _ _

theorem setVertexLabel (h : AdjKept s I) (x : Unspecified) (fuel oldVid currentLabelId
    targetLabelId : Nat) :
    (setVertexLabel x fuel s oldVid currentLabelId targetLabelId).Keeps fun db => I db.store := by
  refine (Prog.keeps_read _ _).bind fun _ => ?_
  split
  · exact Prog.keeps_ret _ _
  · exact (Prog.keeps_read _ _).bind fun pmapRec =>
      (h.relabelVertex x fuel oldVid currentLabelId targetLabelId pmapRec).bind fun _ =>
        Prog.keeps_ret _ _

theorem removeVertexLabel (h : AdjKept s I) (x : Unspecified) (fuel oldVid currentLabelId
    targetLabelId : Nat) :
    (removeVertexLabel x fuel s oldVid currentLabelId targetLabelId).Keeps fun db => I db.store := by
  refine (Prog.keeps_read _ _).bind fun pmapRec => ?_
  split
  · exact Prog.keeps_fail _ _
  · exact h.relabelVertex x fuel oldVid currentLabelId targetLabelId pmapRec

end AdjKept

end NeoPostGraph
