import NeoPostGraph.Graph.EntityInv
import NeoPostGraph.Graph.Label

/-!
# Histories of transactions

Any number of transactions begin, run entity operations in any order between each other's, and commit
or abort. An operation that fails aborts its transaction; what it wrote before stays written.

* `History x base db`: such a history leads from an empty graph to `db`, its transaction ids assigned
  from `base` on.

Result: `History.inv`, every state of a history satisfies `EntityInv`.
-/

namespace NeoPostGraph

/-- The operations on entities. -/
inductive EntityOp where
  | insertVertex (v : Vertex) (props : Gtype)
  | insertEdge (startV endV : Vertex) (e : Edge) (props : Gtype)
  | updateVertex (l id : Nat) (props : Gtype)
  | updateEdge (l id : Nat) (props : Gtype)
  | deleteEdge (fuel l id : Nat)
  | deleteVertex (fuel l id : Nat) (detach : Bool)

/-- The function behind an operation. -/
def EntityOp.run (x : Unspecified) (s : Session) : EntityOp → Op Unit
  | insertVertex v props => NeoPostGraph.insertVertex s v props
  | insertEdge startV endV e props => NeoPostGraph.insertEdge x s startV endV e props
  | updateVertex l id props => NeoPostGraph.updateVertex s l id props
  | updateEdge l id props => NeoPostGraph.updateEdge x s l id props
  | deleteEdge fuel l id => NeoPostGraph.deleteEdge fuel s id l
  | deleteVertex fuel l id detach => NeoPostGraph.deleteVertex x fuel s id l detach

/-- The ids an operation writes under have slots of their own; an id is inserted once. -/
def EntityOp.Allowed (st : Store) : EntityOp → Prop
  | insertVertex v _ => FreshVertexId st v.labelId v.id
  | insertEdge _ _ e _ => FreshEdgeId st e.labelId e.id
  | updateVertex l id _ => OwnVertexSlot st l id
  | updateEdge l id _ => OwnEdgeSlot st l id
  | deleteEdge .. => True
  | deleteVertex .. => True

/-- A transaction begins. -/
def Db.begin (db : Db) : Db := { db with xacts := db.xacts.begin }

/-- A transaction commits. -/
def Db.commit (db : Db) (fxid : Nat) : Db := { db with xacts := db.xacts.commit fxid }

/-- A transaction aborts. -/
def Db.abort (db : Db) (fxid : Nat) : Db := { db with xacts := db.xacts.abort fxid }

/-- Run an operation to its end; an error aborts the transaction. -/
def EntityOp.perform (x : Unspecified) (s : Session) (o : EntityOp) (db : Db) : Db :=
  match (o.run x s).exec db with
  | (.ok _, db') => db'
  | (.error _, db') => db'.abort s.fxid

/-- The states histories lead to. A history uses fewer than 2^31 transaction ids. -/
inductive History (x : Unspecified) (base : Nat) : Db → Prop
  | empty (status : Nat → XidStatus) (hbase : firstNormalTransactionId ≤ xidFromFull base) :
      History x base (Db.empty ⟨base, status⟩)
  | vertexLabel {db : Db} {l : Nat} (h : History x base db) (hl : l ≠ 0)
      (hnew : db.vlabels l = none) :
      History x base ((buildVertexLabelInfrastructure l).exec db).2
  | edgeLabel {db : Db} {l : Nat} (h : History x base db) (hl : l ≠ 0)
      (hnew : db.elabels l = none) : History x base ((createElabelInternal l).exec db).2
  | begin {db : Db} (h : History x base db) (hroom : db.xacts.begin.nextFxid ≤ base + 2 ^ 31) :
      History x base db.begin
  | commit {db : Db} {t : Nat} (h : History x base db) (ht : db.xacts.Open base t) :
      History x base (db.commit t)
  | abort {db : Db} {t : Nat} (h : History x base db) (ht : db.xacts.Open base t) :
      History x base (db.abort t)
  | op {db : Db} {s : Session} {o : EntityOp} (h : History x base db)
      (hs : db.xacts.Open base s.fxid) (ho : o.Allowed db.store) :
      History x base (o.perform x s db)

section

variable {x : Unspecified} {base l : Nat} {db : Db} {s : Session} {o : EntityOp}

/-- **An operation keeps the invariant**, however it ends. -/
theorem EntityInv.run_exec (h : EntityInv base db.store) (hs : db.store.xacts.Open base s.fxid)
    (ho : o.Allowed db.store) : EntityInvAt base db.store.xacts ((o.run x s).exec db).2 := by
  cases o with
  | insertVertex v props => exact h.insertVertex_exec hs.1 ho
  | insertEdge startV endV e props => exact h.insertEdge_exec hs.1 ho x
  | updateVertex l id props => exact h.updateVertex_exec hs ho
  | updateEdge l id props => exact h.updateEdge_exec hs ho x
  | deleteEdge fuel l id => exact h.deleteEdge_exec hs fuel l id
  | deleteVertex fuel l id detach => exact h.deleteVertex_exec hs x fuel l id detach

theorem EntityInv.perform (h : EntityInv base db.store) (hs : db.store.xacts.Open base s.fxid)
    (ho : o.Allowed db.store) : EntityInv base (o.perform x s db).store := by
  have hrun := h.run_exec (x := x) hs ho
  unfold EntityOp.perform
  rcases hr : (o.run x s).exec db with ⟨e | u, db'⟩ <;> rw [hr] at hrun
  · obtain ⟨h', hx⟩ := hrun
    have hs' : db'.store.xacts.Open base s.fxid := by
      rw [show db'.store.xacts = db.store.xacts from hx]
      exact hs
    exact h'.later (XactState.later_abort hs') h'.room h'.normal
  · exact hrun.1

theorem entityInv_empty (status : Nat → XidStatus)
    (hbase : firstNormalTransactionId ≤ xidFromFull base) :
    EntityInv base (Db.empty ⟨base, status⟩).store :=
  ⟨Nat.le_refl _, Nat.le_add_right _ _, hbase, rfl, rfl, fun _ => entityTableInv_empty _ _ _ _,
    fun _ => entityTableInv_empty _ _ _ _⟩

/-- A new vertex label has no tuples and no slots. -/
theorem EntityInv.vertexLabel (h : EntityInv base db.store) (hl : l ≠ 0) :
    EntityInv base ((buildVertexLabelInfrastructure l).exec db).2.store := by
  have hlab : ∀ l', l' ≠ l → ((buildVertexLabelInfrastructure l).exec db).2.vlabels l' =
      db.vlabels l' := fun l' hne => Function.update_of_ne hne ..
  have hself : ((buildVertexLabelInfrastructure l).exec db).2.vlabels l =
      some (newVertexLabel db.nextOid (db.nextOid + 1)) := Function.update_self ..
  refine ⟨h.base_le, h.room, h.normal, ?_, h.elabel_zero, fun l' => ?_, h.edge⟩
  · have hz := h.vlabel_zero
    unfold Db.store at hz ⊢
    simp only [hlab 0 (Ne.symm hl)]
    exact hz
  · by_cases hne : l' = l
    · subst hne
      have ht : (fun tid => ((buildVertexLabelInfrastructure l').exec db).2.store.vtuple (l', tid)) =
          fun _ => none := funext fun tid => by
        rw [store_vtuple hself]
        exact SlottedPage.Table.get_empty tid
      have hp : ((buildVertexLabelInfrastructure l').exec db).2.store.vertexPtr l' =
          fun _ => none := funext fun tid => by
        unfold Store.vertexPtr
        rw [store_vslot hself]
        exact congrArg _ (SlottedPage.Table.get_empty tid)
      unfold VertexTableInv
      rw [ht, hp]
      exact entityTableInv_empty _ _ _ _
    · have hv := h.vertex l'
      unfold VertexTableInv Store.vertexPtr Db.store at hv ⊢
      simp only [hlab l' hne]
      exact hv

theorem EntityInv.edgeLabel (h : EntityInv base db.store) (hl : l ≠ 0) :
    EntityInv base ((createElabelInternal l).exec db).2.store := by
  have hlab : ∀ l', l' ≠ l → ((createElabelInternal l).exec db).2.elabels l' =
      db.elabels l' := fun l' hne => Function.update_of_ne hne ..
  have hself : ((createElabelInternal l).exec db).2.elabels l = some newEdgeLabel :=
    Function.update_self ..
  refine ⟨h.base_le, h.room, h.normal, h.vlabel_zero, ?_, h.vertex, fun l' => ?_⟩
  · have hz := h.elabel_zero
    unfold Db.store at hz ⊢
    simp only [hlab 0 (Ne.symm hl)]
    exact hz
  · by_cases hne : l' = l
    · subst hne
      have ht : (fun tid => ((createElabelInternal l').exec db).2.store.etuple (l', tid)) =
          fun _ => none := funext fun tid => by
        rw [store_etuple hself]
        exact SlottedPage.Table.get_empty tid
      have hp : ((createElabelInternal l').exec db).2.store.edgePtr l' =
          fun _ => none := funext fun tid => by
        unfold Store.edgePtr
        rw [store_eslot hself]
        exact congrArg _ (SlottedPage.Table.get_empty tid)
      unfold EdgeTableInv
      rw [ht, hp]
      exact entityTableInv_empty _ _ _ _
    · have he := h.edge l'
      unfold EdgeTableInv Store.edgePtr Db.store at he ⊢
      simp only [hlab l' hne]
      exact he

/-- **Every state of a history satisfies the invariant.** -/
theorem History.inv (h : History x base db) : EntityInv base db.store := by
  induction h with
  | empty status hbase => exact entityInv_empty status hbase
  | vertexLabel _ hl _ ih => exact ih.vertexLabel hl
  | edgeLabel _ hl _ ih => exact ih.edgeLabel hl
  | begin _ hroom ih =>
    exact ih.later (XactState.later_begin base _) hroom
      (fullTransactionIdAdvance_normal _)
  | commit _ ht ih => exact ih.later (XactState.later_commit base _ _) ih.room ih.normal
  | abort _ ht ih => exact ih.later (XactState.later_abort ht) ih.room ih.normal
  | op _ hs ho ih => exact ih.perform hs ho

end

end NeoPostGraph
