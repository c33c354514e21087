import NeoPostGraph.Graph.VertexOps

/-!
# Runs of a graph

Any number of transactions begin, run operations of the graph one after the other in any order
between each other's, and commit or abort. An operation that fails aborts its transaction; what it
wrote before stays written.

* `GraphOp`: the operations, of `dml_insert.c`, `dml_update.c`, `dml_delete.c` and `dml_labels.c`, and
  the rotation and the compaction of a label's partitions.
* `GraphRun x base db`: such a run leads from an empty graph to `db`.

Result: `GraphRun.inv`, every state of a run satisfies `GraphInv`.
-/

namespace NeoPostGraph

open SlottedPage LinkedChain

/-- No tuple of a label uses the slot of the id, but tuples of the id that nobody sees. -/
def EdgeIdUnused (st : Store) (l id : Nat) : Prop :=
  ∀ tid t, st.etuple (l, tid) = some t → edgeSlot t.hdr.id = edgeSlot id →
    t.hdr.id = id ∧ st.xacts.Gone t.hdr.toRecordHeader

section

variable {base l id fuel cur target : Nat} {x : XactState} {V : List VertexKey} {s : Session}
  {vt : Nat × ItemPointer → Option (EntityTuple Vertex)} {db db' : Db} {u : Unspecified}
  {st st' : Store}

/-! ## An edge that changes its label -/

theorem EdgeIdUnused.free (h : EdgeIdUnused st l id) (t : Nat) : FreeEdge st t l id :=
  fun tid t' ht' hslot => ⟨(h tid t' ht' hslot).1, Or.inl (h tid t' ht' hslot).2⟩

/-- A stamp under one label leaves what is unused under another. -/
theorem EdgeIdUnused.stampEdge (h : EdgeIdUnused st target id) (hne : target ≠ cur)
    (tid : ItemPointer) (t : EntityTuple Edge) :
    EdgeIdUnused (st.stampEdge s cur tid t) target id := by
  intro tid' t' ht' hslot
  refine h tid' t' ?_ hslot
  exact (Function.update_of_ne (fun he => hne (Prod.mk.inj he).1) ..).symm.trans ht'

theorem readOldEdgeSlot_iff {rec : NeoEdgePhysMapRecord} :
    (readOldEdgeSlot l id).Runs db rec db' ↔ db' = db ∧ db.store.eslot (l, edgeSlot id) = some rec := by
  unfold readOldEdgeSlot
  rw [runs_readEdgeLabel]
  constructor
  · rintro ⟨lab, hlab, hf, rfl⟩
    exact ⟨rfl, by rw [store_eslot hlab]; exact readItem_ok hf⟩
  · rintro ⟨rfl, hs⟩
    obtain ⟨lab, hlab⟩ := exists_elabel_of_eslot hs
    exact ⟨lab, hlab, readItem_of_get (by rw [← store_eslot hlab]; exact hs) _, rfl⟩

/-- **Moving an edge to another label keeps what holds**, however far it comes. -/
theorem relabelEdge_opState (hs : x.Open base s.fxid) (hne : target ≠ cur) :
    Prog.Triple (fun db => OpState base x V vt s [] db.store ∧ OwnEdgeSlot db.store cur id ∧
        EdgeIdUnused db.store target id)
      (relabelEdge u fuel s id cur target) (fun _ db => OpState base x V vt s [] db.store)
      fun db => OpState base x V vt s [] db.store := by
  refine Prog.Triple.bind (Q := fun rec db => (OpState base x V vt s [] db.store ∧
      OwnEdgeSlot db.store cur id ∧ EdgeIdUnused db.store target id) ∧
      db.store.eslot (cur, edgeSlot id) = some rec)
    (Prog.triple_step (fun db rec db' h hr => ?_) fun db h => h.1) fun rec => ?_
  · change (readOldEdgeSlot cur id).Runs db rec db' at hr
    obtain ⟨rfl, hrec⟩ := readOldEdgeSlot_iff.mp hr
    exact ⟨h, hrec⟩
  refine Prog.Triple.bind (Q := fun t db => (OpState base x V vt s [] db.store ∧
      EdgeIdUnused db.store target id) ∧ t.hdr.id = id ∧ EdgeOk V cur t.hdr.id t.entity t.props)
    (Prog.triple_step (fun db t db' h hr => ?_) fun db h => h.1.1) fun t => ?_
  · obtain ⟨rfl, ht, -⟩ := readEdgeTuple_iff.mp hr
    obtain ⟨⟨hop, hown, hunused⟩, hrec⟩ := h
    have hid := (hop.inv.edge cur).id_of_slot
      (congrArg (Option.map NeoEdgePhysMapRecord.eItemptr) hrec) ht hown
    exact ⟨⟨hop, hunused⟩, hid, (hop.inv.edge cur).entity _ t ht⟩
  refine Prog.triple_assume (fun _ h => h.2) fun ⟨hid, hok⟩ => Prog.Triple.bind
    (Q := fun _ db => OpState base x V vt s [] db.store ∧ EdgeIdUnused db.store target id) ?_
    fun _ => ?_
  · have hk : (npInternalDeleteEdge fuel s cur id).Keeps fun db =>
        OpState base x V vt s [] db.store ∧ EdgeIdUnused db.store target id := by
      refine deleteEdge_keeps_of_label
        (I := fun st => OpState base x V vt s [] st ∧ EdgeIdUnused st target id) s
        (fun st tid t ht hup hI => ⟨hI.1.stampEdge hs ht hup, hI.2.stampEdge hne tid t⟩)
        (fun st p _ hI => ⟨hI.1.stamp p, hI.2⟩) fuel
    exact hk.triple.weaken (fun _ h => h.1) (fun _ _ h => h) fun _ h => h.1
  -- the vertices are fetched, and the edge is written under the target label
  have hfetch : ∀ l id, Prog.Triple
      (fun db => OpState base x V vt s [] db.store ∧ EdgeIdUnused db.store target t.hdr.id)
      (npInternalFetchVertex s.nextCommand l id)
      (fun v db => (OpState base x V vt s [] db.store ∧ EdgeIdUnused db.store target t.hdr.id) ∧
        v.key ∈ V) fun db => OpState base x V vt s [] db.store := fun l id =>
    Prog.triple_of_reads (fun _ => EdgesKept.npInternalFetchVertex _ _ _ _)
      (fun db v h hr => by
        obtain ⟨-, rec, t, -, ht, -, rfl⟩ := npInternalFetchVertex_inv hr
        exact ⟨h, h.1.inv.key_mem ht⟩) fun _ h => h.1
  subst hid
  refine (hfetch _ _).bind fun startV => Prog.triple_assume (fun _ h => h.2) fun hstart =>
    (((hfetch _ _).pre fun _ h => h.1).bind fun endV =>
      Prog.triple_assume (fun _ h => h.2) fun hend => ?_)
  have hins : Prog.Triple
      (fun db => OpState base x V vt s.nextCommand [] db.store ∧
        FreeEdge db.store s.nextCommand.fxid target t.entity.id)
      (npInternalInsertEdge u s.nextCommand startV endV { t.entity with labelId := target } t.props)
      (fun _ db => OpState base x V vt s.nextCommand [] db.store)
      fun db => OpState base x V vt s.nextCommand [] db.store :=
    insertEdge_opState (s := s.nextCommand) (e := { t.entity with labelId := target }) hs hstart hend
      hok.startMem hok.endMem List.not_mem_nil
  refine Prog.Triple.bind (hins.weaken (fun db h => ⟨h.1.1.session s.nextCommand, ?_⟩)
    (fun _ _ h => h.session s) fun _ h => h.session s) fun _ => Prog.triple_ret fun _ h => h
  have hfree := h.1.2.free s.fxid
  rw [← hok.id_eq] at hfree
  exact hfree

theorem GraphInv.relabelEdge_exec (h : GraphInv base V db.store)
    (hs : db.store.xacts.Open base s.fxid) (hown : OwnEdgeSlot db.store cur id)
    (hunused : target ≠ cur → EdgeIdUnused db.store target id) (u : Unspecified) (fuel : Nat) :
    Grown base db.store.xacts V ((setEdgeLabel u fuel s id cur target).exec db).2 := by
  have ht : Prog.Triple (fun db' => OpState base db.store.xacts V db.store.vtuple s [] db'.store ∧
        OwnEdgeSlot db'.store cur id ∧ (target ≠ cur → EdgeIdUnused db'.store target id))
      (setEdgeLabel u fuel s id cur target) (fun _ => Grown base db.store.xacts V)
      (Grown base db.store.xacts V) := by
    refine read_grown (fun _ h => h.1.grown) fun _ => ?_
    split
    · exact Prog.triple_ret fun _ h => h.1.grown
    · next hne =>
      exact ((relabelEdge_opState hs hne).weaken (fun _ h => ⟨h.1, h.2.1, h.2.2 hne⟩)
        (fun _ _ h => h.grown) fun _ h => h.grown).bind fun _ => Prog.triple_ret fun _ h => h
  exact ht.exec ⟨h.opState s, hown, hunused⟩

theorem removeEdgeLabel_eq (u : Unspecified) (fuel : Nat) (s : Session) (id cur target : Nat) :
    removeEdgeLabel u fuel s id cur target = setEdgeLabel u fuel s id cur target := rfl

/-! ## Partitions -/

theorem onRel_sameTuples {α : Type} (st₀ : Store) (o : Oid)
    (f : AdjRelation → Except Err (α × AdjRelation)) :
    (onRel o f).Keeps fun db => SameTuples st₀ db.store :=
  Prog.keeps_of_runs fun db a db' h hr => by
    obtain ⟨r, r', -, -, rfl⟩ := runs_onRel.mp hr
    exact h.trans ⟨rfl, rfl, fun _ _ => rfl, rfl, rfl⟩

/-- A step that touches neither the tuples nor the slots of a label. -/
theorem onVertexLabel_sameTuples {α : Type} (st₀ : Store) (l : Nat) (e : Err)
    {f : XactState → VertexLabel → Except Err (α × VertexLabel)}
    (hf : ∀ x lab a lab', f x lab = .ok (a, lab') → lab'.vertexTbl = lab.vertexTbl ∧
      lab'.physMap = lab.physMap) : (onVertexLabel l e f).Keeps fun db => SameTuples st₀ db.store :=
  Prog.keeps_of_runs fun db a db' h hr => by
    obtain ⟨lab, lab', hlab, hok, rfl⟩ := runs_onVertexLabel.mp hr
    obtain ⟨h₁, h₂⟩ := hf _ _ _ _ hok
    rw [store_setInfo hlab h₁ h₂]
    exact h.trans ⟨rfl, rfl, fun _ _ => rfl, rfl, rfl⟩

theorem createNewActiveLinkedList_sameTuples (st₀ : Store) (l : Nat) :
    (createNewActiveLinkedList l).Keeps fun db => SameTuples st₀ db.store := by
  refine (onVertexLabel_sameTuples _ _ _ fun x lab a lab' h => ?_).bind fun id =>
    Prog.Keeps.bind (Prog.keeps_of_runs fun db a db' h hr => ?_) fun o =>
      (onVertexLabel_sameTuples _ _ _ fun x lab a lab' h => ?_).bind fun _ => Prog.keeps_ret _ _
  · obtain ⟨-, rfl⟩ := Prod.mk.inj (Except.ok.inj h)
    exact ⟨rfl, rfl⟩
  · obtain ⟨-, rfl⟩ := Prod.mk.inj (Except.ok.inj (Prog.runs_step_iff.mp hr))
    exact h.trans ⟨rfl, rfl, fun _ _ => rfl, rfl, rfl⟩
  · obtain ⟨-, rfl⟩ := Prod.mk.inj (Except.ok.inj h)
    exact ⟨rfl, rfl⟩

theorem rotate_sameTuples (st₀ : Store) (l : Nat) :
    (rotateActiveLinkedListTable l).Keeps fun db => SameTuples st₀ db.store :=
  (createNewActiveLinkedList_sameTuples st₀ l).bind fun _ => Prog.keeps_ret _ _

theorem chooseOldest_sameTuples (st₀ : Store) (l : Nat) :
    (chooseOldest l).Keeps fun db => SameTuples st₀ db.store := by
  refine (Prog.keeps_read _ _).bind fun o => ?_
  cases o with
  | some o => exact Prog.keeps_ret _ _
  | none =>
    refine (createNewActiveLinkedList_sameTuples st₀ l).bind fun _ =>
      (Prog.keeps_read _ _).bind fun o => ?_
    cases o with
    | some o => exact Prog.keeps_ret _ _
    | none => exact Prog.keeps_fail _ _

theorem compactOwners_sameTuples (st₀ : Store) (s : Session) (l : Nat) (arraylist o : Oid)
    (recs : List NeoLinkedListRecord) (owners : List Nat) :
    (compactOwners s l arraylist o recs owners).Keeps fun db => SameTuples st₀ db.store :=
  compactOwners_keeps (fun _ _ _ _ => onRel_sameTuples _ _ _)
    (fun l id tbl tid => Prog.keeps_of_runs fun db u db' h hr => by
      obtain ⟨rec, -, hst⟩ := writeHead_inv hr
      rw [hst]
      exact h.trans (sameEntities_setHead _ _ _).tuples) s l arraylist o recs owners

theorem scanBlocks_keeps (I : Db → Prop) (o : Oid) : ∀ blks : List Nat, (scanBlocks o blks).Keeps I
  | [] => Prog.keeps_ret _ _
  | _ :: blks => (Prog.keeps_read _ _).bind fun _ => (scanBlocks_keeps I o blks).bind fun _ =>
      Prog.keeps_ret _ _

/-- **A compaction leaves every tuple and every slot's tuple pointer.** -/
theorem compact_sameTuples (st₀ : Store) (u : Unspecified) (s : Session) (l : Nat) :
    (compactOldestLinkedListTable u s l).Keeps fun db => SameTuples st₀ db.store := by
  refine (Prog.keeps_read _ _).bind fun _ => (chooseOldest_sameTuples st₀ l).bind fun o =>
    (Prog.keeps_read _ _).bind fun n => (scanBlocks_keeps _ _ _).bind fun recs =>
      (compactOwners_sameTuples st₀ s l _ _ _ _).bind fun _ =>
        onVertexLabel_sameTuples _ _ _ fun x lab a lab' h => ?_
  obtain ⟨-, rfl⟩ := Prod.mk.inj (Except.ok.inj h)
  exact ⟨rfl, rfl⟩

theorem GraphInv.rotate_exec (h : GraphInv base V db.store) (l : Nat) :
    GraphInv base V ((rotateActiveLinkedListTable l).exec db).2.store :=
  h.same ((rotate_sameTuples db.store l).exec (SameTuples.refl _)) (h.layout.rotate_exec l)

theorem GraphLayout.compact_exec (h : GraphLayout db.store V) (u : Unspecified) (s : Session)
    (l : Nat) : GraphLayout ((compactOldestLinkedListTable u s l).exec db).2.store V := by
  cases hl : db.vlabels l with
  | none =>
    rw [exec_compact_none hl]
    exact h
  | some lab =>
    obtain ⟨db', hr, h', -⟩ := compactOldestLinkedListTable_runs h
      (by rw [store_vlabel hl]; rfl) u s
    rw [hr]
    exact h'

theorem GraphInv.compact_exec (h : GraphInv base V db.store) (u : Unspecified) (s : Session)
    (l : Nat) : GraphInv base V ((compactOldestLinkedListTable u s l).exec db).2.store :=
  h.same ((compact_sameTuples db.store u s l).exec (SameTuples.refl _)) (h.layout.compact_exec u s l)

/-! ## New labels -/

theorem GraphInv.vertexLabel (h : GraphInv base V db.store) (hnew : db.store.vlabel l = none)
    (hr : (buildVertexLabelInfrastructure l).Runs db () db') : GraphInv base V db'.store := by
  have hst := buildVertexLabelInfrastructure_inv h.layout.catalog hnew hr
  refine h.same ?_ ?_
  · rw [hst]
    exact ⟨rfl, rfl, fun _ _ => rfl, rfl, rfl⟩
  · rw [hst]
    exact h.layout.addLabel hnew

theorem createElabelInternal_inv (hnew : db.store.elabel l = false) :
    ((createElabelInternal l).exec db).2.store =
      { db.store with elabel := Function.update db.store.elabel l true } := by
  have hnone : db.elabels l = none := by
    simpa [Db.store] using hnew
  show (db.setEdgeLabel l newEdgeLabel).store = _
  unfold Db.store Db.setEdgeLabel
  simp only [Store.mk.injEq, true_and, and_true]
  refine ⟨?_, ?_, ?_⟩
  · funext l'
    by_cases hl : l' = l <;> simp [hl]
  · funext k
    obtain ⟨l', tid⟩ := k
    by_cases hl : l' = l
    · simp [hl, hnone, newEdgeLabel, SlottedPage.Table.get_empty]
    · simp [hl]
  · funext k
    obtain ⟨l', tid⟩ := k
    by_cases hl : l' = l
    · simp [hl, hnone, newEdgeLabel, PhysMap.empty, SlottedPage.Table.get_empty]
    · simp [hl]

theorem GraphInv.edgeLabel (h : GraphInv base V db.store) (hnew : db.store.elabel l = false) :
    GraphInv base V ((createElabelInternal l).exec db).2.store := by
  have hst := createElabelInternal_inv hnew
  refine h.same ?_ ?_
  · rw [hst]
    exact ⟨rfl, rfl, fun _ _ => rfl, rfl, rfl⟩
  · rw [hst]
    exact h.layout.same rfl rfl rfl rfl rfl

end

/-! ## Operations -/

/-- The operations of a session on a graph. The target of a label change is found before. -/
inductive GraphOp where
  | insertVertex (v : Vertex) (props : Gtype)
  | insertEdge (startV endV : Vertex) (e : Edge) (props : Gtype)
  | updateVertex (l id : Nat) (props : Gtype)
  | updateEdge (l id : Nat) (props : Gtype)
  | deleteEdge (fuel l id : Nat)
  | deleteVertex (fuel l id : Nat) (detach : Bool)
  | setVertexLabel (fuel id cur target : Nat)
  | removeVertexLabel (fuel id cur target : Nat)
  | setEdgeLabel (fuel id cur target : Nat)
  | removeEdgeLabel (fuel id cur target : Nat)
  | rotateActiveLinkedListTable (l : Nat)
  | compactOldestLinkedListTable (l : Nat)

/-- Run a program for what it does. -/
def discard {α : Type} (p : Op α) : Op Unit := do
  let _ ← p

/-- The function behind an operation. -/
def GraphOp.run (u : Unspecified) (s : Session) : GraphOp → Op Unit
  | insertVertex v props => NeoPostGraph.insertVertex s v props
  | insertEdge startV endV e props => NeoPostGraph.insertEdge u s startV endV e props
  | updateVertex l id props => NeoPostGraph.updateVertex s l id props
  | updateEdge l id props => NeoPostGraph.updateEdge u s l id props
  | deleteEdge fuel l id => NeoPostGraph.deleteEdge fuel s id l
  | deleteVertex fuel l id detach => NeoPostGraph.deleteVertex u fuel s id l detach
  | setVertexLabel fuel id cur target =>
    discard (NeoPostGraph.setVertexLabel u fuel s id cur target)
  | removeVertexLabel fuel id cur target =>
    discard (NeoPostGraph.removeVertexLabel u fuel s id cur target)
  | setEdgeLabel fuel id cur target => discard (NeoPostGraph.setEdgeLabel u fuel s id cur target)
  | removeEdgeLabel fuel id cur target =>
    discard (NeoPostGraph.removeEdgeLabel u fuel s id cur target)
  | rotateActiveLinkedListTable l => NeoPostGraph.rotateActiveLinkedListTable l
  | compactOldestLinkedListTable l => NeoPostGraph.compactOldestLinkedListTable u s l

/-- What the ids of an operation have to meet. A vertex is inserted under a fresh id; edges are
inserted between vertices that were, and written under an id that is free. -/
def GraphOp.Allowed (st : Store) (s : Session) : GraphOp → Prop
  | insertVertex v _ => FreshVertex st v.labelId v.id
  | insertEdge startV endV e _ => st.HasVertex startV.key ∧ st.HasVertex endV.key ∧
      st.HasVertex e.startKey ∧ st.HasVertex e.endKey ∧ FreeEdge st s.fxid e.labelId e.id
  | updateVertex l id _ => OwnVertexSlot st l id
  | updateEdge l id _ => OwnEdgeSlot st l id
  | deleteEdge .. => True
  | deleteVertex .. => True
  | setVertexLabel _ _ _ target => FreshNextId st target
  | removeVertexLabel _ _ _ target => FreshNextId st target
  | setEdgeLabel _ id cur target =>
    OwnEdgeSlot st cur id ∧ (target ≠ cur → EdgeIdUnused st target id)
  | removeEdgeLabel _ id cur target =>
    OwnEdgeSlot st cur id ∧ (target ≠ cur → EdgeIdUnused st target id)
  | rotateActiveLinkedListTable _ => True
  | compactOldestLinkedListTable _ => True

/-- Run an operation to its end; an error aborts the transaction. -/
def GraphOp.perform (u : Unspecified) (s : Session) (o : GraphOp) (db : Db) : Db :=
  match (o.run u s).exec db with
  | (.ok _, db') => db'
  | (.error _, db') => db'.abort s.fxid

/-- The states that runs lead to. A run uses fewer than 2^31 transaction ids. -/
inductive GraphRun (u : Unspecified) (base : Nat) : Db → Prop
  | empty (status : Nat → XidStatus) (hbase : firstNormalTransactionId ≤ xidFromFull base) :
      GraphRun u base (Db.empty ⟨base, status⟩)
  | vertexLabel {db db' : Db} {l : Nat} (h : GraphRun u base db) (hnew : db.store.vlabel l = none)
      (hr : (buildVertexLabelInfrastructure l).Runs db () db') : GraphRun u base db'
  | edgeLabel {db : Db} {l : Nat} (h : GraphRun u base db) (hnew : db.store.elabel l = false) :
      GraphRun u base ((createElabelInternal l).exec db).2
  | begin {db : Db} (h : GraphRun u base db) (hroom : db.xacts.begin.nextFxid ≤ base + 2 ^ 31) :
      GraphRun u base db.begin
  | commit {db : Db} {t : Nat} (h : GraphRun u base db) (ht : db.xacts.Open base t) :
      GraphRun u base (db.commit t)
  | abort {db : Db} {t : Nat} (h : GraphRun u base db) (ht : db.xacts.Open base t) :
      GraphRun u base (db.abort t)
  | op {db : Db} {s : Session} {o : GraphOp} (h : GraphRun u base db)
      (hs : db.xacts.Open base s.fxid) (ho : o.Allowed db.store s) :
      GraphRun u base (o.perform u s db)

section

variable {base : Nat} {V : List VertexKey} {db : Db} {s : Session} {o : GraphOp} {u : Unspecified}

theorem exec_discard {α : Type} (p : Op α) (db : Db) :
    ((discard p).exec db).2 = (p.exec db).2 := by
  unfold discard
  rw [Prog.exec_bind]
  rcases p.exec db with ⟨e | a, db'⟩ <;> rfl

/-- **Every operation keeps the invariant**, however it ends. -/
theorem GraphInv.run_exec (h : GraphInv base V db.store) (hs : db.store.xacts.Open base s.fxid)
    (ho : o.Allowed db.store s) : Grown base db.store.xacts V ((o.run u s).exec db).2 := by
  cases o with
  | insertVertex v props =>
    rcases insertVertex_cases s v props db with ⟨er, he⟩ | ⟨db', hr⟩
    · show Grown _ _ _ ((NeoPostGraph.insertVertex s v props).exec db).2
      rw [he]
      exact h.grown rfl
    · show Grown _ _ _ ((NeoPostGraph.insertVertex s v props).exec db).2
      rw [hr]
      exact ⟨_, fun k hk => List.mem_cons_of_mem _ hk, h.insertVertex hs.1 ho hr,
        xacts_insertVertex hr⟩
  | insertEdge startV endV e props =>
    obtain ⟨h₁, h₂, h₃, h₄, hfree⟩ := ho
    have ht : Prog.Triple
        (fun db' => OpState base db.store.xacts V db.store.vtuple s [] db'.store ∧
          FreeEdge db'.store s.fxid e.labelId e.id)
        (npInternalInsertEdge u s startV endV e props)
        (fun _ db' => OpState base db.store.xacts V db.store.vtuple s [] db'.store)
        fun db' => OpState base db.store.xacts V db.store.vtuple s [] db'.store :=
      insertEdge_opState hs ((h.mem _).mpr h₁) ((h.mem _).mpr h₂) ((h.mem _).mpr h₃)
        ((h.mem _).mpr h₄) List.not_mem_nil
    exact (ht.weaken (fun _ h => h) (fun _ _ h => h.grown) fun _ h => h.grown).exec
      ⟨h.opState s, hfree⟩
  | updateVertex l id props => exact h.updateVertex_exec hs ho props
  | updateEdge l id props => exact h.updateEdge_exec hs ho u props
  | deleteEdge fuel l id => exact h.deleteEdge_exec hs fuel id l
  | deleteVertex fuel l id detach => exact h.deleteVertex_exec hs u fuel id l detach
  | setVertexLabel fuel id cur target =>
    show Grown _ _ _ ((discard _).exec db).2
    rw [exec_discard]
    exact (setVertexLabel_grown hs id cur target).exec ⟨h, rfl, ho⟩
  | removeVertexLabel fuel id cur target =>
    show Grown _ _ _ ((discard _).exec db).2
    rw [exec_discard]
    exact (removeVertexLabel_grown hs id cur target).exec ⟨h, rfl, ho⟩
  | setEdgeLabel fuel id cur target =>
    show Grown _ _ _ ((discard _).exec db).2
    rw [exec_discard]
    exact h.relabelEdge_exec hs ho.1 ho.2 u fuel
  | removeEdgeLabel fuel id cur target =>
    show Grown _ _ _ ((discard _).exec db).2
    rw [exec_discard, removeEdgeLabel_eq]
    exact h.relabelEdge_exec hs ho.1 ho.2 u fuel
  | rotateActiveLinkedListTable l =>
    exact (h.rotate_exec l).grown ((rotate_sameTuples db.store l).exec (SameTuples.refl _)).xacts
  | compactOldestLinkedListTable l =>
    exact (h.compact_exec u s l).grown
      ((compact_sameTuples db.store u s l).exec (SameTuples.refl _)).xacts

theorem GraphInv.abort (h : GraphInv base V db.store) {t : Nat} (ht : db.xacts.Open base t) :
    GraphInv base V (db.abort t).store :=
  GraphInv.later h (XactState.later_abort ht) (XactState.settles_abort ht) h.room h.normal

theorem GraphInv.perform (h : GraphInv base V db.store) (hs : db.store.xacts.Open base s.fxid)
    (ho : o.Allowed db.store s) : ∃ V', GraphInv base V' (o.perform u s db).store := by
  have hrun := h.run_exec (u := u) hs ho
  unfold GraphOp.perform
  rcases hr : (o.run u s).exec db with ⟨e | w, db'⟩ <;> rw [hr] at hrun
  · obtain ⟨V', -, h', hx⟩ := hrun
    refine ⟨V', h'.abort ?_⟩
    rw [show db'.xacts = db.store.xacts from hx]
    exact hs
  · obtain ⟨V', -, h', -⟩ := hrun
    exact ⟨V', h'⟩

/-- **Every state of a run satisfies the invariant.** -/
theorem GraphRun.inv (h : GraphRun u base db) : ∃ V, GraphInv base V db.store := by
  induction h with
  | empty status hbase => exact ⟨[], graphInv_empty status hbase⟩
  | vertexLabel _ hnew hr ih =>
    obtain ⟨V, ih⟩ := ih
    exact ⟨V, ih.vertexLabel hnew hr⟩
  | edgeLabel _ hnew ih =>
    obtain ⟨V, ih⟩ := ih
    exact ⟨V, ih.edgeLabel hnew⟩
  | begin _ hroom ih =>
    obtain ⟨V, ih⟩ := ih
    exact ⟨V, GraphInv.later ih (XactState.later_begin base _) (XactState.settles_begin base _)
      hroom (fullTransactionIdAdvance_normal _)⟩
  | commit _ ht ih =>
    obtain ⟨V, ih⟩ := ih
    exact ⟨V, GraphInv.later ih (XactState.later_commit base _ _) (XactState.settles_commit ht)
      ih.room ih.normal⟩
  | abort _ ht ih =>
    obtain ⟨V, ih⟩ := ih
    exact ⟨V, ih.abort ht⟩
  | op _ hs ho ih =>
    obtain ⟨V, ih⟩ := ih
    exact ih.perform hs ho

end

end NeoPostGraph
