import NeoPostGraph.Graph.Adjacency
import NeoPostGraph.Graph.Supersede
import NeoPostGraph.Graph.Unlink
import NeoPostGraph.Graph.Versions

/-!
# The entity tables between operations

* `EntityInv base st`: the entity tables of every label satisfy `EntityTableInv`, over a history of
  transactions from `base`.
* `OwnVertexSlot`, `OwnEdgeSlot`: no tuple of another id of the label uses the slot of this id.

Results: each insert, update and delete of a session with an open transaction keeps `EntityInv`,
whether it succeeds or fails half-way, as long as the ids it writes have slots of their own. A failed
operation needs no undo for this: what it wrote stays behind as versions of a transaction that will
abort.
-/

namespace NeoPostGraph

open SlottedPage

/-! ## The invariant -/

/-- Where the slots of a vertex label point. -/
def Store.vertexPtr (st : Store) (l : Nat) (k : ItemPointer) : Option ItemPointer :=
  (st.vslot (l, k)).map NeoPhysMapRecord.vItemptr

/-- Where the slots of an edge label point. -/
def Store.edgePtr (st : Store) (l : Nat) (k : ItemPointer) : Option ItemPointer :=
  (st.eslot (l, k)).map NeoEdgePhysMapRecord.eItemptr

/-- The vertices of a label. -/
abbrev VertexTableInv (base : Nat) (st : Store) (l : Nat) : Prop :=
  EntityTableInv st.xacts base entitySlot (pageCapacity sizeOfNeoPhysMapRecord)
    (fun tid => st.vtuple (l, tid)) (st.vertexPtr l)

/-- The edges of a label. -/
abbrev EdgeTableInv (base : Nat) (st : Store) (l : Nat) : Prop :=
  EntityTableInv st.xacts base edgeSlot (pageCapacity sizeOfNeoEdgePhysMapRecord)
    (fun tid => st.etuple (l, tid)) (st.edgePtr l)

/-- The entity tables of a graph, in a history of transactions from `base`. Label ids start at 1. -/
structure EntityInv (base : Nat) (st : Store) : Prop where
  base_le : base ≤ st.xacts.nextFxid
  room : st.xacts.nextFxid ≤ base + 2 ^ 31
  normal : firstNormalTransactionId ≤ xidFromFull st.xacts.nextFxid
  vlabel_zero : st.vlabel 0 = none
  elabel_zero : st.elabel 0 = false
  vertex : ∀ l, VertexTableInv base st l
  edge : ∀ l, EdgeTableInv base st l

/-- The invariant, with the transactions as they are. -/
def EntityInvAt (base : Nat) (x : XactState) (db : Db) : Prop :=
  EntityInv base db.store ∧ db.store.xacts = x

/-- Nobody else's tuple uses the slot of this vertex id. -/
def OwnVertexSlot (st : Store) (l id : Nat) : Prop :=
  ∀ tid t, st.vtuple (l, tid) = some t → entitySlot t.hdr.id = entitySlot id → t.hdr.id = id

/-- Nobody else's tuple uses the slot of this edge id. -/
def OwnEdgeSlot (st : Store) (l id : Nat) : Prop :=
  ∀ tid t, st.etuple (l, tid) = some t → edgeSlot t.hdr.id = edgeSlot id → t.hdr.id = id

/-- The id has no tuple yet, and no other id has its slot. -/
def FreshVertexId (st : Store) (l id : Nat) : Prop :=
  ∀ tid t, st.vtuple (l, tid) = some t → entitySlot t.hdr.id ≠ entitySlot id

/-- The id has no tuple yet, and no other id has its slot. -/
def FreshEdgeId (st : Store) (l id : Nat) : Prop :=
  ∀ tid t, st.etuple (l, tid) = some t → edgeSlot t.hdr.id ≠ edgeSlot id

/-- Two stores with the same entities: an adjacency step may move the head in a vertex slot. -/
structure SameEntities (st st' : Store) : Prop where
  xacts : st'.xacts = st.xacts
  vlabel : st'.vlabel = st.vlabel
  elabel : st'.elabel = st.elabel
  vtuple : st'.vtuple = st.vtuple
  vertexPtr : ∀ l k, st'.vertexPtr l k = st.vertexPtr l k
  etuple : st'.etuple = st.etuple
  eslot : st'.eslot = st.eslot

section

variable {base l id : Nat} {st st' : Store} {db db' : Db} {s : Session} {props : Gtype}

theorem EntityInv.same (h : EntityInv base st) (hs : SameEntities st st') : EntityInv base st' := by
  have hptr : ∀ l, st'.vertexPtr l = st.vertexPtr l := fun l => funext (hs.vertexPtr l)
  have heptr : ∀ l, st'.edgePtr l = st.edgePtr l := fun l => by
    unfold Store.edgePtr
    rw [hs.eslot]
  refine ⟨?_, ?_, ?_, ?_, ?_, fun l => ?_, fun l => ?_⟩
  · rw [hs.xacts]
    exact h.base_le
  · rw [hs.xacts]
    exact h.room
  · rw [hs.xacts]
    exact h.normal
  · rw [hs.vlabel]
    exact h.vlabel_zero
  · rw [hs.elabel]
    exact h.elabel_zero
  · have hv := h.vertex l
    unfold VertexTableInv
    rw [hptr, hs.vtuple, hs.xacts]
    exact hv
  · have he := h.edge l
    unfold EdgeTableInv
    rw [heptr, hs.etuple, hs.xacts]
    exact he

/-- Transactions may begin and end. -/
theorem EntityInv.later {x : XactState} (h : EntityInv base st)
    (hl : XactState.Later base st.xacts x) (hroom : x.nextFxid ≤ base + 2 ^ 31)
    (hnormal : firstNormalTransactionId ≤ xidFromFull x.nextFxid) :
    EntityInv base { st with xacts := x } :=
  ⟨Nat.le_trans h.base_le hl.next_le, hroom, hnormal, h.vlabel_zero, h.elabel_zero,
    fun l => (h.vertex l).later hl, fun l => (h.edge l).later hl⟩

/-! ## Adjacency steps keep the entities -/

theorem sameEntities_putNode (st : Store) (a : Addr) (n : AdjNode) :
    SameEntities st (st.putNode a n) :=
  ⟨rfl, rfl, rfl, rfl, fun _ _ => rfl, rfl, rfl⟩

theorem sameEntities_stamp (st : Store) (s : Session) (p : Position) :
    SameEntities st (st.stamp s p) :=
  ⟨rfl, rfl, rfl, rfl, fun _ _ => rfl, rfl, rfl⟩

/-- Moving the head of a vertex leaves its vertex pointer. -/
theorem sameEntities_setHead (st : Store) (v : VertexKey) (a : Addr) :
    SameEntities st (st.setHead v a) := by
  refine ⟨rfl, rfl, rfl, rfl, fun l k => ?_, rfl, rfl⟩
  show (Function.update st.vslot (v.1, headSlot v.2) _ (l, k)).map _ = _
  by_cases hk : (l, k) = (v.1, headSlot v.2)
  · rw [hk, Function.update_self, Option.map_map]
    unfold Store.vertexPtr
    rw [hk]
    rfl
  · rw [Function.update_of_ne hk]
    rfl

/-- Linking an edge at one end keeps what the entities, however it ends, satisfy. -/
theorem insertEdgeOneDirection_keeps {I : Store → Prop}
    (hI : ∀ st st', I st → SameEntities st st' → I st') (s : Session) (ownerV otherV : Vertex)
    (e : Edge) (dir : Nat) :
    (insertEdgeOneDirection s ownerV otherV e dir).Keeps fun db => I db.store := by
  refine (Prog.keeps_read _ _).bind fun o => (Prog.keeps_read _ _).bind fun hd =>
    Prog.Keeps.bind (Prog.keeps_of_runs fun db tid db' h hr => ?_) fun tid =>
      Prog.Keeps.bind ?_ fun _ => Prog.keeps_of_runs fun db u db' h hr => ?_
  · obtain ⟨-, -, -, hst⟩ := insertLinkedListRecord_inv hr
    rw [hst]
    exact hI _ _ h (sameEntities_putNode _ _ _)
  · unfold updateOldHead
    split
    · refine Prog.keeps_of_runs fun db u db' h hr => ?_
      obtain ⟨n, -, hst⟩ := updatePrevPointer_inv hr
      rw [hst]
      exact hI _ _ h (sameEntities_putNode _ _ _)
    · exact Prog.keeps_ret _ _
  · obtain ⟨rec, -, hst⟩ := writeHead_inv hr
    rw [hst]
    exact hI _ _ h (sameEntities_setHead _ _ _)

/-! ## Tables of one label -/

theorem update_label_self {β : Type} (f : Nat × ItemPointer → β) (l : Nat) (tid : ItemPointer)
    (b : β) : (fun tid' => Function.update f (l, tid) b (l, tid')) =
      Function.update (fun tid' => f (l, tid')) tid b := by
  funext tid'
  by_cases h : tid' = tid
  · rw [h, Function.update_self, Function.update_self]
  · rw [Function.update_of_ne h, Function.update_of_ne fun he => h (Prod.mk.inj he).2]

theorem update_label_ne {β : Type} (f : Nat × ItemPointer → β) {l l' : Nat} (h : l' ≠ l)
    (tid : ItemPointer) (b : β) :
    (fun tid' => Function.update f (l, tid) b (l', tid')) = fun tid' => f (l', tid') := by
  funext tid'
  exact Function.update_of_ne (fun he => h (Prod.mk.inj he).1) ..

/-- A placement, seen through a pointer of the records. -/
theorem Placed.repointed {α : Type} {slot slot' : Nat × ItemPointer → Option α} {k : ItemPointer}
    {capacity : Nat} {pad rec : α} (h : Placed slot slot' l k capacity pad rec)
    (ptr : α → ItemPointer) (hpad : (ptr pad).isValid = false) :
    Repointed (fun j => (slot (l, j)).map ptr) (fun j => (slot' (l, j)).map ptr) k (ptr rec)
      capacity := by
  refine ⟨?_, fun j hj => ?_⟩
  · show (slot' (l, k)).map ptr = _
    rw [h.self]
    split <;> rfl
  · rcases h.other (l, j) (fun he => hj (Prod.mk.inj he).2) with he | ⟨hn, he⟩
    · exact Or.inl (congrArg _ he)
    · exact Or.inr ⟨congrArg (Option.map ptr) hn, ptr pad, congrArg (Option.map ptr) he, hpad⟩

theorem Placed.padded {α : Type} {slot slot' : Nat × ItemPointer → Option α} {k : ItemPointer}
    {capacity l' : Nat} {pad rec : α} (h : Placed slot slot' l k capacity pad rec) (hl : l' ≠ l)
    (ptr : α → ItemPointer) (hpad : (ptr pad).isValid = false) (j : ItemPointer) :
    (slot' (l', j)).map ptr = (slot (l', j)).map ptr ∨
      (slot (l', j)).map ptr = none ∧ ∃ q, (slot' (l', j)).map ptr = some q ∧ q.isValid = false := by
  rcases h.other (l', j) (fun he => hl (Prod.mk.inj he).1) with he | ⟨hn, he⟩
  · exact Or.inl (congrArg _ he)
  · exact Or.inr ⟨congrArg (Option.map ptr) hn, ptr pad, congrArg (Option.map ptr) he, hpad⟩

/-! ## Operations -/

theorem room_of (h : EntityInv base st) : st.xacts.nextFxid ≤ base + 2 ^ 32 := by
  have := h.room
  omega

/-- **A vertex insert**, however it ends. -/
theorem EntityInv.insertVertex_exec {v : Vertex} (h : EntityInv base db.store)
    (hs : db.store.xacts.Begun base s.fxid) (hfresh : FreshVertexId db.store v.labelId v.id) :
    EntityInvAt base db.store.xacts ((insertVertex s v props).exec db).2 := by
  refine Prog.exec_bind_ind (I := EntityInvAt base db.store.xacts) (fun er db₁ hr => ?_) fun tid db₁ h₁ => ?_
  · rw [Prog.step_error hr]
    exact ⟨h, rfl⟩
  obtain ⟨hl, -, -, -, -, hst₁⟩ := writeVertexTuple_inv h₁
  obtain ⟨db₂, h₂⟩ : ∃ db₂, (placeVertexSlot v.labelId v.id
      ⟨tid, 0, .invalid, .invalid⟩).Runs db₁ () db₂ :=
    placeVertexSlot_runs (by rw [hst₁]; exact hl) v.id _
  have hrun : (npInternalInsertVertex s v props).Runs db () db₂ := Prog.Runs.bind h₁ h₂
  have h₂' : ((placeVertexSlot v.labelId v.id ⟨tid, 0, .invalid, .invalid⟩).exec db₁).2 = db₂ := by
    rw [h₂]
  rw [h₂']
  obtain ⟨tid', -, hnone, hv, hbefore, hplaced, hst⟩ := npInternalInsertVertex_inv hrun
  refine ⟨?_, by rw [hst]⟩
  rw [hst]
  refine ⟨h.base_le, h.room, h.normal, h.vlabel_zero, h.elabel_zero, fun l => ?_, h.edge⟩
  by_cases hlab : l = v.labelId
  · subst hlab
    unfold VertexTableInv
    rw [update_label_self]
    refine (h.vertex v.labelId).write hv hnone hbefore hs rfl (fun p u hu he => ?_)
      (fun p u hp hu => ?_) (hplaced.repointed NeoPhysMapRecord.vItemptr rfl)
    · exact absurd he (hfresh p u hu)
    · obtain ⟨t, ht, hid⟩ := (h.vertex v.labelId).sound _ p hp ((h.vertex v.labelId).valid p u hu)
      exact absurd hid (hfresh p t ht)
  · unfold VertexTableInv
    rw [update_label_ne _ hlab]
    exact (h.vertex l).padded (hplaced.padded hlab NeoPhysMapRecord.vItemptr rfl)

/-- **An edge insert**, however it ends. -/
theorem EntityInv.insertEdge_exec {startV endV : Vertex} {e : Edge} (h : EntityInv base db.store)
    (hs : db.store.xacts.Begun base s.fxid) (hfresh : FreshEdgeId db.store e.labelId e.id)
    (x : Unspecified) :
    EntityInvAt base db.store.xacts ((insertEdge x s startV endV e props).exec db).2 := by
  have hlink : ∀ {a b : Vertex} {dir : Nat},
      (insertEdgeOneDirection s a b e dir).Keeps (EntityInvAt base db.store.xacts) :=
    fun {a b dir} =>
    insertEdgeOneDirection_keeps (I := fun st => EntityInv base st ∧ st.xacts = db.store.xacts)
      (fun _ _ hI hsame => ⟨hI.1.same hsame, hsame.xacts.trans hI.2⟩) s a b e dir
  refine Prog.exec_bind_ind (I := EntityInvAt base db.store.xacts) (fun er db₁ hr => ?_) fun tid db₁ h₁ => ?_
  · rw [Prog.step_error hr]
    exact ⟨h, rfl⟩
  obtain ⟨hl, -, hnone, hv, hbefore, hst₁⟩ := writeEdgeTuple_inv h₁
  obtain ⟨db₂, h₂⟩ : ∃ db₂, (setEdgeSlot e.labelId e.id .edgeLabelTableNotFound
      ⟨tid, x.stackItemptr e⟩).Runs db₁ () db₂ :=
    setEdgeSlot_runs (by rw [hst₁]; exact hl) e.id _ _
  refine Prog.exec_bind_ind (I := EntityInvAt base db.store.xacts) (fun er db₂' hr => ?_) fun u db₂' hr => ?_
  · cases (Prod.mk.inj (hr.symm.trans h₂)).1
  obtain ⟨-, hplaced, hst₂⟩ := setEdgeSlot_inv hr
  rw [hst₁] at hplaced hst₂
  refine Prog.Keeps.exec (hlink.bind fun _ => hlink) ⟨?_, by rw [hst₂]⟩
  rw [hst₂]
  refine ⟨h.base_le, h.room, h.normal, h.vlabel_zero, h.elabel_zero, h.vertex, fun l => ?_⟩
  by_cases hlab : l = e.labelId
  · subst hlab
    unfold EdgeTableInv
    rw [update_label_self]
    refine (h.edge e.labelId).write hv hnone hbefore hs rfl (fun p u hu he => ?_)
      (fun p u hp hu => ?_) (hplaced.repointed NeoEdgePhysMapRecord.eItemptr rfl)
    · exact absurd he (hfresh p u hu)
    · obtain ⟨t, ht, hid⟩ := (h.edge e.labelId).sound _ p hp ((h.edge e.labelId).valid p u hu)
      exact absurd hid (hfresh p t ht)
  · unfold EdgeTableInv
    rw [update_label_ne _ hlab]
    exact (h.edge l).padded (hplaced.padded hlab NeoEdgePhysMapRecord.eItemptr rfl)

/-- **A vertex update**, however it ends. -/
theorem EntityInv.updateVertex_exec (h : EntityInv base db.store)
    (hs : db.store.xacts.Open base s.fxid) (hown : OwnVertexSlot db.store l id) :
    EntityInvAt base db.store.xacts ((updateVertex s l id props).exec db).2 := by
  by_cases hrun : ∃ db', (updateVertex s l id props).Runs db () db'
  · obtain ⟨db', hr⟩ := hrun
    rw [hr]
    obtain ⟨rec, t, tid, hrec, ht, hup, -, hnone, hv, hbefore, hst⟩ := updateVertex_inv hr
    refine ⟨?_, by rw [hst]⟩
    rw [hst]
    have hptr : db.store.vertexPtr l (entitySlot id) = some rec.vItemptr :=
      congrArg (Option.map NeoPhysMapRecord.vItemptr) hrec
    have hk := vslot_offset_le hrec
    obtain ⟨-, front, -, hhist⟩ := (h.vertex l).last hk hptr ht
    have hsees := sees_of_updatable (room_of h) hs hhist (a := (rec.vItemptr, t)) (by simp) hup
    refine ⟨h.base_le, h.room, h.normal, h.vlabel_zero, h.elabel_zero, fun l' => ?_, h.edge⟩
    by_cases hlab : l' = l
    · subst hlab
      unfold VertexTableInv
      rw [update_label_self, update_label_self]
      refine (h.vertex l').supersede hk hptr ht hs.1 hsees hv hnone hbefore rfl rfl rfl hown
        ⟨?_, fun j hj => Or.inl ?_⟩
      · show Option.map _ (Function.update db.store.vslot (l', entitySlot id) _ _) = _
        rw [if_pos hk, Function.update_self]
        rfl
      · exact congrArg (Option.map NeoPhysMapRecord.vItemptr)
          (Function.update_of_ne (fun he => hj (Prod.mk.inj he).2) ..)
    · unfold VertexTableInv
      rw [update_label_ne _ hlab, update_label_ne _ hlab]
      refine (h.vertex l').padded fun j => Or.inl ?_
      exact congrArg (Option.map NeoPhysMapRecord.vItemptr)
        (Function.update_of_ne (fun he => hlab (Prod.mk.inj he).1) ..)
  · rw [updateVertex_error hrun]
    exact ⟨h, rfl⟩

/-- **An edge update**, however it ends. -/
theorem EntityInv.updateEdge_exec (h : EntityInv base db.store)
    (hs : db.store.xacts.Open base s.fxid) (hown : OwnEdgeSlot db.store l id) (x : Unspecified) :
    EntityInvAt base db.store.xacts ((updateEdge x s l id props).exec db).2 := by
  by_cases hrun : ∃ db', (updateEdge x s l id props).Runs db () db'
  · obtain ⟨db', hr⟩ := hrun
    rw [hr]
    obtain ⟨rec, t, tid, hrec, ht, hup, -, hnone, hv, hbefore, hplaced, hst⟩ := updateEdge_inv hr
    refine ⟨?_, by rw [hst]⟩
    rw [hst]
    have hptr : db.store.edgePtr l (edgeSlot id) = some rec.eItemptr :=
      congrArg (Option.map NeoEdgePhysMapRecord.eItemptr) hrec
    have hk := eslot_offset_le hrec
    obtain ⟨-, front, -, hhist⟩ := (h.edge l).last hk hptr ht
    have hsees := sees_of_updatable (room_of h) hs hhist (a := (rec.eItemptr, t)) (by simp) hup
    refine ⟨h.base_le, h.room, h.normal, h.vlabel_zero, h.elabel_zero, h.vertex, fun l' => ?_⟩
    by_cases hlab : l' = l
    · subst hlab
      unfold EdgeTableInv
      rw [update_label_self, update_label_self]
      exact (h.edge l').supersede hk hptr ht hs.1 hsees hv hnone hbefore rfl rfl rfl hown
        (hplaced.repointed NeoEdgePhysMapRecord.eItemptr rfl)
    · unfold EdgeTableInv
      rw [update_label_ne _ hlab, update_label_ne _ hlab]
      exact (h.edge l').padded (hplaced.padded hlab NeoEdgePhysMapRecord.eItemptr rfl)
  · rw [updateEdge_error hrun]
    exact ⟨h, rfl⟩

/-- **An edge delete**, however it ends. It stamps the tuple the slot points to, whoever's it is. -/
theorem EntityInv.deleteEdge_exec (h : EntityInv base db.store)
    (hs : db.store.xacts.Open base s.fxid) (fuel l id : Nat) :
    EntityInvAt base db.store.xacts ((npInternalDeleteEdge fuel s l id).exec db).2 := by
  have hunlink : ∀ vid vl, (npDeleteEdgeFromAdjList fuel s vid vl id).Keeps
      (EntityInvAt base db.store.xacts) := fun vid vl =>
    npDeleteEdgeFromAdjList_keeps (I := fun st => EntityInv base st ∧ st.xacts = db.store.xacts) s
      (fun st p hI => ⟨hI.1.same (sameEntities_stamp st s p), hI.2⟩) fuel vid vl id
  refine Prog.exec_bind_ind (I := EntityInvAt base db.store.xacts) (fun er db₁ hr => ?_)
    fun rec db₁ h₁ => ?_
  · rw [Prog.step_error hr]
    exact ⟨h, rfl⟩
  obtain ⟨rfl, hrec⟩ := readEdgeSlot_iff.mp h₁
  refine Prog.exec_bind_ind (I := EntityInvAt base db₁.store.xacts) (fun er db₂ hr => ?_)
    fun e db₂ h₂ => ?_
  · rw [Prog.step_error hr]
    exact ⟨h, rfl⟩
  obtain ⟨t, ht, hup, -, hst⟩ := tombstoneEdge_inv h₂
  have hptr : db₁.store.edgePtr l (edgeSlot id) = some rec.eItemptr :=
    congrArg (Option.map NeoEdgePhysMapRecord.eItemptr) hrec
  have hk := eslot_offset_le hrec
  obtain ⟨-, front, -, hhist⟩ := (h.edge l).last hk hptr ht
  have hsees := sees_of_updatable (room_of h) hs hhist (a := (rec.eItemptr, t)) (by simp) hup
  refine Prog.Keeps.exec ((hunlink _ _).bind fun _ => hunlink _ _) ⟨?_, by rw [hst]⟩
  rw [hst]
  refine ⟨h.base_le, h.room, h.normal, h.vlabel_zero, h.elabel_zero, h.vertex, fun l' => ?_⟩
  by_cases hlab : l' = l
  · subst hlab
    unfold EdgeTableInv
    rw [update_label_self]
    exact (h.edge l').stamp hk hptr ht hs.1 hsees
  · unfold EdgeTableInv
    rw [update_label_ne _ hlab]
    exact h.edge l'

/-- The walk of `delete_vertex` only reads. -/
theorem collectWalk_keeps (I : Db → Prop) (x : Unspecified) (arraylist : Oid) (detach : Bool)
    (vertexId : Nat) : ∀ (fuel : Nat) (tbl : Oid) (tid : ItemPointer) (edges : List (Nat × Nat)),
      (collectWalk x arraylist detach vertexId fuel tbl tid edges).Keeps I
  | 0, _, _, _ => Prog.keeps_fail _ _
  | fuel + 1, tbl, tid, edges => by
    unfold collectWalk
    split
    · refine Prog.Keeps.bind ?_ fun r => collectWalk_keeps I x arraylist detach vertexId fuel _ _ _
      unfold collectAt
      split
      · exact Prog.keeps_read _ _
      · exact Prog.keeps_read _ _
    · exact Prog.keeps_ret _ _

theorem EntityInv.deleteCollected_exec (fuel : Nat) {y : XactState} (hs : y.Open base s.fxid) :
    ∀ (edges : List (Nat × Nat)) {db : Db}, EntityInvAt base y db →
      EntityInvAt base y ((deleteCollected fuel s edges).exec db).2
  | [], _, h => h
  | (edgeId, edgeLid) :: rest, db, h => by
    have hdel := h.1.deleteEdge_exec (by rwa [h.2]) fuel edgeLid edgeId
    rw [h.2] at hdel
    refine Prog.exec_bind_ind (I := EntityInvAt base y) (fun er db₁ hr => ?_) fun u db₁ hr => ?_
    · rw [hr] at hdel
      exact hdel
    · rw [hr] at hdel
      exact EntityInv.deleteCollected_exec fuel hs rest hdel

/-- An invariant that the stamps of edge tuples and of open members keep survives the deletion of the
collected edges. -/
theorem deleteCollected_keeps_of_open {I : Store → Prop} (s : Session)
    (hedge : ∀ st l tid t, st.etuple (l, tid) = some t → Updatable st.xacts s.own t → I st →
      I (st.stampEdge s l tid t))
    (hstamp : ∀ id st p, st.Open id p → I st → I (st.stamp s p)) (fuel : Nat) :
    ∀ edges : List (Nat × Nat), (deleteCollected fuel s edges).Keeps fun db => I db.store
  | [] => Prog.keeps_ret _ _
  | (edgeId, edgeLid) :: rest =>
    (deleteEdge_keeps_of_open s hedge (hstamp edgeId) fuel edgeLid).bind fun _ =>
      deleteCollected_keeps_of_open s hedge hstamp fuel rest

/-- An invariant the stamps keep survives the deletion of the collected edges. -/
theorem deleteCollected_keeps {I : Store → Prop} (s : Session)
    (hedge : ∀ st l tid t, I st → I (st.stampEdge s l tid t)) (hstamp : ∀ st p, I st → I (st.stamp s p))
    (fuel : Nat) (edges : List (Nat × Nat)) :
    (deleteCollected fuel s edges).Keeps fun db => I db.store :=
  deleteCollected_keeps_of_open s (fun st l tid t _ _ => hedge st l tid t)
    (fun _ st p _ => hstamp st p) fuel edges

/-- **A vertex delete**, however it ends. -/
theorem EntityInv.deleteVertex_exec (h : EntityInv base db.store)
    (hs : db.store.xacts.Open base s.fxid) (x : Unspecified) (fuel l id : Nat) (detach : Bool) :
    EntityInvAt base db.store.xacts ((deleteVertex x fuel s id l detach).exec db).2 := by
  refine Prog.exec_bind_ind (I := EntityInvAt base db.store.xacts) (fun er db₁ hr => ?_)
    fun r db₁ h₁ => ?_
  · rw [Prog.step_error hr]
    exact ⟨h, rfl⟩
  obtain ⟨lab, hlab, hf, rfl⟩ := runs_readVertexLabel.mp h₁
  obtain ⟨rec, hrec, hf⟩ := bind_ok hf
  obtain rfl := Except.ok.inj hf
  have hwalk := (collectWalk_keeps (· = db₁) x lab.arraylist detach id fuel rec.eTblId
    rec.eItemptr []).exec rfl
  refine Prog.exec_bind_ind (I := EntityInvAt base db₁.store.xacts) (fun er db₂ hr => ?_)
    fun edges db₂ hr => ?_
  · rw [hr] at hwalk
    have hsame : db₂ = db₁ := hwalk
    rw [hsame]
    exact ⟨h, rfl⟩
  rw [hr] at hwalk
  have hsame : db₂ = db₁ := hwalk
  subst hsame
  have hdel := EntityInv.deleteCollected_exec fuel hs edges ⟨h, rfl⟩
  have hkeep : ((deleteCollected fuel s edges).exec db₂).2.store.vslot = db₂.store.vslot :=
    (deleteCollected_keeps (I := fun st => st.vslot = db₂.store.vslot) s (fun _ _ _ _ hI => hI)
      (fun _ _ hI => hI) fuel edges).exec rfl
  refine Prog.exec_bind_ind (I := EntityInvAt base db₂.store.xacts) (fun er db₃ hr => ?_)
    fun u db₃ hr => ?_
  · rw [hr] at hdel
    exact hdel
  rw [hr] at hdel hkeep
  rcases Prog.step_cases _ db₃ with ⟨e, he⟩ | ⟨u', db₄, h₄⟩
  · have hsame : ((tombstoneVertex s l id rec.vItemptr).exec db₃).2 = db₃ := by
      exact congrArg Prod.snd he
    rw [hsame]
    exact hdel
  · have hsame : ((tombstoneVertex s l id rec.vItemptr).exec db₃).2 = db₄ := congrArg Prod.snd h₄
    rw [hsame]
    obtain ⟨t, ht, hup, hst⟩ := tombstoneVertex_inv h₄
    have hslot : db₃.store.vslot (l, entitySlot id) = some rec := by
      rw [show db₃.store.vslot = db₂.store.vslot from hkeep, store_vslot hlab]
      exact readSlot_iff.mp hrec
    have hptr : db₃.store.vertexPtr l (entitySlot id) = some rec.vItemptr :=
      congrArg (Option.map NeoPhysMapRecord.vItemptr) hslot
    have hk := vslot_offset_le hslot
    obtain ⟨h₃, hx⟩ := hdel
    have hs₃ : db₃.store.xacts.Open base s.fxid := by rwa [hx]
    obtain ⟨-, front, -, hhist⟩ := (h₃.vertex l).last hk hptr ht
    have hsees := sees_of_updatable (room_of h₃) hs₃ hhist (a := (rec.vItemptr, t)) (by simp) hup
    refine ⟨?_, by rw [hst]; exact hx⟩
    rw [hst]
    refine ⟨h₃.base_le, h₃.room, h₃.normal, h₃.vlabel_zero, h₃.elabel_zero, fun l' => ?_, h₃.edge⟩
    by_cases hlab' : l' = l
    · subst hlab'
      unfold VertexTableInv
      rw [update_label_self]
      exact (h₃.vertex l').stamp hk hptr ht hs₃.1 hsees
    · unfold VertexTableInv
      rw [update_label_ne _ hlab']
      exact h₃.vertex l'

end

end NeoPostGraph
