import NeoPostGraph.Graph.Catalog
import NeoPostGraph.Lib.Chain

/-!
# Adjacency chains

The chain of a vertex: the nodes that following next pointers from its head visits. Linking an
edge at one end (`insert_edge_one_direction`) is three writes, which `insertEdgeOneDirection_inv`
puts together: a new node in front of the chain, the old head's back pointer, the head.

Results:
* `Store.Path`: the chain, unique and without repetition by `LinkedChain`.
* `path_link_self`, `path_link_other`: what linking does to the chain of the owner and to others.
-/

namespace NeoPostGraph

open SlottedPage LinkedChain

/-- The nodes of a chain with their addresses. -/
abbrev NodePath := List (Addr × AdjNode)

/-- The members on a path, in order. -/
def NodePath.members (p : NodePath) : List AdjListMember := p.flatMap fun x => x.2.members

namespace Store

/-- Following next pointers from the head of `v` visits `p` and ends. -/
def Path (st : Store) (v : VertexKey) (p : NodePath) : Prop :=
  Seg st.node AdjNode.next (st.head v.1 v.2) p none

/-- Put a new node in front of the chain of `v`. -/
def link (st : Store) (v : VertexKey) (a : Addr) (n : AdjNode) : Store :=
  ((st.putNode a n).setPrev (st.head v.1 v.2) a).setHead v a

end Store

section

variable {st : Store} {v w : VertexKey} {a : Addr} {n : AdjNode} {p : NodePath}

theorem Store.Path.det {q : NodePath} (h₁ : st.Path v p) (h₂ : st.Path v q) : p = q := Seg.det h₁ h₂

theorem Store.Path.nodup (h : st.Path v p) : (p.map Prod.fst).Nodup := Seg.nodup h

theorem Store.Path.get (h : st.Path v p) {x : Addr × AdjNode} (hx : x ∈ p) :
    st.node x.1 = some x.2 := Seg.get_of_mem h hx

/-- The link of a new record is the old head. -/
theorem next_newLinkedListRecord (s : Session) (ownerV otherV : Vertex) (e : Edge) (dir : Nat)
    (tbl : Oid) (tid : ItemPointer) (a : Addr) :
    (AdjNode.linked (newLinkedListRecord s ownerV otherV e dir tbl tid)).next a =
      cursor tbl tid := by
  unfold newLinkedListRecord AdjNode.next
  by_cases h : tid.isValid = true
  · simp [h]
  · simp [h, cursor]

theorem head_setHead {rec : NeoPhysMapRecord} (hs : st.vslot (v.1, headSlot v.2) = some rec)
    (h0 : a.1 ≠ 0) (hv : a.2.isValid = true) : (st.setHead v a).head v.1 v.2 = some a := by
  unfold Store.head Store.setHead
  simp [hs, cursor, hv, oidIsValid, h0]

theorem head_setHead_ne (hne : (w.1, headSlot w.2) ≠ (v.1, headSlot v.2)) :
    (st.setHead v a).head w.1 w.2 = st.head w.1 w.2 := by
  unfold Store.head Store.setHead
  simp only [Function.update_of_ne hne]

/-- Setting a back pointer keeps every link. -/
theorem seg_setPrev {x y h : Option Addr} (hp : Seg st.node AdjNode.next x p y) (a : Addr) :
    Seg (st.setPrev h a).node AdjNode.next x
      (match h with | none => p | some h => setNode h (AdjNode.setPrev a.1 a.2) p) y := by
  cases h with
  | none => exact hp
  | some h =>
    refine hp.set (fun y => ?_) fun n _ => AdjNode.next_setPrev _ _ _ _
    show Function.update _ _ _ _ = _
    rw [Function.update_apply]
    split
    · next he => rw [he]
    · rfl

/-- The nodes of a path once the old head `h` points back to `a`. -/
def relinked (h : Option Addr) (a : Addr) (p : NodePath) : NodePath :=
  match h with
  | none => p
  | some h => setNode h (AdjNode.setPrev a.1 a.2) p

theorem map_relinked {B : Type} {g : Addr × AdjNode → B} (h : Option Addr) (a : Addr)
    (p : NodePath) (hg : ∀ y : Addr × AdjNode, g (y.1, y.2.setPrev a.1 a.2) = g y) :
    (relinked h a p).map g = p.map g := by
  cases h with
  | none => rfl
  | some h => exact map_setNode _ fun y _ _ => hg y

@[simp] theorem map_fst_relinked (h : Option Addr) (a : Addr) (p : NodePath) :
    (relinked h a p).map Prod.fst = p.map Prod.fst := map_relinked h a p fun _ => rfl

@[simp] theorem members_relinked (h : Option Addr) (a : Addr) (p : NodePath) :
    (relinked h a p).members = p.members := by
  unfold NodePath.members
  rw [List.flatMap_def, List.flatMap_def]
  exact congrArg List.flatten (map_relinked h a p fun y => AdjNode.members_setPrev _ _ _)

/-- A fresh address is on no path. -/
theorem notMem_of_fresh {x y : Option Addr} (hp : Seg st.node AdjNode.next x p y)
    (hfresh : st.node a = none) : a ∉ p.map Prod.fst := by
  intro hmem
  obtain ⟨z, hz, rfl⟩ := List.mem_map.mp hmem
  rw [hp.get_of_mem hz] at hfresh
  cases hfresh

/-- **Linking puts the new node in front of the owner's chain.** -/
theorem path_link_self (hp : st.Path v p) (hfresh : st.node a = none)
    {rec : NeoPhysMapRecord} (hs : st.vslot (v.1, headSlot v.2) = some rec) (h0 : a.1 ≠ 0)
    (hv : a.2.isValid = true) (hnext : n.next a = st.head v.1 v.2)
    (hne : st.head v.1 v.2 ≠ some a) :
    (st.link v a n).Path v ((a, n) :: relinked (st.head v.1 v.2) a p) := by
  have hseg : Seg (st.putNode a n).node AdjNode.next (st.head v.1 v.2) p none :=
    hp.update_ne (notMem_of_fresh hp hfresh) _
  have hget : (st.putNode a n).node a = some n := Function.update_self ..
  have hget' : ((st.putNode a n).setPrev (st.head v.1 v.2) a).node a = some n := by
    unfold Store.setPrev
    split
    · exact hget
    · next h he =>
      have hah : a ≠ h := fun e => hne (by rw [he, e])
      show Function.update _ _ _ _ = _
      rw [Function.update_of_ne hah, hget]
  unfold Store.Path Store.link
  have hslot : ((st.putNode a n).setPrev (st.head v.1 v.2) a).vslot (v.1, headSlot v.2) =
      some rec := by
    rw [Store.vslot_setPrev]
    exact hs
  rw [head_setHead hslot h0 hv]
  refine Seg.cons hget' ?_
  rw [hnext]
  exact seg_setPrev hseg a

/-- **Linking at one vertex keeps the chain of another**, as far as its members go. -/
theorem path_link_other (hp : st.Path w p) (hfresh : st.node a = none)
    (hne : (w.1, headSlot w.2) ≠ (v.1, headSlot v.2)) :
    (st.link v a n).Path w (relinked (st.head v.1 v.2) a p) := by
  have hseg : Seg (st.putNode a n).node AdjNode.next (st.head w.1 w.2) p none :=
    hp.update_ne (notMem_of_fresh hp hfresh) _
  unfold Store.Path Store.link
  rw [head_setHead_ne hne]
  rw [Store.head_setPrev]
  exact seg_setPrev hseg a

/-- A node after linking: the new one or the old one, perhaps with another back pointer. -/
theorem node_link (v : VertexKey) (a : Addr) (n : AdjNode) (b : Addr) :
    (st.link v a n).node b = Function.update st.node a (some n) b ∨
      (st.link v a n).node b =
        (Function.update st.node a (some n) b).map (AdjNode.setPrev a.1 a.2) :=
  Store.node_setPrev (st.putNode a n) _ a b

theorem vlabel_link (v : VertexKey) (a : Addr) (n : AdjNode) :
    (st.link v a n).vlabel = st.vlabel := Store.vlabel_setPrev (st.putNode a n) _ a

theorem format_link (v : VertexKey) (a : Addr) (n : AdjNode) :
    (st.link v a n).format = st.format := Store.format_setPrev (st.putNode a n) _ a

theorem nextOid_link (v : VertexKey) (a : Addr) (n : AdjNode) :
    (st.link v a n).nextOid = st.nextOid := Store.nextOid_setPrev (st.putNode a n) _ a

theorem Catalog.link (h : Catalog st) (v : VertexKey) (a : Addr) (n : AdjNode) :
    Catalog (st.link v a n) :=
  h.same (vlabel_link v a n) (format_link v a n) (nextOid_link v a n)

theorem vslot_link (hs : ∃ rec, st.vslot (w.1, headSlot w.2) = some rec) (v : VertexKey) (a : Addr)
    (n : AdjNode) : ∃ rec, (st.link v a n).vslot (w.1, headSlot w.2) = some rec := by
  obtain ⟨rec, hrec⟩ := hs
  unfold Store.link Store.setHead
  simp only [Store.vslot_setPrev, Function.update_apply]
  split
  · next he =>
    refine ⟨{ rec with eTblId := a.1, eItemptr := a.2 }, ?_⟩
    rw [← he]
    show Option.map _ (st.vslot _) = _
    rw [hrec]
    rfl
  · exact ⟨rec, hrec⟩

/-- Linking leaves every node alone but the new one and the old head. -/
theorem node_link_of_ne {b : Addr} (hb : b ≠ a) (hh : st.head v.1 v.2 ≠ some b) :
    (st.link v a n).node b = st.node b := by
  unfold Store.link Store.setPrev
  cases hd : st.head v.1 v.2 with
  | none => exact Function.update_of_ne hb ..
  | some h =>
    have hbh : b ≠ h := fun he => hh (by rw [hd, he])
    show Function.update _ _ _ _ = _
    rw [Function.update_of_ne hbh]
    exact Function.update_of_ne hb ..

end

/-! ## The three writes of `insert_edge_one_direction` -/

section

variable {db db' : Db} {s : Session} {ownerV otherV : Vertex} {e : Edge} {dir : Nat}

theorem updateOldHead_inv {u : Unit} {tbl tbl' : Oid} {tid tid' : ItemPointer}
    (h : (updateOldHead tbl tid tbl' tid').Runs db u db') :
    db'.store = db.store.setPrev (cursor tbl tid) (tbl', tid') := by
  unfold updateOldHead at h
  unfold cursor
  split at h
  · next hc =>
    obtain ⟨n, hn, hst⟩ := updatePrevPointer_inv h
    rw [hst, if_pos hc]
    simp only [Store.setPrev, hn, Option.map_some]
    rfl
  · next hc =>
    obtain ⟨-, rfl⟩ := Prog.runs_ret_iff.mp h
    rw [if_neg hc]
    rfl

theorem updateOldHead_runs {tbl : Oid} {tid : ItemPointer}
    (h : ∀ a, cursor tbl tid = some a → (db.store.node a).isSome) (tbl' : Oid)
    (tid' : ItemPointer) : ∃ db', (updateOldHead tbl tid tbl' tid').Runs db () db' := by
  unfold updateOldHead
  split
  · next hc =>
    obtain ⟨n, hn⟩ := Option.isSome_iff_exists.mp (h (tbl, tid) (if_pos hc))
    exact updatePrevPointer_runs hn tbl' tid'
  · exact ⟨db, Prog.runs_ret_iff.mpr ⟨rfl, rfl⟩⟩

theorem insertEdgeOneDirection_inv {u : Unit}
    (h : (insertEdgeOneDirection s ownerV otherV e dir).Runs db u db') :
    ∃ info o tid rec, db.store.vlabel ownerV.labelId = some info ∧
      activeLinkedList info.linkedListMeta = some o ∧ o ≠ 0 ∧
      db.store.format o = some .linkedList ∧ db.store.node (o, tid) = none ∧
      tid.isValid = true ∧ db.store.vslot (ownerV.labelId, headSlot ownerV.id) = some rec ∧
      db'.store = db.store.link ownerV.key (o, tid)
        (.linked (newLinkedListRecord s ownerV otherV e dir rec.eTblId rec.eItemptr)) := by
  obtain ⟨o, db₁, h₁, h⟩ := Prog.runs_bind_iff.mp h
  obtain ⟨⟨oldHeadTbl, oldHead⟩, db₂, h₂, h⟩ := Prog.runs_bind_iff.mp h
  obtain ⟨tid, db₃, h₃, h⟩ := Prog.runs_bind_iff.mp h
  obtain ⟨u', db₄, h₄, h₅⟩ := Prog.runs_bind_iff.mp h
  obtain ⟨rfl, info, hinfo, hact, hvalid⟩ := getActiveLinkedListOid_iff.mp h₁
  have hcur := readHead_cursor h₂
  obtain ⟨rfl, -, hp⟩ := readHead_iff.mp h₂
  obtain ⟨hfmt, hfresh, htid, hst₃⟩ := insertLinkedListRecord_inv h₃
  have hst₄ := updateOldHead_inv h₄
  rw [hcur, hst₃] at hst₄
  obtain ⟨rec, hrec, hst₅⟩ := writeHead_inv h₅
  have hslot : db₄.store.vslot = db₂.store.vslot := by
    rw [hst₄, Store.vslot_setPrev]
    rfl
  have hrec₂ : db₂.store.vslot (ownerV.labelId, headSlot ownerV.id) = some rec := by
    rw [← hslot]
    exact hrec
  rw [hrec₂] at hp
  obtain ⟨rfl, rfl⟩ := Prod.mk.inj hp
  have h0 : o ≠ 0 := by simpa [oidIsValid] using hvalid
  refine ⟨info, o, tid, rec, hinfo, hact, h0, hfmt, hfresh, htid, hrec₂, ?_⟩
  rw [hst₅, hst₄]
  rfl

/-- Linking succeeds for an owner whose slot is filled and whose head, if any, is a node. -/
theorem insertEdgeOneDirection_runs (hcat : Catalog db.store) {rec : NeoPhysMapRecord}
    (hl : (db.store.vlabel ownerV.labelId).isSome)
    (hs : db.store.vslot (ownerV.labelId, headSlot ownerV.id) = some rec)
    (hhead : ∀ a, db.store.head ownerV.labelId ownerV.id = some a → (db.store.node a).isSome)
    (s : Session) (otherV : Vertex) (e : Edge) (dir : Nat) :
    ∃ db', (insertEdgeOneDirection s ownerV otherV e dir).Runs db () db' := by
  obtain ⟨info, hinfo⟩ := Option.isSome_iff_exists.mp hl
  obtain ⟨old, cur, hmeta, hact, -⟩ := activeLinkedList_eq (hcat.rows _ _ hinfo)
  obtain ⟨hfmt, h0⟩ := hcat.partition _ _ hinfo cur (by rw [hmeta]; simp)
  have h₁ : (getActiveLinkedListOid ownerV.labelId).Runs db cur.tbl db :=
    getActiveLinkedListOid_iff.mpr ⟨rfl, info, hinfo, hact, by simp [oidIsValid, h0]⟩
  have h₂ : (readHead ownerV.labelId ownerV.id).Runs db (rec.eTblId, rec.eItemptr) db :=
    readHead_iff.mpr ⟨rfl, hl, by rw [hs]⟩
  obtain ⟨tid, db₃, h₃⟩ := insertLinkedListRecord_runs hfmt
    (newLinkedListRecord s ownerV otherV e dir rec.eTblId rec.eItemptr)
  obtain ⟨-, -, -, hst₃⟩ := insertLinkedListRecord_inv h₃
  have hnode : ∀ a, cursor rec.eTblId rec.eItemptr = some a → (db₃.store.node a).isSome := by
    intro a ha
    have hh : db.store.head ownerV.labelId ownerV.id = some a := by
      unfold Store.head
      rw [hs]
      exact ha
    rw [hst₃]
    by_cases he : a = (cur.tbl, tid)
    · rw [he]
      simp
    · simpa [he] using hhead a hh
  obtain ⟨db₄, h₄⟩ := updateOldHead_runs hnode cur.tbl tid
  have hslot : db₄.store.vslot = db.store.vslot := by
    rw [updateOldHead_inv h₄, Store.vslot_setPrev, hst₃]
    rfl
  obtain ⟨db₅, h₅⟩ := writeHead_runs (by rw [hslot]; exact hs) cur.tbl tid
  exact ⟨db₅, h₁.bind (h₂.bind (h₃.bind (h₄.bind h₅)))⟩

end

/-! ## The steps of an insert -/

section

variable {db db' : Db} {s : Session} {u : Unit}

theorem npInternalInsertVertex_inv {v : Vertex} {props : Gtype}
    (h : (npInternalInsertVertex s v props).Runs db u db') :
    ∃ tid, (db.store.vlabel v.labelId).isSome ∧ db.store.vtuple (v.labelId, tid) = none ∧
      tid.isValid = true ∧
      (∀ tid' t, db.store.vtuple (v.labelId, tid') = some t → tid'.Before tid) ∧
      Placed db.store.vslot db'.store.vslot v.labelId (entitySlot v.id)
        (pageCapacity sizeOfNeoPhysMapRecord) emptyPad ⟨tid, 0, .invalid, .invalid⟩ ∧
      db'.store = { db.store with
        vtuple := Function.update db.store.vtuple (v.labelId, tid)
          (some (newEntityTuple s v.id .invalid v props))
        vslot := db'.store.vslot } := by
  obtain ⟨tid, db₁, h₁, h₂⟩ := Prog.runs_bind_iff.mp h
  obtain ⟨hl, -, hfresh, hv, hbefore, hst₁⟩ := writeVertexTuple_inv h₁
  obtain ⟨-, hplaced, hst₂⟩ := placeVertexSlot_inv h₂
  rw [hst₁] at hplaced hst₂
  exact ⟨tid, hl, hfresh, hv, hbefore, hplaced, hst₂⟩

theorem npInternalInsertEdge_inv {x : Unspecified} {startV endV : Vertex} {e : Edge}
    {props : Gtype} (h : (npInternalInsertEdge x s startV endV e props).Runs db u db') :
    ∃ tid db₁ db₂, db.store.elabel e.labelId = true ∧ db.store.etuple (e.labelId, tid) = none ∧
      tid.isValid = true ∧
      (∀ tid' t, db.store.etuple (e.labelId, tid') = some t → tid'.Before tid) ∧
      Placed db.store.eslot db₁.store.eslot e.labelId (edgeSlot e.id)
        (pageCapacity sizeOfNeoEdgePhysMapRecord) emptyEdgePad ⟨tid, x.stackItemptr e⟩ ∧
      db₁.store = { db.store with
        etuple := Function.update db.store.etuple (e.labelId, tid)
          (some (newEntityTuple s e.id .invalid e props))
        eslot := db₁.store.eslot } ∧
      (insertEdgeOneDirection s startV endV e 0).Runs db₁ () db₂ ∧
      (insertEdgeOneDirection s endV startV e 1).Runs db₂ () db' := by
  obtain ⟨tid, db₀, h₀, h⟩ := Prog.runs_bind_iff.mp h
  obtain ⟨u₁, db₁, h₁, h⟩ := Prog.runs_bind_iff.mp h
  obtain ⟨u₂, db₂, h₂, h₃⟩ := Prog.runs_bind_iff.mp h
  obtain ⟨hl, -, hfresh, hv, hbefore, hst₀⟩ := writeEdgeTuple_inv h₀
  obtain ⟨-, hplaced, hst₁⟩ := setEdgeSlot_inv h₁
  rw [hst₀] at hplaced hst₁
  exact ⟨tid, db₁, db₂, hl, hfresh, hv, hbefore, hplaced, hst₁, h₂, h₃⟩

end

end NeoPostGraph
