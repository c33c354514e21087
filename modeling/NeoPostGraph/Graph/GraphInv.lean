import NeoPostGraph.Graph.AdjRun
import NeoPostGraph.Graph.EntityTable

/-!
# The invariant of a graph

What holds between operations, whatever they were and however they ended: every vertex has a chain
with a layout, entity tables and slots fit together, and edges lie between vertices.

* `GraphInv base V st`: the invariant, for the vertices `V` inserted so far.
* `FreshVertex`, `FreeEdge`: what a session has to find before it inserts under an id.

Results: one lemma for each kind of write, `GraphInv.link`, `GraphInv.stamp`, `GraphInv.stampEdge`,
`GraphInv.stampVertex`, `GraphInv.writeEdge`, `GraphInv.insertVertex`, `GraphInv.clearSlot`, and one
for transactions that begin and end, `GraphInv.later`.
-/

namespace NeoPostGraph

open SlottedPage LinkedChain

/-- The vertex of a key has been inserted. -/
def Store.HasVertex (st : Store) (k : VertexKey) : Prop :=
  ∃ tid t, st.vtuple (k.1, tid) = some t ∧ t.hdr.id = k.2

/-- What holds of the vertices of a label. -/
def VertexOk (l id : Nat) (v : Vertex) (props : Gtype) : Prop :=
  v.key = (l, id) ∧ Fits (totalTupleSize sizeOfVertex props)

/-- What holds of the edges of a label, between the vertices `V`. -/
structure EdgeOk (V : List VertexKey) (l id : Nat) (e : Edge) (props : Gtype) : Prop where
  label : e.labelId = l
  id_eq : e.id = id
  startMem : e.startKey ∈ V
  endMem : e.endKey ∈ V
  fits : Fits (totalTupleSize sizeOfEdge props)

/-- The invariant of a graph. -/
structure GraphInv (base : Nat) (V : List VertexKey) (st : Store) : Prop where
  base_le : base ≤ st.xacts.nextFxid
  room : st.xacts.nextFxid ≤ base + 2 ^ 31
  normal : firstNormalTransactionId ≤ xidFromFull st.xacts.nextFxid
  layout : GraphLayout st V
  mem : ∀ k, k ∈ V ↔ st.HasVertex k
  vertex : ∀ l, TableOk base st.xacts entitySlot (VertexOk l) (fun tid => st.vtuple (l, tid))
    (st.vertexPtr l)
  edge : ∀ l, TableOk base st.xacts edgeSlot (EdgeOk V l) (fun tid => st.etuple (l, tid))
    (st.edgePtr l)

/-- The id has no vertex yet, and its slot, on whose place both computations agree, is no other
vertex's. -/
def FreshVertex (st : Store) (l id : Nat) : Prop :=
  headSlot id = entitySlot id ∧
    ∀ k, st.HasVertex k → k.1 = l → headSlot k.2 ≠ headSlot id

/-- Transaction `t` may write an edge of this id. -/
def FreeEdge (st : Store) (t l id : Nat) : Prop :=
  Free st.xacts t id edgeSlot fun tid => st.etuple (l, tid)

/-- Two stores with the same entities, whatever their labels and chains. -/
structure SameTuples (st st' : Store) : Prop where
  xacts : st'.xacts = st.xacts
  vtuple : st'.vtuple = st.vtuple
  vertexPtr : ∀ l k, st'.vertexPtr l k = st.vertexPtr l k
  etuple : st'.etuple = st.etuple
  eslot : st'.eslot = st.eslot

section

variable {base l id : Nat} {V : List VertexKey} {st st' st'' : Store} {s : Session}

theorem SameTuples.refl (st : Store) : SameTuples st st := ⟨rfl, rfl, fun _ _ => rfl, rfl, rfl⟩

theorem SameTuples.trans (h : SameTuples st st') (h' : SameTuples st' st'') : SameTuples st st'' :=
  ⟨h'.xacts.trans h.xacts, h'.vtuple.trans h.vtuple,
    fun l k => (h'.vertexPtr l k).trans (h.vertexPtr l k), h'.etuple.trans h.etuple,
    h'.eslot.trans h.eslot⟩

theorem SameEntities.tuples (h : SameEntities st st') : SameTuples st st' :=
  ⟨h.xacts, h.vtuple, h.vertexPtr, h.etuple, h.eslot⟩

theorem SameTuples.edgePtr (h : SameTuples st st') (l : Nat) : st'.edgePtr l = st.edgePtr l := by
  unfold Store.edgePtr
  rw [h.eslot]

theorem SameTuples.hasVertex (h : SameTuples st st') (k : VertexKey) :
    st'.HasVertex k ↔ st.HasVertex k := by
  unfold Store.HasVertex
  rw [h.vtuple]

theorem SameTuples.freeEdge (h : SameTuples st st') {t : Nat} :
    FreeEdge st' t l id ↔ FreeEdge st t l id := by
  unfold FreeEdge
  rw [h.xacts, h.etuple]

theorem EdgeOk.mono {e : Edge} {props : Gtype} {V' : List VertexKey} (h : EdgeOk V l id e props)
    (hV : ∀ k ∈ V, k ∈ V') : EdgeOk V' l id e props :=
  ⟨h.label, h.id_eq, hV _ h.startMem, hV _ h.endMem, h.fits⟩

theorem GraphInv.room_le (h : GraphInv base V st) : st.xacts.nextFxid ≤ base + 2 ^ 32 := by
  have := h.room
  omega

/-! ## Adjacency writes -/

/-- A write that leaves the entities alone. -/
theorem GraphInv.same (h : GraphInv base V st) (hs : SameTuples st st') (hl : GraphLayout st' V) :
    GraphInv base V st' := by
  refine ⟨?_, ?_, ?_, hl, fun k => (h.mem k).trans (hs.hasVertex k).symm, fun l => ?_, fun l => ?_⟩
  · rw [hs.xacts]
    exact h.base_le
  · rw [hs.xacts]
    exact h.room
  · rw [hs.xacts]
    exact h.normal
  · rw [hs.xacts, hs.vtuple, show st'.vertexPtr l = st.vertexPtr l from funext (hs.vertexPtr l)]
    exact h.vertex l
  · rw [hs.xacts, hs.etuple, hs.edgePtr]
    exact h.edge l

theorem GraphInv.stamp (h : GraphInv base V st) (s : Session) (p : Position) :
    GraphInv base V (st.stamp s p) :=
  h.same (sameEntities_stamp st s p).tuples (h.layout.stamp s p)

theorem sameTuples_of_link {db db' : Db} {ownerV otherV : Vertex} {e : Edge} {dir : Nat} {u : Unit}
    (hr : (insertEdgeOneDirection s ownerV otherV e dir).Runs db u db') :
    SameTuples db.store db'.store := by
  have hk := (insertEdgeOneDirection_keeps (I := fun st => SameTuples db.store st)
    (fun _ _ hI hs => hI.trans hs.tuples) s ownerV otherV e dir).exec (SameTuples.refl db.store)
  rw [hr] at hk
  exact hk

/-- **Linking at a vertex always succeeds, and keeps the invariant.** -/
theorem GraphInv.link {db : Db} (h : GraphInv base V db.store) {ownerV : Vertex}
    (hmem : ownerV.key ∈ V) (s : Session) (otherV : Vertex) (e : Edge) (dir : Nat) :
    ∃ db', (insertEdgeOneDirection s ownerV otherV e dir).Runs db () db' ∧
      SameTuples db.store db'.store ∧ GraphInv base V db'.store := by
  obtain ⟨db', hr, hl⟩ := h.layout.link_runs hmem s otherV e dir
  exact ⟨db', hr, sameTuples_of_link hr, h.same (sameTuples_of_link hr) hl⟩

/-! ## Stamps of entities -/

/-- **Stamping an edge tuple that may be superseded keeps the invariant.** -/
theorem GraphInv.stampEdge (h : GraphInv base V st) (hs : st.xacts.Open base s.fxid)
    {tid : ItemPointer} {t : EntityTuple Edge} (ht : st.etuple (l, tid) = some t)
    (hup : Updatable st.xacts s.own t) : GraphInv base V (st.stampEdge s l tid t) := by
  refine ⟨h.base_le, h.room, h.normal, h.layout.same rfl rfl rfl rfl rfl, h.mem, h.vertex,
    fun l' => ?_⟩
  show TableOk _ _ _ _ (fun tid' => Function.update st.etuple (l, tid) _ (l', tid')) _
  by_cases hl : l' = l
  · subst hl
    rw [update_label_self]
    exact (h.edge l').stamp h.room_le hs ht hup
  · rw [update_label_ne _ hl]
    exact h.edge l'

/-- A stamp on a vertex tuple takes no vertex away. -/
theorem hasVertex_stampTuple {tid : ItemPointer} {t : EntityTuple Vertex}
    (ht : st.vtuple (l, tid) = some t) (k : VertexKey) :
    ({ st with vtuple := Function.update st.vtuple (l, tid) (some (stampTuple s t)) } : Store).HasVertex
      k ↔ st.HasVertex k := by
  constructor
  · rintro ⟨tid', t', ht', hid⟩
    change Function.update st.vtuple (l, tid) _ (k.1, tid') = _ at ht'
    by_cases hk : (k.1, tid') = (l, tid)
    · rw [hk, Function.update_self] at ht'
      obtain rfl := Option.some.inj ht'
      exact ⟨tid', t, by rw [hk]; exact ht, hid⟩
    · rw [Function.update_of_ne hk] at ht'
      exact ⟨tid', t', ht', hid⟩
  · rintro ⟨tid', t', ht', hid⟩
    by_cases hk : (k.1, tid') = (l, tid)
    · rw [hk, ht] at ht'
      obtain rfl := Option.some.inj ht'
      exact ⟨tid', stampTuple s t, by rw [hk]; exact Function.update_self .., hid⟩
    · exact ⟨tid', t', (Function.update_of_ne hk ..).trans ht', hid⟩

/-- **Stamping a vertex tuple that may be superseded keeps the invariant.** -/
theorem GraphInv.stampVertex (h : GraphInv base V st) (hs : st.xacts.Open base s.fxid)
    {tid : ItemPointer} {t : EntityTuple Vertex} (ht : st.vtuple (l, tid) = some t)
    (hup : Updatable st.xacts s.own t) :
    GraphInv base V
      { st with vtuple := Function.update st.vtuple (l, tid) (some (stampTuple s t)) } := by
  refine ⟨h.base_le, h.room, h.normal, h.layout.same rfl rfl rfl rfl rfl,
    fun k => (h.mem k).trans (hasVertex_stampTuple ht k).symm, fun l' => ?_, h.edge⟩
  show TableOk _ _ _ _ (fun tid' => Function.update st.vtuple (l, tid) _ (l', tid')) _
  by_cases hl : l' = l
  · subst hl
    rw [update_label_self]
    exact (h.vertex l').stamp h.room_le hs ht hup
  · rw [update_label_ne _ hl]
    exact h.vertex l'

/-! ## New tuples -/

theorem Repointed.cases {slot slot' : ItemPointer → Option ItemPointer} {k p : ItemPointer}
    {capacity : Nat} (h : Repointed slot slot' k p capacity) (j q : ItemPointer)
    (hq : slot' j = some q) : slot j = some q ∨ q.isValid = false ∨ j = k ∧ q = p := by
  by_cases hj : j = k
  · subst hj
    rw [h.self] at hq
    split at hq
    · exact Or.inr (Or.inr ⟨rfl, (Option.some.inj hq).symm⟩)
    · cases hq
  · rcases h.other j hj with he | ⟨-, q', he, hv⟩
    · exact Or.inl (he ▸ hq)
    · rw [he] at hq
      rw [← Option.some.inj hq]
      exact Or.inr (Or.inl hv)

/-- Pads of a map are no pointers. -/
theorem padded_cases {slot slot' : ItemPointer → Option ItemPointer}
    (h : ∀ j, slot' j = slot j ∨ slot j = none ∧ ∃ q, slot' j = some q ∧ q.isValid = false)
    (j q : ItemPointer) (hq : slot' j = some q) : slot j = some q ∨ q.isValid = false := by
  rcases h j with he | ⟨-, q', he, hv⟩
  · exact Or.inl (he ▸ hq)
  · rw [he] at hq
    rw [← Option.some.inj hq]
    exact Or.inr hv

/-- **Writing an edge under a free id, and setting its slot, keeps the invariant.** -/
theorem GraphInv.writeEdge (h : GraphInv base V st) (hs : st.xacts.Begun base s.fxid)
    {tid prev a : ItemPointer} {e : Edge} {props : Gtype} (hok : EdgeOk V l id e props)
    (hfree : FreeEdge st s.fxid l id) (hv : tid.isValid = true) (hnone : st.etuple (l, tid) = none)
    {eslot : Nat × ItemPointer → Option NeoEdgePhysMapRecord}
    (hplaced : Placed st.eslot eslot l (edgeSlot id) (pageCapacity sizeOfNeoEdgePhysMapRecord)
      emptyEdgePad ⟨tid, a⟩) :
    GraphInv base V { st with
      etuple := Function.update st.etuple (l, tid) (some (newEntityTuple s id prev e props))
      eslot := eslot } := by
  refine ⟨h.base_le, h.room, h.normal, h.layout.same rfl rfl rfl rfl rfl, h.mem, h.vertex,
    fun l' => ?_⟩
  show TableOk _ _ _ _ (fun tid' => Function.update st.etuple (l, tid) _ (l', tid'))
    fun k => (eslot (l', k)).map NeoEdgePhysMapRecord.eItemptr
  by_cases hl : l' = l
  · subst hl
    rw [update_label_self]
    exact (h.edge l').write hs hv hnone hok hfree
      (hplaced.repointed NeoEdgePhysMapRecord.eItemptr rfl).cases
  · rw [update_label_ne _ hl]
    exact (h.edge l').repoint
      (padded_cases (hplaced.padded hl NeoEdgePhysMapRecord.eItemptr rfl))

/-- A new vertex is one more. -/
theorem hasVertex_write {tid : ItemPointer} {t : EntityTuple Vertex}
    (hnone : st.vtuple (l, tid) = none) {vslot : Nat × ItemPointer → Option NeoPhysMapRecord}
    (k : VertexKey) :
    ({ st with vtuple := Function.update st.vtuple (l, tid) (some t), vslot := vslot } :
      Store).HasVertex k ↔ k = (l, t.hdr.id) ∨ st.HasVertex k := by
  constructor
  · rintro ⟨tid', t', ht', hid⟩
    change Function.update st.vtuple (l, tid) _ (k.1, tid') = _ at ht'
    by_cases hk : (k.1, tid') = (l, tid)
    · rw [hk, Function.update_self] at ht'
      obtain rfl := Option.some.inj ht'
      exact Or.inl (Prod.ext (Prod.mk.inj hk).1 hid.symm)
    · rw [Function.update_of_ne hk] at ht'
      exact Or.inr ⟨tid', t', ht', hid⟩
  · rintro (rfl | ⟨tid', t', ht', hid⟩)
    · exact ⟨tid, t, Function.update_self .., rfl⟩
    · refine ⟨tid', t', (Function.update_of_ne (fun hk => ?_) ..).trans ht', hid⟩
      rw [hk, hnone] at ht'
      cases ht'

/-- The slots of a graph's vertices are apart from that of a fresh one. -/
theorem FreshVertex.free (hf : FreshVertex st l id) (h : GraphInv base V st) (t : Nat) :
    Free st.xacts t id entitySlot fun tid => st.vtuple (l, tid) := by
  intro p u hu hslot
  have hk : st.HasVertex (l, u.hdr.id) := ⟨p, u, hu, rfl⟩
  have hag := h.layout.agree _ ((h.mem _).mpr hk)
  exact absurd (hag.trans (hslot.trans hf.1.symm)) (hf.2 _ hk rfl)

/-- **Inserting a vertex under a fresh id keeps the invariant.** -/
theorem GraphInv.insertVertex {db db' : Db} {v : Vertex} {props : Gtype} {u : Unit}
    (h : GraphInv base V db.store) (hs : db.store.xacts.Begun base s.fxid)
    (hfresh : FreshVertex db.store v.labelId v.id)
    (hr : (NeoPostGraph.insertVertex s v props).Runs db u db') :
    GraphInv base (v.key :: V) db'.store := by
  have hlayout := h.layout.vertex hfresh.1
    (fun w hw hl => hfresh.2 w ((h.mem w).mp hw) hl) hr
  obtain ⟨tid, db₁, h₁, -⟩ := Prog.runs_bind_iff.mp hr
  obtain ⟨-, hfits, -⟩ := writeVertexTuple_inv h₁
  obtain ⟨tid, -, hnone, hv, -, hplaced, hst⟩ := npInternalInsertVertex_inv hr
  have hx : db'.store.xacts = db.store.xacts := by rw [hst]
  refine ⟨by rw [hx]; exact h.base_le, by rw [hx]; exact h.room, by rw [hx]; exact h.normal,
    hlayout, fun k => ?_, fun l => ?_, fun l => ?_⟩
  · rw [hst, hasVertex_write hnone, List.mem_cons, h.mem]
    rfl
  · have hvt : db'.store.vtuple = Function.update db.store.vtuple (v.labelId, tid)
        (some (newEntityTuple s v.id .invalid v props)) := by rw [hst]
    rw [hx, hvt]
    by_cases hl : l = v.labelId
    · subst hl
      rw [update_label_self]
      exact (h.vertex v.labelId).write hs hv hnone ⟨rfl, hfits⟩ (hfresh.free h s.fxid)
        (hplaced.repointed NeoPhysMapRecord.vItemptr rfl).cases
    · rw [update_label_ne _ hl]
      exact (h.vertex l).repoint (padded_cases (hplaced.padded hl NeoPhysMapRecord.vItemptr rfl))
  · have het : db'.store.etuple = db.store.etuple := by rw [hst]
    have hes : db'.store.edgePtr l = db.store.edgePtr l := by
      unfold Store.edgePtr
      rw [hst]
    rw [hx, het, hes]
    exact (h.edge l).mono fun _ _ _ hok => hok.mono fun k hk => List.mem_cons_of_mem _ hk

/-! ## Slots and sequences -/

/-- A write to a vertex slot that keeps its head. -/
structure SameHeads (st st' : Store) : Prop where
  head : ∀ l id, st'.head l id = st.head l id
  slot : ∀ k, (∃ rec, st.vslot k = some rec) → ∃ rec, st'.vslot k = some rec

theorem sameHeads_update {k : Nat × ItemPointer} {rec rec' : NeoPhysMapRecord}
    (hrec : st.vslot k = some rec) (htbl : rec'.eTblId = rec.eTblId)
    (hptr : rec'.eItemptr = rec.eItemptr)
    (hst : st'.vslot = Function.update st.vslot k (some rec')) : SameHeads st st' where
  head l id := by
    unfold Store.head
    rw [hst, Function.update_apply]
    split
    · next he => rw [he, hrec, Option.bind_some, Option.bind_some, htbl, hptr]
    · rfl
  slot j hj := by
    rw [hst, Function.update_apply]
    split
    · exact ⟨rec', rfl⟩
    · exact hj

theorem Layout.heads {v : VertexKey} {ls : LinkedPath} {bs : BlockPath} (h : Layout st v ls bs)
    (hl : st'.vlabel = st.vlabel) (hn : st'.node = st.node) (hs : SameHeads st st') :
    Layout st' v ls bs where
  slot := hs.slot _ h.slot
  path := by
    have hp := h.path
    unfold Store.Path at hp ⊢
    rw [hs.head, hn]
    exact hp
  linked x hx := by
    obtain ⟨ho, hok, hlive⟩ := h.linked x hx
    exact ⟨ho, hok, (SameLabels.of_eq hl).live _ _ hlive⟩
  ordered := ordered_congr h.ordered rfl fun x hx =>
    (SameLabels.of_eq hl).rank _ _ (h.linked x hx).2.2
  prevs := h.prevs
  blocks x hx := by
    obtain ⟨ho, ha⟩ := h.blocks x hx
    exact ⟨ho, (SameLabels.of_eq hl).array _ _ ha⟩

theorem GraphLayout.heads (h : GraphLayout st V) (hl : st'.vlabel = st.vlabel)
    (hf : st'.format = st.format) (ho : st'.nextOid = st.nextOid) (hn : st'.node = st.node)
    (hs : SameHeads st st') : GraphLayout st' V := by
  refine ⟨h.catalog.same hl hf ho, h.agree, h.slots, fun v hv => ?_, fun l a rec hlive hnode => ?_⟩
  · obtain ⟨ls, bs, hlay⟩ := h.chain v hv
    exact ⟨ls, bs, hlay.heads hl hn hs⟩
  · unfold Store.LivePartition at hlive
    rw [hl] at hlive
    rw [hn] at hnode
    obtain ⟨hin, hon⟩ := h.cover l a rec hlive hnode
    obtain ⟨ls, bs, hlay⟩ := h.chain _ hin
    refine ⟨hin, fun ls' bs' hlay' => ?_⟩
    rw [(hlay'.unique (hlay.heads hl hn hs)).1]
    exact hon ls bs hlay

/-- **Clearing the vertex pointer of a slot keeps the invariant.** -/
theorem GraphInv.clearSlot (h : GraphInv base V st) {k : ItemPointer} {rec : NeoPhysMapRecord}
    (hrec : st.vslot (l, k) = some rec) :
    GraphInv base V { st with
      vslot := Function.update st.vslot (l, k) (some { rec with vItemptr := .invalid }) } := by
  have hheads : SameHeads st { st with
      vslot := Function.update st.vslot (l, k) (some { rec with vItemptr := .invalid }) } :=
    sameHeads_update hrec (by rfl) (by rfl) rfl
  refine ⟨h.base_le, h.room, h.normal, h.layout.heads rfl rfl rfl rfl hheads, h.mem,
    fun l' => ?_, h.edge⟩
  refine (h.vertex l').repoint fun j q hq => ?_
  change (Function.update st.vslot (l, k) _ (l', j)).map _ = some q at hq
  by_cases hk : (l', j) = (l, k)
  · rw [hk, Function.update_self] at hq
    rw [← Option.some.inj hq]
    exact Or.inr rfl
  · rw [Function.update_of_ne hk] at hq
    exact Or.inl hq

/-- The same partitions and array list for every label. -/
structure SameParts (st st' : Store) : Prop where
  keeps : ∀ l info, st.vlabel l = some info → ∃ info', st'.vlabel l = some info' ∧
    info'.arraylist = info.arraylist ∧ info'.linkedListMeta = info.linkedListMeta
  came : ∀ l info', st'.vlabel l = some info' → ∃ info, st.vlabel l = some info ∧
    info'.arraylist = info.arraylist ∧ info'.linkedListMeta = info.linkedListMeta ∧
    info'.linkedListSeq = info.linkedListSeq

theorem SameParts.live (h : SameParts st st') {o : Oid} :
    st'.LivePartition l o ↔ st.LivePartition l o := by
  constructor
  · rintro ⟨info', hi, row, hrow, he⟩
    obtain ⟨info, hinfo, -, hm, -⟩ := h.came l info' hi
    exact ⟨info, hinfo, row, hm ▸ hrow, he⟩
  · rintro ⟨info, hi, row, hrow, he⟩
    obtain ⟨info', hinfo', -, hm⟩ := h.keeps l info hi
    exact ⟨info', hinfo', row, by rw [hm]; exact hrow, he⟩

theorem SameParts.labels (h : SameParts st st') : SameLabels st st' where
  live l o := h.live.mpr
  rank l o hl := by
    obtain ⟨info, hi, -⟩ := hl
    obtain ⟨info', hi', -, hm⟩ := h.keeps l info hi
    unfold Store.rank
    rw [hi, hi', Option.bind_some, Option.bind_some, hm]
  array l o := by
    rintro ⟨info, hi, he⟩
    obtain ⟨info', hi', ha, -⟩ := h.keeps l info hi
    exact ⟨info', hi', ha.trans he⟩

theorem GraphLayout.sameParts (h : GraphLayout st V) (hp : SameParts st st')
    (hf : st'.format = st.format) (ho : st'.nextOid = st.nextOid) (hs : st'.vslot = st.vslot)
    (hn : st'.node = st.node) : GraphLayout st' V := by
  refine h.newPartitions (h.catalog.congr (fun l info' hi => ?_) hf ho) hs hn hp.labels
    fun l a _ hl => hp.live.mp hl
  obtain ⟨info, hinfo, ha, hm, hq⟩ := hp.came l info' hi
  refine ⟨info, hinfo, ha, ?_, fun row hrow => ⟨row, hm ▸ hrow, rfl⟩⟩
  rw [hm, hq]
  exact h.catalog.rows l info hinfo

/-- **Drawing a vertex id keeps the invariant.** -/
theorem GraphInv.nextVertexId {db db' : Db} (h : GraphInv base V db.store)
    (hr : (NeoPostGraph.nextVertexId l).Runs db id db') :
    GraphInv base V db'.store ∧ SameTuples db.store db'.store ∧
      ∃ info, db.store.vlabel l = some info ∧ info.vertexIdSeq = id := by
  obtain ⟨lab, lab', hlab, hf, rfl⟩ := runs_onVertexLabel.mp hr
  obtain ⟨rfl, rfl⟩ := Prod.mk.inj (Except.ok.inj hf)
  have hinfo : db.store.vlabel l = some lab.info := store_vlabel hlab
  have hst : (db.setVertexLabel l { lab with vertexIdSeq := lab.vertexIdSeq + 1 }).store = _ :=
    store_setInfo hlab rfl rfl
  have hsame : SameTuples db.store
      (db.setVertexLabel l { lab with vertexIdSeq := lab.vertexIdSeq + 1 }).store := by
    rw [hst]
    exact ⟨rfl, rfl, fun _ _ => rfl, rfl, rfl⟩
  refine ⟨h.same hsame ?_, hsame, _, hinfo, rfl⟩
  rw [hst]
  refine h.layout.sameParts ⟨fun l' info hi => ?_, fun l' info' hi => ?_⟩ rfl rfl rfl rfl
  · by_cases hl : l' = l
    · subst hl
      obtain rfl := Option.some.inj (hinfo.symm.trans hi)
      exact ⟨_, Function.update_self .., rfl, rfl⟩
    · exact ⟨info, (Function.update_of_ne hl ..).trans hi, rfl, rfl⟩
  · change Function.update db.store.vlabel l _ l' = _ at hi
    by_cases hl : l' = l
    · subst hl
      rw [Function.update_self] at hi
      rw [← Option.some.inj hi]
      exact ⟨_, hinfo, rfl, rfl, rfl⟩
    · rw [Function.update_of_ne hl] at hi
      exact ⟨info', hi, rfl, rfl, rfl⟩

/-- Transactions may begin and end. -/
theorem GraphInv.later {x : XactState} (h : GraphInv base V st)
    (hl : XactState.Later base st.xacts x) (hs : XactState.Settles base st.xacts x)
    (hroom : x.nextFxid ≤ base + 2 ^ 31)
    (hnormal : firstNormalTransactionId ≤ xidFromFull x.nextFxid) :
    GraphInv base V { st with xacts := x } :=
  ⟨Nat.le_trans h.base_le hl.next_le, hroom, hnormal, h.layout.same rfl rfl rfl rfl rfl, h.mem,
    fun l => (h.vertex l).later hl hs, fun l => (h.edge l).later hl hs⟩

theorem graphInv_empty (status : Nat → XidStatus)
    (hbase : firstNormalTransactionId ≤ xidFromFull base) :
    GraphInv base [] (Db.empty ⟨base, status⟩).store := by
  refine ⟨Nat.le_refl _, Nat.le_add_right _ _, hbase, graphLayout_empty _, fun k => ?_,
    fun _ => tableOk_empty _ _ _ _, fun _ => tableOk_empty _ _ _ _⟩
  refine ⟨fun hk => absurd hk List.not_mem_nil, ?_⟩
  rintro ⟨tid, t, ht, -⟩
  cases ht

end

end NeoPostGraph
