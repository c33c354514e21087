import NeoPostGraph.Graph.Adjacency

/-!
# Chains under inserts and rotations

Runs of committed `insert_edge` calls, with the vertex inserts before them and rotations between
them. `InsertRun` keeps a log beside the state: for each vertex the adjacency members its edges
gave it, newest first.

The vertices need not have consistent slots. An edge at a vertex whose head slot is another one's
(`headSlot_eq_entitySlot_iff`) disturbs that one's chain, so the result is about the vertices whose
slot only they address, in the one way (`SlotConsistent`).

Results:
* `ChainOf.link`, `ChainOf.link_other`: one record added to one chain.
* `insertRun_chain`: the chain of a vertex is its log.
-/

namespace NeoPostGraph

open SlottedPage LinkedChain

/-! ## The records of a vertex -/

/-- The relation is a partition of the label. -/
def Store.PartitionOf (st : Store) (l : Nat) (o : Oid) : Prop :=
  ∃ info, st.vlabel l = some info ∧ ∃ row ∈ info.linkedListMeta, row.tbl = o

/-- The address holds an adjacency record of this vertex: its owner id, in a partition of its
label. -/
def Store.RecordOf (st : Store) (v : VertexKey) (a : Addr) : Prop :=
  ∃ rec, st.node a = some (.linked rec) ∧ rec.ownerId = v.2 ∧ st.PartitionOf v.1 a.1

/-- The chain of `v` visits the records of `v` and no others, and holds the members of the log. -/
structure ChainOf (st : Store) (v : VertexKey) (log : List AdjListMember) (p : NodePath) :
    Prop where
  slot : ∃ rec, st.vslot (v.1, headSlot v.2) = some rec
  path : st.Path v p
  members : p.map (fun x => x.2.members) = log.map fun m => [m]
  owned : ∀ a, a ∈ p.map Prod.fst ↔ st.RecordOf v a

section

variable {st : Store} {v w : VertexKey} {a : Addr} {rec : NeoLinkedListRecord}
  {log : List AdjListMember} {p : NodePath}

/-- **Linking a record adds it to the records of its owner**, and to no other vertex's. -/
theorem recordOf_link (hcat : Catalog st) (hpart : st.PartitionOf v.1 a.1)
    (howner : rec.ownerId = v.2) (hfresh : st.node a = none) (b : Addr) :
    (st.link v a (.linked rec)).RecordOf w b ↔ st.RecordOf w b ∨ w = v ∧ b = a := by
  unfold Store.RecordOf Store.PartitionOf
  rw [vlabel_link]
  have hkeep : ∀ r : NeoLinkedListRecord,
      Function.update st.node a (some (.linked rec)) b = some (.linked r) →
      ∃ r', (st.link v a (.linked rec)).node b = some (.linked r') ∧ r'.ownerId = r.ownerId := by
    intro r hr
    rcases node_link v a (.linked rec) b with h | h <;> rw [h, hr]
    · exact ⟨r, rfl, rfl⟩
    · exact ⟨_, rfl, rfl⟩
  constructor
  · rintro ⟨r, hr, how, hp⟩
    have hold : ∃ r', Function.update st.node a (some (.linked rec)) b = some (.linked r') ∧
        r'.ownerId = w.2 := by
      rcases node_link v a (.linked rec) b with h | h <;> rw [h] at hr
      · exact ⟨r, hr, how⟩
      · obtain ⟨n, hn, hset⟩ := Option.map_eq_some_iff.mp hr
        cases n with
        | block x => cases hset
        | linked r' =>
          refine ⟨r', hn, ?_⟩
          rw [← how, ← AdjNode.linked.inj hset]
    obtain ⟨r', hr', how'⟩ := hold
    by_cases hb : b = a
    · subst hb
      rw [Function.update_self] at hr'
      obtain rfl := AdjNode.linked.inj (Option.some.inj hr')
      obtain ⟨i₁, hi₁, row₁, hrow₁, ht₁⟩ := hp
      obtain ⟨i₂, hi₂, row₂, hrow₂, ht₂⟩ := hpart
      have hlab := hcat.partition_inj _ _ _ _ hi₁ hi₂ _ hrow₁ _ hrow₂ (ht₁.trans ht₂.symm)
      exact Or.inr ⟨Prod.ext hlab (how'.symm.trans howner), rfl⟩
    · rw [Function.update_of_ne hb] at hr'
      exact Or.inl ⟨r', hr', how', hp⟩
  · rintro (⟨r, hr, how, hp⟩ | ⟨rfl, rfl⟩)
    · have hb : b ≠ a := by
        rintro rfl
        rw [hfresh] at hr
        cases hr
      obtain ⟨r', hr', how'⟩ := hkeep r (by rw [Function.update_of_ne hb, hr])
      exact ⟨r', hr', how'.trans how, hp⟩
    · obtain ⟨r', hr', how'⟩ := hkeep rec (Function.update_self ..)
      exact ⟨r', hr', how'.trans howner, hpart⟩

/-- A member more in the log of the owner, a node more in front of its chain. -/
theorem ChainOf.link (h : ChainOf st v log p) (hcat : Catalog st) (hpart : st.PartitionOf v.1 a.1)
    (howner : rec.ownerId = v.2) (hfresh : st.node a = none) (h0 : a.1 ≠ 0)
    (hv : a.2.isValid = true) (hnext : (AdjNode.linked rec).next a = st.head v.1 v.2) :
    ChainOf (st.link v a (.linked rec)) v (rec.toMember :: log)
      ((a, .linked rec) :: relinked (st.head v.1 v.2) a p) := by
  have hne : st.head v.1 v.2 ≠ some a := by
    intro he
    have hp := h.path
    unfold Store.Path at hp
    rw [he] at hp
    cases hp with
    | cons hn _ =>
      rw [hfresh] at hn
      cases hn
  obtain ⟨slotRec, hslot⟩ := h.slot
  refine ⟨vslot_link h.slot _ _ _, path_link_self h.path hfresh hslot h0 hv hnext hne, ?_,
    fun b => ?_⟩
  · rw [List.map_cons, List.map_cons, map_relinked _ _ _ fun y => AdjNode.members_setPrev _ _ _,
      h.members]
    rfl
  · rw [List.map_cons, map_fst_relinked, List.mem_cons, h.owned,
      recordOf_link hcat hpart howner hfresh]
    constructor
    · rintro (rfl | hb)
      · exact Or.inr ⟨rfl, rfl⟩
      · exact Or.inl hb
    · rintro (hb | ⟨-, rfl⟩)
      · exact Or.inr hb
      · exact Or.inl rfl

/-- A record linked at another vertex leaves the chain as it was, up to back pointers. -/
theorem ChainOf.link_other (h : ChainOf st w log p) (hcat : Catalog st)
    (hpart : st.PartitionOf v.1 a.1) (howner : rec.ownerId = v.2) (hfresh : st.node a = none)
    (hne : w ≠ v) (hslot : (w.1, headSlot w.2) ≠ (v.1, headSlot v.2)) :
    ChainOf (st.link v a (.linked rec)) w log (relinked (st.head v.1 v.2) a p) := by
  refine ⟨vslot_link h.slot _ _ _, path_link_other h.path hfresh hslot, ?_, fun b => ?_⟩
  · rw [map_relinked _ _ _ fun y => AdjNode.members_setPrev _ _ _, h.members]
  · rw [map_fst_relinked, h.owned, recordOf_link hcat hpart howner hfresh]
    exact ⟨Or.inl, fun hb => hb.resolve_right fun hc => hne hc.1⟩

/-- A chain depends on the vertex's slot, the nodes and the partitions that hold nodes. -/
theorem ChainOf.congr {st' : Store} (h : ChainOf st v log p)
    (hs : st'.vslot (v.1, headSlot v.2) = st.vslot (v.1, headSlot v.2)) (hn : st'.node = st.node)
    (hpart : ∀ a, st.node a ≠ none → (st'.PartitionOf v.1 a.1 ↔ st.PartitionOf v.1 a.1)) :
    ChainOf st' v log p := by
  obtain ⟨slotRec, hslot⟩ := h.slot
  refine ⟨⟨slotRec, hs.trans hslot⟩, ?_, h.members, fun a => ?_⟩
  · have hp := h.path
    unfold Store.Path Store.head at hp ⊢
    rw [hs, hn]
    exact hp
  · rw [h.owned]
    unfold Store.RecordOf
    rw [hn]
    constructor
    · rintro ⟨rec, hrec, how, hp⟩
      exact ⟨rec, hrec, how, (hpart a (by rw [hrec]; simp)).mpr hp⟩
    · rintro ⟨rec, hrec, how, hp⟩
      exact ⟨rec, hrec, how, (hpart a (by rw [hrec]; simp)).mp hp⟩

end

/-! ## Runs -/

/-- The member an insert gives one end of an edge. -/
def edgeMember (s : Session) (otherV : Vertex) (e : Edge) (direction : Nat) : AdjListMember where
  xmin := s.fxid
  xmax := invalidFullTransactionId
  cmin := s.cid
  cmax := invalidCommandId
  flags := 0
  dir := direction
  edgeId := e.id
  edgeLid := e.labelId
  otherId := otherV.id
  otherLid := otherV.labelId

/-- The log of the members each vertex was given, newest first. -/
abbrev EdgeLog := VertexKey → List AdjListMember

/-- Log a member of one vertex. -/
def EdgeLog.push (log : EdgeLog) (v : VertexKey) (m : AdjListMember) : EdgeLog :=
  Function.update log v (m :: log v)

/-- Log an edge: the outgoing member at its start, then the incoming one at its end. -/
def EdgeLog.insertEdge (log : EdgeLog) (s : Session) (startV endV : Vertex) (e : Edge) : EdgeLog :=
  (log.push startV.key (edgeMember s endV e 0)).push endV.key (edgeMember s startV e 1)

/-- The states that labels, vertex inserts, edge inserts and rotations lead to from an empty graph,
with the vertices inserted and the log of the members. A vertex id is used once, as it comes from a
sequence, and an edge is inserted between vertices that are there. -/
inductive InsertRun (u : Unspecified) : List VertexKey → EdgeLog → Db → Prop
  | empty (xacts : XactState) : InsertRun u [] (fun _ => []) (Db.empty xacts)
  | vertexLabel {V : List VertexKey} {log : EdgeLog} {db db' : Db} {l : Nat}
      (h : InsertRun u V log db) (hnew : db.store.vlabel l = none)
      (hr : (buildVertexLabelInfrastructure l).Runs db () db') : InsertRun u V log db'
  | edgeLabel {V : List VertexKey} {log : EdgeLog} {db db' : Db} {l : Nat}
      (h : InsertRun u V log db) (hr : (createElabelInternal l).Runs db () db') :
      InsertRun u V log db'
  | vertex {V : List VertexKey} {log : EdgeLog} {db db' : Db} {s : Session} {v : Vertex}
      {props : Gtype} (h : InsertRun u V log db) (hnew : v.key ∉ V)
      (hr : (insertVertex s v props).Runs db () db') : InsertRun u (v.key :: V) log db'
  | edge {V : List VertexKey} {log : EdgeLog} {db db' : Db} {s : Session} {startV endV : Vertex}
      {e : Edge} {props : Gtype} (h : InsertRun u V log db) (hstart : startV.key ∈ V)
      (hend : endV.key ∈ V) (hr : (insertEdge u s startV endV e props).Runs db () db') :
      InsertRun u V (log.insertEdge s startV endV e) db'
  | rotate {V : List VertexKey} {log : EdgeLog} {db db' : Db} {l : Nat}
      (h : InsertRun u V log db) (hr : (rotateActiveLinkedListTable l).Runs db () db') :
      InsertRun u V log db'

/-- The slot of `v` is addressed consistently: both computations give it for `v`, and neither gives
it for another vertex of the label. -/
structure SlotConsistent (V : List VertexKey) (v : VertexKey) : Prop where
  mem : v ∈ V
  agree : headSlot v.2 = entitySlot v.2
  head_ne : ∀ w ∈ V, w.1 = v.1 → w ≠ v → headSlot w.2 ≠ headSlot v.2
  entity_ne : ∀ w ∈ V, w.1 = v.1 → w ≠ v → entitySlot w.2 ≠ headSlot v.2

theorem SlotConsistent.tail {V : List VertexKey} {v w : VertexKey} (h : SlotConsistent (w :: V) v)
    (hne : v ≠ w) : SlotConsistent V v where
  mem := (List.mem_cons.mp h.mem).resolve_left hne
  agree := h.agree
  head_ne x hx := h.head_ne x (List.mem_cons_of_mem _ hx)
  entity_ne x hx := h.entity_ne x (List.mem_cons_of_mem _ hx)

/-! ## The invariant -/

/-- What every state of a run satisfies. -/
structure RunInv (V : List VertexKey) (log : EdgeLog) (st : Store) : Prop where
  catalog : Catalog st
  unused : ∀ v, v ∉ V → log v = [] ∧ ∀ a, ¬ st.RecordOf v a
  chain : ∀ v, SlotConsistent V v → ∃ p, ChainOf st v (log v) p

/-- One direction of an edge keeps the invariant, with its member logged. -/
theorem RunInv.link {V : List VertexKey} {log : EdgeLog} {db db' : Db} {s : Session}
    {ownerV otherV : Vertex} {e : Edge} {dir : Nat} {u : Unit} (h : RunInv V log db.store)
    (hmem : ownerV.key ∈ V) (hr : (insertEdgeOneDirection s ownerV otherV e dir).Runs db u db') :
    RunInv V (log.push ownerV.key (edgeMember s otherV e dir)) db'.store := by
  obtain ⟨info, o, tid, rec, hinfo, hact, h0, -, hfresh, hv, hslot, hst⟩ :=
    insertEdgeOneDirection_inv hr
  rw [hst]
  obtain ⟨old, cur, hmeta, hcur, -⟩ := activeLinkedList_eq (h.catalog.rows _ _ hinfo)
  obtain rfl : cur.tbl = o := Option.some.inj (hcur.symm.trans hact)
  have hpart : db.store.PartitionOf ownerV.key.1 cur.tbl :=
    ⟨info, hinfo, cur, by rw [hmeta]; simp, rfl⟩
  have hnext := next_newLinkedListRecord s ownerV otherV e dir rec.eTblId rec.eItemptr
    (cur.tbl, tid)
  have hhead : cursor rec.eTblId rec.eItemptr = db.store.head ownerV.labelId ownerV.id := by
    unfold Store.head
    rw [hslot]
    rfl
  rw [hhead] at hnext
  refine ⟨h.catalog.link _ _ _, fun w hw => ⟨?_, fun b hb => ?_⟩, fun w hw => ?_⟩
  · have hne : w ≠ ownerV.key := fun he => hw (he ▸ hmem)
    unfold EdgeLog.push
    rw [Function.update_of_ne hne]
    exact (h.unused w hw).1
  · rcases (recordOf_link h.catalog hpart rfl hfresh b).mp hb with hb | ⟨rfl, -⟩
    · exact (h.unused w hw).2 b hb
    · exact hw hmem
  · obtain ⟨p, hp⟩ := h.chain w hw
    unfold EdgeLog.push
    by_cases he : w = ownerV.key
    · subst he
      rw [Function.update_self]
      exact ⟨_, hp.link h.catalog hpart rfl hfresh h0 hv hnext⟩
    · rw [Function.update_of_ne he]
      refine ⟨_, hp.link_other h.catalog hpart rfl hfresh he fun hs => ?_⟩
      obtain ⟨hl, hs⟩ := Prod.mk.inj hs
      exact hw.head_ne _ hmem hl.symm (Ne.symm he) hs.symm

/-- The invariant depends on the labels, relations, slots and nodes. -/
theorem RunInv.same {V : List VertexKey} {log : EdgeLog} {st st' : Store} (h : RunInv V log st)
    (hl : st'.vlabel = st.vlabel) (hf : st'.format = st.format) (ho : st'.nextOid = st.nextOid)
    (hs : st'.vslot = st.vslot) (hn : st'.node = st.node) : RunInv V log st' := by
  have hpart : ∀ l o, st'.PartitionOf l o ↔ st.PartitionOf l o := by
    intro l o
    unfold Store.PartitionOf
    rw [hl]
  refine ⟨h.catalog.same hl hf ho, fun v hv => ⟨(h.unused v hv).1, fun a ha => ?_⟩, fun v hv => ?_⟩
  · refine (h.unused v hv).2 a ?_
    unfold Store.RecordOf at ha ⊢
    rwa [hn, hpart] at ha
  · obtain ⟨p, hp⟩ := h.chain v hv
    exact ⟨p, hp.congr (by rw [hs]) hn fun a _ => hpart _ _⟩

/-- New relations hold no nodes, so partitions under fresh oids change no chain. -/
theorem RunInv.newPartitions {V : List VertexKey} {log : EdgeLog} {st st' : Store}
    (h : RunInv V log st) (hcat : Catalog st') (hs : st'.vslot = st.vslot)
    (hn : st'.node = st.node)
    (hpart : ∀ l a, st.node a ≠ none → (st'.PartitionOf l a.1 ↔ st.PartitionOf l a.1)) :
    RunInv V log st' := by
  refine ⟨hcat, fun v hv => ⟨(h.unused v hv).1, fun a ha => ?_⟩, fun v hv => ?_⟩
  · obtain ⟨rec, hrec, how, hp⟩ := ha
    rw [hn] at hrec
    exact (h.unused v hv).2 a ⟨rec, hrec, how, (hpart _ a (by rw [hrec]; simp)).mp hp⟩
  · obtain ⟨p, hp⟩ := h.chain v hv
    exact ⟨p, hp.congr (by rw [hs]) hn fun a ha => hpart _ a ha⟩

theorem RunInv.rotate {V : List VertexKey} {log : EdgeLog} {db db' : Db} {l : Nat} {u : Unit}
    (h : RunInv V log db.store) (hr : (rotateActiveLinkedListTable l).Runs db u db') :
    RunInv V log db'.store := by
  obtain ⟨o, db₁, hr, hret⟩ := Prog.runs_bind_iff.mp hr
  obtain ⟨-, rfl⟩ := Prog.runs_ret_iff.mp hret
  obtain ⟨info, hinfo, rfl, hst⟩ := createNewActiveLinkedList_inv h.catalog hr
  rw [hst]
  refine h.newPartitions (h.catalog.rotate hinfo) rfl rfl fun l' a ha => ?_
  have hne : a.1 ≠ db.store.nextOid := fun he =>
    Nat.lt_irrefl _ (he ▸ h.catalog.fresh _ (format_of_node ha))
  have htbls := ((h.catalog.rows l info hinfo).rotate fun row hrow he => Nat.lt_irrefl _ (he ▸
    h.catalog.fresh row.tbl (by rw [(h.catalog.partition l info hinfo row hrow).1]; rfl))).2.1
  unfold Store.PartitionOf
  by_cases hl : l' = l
  · subst hl
    have hiff : (∃ row ∈ (info.rotate db.store.nextOid).linkedListMeta, row.tbl = a.1) ↔
        ∃ row ∈ info.linkedListMeta, row.tbl = a.1 := by
      rw [← List.mem_map, ← List.mem_map, ← htbls]
      show a.1 ∈ (deactivate _ ++ [_]).map _ ↔ _
      rw [List.map_append, List.mem_append]
      exact ⟨fun hm => hm.resolve_right fun hc => hne (List.mem_singleton.mp hc), Or.inl⟩
    simp only [Store.rotate, Function.update_self, Option.some.injEq, exists_eq_left', hinfo, hiff]
  · simp only [Store.rotate, Function.update_of_ne hl]

theorem RunInv.vertexLabel {V : List VertexKey} {log : EdgeLog} {db db' : Db} {l : Nat} {u : Unit}
    (h : RunInv V log db.store) (hnew : db.store.vlabel l = none)
    (hr : (buildVertexLabelInfrastructure l).Runs db u db') : RunInv V log db'.store := by
  rw [buildVertexLabelInfrastructure_inv h.catalog hnew hr]
  refine h.newPartitions (h.catalog.addLabel hnew) rfl rfl fun l' a ha => ?_
  have hlt := h.catalog.fresh _ (format_of_node ha)
  unfold Store.PartitionOf
  by_cases hl : l' = l
  · subst hl
    have hne : db.store.nextOid + 1 ≠ a.1 := fun he => by
      rw [← he] at hlt
      exact absurd hlt (Nat.not_lt.mpr (Nat.le_succ _))
    simp [Store.addLabel, hnew, hne]
  · simp [Store.addLabel, hl]

theorem RunInv.vertex {V : List VertexKey} {log : EdgeLog} {db db' : Db} {s : Session} {v : Vertex}
    {props : Gtype} {u : Unit} (h : RunInv V log db.store) (hnew : v.key ∉ V)
    (hr : (insertVertex s v props).Runs db u db') : RunInv (v.key :: V) log db'.store := by
  obtain ⟨tid, -, -, -, -, hplaced, hst⟩ := npInternalInsertVertex_inv hr
  have hrecord : ∀ w a, db'.store.RecordOf w a ↔ db.store.RecordOf w a := by
    intro w a
    rw [hst]
    rfl
  refine ⟨?_, fun w hw => ?_, fun w hw => ?_⟩
  · rw [hst]
    exact h.catalog.same rfl rfl rfl
  · obtain ⟨hlog, hnone⟩ := h.unused w fun hm => hw (List.mem_cons_of_mem _ hm)
    exact ⟨hlog, fun a ha => hnone a ((hrecord w a).mp ha)⟩
  · by_cases he : w = v.key
    · subst he
      obtain ⟨hlog, hnone⟩ := h.unused _ hnew
      have hself : db'.store.vslot (v.key.1, headSlot v.key.2) =
          some ⟨tid, 0, .invalid, .invalid⟩ := by
        rw [hw.agree]
        exact hplaced.self.trans (if_pos (offset_le_of_agree hw.agree))
      refine ⟨[], ⟨⟨_, hself⟩, ?_, by rw [hlog]; rfl, fun a => ?_⟩⟩
      · unfold Store.Path Store.head
        rw [hself, Option.bind_some, cursor_invalid]
        exact Seg.nil none
      · rw [hrecord]
        exact ⟨fun hm => absurd hm List.not_mem_nil, fun ha => absurd ha (hnone a)⟩
    · obtain ⟨p, hp⟩ := h.chain w (hw.tail he)
      obtain ⟨rec, hrec⟩ := hp.slot
      have hne : (w.1, headSlot w.2) ≠ (v.labelId, entitySlot v.id) := fun hs => by
        obtain ⟨hl, hs⟩ := Prod.mk.inj hs
        exact hw.entity_ne v.key List.mem_cons_self hl.symm (Ne.symm he) hs.symm
      refine ⟨p, hp.congr ?_ (by rw [hst]) fun a _ => by rw [hst]; rfl⟩
      rw [hrec]
      exact hplaced.old hne hrec

/-- Every state of a run satisfies the invariant. -/
theorem InsertRun.inv {x : Unspecified} {V : List VertexKey} {log : EdgeLog} {db : Db}
    (h : InsertRun x V log db) : RunInv V log db.store := by
  induction h with
  | empty xacts =>
    refine ⟨catalog_empty xacts, fun v _ => ⟨rfl, fun a ha => ?_⟩, fun v hv => ?_⟩
    · obtain ⟨rec, hrec, -⟩ := ha
      cases hrec
    · cases hv.mem
  | vertexLabel _ hnew hr ih => exact ih.vertexLabel hnew hr
  | edgeLabel _ hr ih =>
    obtain rfl := Except.ok.inj (Prog.runs_write_iff.mp hr)
    exact ih.same rfl rfl rfl rfl rfl
  | vertex _ hnew hr ih => exact ih.vertex hnew hr
  | @edge V log db db' s startV endV e props _ hstart hend hr ih =>
    obtain ⟨tid, db₁, db₂, -, -, -, -, -, hst₁, h₁, h₂⟩ := npInternalInsertEdge_inv hr
    have ih₁ : RunInv V log db₁.store := by
      rw [hst₁]
      exact ih.same rfl rfl rfl rfl rfl
    exact (ih₁.link hstart h₁).link hend h₂
  | rotate _ hr ih => exact ih.rotate hr

/-- **The chain of a vertex holds its records.** After any run of committed edge inserts and
rotations, following next pointers from the head of a vertex with a consistent slot ends, visits
every record inserted for that vertex once, newest first, and visits nothing else. -/
theorem insertRun_chain {x : Unspecified} {V : List VertexKey} {log : EdgeLog} {db : Db}
    (h : InsertRun x V log db) {v : VertexKey} (hv : SlotConsistent V v) :
    ∃ p, ChainOf db.store v (log v) p ∧ (p.map Prod.fst).Nodup := by
  obtain ⟨p, hp⟩ := h.inv.chain v hv
  exact ⟨p, hp, hp.path.nodup⟩

/-! ## A run -/

/-- Transaction 5 is the last one. -/
def exampleXacts5 : XactState := ⟨6, fun _ => .committed⟩

/-- Two vertices with an edge between them; after a rotation, a self-loop at the first one. -/
def exampleInserts : List (Op Unit) :=
  let s : Session := ⟨5, 0⟩
  let v : Vertex := ⟨1, 1, 0⟩
  let w : Vertex := ⟨2, 1, 0⟩
  [buildVertexLabelInfrastructure 1, createElabelInternal 1,
    insertVertex s v npEmptyGtypeObject, insertVertex s w npEmptyGtypeObject,
    insertEdge exampleUnspecified s v w ⟨1, 1, 0, 1, 1, 1, 2⟩ npEmptyGtypeObject,
    rotateActiveLinkedListTable 1,
    insertEdge exampleUnspecified s v v ⟨2, 1, 0, 1, 1, 1, 1⟩ npEmptyGtypeObject]

/-- The members of vertex 1, in the two partitions of its label. -/
theorem insertRun_chain_example :
    ∃ p, ChainOf (execAll exampleInserts (Db.empty exampleXacts5)).store (1, 1)
      [⟨⟨5, 0, 0, 0xFFFFFFFF⟩, 2, 1, 1, 1, 1, 0⟩, ⟨⟨5, 0, 0, 0xFFFFFFFF⟩, 2, 1, 1, 1, 0, 0⟩,
        ⟨⟨5, 0, 0, 0xFFFFFFFF⟩, 1, 1, 2, 1, 0, 0⟩] p ∧ (p.map Prod.fst).Nodup := by
  have h₀ := InsertRun.empty (u := exampleUnspecified) exampleXacts5
  have h₂ := (h₀.vertexLabel (l := 1) rfl (Prog.runs_of_ok rfl)).edgeLabel (l := 1)
    (Prog.runs_of_ok rfl)
  have h₃ := h₂.vertex (s := ⟨5, 0⟩) (v := ⟨1, 1, 0⟩) (by decide)
    (Prog.runs_of_ok (p := insertVertex _ _ npEmptyGtypeObject) rfl)
  have h₄ := h₃.vertex (s := ⟨5, 0⟩) (v := ⟨2, 1, 0⟩) (by decide)
    (Prog.runs_of_ok (p := insertVertex _ _ npEmptyGtypeObject) rfl)
  have h₅ := h₄.edge (s := ⟨5, 0⟩) (by decide) (by decide) (Prog.runs_of_ok (p := insertEdge _ _
    ⟨1, 1, 0⟩ ⟨2, 1, 0⟩ ⟨1, 1, 0, 1, 1, 1, 2⟩ npEmptyGtypeObject) rfl)
  have h₆ := h₅.rotate (l := 1) (Prog.runs_of_ok rfl)
  have h₇ := h₆.edge (s := ⟨5, 0⟩) (by decide) (by decide) (Prog.runs_of_ok (p := insertEdge _ _
    ⟨1, 1, 0⟩ ⟨1, 1, 0⟩ ⟨2, 1, 0, 1, 1, 1, 1⟩ npEmptyGtypeObject) rfl)
  exact insertRun_chain h₇ ⟨by decide, by decide, by decide, by decide⟩

end NeoPostGraph
