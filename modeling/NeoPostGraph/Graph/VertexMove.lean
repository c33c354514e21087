import NeoPostGraph.Graph.VertexRefine

/-!
# Moving a vertex to another label, on the graph

A vertex that changes its label becomes another vertex, which takes over its edges one after the other,
along the chain of the old one. The chain is changed while the walk is on it: the deletes stamp its
records. They keep their places, so that the walk goes on where it would have.

* `st.SameChain v st'`: the chain of `v` visits the same records.
* `StampedFrom ms ms'`: the same members, some of them stamped.

Results:
* `Refines.migrateRecord`: one edge goes over. `Refines.migrateWalk`: all do.
* `Refines.relabelVertex`: the vertex gets the other label and a new id there.
-/

namespace NeoPostGraph

open SlottedPage LinkedChain

/-! ## A chain under the walk -/

/-- The addresses of a path, and which of its nodes are records. -/
def NodePath.shape (p : NodePath) : List (Addr × Bool) := p.map fun x => (x.1, x.2.isLinked)

/-- The chain of a vertex has the same shape. -/
def Store.SameChain (st : Store) (v : VertexKey) (st' : Store) : Prop :=
  ∀ p, st.Path v p → ∃ q, st'.Path v q ∧ q.shape = p.shape

/-- The same members, some of them stamped. -/
def StampedFrom (ms ms' : List AdjListMember) : Prop :=
  List.Forall₂ (fun m m' => m'.edgeId = m.edgeId ∧ (m'.undeleted = true → m.undeleted = true)) ms ms'

section

variable {base l id : Nat} {V : List VertexKey} {A : AdjView} {G : LiveGraph} {s : Session}
  {db db' : Db} {st st' st'' : Store} {v w : VertexKey} {p q : NodePath} {a : Option Addr}
  {ms ms' ms'' : List AdjListMember}

theorem Store.SameChain.trans (h : st.SameChain v st') (h' : st'.SameChain v st'') :
    st.SameChain v st'' := by
  intro p hp
  obtain ⟨q, hq, hqp⟩ := h p hp
  obtain ⟨r, hr, hrq⟩ := h' q hq
  exact ⟨r, hr, hrq.trans hqp⟩

theorem Store.sameChain_of_eq (hh : st'.head v.1 v.2 = st.head v.1 v.2) (hn : st'.node = st.node) :
    st.SameChain v st' := by
  intro p hp
  refine ⟨p, ?_, rfl⟩
  unfold Store.Path at hp ⊢
  rw [hh, hn]
  exact hp

theorem shape_setNode (x : Addr) {f : AdjNode → AdjNode} (hf : ∀ n, (f n).isLinked = n.isLinked)
    (p : NodePath) : NodePath.shape (setNode x f p) = p.shape :=
  map_setNode f fun y _ _ => by rw [hf]

theorem isLinked_stampAt (s : Session) (i : Nat) (n : AdjNode) :
    (n.stampAt s i).isLinked = n.isLinked := by
  cases n <;> rfl

theorem isLinked_setPrev (tbl : Oid) (tid : ItemPointer) (n : AdjNode) :
    (n.setPrev tbl tid).isLinked = n.isLinked := by
  cases n <;> rfl

theorem Store.sameChain_stamp (st : Store) (v : VertexKey) (s : Session) (x : Position) :
    st.SameChain v (st.stamp s x) := fun p hp =>
  ⟨_, seg_stamp hp s x, shape_setNode x.1 (isLinked_stampAt s x.2) p⟩

theorem Store.sameChain_stamps (st : Store) (v : VertexKey) (s : Session) (xs : List Position) :
    st.SameChain v (st.stamps s xs) := by
  induction xs generalizing st with
  | nil => exact Store.sameChain_of_eq rfl rfl
  | cons x xs ih => exact (st.sameChain_stamp v s x).trans (ih (st.stamp s x))

/-- Linking at another vertex. -/
theorem Store.sameChain_link {x : Addr} {n : AdjNode} (hfresh : st.node x = none)
    (hne : (v.1, headSlot v.2) ≠ (w.1, headSlot w.2)) : st.SameChain v (st.link w x n) := by
  intro p hp
  refine ⟨_, path_link_other hp hfresh hne, ?_⟩
  exact map_relinked _ _ p fun y => by rw [isLinked_setPrev]

theorem sameChain_insertEdgeOneDirection {ownerV otherV : Vertex} {e : Edge} {dir : Nat} {u : Unit}
    (hr : (insertEdgeOneDirection s ownerV otherV e dir).Runs db u db')
    (hne : (v.1, headSlot v.2) ≠ (ownerV.key.1, headSlot ownerV.key.2)) :
    db.store.SameChain v db'.store := by
  obtain ⟨_, o, tid, rec, -, -, -, -, hfresh, -, -, hst⟩ := insertEdgeOneDirection_inv hr
  rw [hst]
  exact Store.sameChain_link hfresh hne

/-- **An insert of an edge elsewhere** leaves the chain. -/
theorem sameChain_insertEdge {x : Unspecified} {startV endV : Vertex} {e : Edge} {props : Gtype}
    {u : Unit} (hr : (npInternalInsertEdge x s startV endV e props).Runs db u db')
    (hs : (v.1, headSlot v.2) ≠ (startV.key.1, headSlot startV.key.2))
    (he : (v.1, headSlot v.2) ≠ (endV.key.1, headSlot endV.key.2)) :
    db.store.SameChain v db'.store := by
  obtain ⟨tid, db₁, db₂, -, -, -, -, -, hst, h₁, h₂⟩ := npInternalInsertEdge_inv hr
  have h₀ : db.store.SameChain v db₁.store := by
    rw [hst]
    exact Store.sameChain_of_eq rfl rfl
  exact (h₀.trans (sameChain_insertEdgeOneDirection h₁ hs)).trans
    (sameChain_insertEdgeOneDirection h₂ he)

/-- **A delete of an edge** stamps records, and leaves them where they are. -/
theorem sameChain_deleteEdge {fuel : Nat} {u : Unit}
    (hr : (npInternalDeleteEdge fuel s l id).Runs db u db') (v : VertexKey) :
    db.store.SameChain v db'.store := by
  obtain ⟨rec, t, xs, -, -, -, hst, -⟩ := deleteEdge_inv hr
  have h₀ : db.store.SameChain v (db.store.stampEdge s l rec.eItemptr t) :=
    Store.sameChain_of_eq rfl rfl
  rw [hst]
  exact h₀.trans (Store.sameChain_stamps _ v s xs)

/-! ### The place of the walk -/

/-- A chain starts at its first node. -/
theorem seg_head {node : Addr → Option AdjNode} (h : Seg node AdjNode.next a p none) :
    a = p.shape.head?.map Prod.fst := by
  cases p with
  | nil => exact h.nil_inv
  | cons x p => exact h.cons_inv.1

theorem shape_drop (n : Nat) (p : NodePath) : NodePath.shape (p.drop n) = p.shape.drop n :=
  List.map_drop ..

/-- **The walk goes on where it would have** in a chain of the same shape. -/
theorem seg_drop_of_shape (hq : st'.Path v q) (hshape : q.shape = p.shape) {n : Nat}
    (h : Seg st.node AdjNode.next a (p.drop n) none) :
    Seg st'.node AdjNode.next a (q.drop n) none := by
  unfold Store.Path at hq
  rw [← List.take_append_drop n q] at hq
  obtain ⟨b, -, hb⟩ := hq.split
  have hab : a = b := by
    rw [seg_head h, seg_head hb, shape_drop, shape_drop, hshape]
  rw [hab]
  exact hb

theorem isLinked_of_shape (hshape : q.shape = p.shape) (h : ∀ x ∈ p, x.2.isLinked = true) :
    ∀ x ∈ q, x.2.isLinked = true := by
  intro x hx
  have hmem : (x.1, x.2.isLinked) ∈ p.shape := by
    rw [← hshape]
    exact List.mem_map_of_mem hx
  obtain ⟨y, hy, he⟩ := List.mem_map.mp hmem
  rw [← (Prod.mk.inj he).2]
  exact h y hy

/-- Each record of a chain has one member. -/
theorem members_of_linked (h : ∀ x ∈ p, x.2.isLinked = true) :
    p.members.length = p.length ∧ ∀ (n : Nat) (rec : NeoLinkedListRecord) (y : Addr),
      p[n]? = some (y, .linked rec) → p.members[n]? = some rec.toMember := by
  induction p with
  | nil => exact ⟨rfl, fun n rec y h => by cases h⟩
  | cons x p ih =>
    obtain ⟨hx, hp⟩ := List.forall_mem_cons.mp h
    obtain ⟨hlen, hget⟩ := ih hp
    obtain ⟨z, m⟩ := x
    cases m with
    | block rec => cases hx
    | linked rec =>
      refine ⟨congrArg Nat.succ hlen, fun n rec' y hn => ?_⟩
      cases n with
      | zero =>
        obtain ⟨-, he⟩ := Prod.mk.inj (Option.some.inj hn)
        rw [← AdjNode.linked.inj he]
        rfl
      | succ n => exact hget n rec' y hn

/-! ### Members under the walk -/

theorem StampedFrom.refl (ms : List AdjListMember) : StampedFrom ms ms :=
  List.forall₂_same.mpr fun _ _ => ⟨rfl, fun h => h⟩

theorem StampedFrom.trans (h : StampedFrom ms ms') (h' : StampedFrom ms' ms'') : StampedFrom ms ms'' := by
  induction h generalizing ms'' with
  | nil => exact h'
  | cons hm _ ih =>
    cases h' with
    | cons hm' h' =>
      exact List.Forall₂.cons ⟨hm'.1.trans hm.1, fun hu => hm.2 (hm'.2 hu)⟩ (ih h')

theorem stamped_stampFirstMember (hs : fullXidIsValid s.fxid = true) (id : Nat)
    (ms : List AdjListMember) : StampedFrom ms (stampFirstMember s id ms) := by
  induction ms with
  | nil => exact List.Forall₂.nil
  | cons m ms ih =>
    unfold stampFirstMember
    split
    · refine List.Forall₂.cons ⟨rfl, fun hu => ?_⟩ (StampedFrom.refl ms)
      change (!fullXidIsValid s.fxid) = true at hu
      rw [hs] at hu
      cases hu
    · exact List.Forall₂.cons ⟨rfl, fun h => h⟩ ih

theorem stamped_unlinkEdge (hs : fullXidIsValid s.fxid = true) (A : AdjView) (id : Nat) (e : Edge)
    (v : VertexKey) : StampedFrom (A v) (A.unlinkEdge s id e v) := by
  have hone : ∀ (B : AdjView) w, StampedFrom (B v) (B.unlink s id w v) := by
    intro B w
    unfold AdjView.unlink
    by_cases hvw : v = w
    · subst hvw
      rw [Function.update_self]
      exact stamped_stampFirstMember hs id (B v)
    · rw [Function.update_of_ne hvw]
      exact StampedFrom.refl _
  exact (hone A e.startKey).trans (hone _ e.endKey)

theorem StampedFrom.mem (h : StampedFrom ms ms') {m : AdjListMember} (hm : m ∈ ms') :
    ∃ m₀ ∈ ms, m.edgeId = m₀.edgeId ∧ (m.undeleted = true → m₀.undeleted = true) := by
  induction h with
  | nil => cases hm
  | cons hab _ ih =>
    rcases List.mem_cons.mp hm with rfl | hm
    · exact ⟨_, List.mem_cons_self, hab⟩
    · obtain ⟨m₀, hm₀, hr⟩ := ih hm
      exact ⟨m₀, List.mem_cons_of_mem _ hm₀, hr⟩

theorem linkEdge_other {startV endV : Vertex} {e : Edge} (hs : v ≠ startV.key) (he : v ≠ endV.key) :
    A.linkEdge s startV endV e v = A v := by
  unfold AdjView.linkEdge AdjView.link
  rw [Function.update_of_ne he, Function.update_of_ne hs]

/-! ## One edge -/

theorem startKey_eq_key {e : Edge} {x : Vertex} :
    e.startId = x.id ∧ e.startLabel = x.labelId ↔ e.startKey = x.key :=
  ⟨fun h => Prod.ext h.2 h.1, fun h => ⟨(Prod.mk.inj h).2, (Prod.mk.inj h).1⟩⟩

theorem endKey_eq_key {e : Edge} {x : Vertex} :
    e.endId = x.id ∧ e.endLabel = x.labelId ↔ e.endKey = x.key :=
  ⟨fun h => Prod.ext h.2 h.1, fun h => ⟨(Prod.mk.inj h).2, (Prod.mk.inj h).1⟩⟩

/-- **A redirected edge is a redirected arc.** -/
theorem arc_redirectEdge (oldV newV : Vertex) (e : Edge) (props : Gtype) :
    (redirectEdge oldV newV e).arc props = (e.arc props).redirect oldV.key newV.key := by
  have hs := startKey_eq_key (e := e) (x := oldV)
  have he := endKey_eq_key (e := e) (x := oldV)
  unfold redirectEdge Arc.redirect
  show Edge.arc _ props = ⟨if e.startKey = oldV.key then newV.key else e.startKey,
    if e.endKey = oldV.key then newV.key else e.endKey, _⟩
  dsimp only
  by_cases hstart : e.startKey = oldV.key <;> by_cases hend : e.endKey = oldV.key
  · rw [if_pos (hs.mpr hstart), if_pos (he.mpr hend), if_pos hstart, if_pos hend]
    rfl
  · rw [if_pos (hs.mpr hstart), if_neg fun hc => hend (he.mp hc), if_pos hstart, if_neg hend]
    rfl
  · rw [if_neg fun hc => hstart (hs.mp hc), if_pos (he.mpr hend), if_neg hstart, if_pos hend]
    rfl
  · rw [if_neg fun hc => hstart (hs.mp hc), if_neg fun hc => hend (he.mp hc), if_neg hstart,
      if_neg hend]
    rfl

/-- **An edge is inserted again between the vertices it goes over to.** -/
theorem insertMigrated_eq {oldV neighborV : Vertex} {oId oLid : Nat} {e : Edge} {d : Nat} (newV : Vertex)
    (props : Gtype) (hn : neighborV.key = (oLid, oId))
    (hend : d = 0 ∧ e.startKey = oldV.key ∧ (oLid, oId) = e.endKey ∨
      d = 1 ∧ e.endKey = oldV.key ∧ (oLid, oId) = e.startKey) (u : Unspecified) (s : Session) :
    ∃ startV endV : Vertex, startV.key = (redirectEdge oldV newV e).startKey ∧
      endV.key = (redirectEdge oldV newV e).endKey ∧
      insertMigrated u s oldV newV neighborV oId oLid e props =
        npInternalInsertEdge u s startV endV (redirectEdge oldV newV e) props := by
  have hstart : (redirectEdge oldV newV e).startKey =
      if e.startKey = oldV.key then newV.key else e.startKey :=
    congrArg Arc.start (arc_redirectEdge oldV newV e props)
  have hstop : (redirectEdge oldV newV e).endKey =
      if e.endKey = oldV.key then newV.key else e.endKey :=
    congrArg Arc.stop (arc_redirectEdge oldV newV e props)
  have hother : (oId = oldV.id ∧ oLid = oldV.labelId) ↔ (oLid, oId) = oldV.key :=
    ⟨fun h => Prod.ext h.2 h.1, fun h => ⟨(Prod.mk.inj h).2, (Prod.mk.inj h).1⟩⟩
  have hneighbor : (if oId = oldV.id ∧ oLid = oldV.labelId then newV else neighborV).key =
      if (oLid, oId) = oldV.key then newV.key else (oLid, oId) := by
    by_cases ho : (oLid, oId) = oldV.key
    · rw [if_pos (hother.mpr ho), if_pos ho]
    · rw [if_neg fun hc => ho (hother.mp hc), if_neg ho, hn]
  unfold insertMigrated
  dsimp only
  generalize (if oId = oldV.id ∧ oLid = oldV.labelId then newV else neighborV) = m at hneighbor ⊢
  by_cases hnew : (redirectEdge oldV newV e).startKey = newV.key
  · rw [if_pos (startKey_eq_key.mpr hnew)]
    refine ⟨newV, m, hnew.symm, ?_, rfl⟩
    rw [hneighbor, hstop]
    rcases hend with ⟨-, -, ho⟩ | ⟨-, he, ho⟩
    · rw [ho]
    · -- the edge starts at the new vertex already, or was a loop
      rw [if_pos he, ho, ← hstart, hnew]
  · rw [if_neg fun hc => hnew (startKey_eq_key.mp hc)]
    rcases hend with ⟨-, hs, -⟩ | ⟨-, he, ho⟩
    · rw [hstart, if_pos hs] at hnew
      exact absurd rfl hnew
    · refine ⟨m, newV, ?_, ?_, rfl⟩
      · rw [hneighbor, hstart, ho]
      · rw [hstop, if_pos he]

/-- **One edge goes over** from the old vertex to the new one. -/
theorem Refines.migrateRecord {oldV newV : Vertex} {rec : NeoLinkedListRecord}
    (h : Refines base (some s.fxid) db.store V A G) (hs : db.store.xacts.Open base s.fxid)
    (hne : newV.key ≠ oldV.key) (hold : oldV.key ∈ V) (hnew : (G.vertex newV.key).isSome)
    (hmem : rec.toMember ∈ A oldV.key) (hopen : fullXidIsValid rec.xmax = false) (u : Unspecified) :
    ∃ db' n A' a, ∃ ha : G.arc rec.id = some a,
      Refines base (some s.fxid) db'.store V A' (G.redirectArc oldV.key newV.key ha hnew) ∧
      StampedFrom (A oldV.key) (A' oldV.key) ∧ SameVertices db.store db'.store ∧
      db.store.SameChain oldV.key db'.store ∧ ∀ fuel, n ≤ fuel →
        (NeoPostGraph.migrateRecord u fuel s oldV newV rec).Runs db () db' := by
  have hund : rec.toMember.undeleted = true := by
    show (!fullXidIsValid rec.xmax) = true
    rw [hopen]
    rfl
  -- the record is an end of an edge of the graph
  have hend : rec.toMember.toEnd ∈ openEnds (A oldV.key) :=
    List.mem_map_of_mem (List.mem_filter.mpr ⟨hmem, hund⟩)
  obtain ⟨a, ha, hlab, hdir⟩ := ((h.depicts.ends _ hold).mem _).mp hend
  replace ha : G.arc rec.id = some a := ha
  replace hlab : rec.edgeLid = a.data.labelId := hlab
  replace hdir : rec.dir = 0 ∧ a.start = oldV.key ∧ (rec.otherLid, rec.otherId) = a.stop ∨
    rec.dir = 1 ∧ a.stop = oldV.key ∧ (rec.otherLid, rec.otherId) = a.start := hdir
  obtain ⟨erec, t, herec, ht, hid, hd, rfl⟩ := h.edge_get ha
  have hup := (h.updatable hs ht).mpr hd
  have hok := (h.inv.edge _).entity _ t ht
  have hclosed := G.closed _ _ ha
  have hother : (G.vertex (rec.otherLid, rec.otherId)).isSome := by
    rcases hdir with ⟨-, -, ho⟩ | ⟨-, -, ho⟩
    · rw [ho]
      exact hclosed.2
    · rw [ho]
      exact hclosed.1
  obtain ⟨neighborV, hneighbor, hfetchV⟩ :=
    h.inv.fetchVertex_runs (h.mem hother) (h.liveVertex hs hother)
  have hfetchE : (npInternalFetchEdge s rec.edgeLid rec.id).Runs db (t.entity, t.props) db := by
    rw [hlab]
    exact npInternalFetchEdge_runs herec ht hup.1
  obtain ⟨db₁, n, e, -, -, h₁, hsv₁, hel₁, hids₁, hdel⟩ := h.deleteEdge hs ha
  have hs₁ : db₁.store.xacts.Open base s.fxid := by
    rw [hsv₁.xacts]
    exact hs
  -- the edge between the new ends
  obtain ⟨startV, endV, hstart, hstop, hins⟩ :=
    insertMigrated_eq newV t.props hneighbor hdir u s
  have harc : (redirectEdge oldV newV t.entity).arc t.props =
      (edgeArc t).redirect oldV.key newV.key := arc_redirectEdge _ _ _ _
  have hkey := key_redirectEdge oldV newV t.entity
  have hlabel : (redirectEdge oldV newV t.entity).labelId = (edgeArc t).data.labelId :=
    (Prod.mk.inj hkey).1
  have hnid : (redirectEdge oldV newV t.entity).id = rec.id :=
    (Prod.mk.inj hkey).2.trans (hok.id_eq.trans hid)
  have hends := G.closed_redirect ha oldV.key hnew
  rw [← harc] at hends
  obtain ⟨lab, hlab'⟩ := exists_elabel_of_etuple ht
  obtain ⟨db₂, hr₂, h₂, hsv₂⟩ := h₁.insertEdge (e := redirectEdge oldV newV t.entity) hs₁
    (by rw [hel₁, hlabel]; exact store_elabel hlab') hok.fits hstart hstop hends.1 hends.2
    (by rw [hnid]; exact Function.update_self ..)
    (by rw [hnid, hlabel, ← hid]; exact hids₁.own (h.inv.ownEdgeSlot ht))
    (by rw [hnid]; exact eslot_offset_le herec) u
  have hG : (G.dropArc rec.id).putArc (redirectEdge oldV newV t.entity).id
      ((redirectEdge oldV newV t.entity).arc t.props) hends.1 hends.2 =
      G.redirectArc oldV.key newV.key ha hnew := by
    refine PropertyGraph.ext rfl ?_
    show Function.update (Function.update G.arc rec.id none) _ _ = Function.update G.arc rec.id _
    rw [hnid, Function.update_idem, harc]
  rw [hG] at h₂
  -- the new ends are elsewhere
  have hmeets := Arc.not_meets_redirect hne (edgeArc t)
  have hneS : oldV.key ≠ startV.key := fun he => hmeets (Or.inl (by
    rw [← harc, he]
    exact hstart.symm))
  have hneE : oldV.key ≠ endV.key := fun he => hmeets (Or.inr (by
    rw [← harc, he]
    exact hstop.symm))
  have hslotS := h₁.inv.layout.slot_ne (hstart ▸ h₁.mem hends.1) hold hneS
  have hslotE := h₁.inv.layout.slot_ne (hstop ▸ h₁.mem hends.2) hold hneE
  refine ⟨db₂, n, _, _, ha, h₂, ?_, hsv₁.trans hsv₂, (sameChain_deleteEdge (hdel n (Nat.le_refl n))
    oldV.key).trans (sameChain_insertEdge hr₂ hslotS hslotE), fun fuel hfuel => ?_⟩
  · rw [linkEdge_other hneS hneE]
    exact stamped_unlinkEdge hs.1.valid A _ e _
  · unfold NeoPostGraph.migrateRecord
    rw [if_neg (by rw [hopen]; exact Bool.false_ne_true)]
    have hr₁ : (npInternalDeleteEdge fuel s rec.edgeLid rec.id).Runs db () db₁ := by
      rw [hlab]
      exact hdel fuel hfuel
    rw [← hins] at hr₂
    exact hfetchV.bind (hfetchE.bind (hr₁.bind hr₂))

/-! ## All edges -/

theorem migrateWalk_end {tbl : Oid} {tid : ItemPointer} (hc : cursor tbl tid = none) (u : Unspecified)
    (fuel : Nat) (s : Session) (oldV newV : Vertex) (j : Nat) (db : Db) :
    (migrateWalk u fuel s oldV newV (j + 1) tbl tid).Runs db () db := by
  unfold cursor at hc
  unfold migrateWalk
  split at hc
  · cases hc
  · next hv =>
    rw [if_neg (by rwa [Bool.and_comm])]
    exact Prog.runs_ret_iff.mpr ⟨rfl, rfl⟩

/-- A turn of the walk on a record. -/
theorem migrateWalk_turn {tbl : Oid} {tid : ItemPointer} {rec : NeoLinkedListRecord} {u : Unspecified}
    {fuel j : Nat} {oldV newV : Vertex} {db₁ : Db} (hv : tid.isValid = true ∧ oidIsValid tbl = true)
    (hn : db.store.node (tbl, tid) = some (.linked rec))
    (h₁ : (migrateRecord u fuel s oldV newV rec).Runs db () db₁)
    (h₂ : (migrateWalk u fuel s oldV newV j rec.nextTbl rec.nextItemptr).Runs db₁ () db') :
    (migrateWalk u fuel s oldV newV (j + 1) tbl tid).Runs db () db' := by
  obtain ⟨t, ht, hget⟩ := rel_of_linked hn
  have hnode : (migrateNode tbl tid).Runs db (some (Sum.inl rec)) db := by
    refine Prog.runs_read_iff.mpr ⟨?_, rfl⟩
    rw [ht]
    show Except.ok ((t.get tid).map Sum.inl) = _
    rw [hget]
    rfl
  unfold migrateWalk
  rw [if_pos (by rw [hv.1, hv.2]; rfl)]
  exact hnode.bind (h₁.bind h₂)

/-- The members of a chain of records. -/
theorem Refines.members_eq {tx : Option Nat} (h : Refines base tx st V A G) (hv : v ∈ V)
    (hp : st.Path v p) (hlinked : ∀ x ∈ p, x.2.isLinked = true) :
    (A v).length = p.length ∧ ∀ (n : Nat) (rec : NeoLinkedListRecord) (y : Addr),
      p[n]? = some (y, .linked rec) → (A v)[n]? = some rec.toMember := by
  obtain ⟨p', hp', hms⟩ := h.depicts.shows.holds _ hv
  obtain rfl := hp.det hp'
  rw [← hms]
  exact members_of_linked hlinked

/-- A vertex without open ends is isolated. -/
theorem EndsShow.isolated_of_closed (h : EndsShow G v ms) (hc : ∀ m ∈ ms, m.undeleted = false) :
    G.Isolated v := by
  refine h.isolated_iff.mp (List.map_eq_nil_iff.mpr (List.filter_eq_nil_iff.mpr fun m hm => ?_))
  rw [hc m hm]
  exact Bool.false_ne_true

/-- Once an edge has gone over, the records of it are closed. -/
theorem Refines.closed_of_redirectArc {i : Nat} {a : Arc VertexKey EdgeData} {tx : Option Nat}
    {ha : G.arc i = some a} {hw : (G.vertex w).isSome} (hne : w ≠ v)
    (h : Refines base tx st V A (G.redirectArc v w ha hw)) (hv : v ∈ V) {m : AdjListMember}
    (hm : m ∈ A v) (hid : m.edgeId = i) : m.undeleted = false := by
  rw [Bool.eq_false_iff]
  intro hund
  have hend : m.toEnd ∈ openEnds (A v) := List.mem_map_of_mem (List.mem_filter.mpr ⟨hm, hund⟩)
  obtain ⟨b, hb, -, hdir⟩ := ((h.depicts.ends v hv).mem _).mp hend
  change Function.update G.arc i (some (a.redirect v w)) m.edgeId = some b at hb
  rw [hid, Function.update_self] at hb
  obtain rfl := Option.some.inj hb
  exact Arc.not_meets_redirect hne a (hdir.elim (fun hd => Or.inl hd.2.1) fun hd => Or.inr hd.2.1)

/-- **The walk brings all edges over.** It has passed `n` records, and they have no open ends. -/
theorem Refines.migrateWalk {p : NodePath} {tbl : Oid} {tid : ItemPointer} {n k : Nat}
    (h : Refines base (some s.fxid) db.store V A G) (hs : db.store.xacts.Open base s.fxid)
    (u : Unspecified) (oldV newV : Vertex) (hne : newV.key ≠ oldV.key) (hold : oldV.key ∈ V)
    (hnew : (G.vertex newV.key).isSome) (hp : db.store.Path oldV.key p)
    (hlinked : ∀ x ∈ p, x.2.isLinked = true)
    (hseg : Seg db.store.node AdjNode.next (cursor tbl tid) (p.drop n) none)
    (hclosed : ∀ m ∈ (A oldV.key).take n, m.undeleted = false) (hk : p.length < n + k) :
    ∃ db' N A' G', Refines base (some s.fxid) db'.store V A' G' ∧
      PropertyGraph.MovedPart oldV.key newV.key G G' ∧ G'.Isolated oldV.key ∧
      SameVertices db.store db'.store ∧ ∀ fuel j, N ≤ fuel → N ≤ j →
        (NeoPostGraph.migrateWalk u fuel s oldV newV j tbl tid).Runs db () db' := by
  induction k generalizing db A G p tbl tid n with
  | zero =>
    -- the walk is past the end
    have hnil : p.drop n = [] := List.drop_eq_nil_of_le (Nat.le_of_lt hk)
    have hlen := (h.members_eq hold hp hlinked).1
    rw [hnil] at hseg
    rw [List.take_of_length_le (by rw [hlen]; exact Nat.le_of_lt hk)] at hclosed
    refine ⟨db, 1, A, G, h, .refl _ _ _, (h.depicts.ends _ hold).isolated_of_closed hclosed,
      ⟨rfl, rfl, fun _ _ => rfl⟩, fun fuel j _ hj => ?_⟩
    obtain ⟨i, rfl⟩ := Nat.exists_eq_succ_of_ne_zero (Nat.ne_of_gt hj)
    exact migrateWalk_end hseg.nil_inv u fuel s oldV newV i db
  | succ k ih =>
    cases hdrop : p.drop n with
    | nil =>
      refine ih (n := n + 1) h hs hnew hp hlinked ?_ (fun m hm => hclosed m ?_) (by omega)
      · rw [← List.tail_drop, hdrop]
        rwa [hdrop] at hseg
      · have hlen := (h.members_eq hold hp hlinked).1
        have hle : (A oldV.key).length ≤ n := by
          rw [hlen]
          exact List.drop_eq_nil_iff.mp hdrop
        rw [List.take_of_length_le hle]
        exact List.mem_of_mem_take hm
    | cons x rest =>
      have hx : p[n]? = some x := by
        rw [← List.head?_drop, hdrop]
        rfl
      have hrest : p.drop (n + 1) = rest := by
        rw [← List.tail_drop, hdrop]
        rfl
      rw [hdrop] at hseg
      obtain ⟨hcur, hxn, hseg'⟩ := hseg.cons_inv
      obtain ⟨he, hv⟩ := cursor_eq_some.mp hcur
      obtain ⟨y, m⟩ := x
      obtain rfl : y = (tbl, tid) := he
      cases m with
      | block rec => cases hlinked _ (List.mem_of_getElem? hx)
      | linked rec =>
        have hmem := (h.members_eq hold hp hlinked).2 n rec _ hx
        replace hseg' : Seg db.store.node AdjNode.next (cursor rec.nextTbl rec.nextItemptr)
          (p.drop (n + 1)) none := hrest ▸ hseg'
        have htake : (A oldV.key).take (n + 1) = (A oldV.key).take n ++ [rec.toMember] := by
          rw [List.take_add_one, hmem]
          rfl
        cases hopen : fullXidIsValid rec.xmax with
        | true =>
          -- a closed record is passed
          have hclosed' : ∀ m ∈ (A oldV.key).take (n + 1), m.undeleted = false := by
            rw [htake]
            intro m hm
            rcases List.mem_append.mp hm with hm | hm
            · exact hclosed m hm
            · rw [List.mem_singleton.mp hm]
              show (!fullXidIsValid rec.xmax) = false
              rw [hopen]
              rfl
          obtain ⟨db', N, A', G', h', hmoved, hiso, hsv, hruns⟩ :=
            ih h hs hnew hp hlinked hseg' hclosed' (by omega)
          refine ⟨db', N + 1, A', G', h', hmoved, hiso, hsv, fun fuel j hfuel hj => ?_⟩
          obtain ⟨i, rfl⟩ := Nat.exists_eq_add_of_le hj
          have hskip : (NeoPostGraph.migrateRecord u fuel s oldV newV rec).Runs db () db := by
            unfold NeoPostGraph.migrateRecord
            rw [if_pos hopen]
            exact Prog.runs_ret_iff.mpr ⟨rfl, rfl⟩
          rw [show N + 1 + i = N + i + 1 by omega]
          exact migrateWalk_turn hv hxn hskip (hruns fuel (N + i) (by omega) (by omega))
        | false =>
          obtain ⟨db₁, n₁, A₁, a, ha, h₁, hstamped, hsv₁, hchain, hruns₁⟩ :=
            h.migrateRecord hs hne hold hnew (List.mem_of_getElem? hmem) hopen u
          have hs₁ : db₁.store.xacts.Open base s.fxid := by
            rw [hsv₁.xacts]
            exact hs
          obtain ⟨q, hq, hshape⟩ := hchain p hp
          have hlenq : q.length = p.length := by
            have := congrArg List.length hshape
            simpa [NodePath.shape] using this
          have hclosed' : ∀ m ∈ (A₁ oldV.key).take (n + 1), m.undeleted = false := by
            intro m hm
            have hstake : StampedFrom ((A oldV.key).take (n + 1)) ((A₁ oldV.key).take (n + 1)) :=
              List.forall₂_take _ hstamped
            obtain ⟨m₀, hm₀, hid, hund⟩ := hstake.mem hm
            rw [htake] at hm₀
            rcases List.mem_append.mp hm₀ with hm₀ | hm₀
            · rw [Bool.eq_false_iff]
              intro hu
              rw [hclosed m₀ hm₀] at hund
              cases hund hu
            · rw [List.mem_singleton.mp hm₀] at hid
              exact h₁.closed_of_redirectArc hne hold (List.mem_of_mem_take hm) hid
          obtain ⟨db', N, A', G', h', hmoved, hiso, hsv, hruns⟩ :=
            ih h₁ hs₁ hnew hq (isLinked_of_shape hshape hlinked)
              (seg_drop_of_shape hq hshape hseg') hclosed' (by omega)
          refine ⟨db', max n₁ N + 1, A', G', h', (PropertyGraph.movedPart_redirectArc G _ ha hnew).trans
            hne hmoved, hiso, hsv₁.trans hsv, fun fuel j hfuel hj => ?_⟩
          obtain ⟨i, rfl⟩ := Nat.exists_eq_add_of_le hj
          rw [show max n₁ N + 1 + i = max n₁ N + i + 1 by omega]
          exact migrateWalk_turn hv hxn (hruns₁ fuel (by omega))
            (hruns fuel (max n₁ N + i) (by omega) (by omega))

/-! ## The vertex -/

/-- Writes to the label rows keep the graph. -/
theorem Refines.same {tx : Option Nat} (h : Refines base tx st V A G) (hs : SameTuples st st')
    (hl : GraphLayout st' V) (hv : st'.vslot = st.vslot) (hn : st'.node = st.node) :
    Refines base tx st' V A G := by
  refine ⟨h.inv.same hs hl, by rw [hs.xacts]; exact h.serial, fun l => ?_, fun l => ?_,
    h.depicts.shows.same hl hv hn, h.depicts.ends⟩
  · rw [hs.vtuple, show st'.vertexPtr l = st.vertexPtr l from funext (hs.vertexPtr l)]
    exact h.depicts.vertices l
  · rw [hs.etuple, hs.edgePtr]
    exact h.depicts.edges l

/-- **Drawing a vertex id** leaves the graph. -/
theorem Refines.nextVertexId {tx : Option Nat} {info : LabelInfo} (h : Refines base tx db.store V A G)
    (hl : db.store.vlabel l = some info) :
    ∃ db', (NeoPostGraph.nextVertexId l).Runs db info.vertexIdSeq db' ∧
      Refines base tx db'.store V A G ∧ SameTuples db.store db'.store ∧
      db'.store.vslot = db.store.vslot ∧ db'.store.node = db.store.node ∧
      (db'.store.vlabel l).isSome := by
  obtain ⟨lab, hlab⟩ := exists_vlabel (Option.isSome_iff_exists.mpr ⟨info, hl⟩)
  have hinfo : lab.info = info := Option.some.inj ((store_vlabel hlab).symm.trans hl)
  have hr : (NeoPostGraph.nextVertexId l).Runs db info.vertexIdSeq
      (db.setVertexLabel l { lab with vertexIdSeq := lab.vertexIdSeq + 1 }) := by
    rw [← hinfo]
    exact runs_onVertexLabel.mpr ⟨lab, _, hlab, rfl, rfl⟩
  obtain ⟨hinv, hsame, -⟩ := h.inv.nextVertexId hr
  have hst : (db.setVertexLabel l { lab with vertexIdSeq := lab.vertexIdSeq + 1 }).store = _ :=
    store_setInfo hlab rfl rfl
  have hv : (db.setVertexLabel l { lab with vertexIdSeq := lab.vertexIdSeq + 1 }).store.vslot =
      db.store.vslot := by rw [hst]
  have hn : (db.setVertexLabel l { lab with vertexIdSeq := lab.vertexIdSeq + 1 }).store.node =
      db.store.node := by rw [hst]
  refine ⟨_, hr, h.same hsame hinv.layout hv hn, hsame, hv, hn, ?_⟩
  rw [hst]
  show (Function.update db.store.vlabel l _ l).isSome
  rw [Function.update_self]
  rfl

/-- **Clearing the slot of a vertex that is gone** leaves the graph. -/
theorem Refines.clearSlot {tx : Option Nat} {rec : NeoPhysMapRecord} (h : Refines base tx st V A G)
    (hrec : st.vslot (l, entitySlot id) = some rec) (hv : (l, id) ∈ V)
    (hnone : G.vertex (l, id) = none) :
    Refines base tx { st with
      vslot := Function.update st.vslot (l, entitySlot id) (some { rec with vItemptr := .invalid }) }
      V A G := by
  have hinv := h.inv.clearSlot hrec
  have hheads : SameHeads st { st with
      vslot := Function.update st.vslot (l, entitySlot id)
        (some { rec with vItemptr := .invalid }) } :=
    sameHeads_update hrec (by rfl) (by rfl) rfl
  refine ⟨hinv, h.serial, fun l' => (h.depicts.vertices l').repoint fun i p hi hp => ?_,
    h.depicts.edges, h.depicts.shows.heads hinv.layout hheads rfl, h.depicts.ends⟩
  -- no other vertex has the slot
  have hne : (l', entitySlot i) ≠ (l, entitySlot id) := by
    intro he
    obtain ⟨rfl, hslot⟩ := Prod.mk.inj he
    obtain ⟨q, t, ht, hid⟩ := (h.inv.mem (l', id)).mp hv
    obtain ⟨d, hd⟩ := Option.ne_none_iff_exists'.mp hi
    obtain ⟨q', t', ht', hid', -⟩ := (h.depicts.vertices l').stored i d hd
    have hsame := (h.inv.vertex l').apart q' t' q t ht' ht (by rw [hid', hid]; exact hslot)
    rw [hid', hid] at hsame
    exact hi (hsame ▸ hnone)
  show (Function.update st.vslot (l, entitySlot id) _ (l', entitySlot i)).map _ = some p
  rw [Function.update_of_ne hne]
  exact hp

theorem clearVertexSlot_runs {rec : NeoPhysMapRecord}
    (hrec : db.store.vslot (l, entitySlot id) = some rec) :
    ∃ db', (clearVertexSlot l id).Runs db () db' := by
  obtain ⟨lab, hlab⟩ := exists_vlabel_of_vslot hrec
  rw [store_vslot hlab] at hrec
  exact onVertexLabel_runs hlab (by simp only [readItem_of_get hrec]; rfl)

/-- **Moving a vertex to another label** gives it a new id there, and its edges. -/
theorem Refines.relabelVertex {cur target : Nat} {d : VertexData} {info : LabelInfo}
    (h : Refines base (some s.fxid) db.store V A G) (hs : db.store.xacts.Open base s.fxid)
    (hk : G.vertex (cur, id) = some d) (hno : NoBlocks db.store (cur, id))
    (hl : db.store.vlabel target = some info) (hfresh : FreshVertex db.store target info.vertexIdSeq)
    (u : Unspecified) :
    ∃ rec db' n A' newV, ∃ hne : (target, info.vertexIdSeq) ≠ (cur, id),
      db.store.vslot (cur, entitySlot id) = some rec ∧ rec.vItemptr.isValid = true ∧
      newV.key = (target, info.vertexIdSeq) ∧
      Refines base (some s.fxid) db'.store ((target, info.vertexIdSeq) :: V) A'
        (G.moveVertex (cur, id) (target, info.vertexIdSeq) d hne) ∧
      db'.store.xacts = db.store.xacts ∧ ∀ fuel, n ≤ fuel →
        (NeoPostGraph.relabelVertex u fuel s id cur target rec).Runs db newV db' := by
  have hv : (cur, id) ∈ V := h.mem (by rw [hk]; rfl)
  obtain ⟨rec, t, hrec, ht, rfl, hd, rfl⟩ := h.vertex_get hk
  have hup := (h.vertexUpdatable hs ht).mpr hd
  obtain ⟨hkey, hfits⟩ := (h.inv.vertex cur).entity _ t ht
  have hne : (target, info.vertexIdSeq) ≠ (cur, t.hdr.id) := fun he => by
    have hhas := (h.inv.mem _).mp hv
    rw [← he] at hhas
    exact hfresh.2 _ hhas rfl rfl
  -- the new vertex
  obtain ⟨db₁, hr₁, h₁, hsame₁, hvs₁, hn₁, hl₁⟩ := h.nextVertexId hl
  let newV : Vertex := { t.entity with id := info.vertexIdSeq, labelId := target }
  have hs₁ : db₁.store.xacts.Open base s.fxid := by
    rw [hsame₁.xacts]
    exact hs
  obtain ⟨db₂, hr₂, h₂, hx₂⟩ := h₁.insertVertex (v := newV) hs₁ hl₁ hfits
    (hsame₁.freshVertex hfresh)
  have hnew : newV.key = (target, info.vertexIdSeq) := rfl
  have hs₂ : db₂.store.xacts.Open base s.fxid := by
    rw [hx₂]
    exact hs₁
  obtain ⟨tid, -, -, -, -, hplaced, hst₂⟩ := npInternalInsertVertex_inv hr₂
  -- the old one is where it was
  have hv₂ : (cur, t.hdr.id) ∈ newV.key :: V := List.mem_cons_of_mem _ hv
  have ht₂ : db₂.store.vtuple (cur, rec.vItemptr) = some t :=
    vtuple_insertVertex hr₂ (by rw [hsame₁.vtuple]; exact ht)
  have hagree : headSlot t.hdr.id = entitySlot t.hdr.id := h.inv.layout.agree _ hv
  have hslot : (cur, entitySlot t.hdr.id) ≠ (target, entitySlot info.vertexIdSeq) := by
    intro he
    obtain ⟨hcur, hent⟩ := Prod.mk.inj he
    exact hfresh.2 _ ((h.inv.mem _).mp hv) hcur (hagree.trans (hent.trans hfresh.1.symm))
  have hrec₂ : db₂.store.vslot (cur, entitySlot t.hdr.id) = some rec :=
    hplaced.old hslot (by rw [hvs₁]; exact hrec)
  have hhead : db₂.store.head cur t.hdr.id = db.store.head cur t.hdr.id := by
    unfold Store.head
    rw [hagree, hrec₂, hrec]
  have hcur : db₂.store.head cur t.hdr.id = cursor rec.eTblId rec.eItemptr := by
    unfold Store.head
    rw [hagree, hrec₂]
    rfl
  have hnode : db₂.store.node = db.store.node := by
    rw [hst₂]
    exact hn₁
  obtain ⟨p, hp, -⟩ := h₂.depicts.shows.holds _ hv₂
  have hlinked : ∀ x ∈ p, x.2.isLinked = true := by
    refine hno p ?_
    unfold Store.Path at hp ⊢
    rw [← hhead, ← hnode]
    exact hp
  have hseg : Seg db₂.store.node AdjNode.next (cursor rec.eTblId rec.eItemptr) (p.drop 0) none := by
    rw [List.drop_zero, ← hcur]
    exact hp
  -- its edges go over
  have holdKey : t.entity.key = (cur, t.hdr.id) := hkey
  have hnewIn := G.vertex_putVertex_isSome newV.key ⟨newV.dictionaryId, t.props⟩
  obtain ⟨db₃, n, A₃, G₃, h₃, hmoved, hiso, hsv₃, hr₃⟩ := h₂.migrateWalk (n := 0)
    (k := p.length + 1) hs₂ u t.entity newV (by rw [holdKey]; exact hne) (by rw [holdKey]; exact hv₂)
    hnewIn (by rw [holdKey]; exact hp) hlinked hseg
    (by rw [List.take_zero]; exact fun m hm => absurd hm List.not_mem_nil) (by omega)
  rw [holdKey] at hmoved hiso
  have hG₃ := hmoved.done hnewIn hiso
  have hs₃ : db₃.store.xacts.Open base s.fxid := by
    rw [hsv₃.xacts]
    exact hs₂
  -- it is taken away
  have ht₃ : db₃.store.vtuple (cur, rec.vItemptr) = some t := by rw [hsv₃.vtuple, ht₂]
  obtain ⟨db₄, hr₄⟩ := stampVertexTuple_runs ht₃ s
  have hst₄ := stampVertexTuple_inv ht₃ hr₄
  have h₄ := h₃.stampVertex hs₃ ht₃ hd hiso
  rw [← hst₄] at h₄
  obtain ⟨rec₄, hrec₄⟩ : ∃ r, db₄.store.vslot (cur, entitySlot t.hdr.id) = some r := by
    obtain ⟨ls, bs, hlay⟩ := h₄.inv.layout.chain _ hv₂
    rw [← hagree]
    exact hlay.slot
  obtain ⟨db₅, hr₅⟩ := clearVertexSlot_runs hrec₄
  obtain ⟨rec', hrec', hst₅⟩ := clearVertexSlot_inv hr₅
  obtain rfl := Option.some.inj (hrec₄.symm.trans hrec')
  have h₅ := h₄.clearSlot hrec₄ hv₂ (Function.update_self ..)
  rw [← hst₅] at h₅
  subst hG₃
  refine ⟨rec, db₅, n, A₃, newV, hne, hrec, (h.inv.vertex cur).valid _ t ht, hnew, h₅, ?_,
    fun fuel hfuel => ?_⟩
  · rw [hst₅]
    show db₄.store.xacts = _
    rw [hst₄]
    exact hsv₃.xacts.trans (hx₂.trans hsame₁.xacts)
  · refine Prog.Runs.bind (readVertexTuple_iff.mpr ⟨rfl, ht, hup⟩) (hr₁.bind (hr₂.bind ?_))
    exact (hr₃ fuel fuel hfuel hfuel).bind
      (hr₄.bind (hr₅.bind (Prog.runs_ret_iff.mpr ⟨rfl, rfl⟩)))

/-! ## The two functions -/

theorem readOldSlot_iff {rec : NeoPhysMapRecord} :
    (readOldSlot l id).Runs db rec db' ↔
      db' = db ∧ db.store.vslot (l, entitySlot id) = some rec := by
  unfold readOldSlot
  rw [runs_readVertexLabel]
  constructor
  · rintro ⟨lab, hlab, hf, rfl⟩
    exact ⟨rfl, by rw [store_vslot hlab]; exact readItem_ok hf⟩
  · rintro ⟨rfl, hs⟩
    obtain ⟨lab, hlab⟩ := exists_vlabel_of_vslot hs
    rw [store_vslot hlab] at hs
    exact ⟨lab, hlab, readItem_of_get hs _, rfl⟩

/-- **`set_vertex_label` moves the vertex.** -/
theorem Refines.setVertexLabel {cur target : Nat} {d : VertexData} {info : LabelInfo}
    (h : Refines base (some s.fxid) db.store V A G) (hs : db.store.xacts.Open base s.fxid)
    (hk : G.vertex (cur, id) = some d) (hno : NoBlocks db.store (cur, id)) (hcur : target ≠ cur)
    (hl : db.store.vlabel target = some info) (hfresh : FreshVertex db.store target info.vertexIdSeq)
    (u : Unspecified) :
    ∃ db' n A' newV, ∃ hne : (target, info.vertexIdSeq) ≠ (cur, id),
      newV.key = (target, info.vertexIdSeq) ∧
      Refines base (some s.fxid) db'.store ((target, info.vertexIdSeq) :: V) A'
        (G.moveVertex (cur, id) (target, info.vertexIdSeq) d hne) ∧
      db'.store.xacts = db.store.xacts ∧ ∀ fuel, n ≤ fuel →
        (NeoPostGraph.setVertexLabel u fuel s id cur target).Runs db (some newV) db' := by
  obtain ⟨rec, db', n, A', newV, hne, hrec, -, hnew, h', hx, hr⟩ := h.relabelVertex hs hk hno hl hfresh u
  refine ⟨db', n, A', newV, hne, hnew, h', hx, fun fuel hfuel => ?_⟩
  obtain ⟨lab, hlab⟩ := exists_vlabel_of_vslot hrec
  unfold NeoPostGraph.setVertexLabel
  rw [if_neg hcur]
  refine Prog.Runs.bind (a := ()) (runs_readVertexLabel.mpr ⟨lab, hlab, rfl, rfl⟩) ?_
  exact (readOldSlot_iff.mpr ⟨rfl, hrec⟩).bind ((hr fuel hfuel).bind
    (Prog.runs_ret_iff.mpr ⟨rfl, rfl⟩))

/-- **`remove_vertex_label` moves the vertex.** -/
theorem Refines.removeVertexLabel {cur target : Nat} {d : VertexData} {info : LabelInfo}
    (h : Refines base (some s.fxid) db.store V A G) (hs : db.store.xacts.Open base s.fxid)
    (hk : G.vertex (cur, id) = some d) (hno : NoBlocks db.store (cur, id))
    (hl : db.store.vlabel target = some info) (hfresh : FreshVertex db.store target info.vertexIdSeq)
    (u : Unspecified) :
    ∃ db' n A' newV, ∃ hne : (target, info.vertexIdSeq) ≠ (cur, id),
      newV.key = (target, info.vertexIdSeq) ∧
      Refines base (some s.fxid) db'.store ((target, info.vertexIdSeq) :: V) A'
        (G.moveVertex (cur, id) (target, info.vertexIdSeq) d hne) ∧
      db'.store.xacts = db.store.xacts ∧ ∀ fuel, n ≤ fuel →
        (NeoPostGraph.removeVertexLabel u fuel s id cur target).Runs db newV db' := by
  obtain ⟨rec, db', n, A', newV, hne, hrec, hvalid, hnew, h', hx, hr⟩ :=
    h.relabelVertex hs hk hno hl hfresh u
  refine ⟨db', n, A', newV, hne, hnew, h', hx, fun fuel hfuel => ?_⟩
  refine (readOldSlot_iff.mpr ⟨rfl, hrec⟩).bind ?_
  rw [hvalid]
  exact hr fuel hfuel

/-- **Moving a vertex that is not there fails**, and changes nothing. -/
theorem Refines.relabelVertex_refused {cur : Nat} {rec : NeoPhysMapRecord}
    (h : Refines base (some s.fxid) db.store V A G) (hs : db.store.xacts.Open base s.fxid)
    (hown : OwnVertexSlot db.store cur id) (hno : G.vertex (cur, id) = none)
    (hrec : db.store.vslot (cur, entitySlot id) = some rec) (u : Unspecified) (target : Nat) :
    ∃ er, ∀ fuel,
      (NeoPostGraph.relabelVertex u fuel s id cur target rec).exec db = (.error er, db) := by
  rcases Prog.step_cases _ db with ⟨er, he⟩ | ⟨t, db₁, hr⟩
  · exact ⟨er, fun fuel => Prog.exec_bind_error he _⟩
  · obtain ⟨rfl, ht, hup⟩ := readVertexTuple_iff.mp hr
    have hslot := congrArg (Option.map NeoPhysMapRecord.vItemptr) hrec
    exact absurd hup (h.vertex_not_updatable hs hown hno hslot ht)

/-- **`remove_vertex_label` fails where the vertex is not there**, and changes nothing. -/
theorem Refines.removeVertexLabel_refused {cur target : Nat}
    (h : Refines base (some s.fxid) db.store V A G) (hs : db.store.xacts.Open base s.fxid)
    (hown : OwnVertexSlot db.store cur id) (hno : G.vertex (cur, id) = none) (u : Unspecified) :
    ∃ er, ∀ fuel,
      (NeoPostGraph.removeVertexLabel u fuel s id cur target).exec db = (.error er, db) := by
  rcases hread : (readOldSlot cur id).exec db with ⟨er | rec, db₁⟩
  · obtain rfl := Prog.step_error hread
    exact ⟨er, fun fuel => Prog.exec_bind_error hread _⟩
  · obtain ⟨rfl, hrec⟩ := readOldSlot_iff.mp hread
    cases hvalid : rec.vItemptr.isValid with
    | false =>
      refine ⟨.alreadyMigrated id, fun fuel => (Prog.exec_bind_ok hread _).trans ?_⟩
      rw [hvalid]
      rfl
    | true =>
      obtain ⟨er, hr⟩ := h.relabelVertex_refused hs hown hno hrec u target
      refine ⟨er, fun fuel => (Prog.exec_bind_ok hread _).trans ?_⟩
      rw [hvalid]
      exact hr fuel

/-- **`set_vertex_label` fails where the vertex is not there**, unless there is nothing to do, and
changes nothing. -/
theorem Refines.setVertexLabel_refused {cur target : Nat}
    (h : Refines base (some s.fxid) db.store V A G) (hs : db.store.xacts.Open base s.fxid)
    (hown : OwnVertexSlot db.store cur id) (hno : G.vertex (cur, id) = none) (hcur : target ≠ cur)
    (u : Unspecified) :
    ∃ er, ∀ fuel,
      (NeoPostGraph.setVertexLabel u fuel s id cur target).exec db = (.error er, db) := by
  rcases hlab : (readVertexLabel cur (.labelIdNotFound cur) fun _ _ => return ()).exec db with
    ⟨er | w, db₁⟩
  · obtain rfl := Prog.step_error hlab
    exact ⟨er, fun fuel => Prog.exec_bind_error hlab _⟩
  obtain ⟨_, -, -, rfl⟩ := runs_readVertexLabel.mp hlab
  have hgo : ∀ {r : Except Err (Option Vertex) × Db} {fuel : Nat}, (readOldSlot cur id >>= fun rec =>
      NeoPostGraph.relabelVertex u fuel s id cur target rec >>= fun v => pure (some v)).exec db₁ = r →
      (NeoPostGraph.setVertexLabel u fuel s id cur target).exec db₁ = r := by
    intro r fuel hr
    unfold NeoPostGraph.setVertexLabel
    refine (Prog.exec_bind_ok hlab _).trans ?_
    rw [if_neg hcur]
    exact hr
  rcases hread : (readOldSlot cur id).exec db₁ with ⟨er | rec, db₂⟩
  · obtain rfl := Prog.step_error hread
    exact ⟨er, fun fuel => hgo (Prog.exec_bind_error hread _)⟩
  obtain ⟨rfl, hrec⟩ := readOldSlot_iff.mp hread
  obtain ⟨er, hr⟩ := h.relabelVertex_refused hs hown hno hrec u target
  exact ⟨er, fun fuel => hgo ((Prog.exec_bind_ok hread _).trans (Prog.exec_bind_error (hr fuel) _))⟩

end

end NeoPostGraph
