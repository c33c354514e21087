import NeoPostGraph.Graph.VertexMove

/-!
# One operation of a serial graph

What each operation does to the property graph, as an operation on property graphs alone; and that the
code does it, whenever the graph admits it, and fails otherwise.

* `GraphOp.Does o G G'`: the operation makes `G'` of `G`. Where there is no such `G'`, it is refused.
* `GraphOp.Ready st s o`: what the callers of the operation see to: that its label is there, that ids
  are fresh and slots are not shared.
* `GraphOp.Completes`, `GraphOp.Fails`: how a call ends, given fuel.
* `Realizes base tx db G`: the state depicts `G`.

Results:
* `Realizes.unique`: a state depicts one graph.
* `Realizes.call`: a call completes and does its operation, or is refused and fails.
-/

namespace NeoPostGraph

open SlottedPage LinkedChain

/-! ## Operations on property graphs -/

/-- **What the operations do to the property graph.** A vertex that moves to another label gets an id
there that no vertex has. -/
inductive GraphOp.Does : GraphOp → LiveGraph → LiveGraph → Prop
  | insertVertex {G : LiveGraph} {v : Vertex} {props : Gtype} (hnew : G.vertex v.key = none)
      (hfits : Fits (totalTupleSize sizeOfVertex props)) :
      Does (.insertVertex v props) G (G.putVertex v.key ⟨v.dictionaryId, props⟩)
  | insertEdge {G : LiveGraph} {startV endV : Vertex} {e : Edge} {props : Gtype}
      (hs : (G.vertex e.startKey).isSome) (he : (G.vertex e.endKey).isSome)
      (hnew : G.arc e.id = none) (hfits : Fits (totalTupleSize sizeOfEdge props)) :
      Does (.insertEdge startV endV e props) G (G.putArc e.id (e.arc props) hs he)
  | updateVertex {G : LiveGraph} {l id : Nat} {props : Gtype} {d : VertexData}
      (hd : G.vertex (l, id) = some d) (hfits : Fits (totalTupleSize sizeOfVertex props)) :
      Does (.updateVertex l id props) G (G.putVertex (l, id) ⟨d.dictionaryId, props⟩)
  | updateEdge {G : LiveGraph} {id : Nat} {props : Gtype} {a : Arc VertexKey EdgeData}
      (ha : G.arc id = some a) (hfits : Fits (totalTupleSize sizeOfEdge props)) :
      Does (.updateEdge a.data.labelId id props) G
        (G.putArc id (arcWith a props) (G.closed id a ha).1 (G.closed id a ha).2)
  | deleteEdge {G : LiveGraph} {fuel id : Nat} {a : Arc VertexKey EdgeData} (ha : G.arc id = some a) :
      Does (.deleteEdge fuel a.data.labelId id) G (G.dropArc id)
  | deleteVertex {G : LiveGraph} {fuel l id : Nat} {detach : Bool} (hv : (G.vertex (l, id)).isSome)
      (hd : Deletable G (l, id) detach) :
      Does (.deleteVertex fuel l id detach) G
        ((G.detach (l, id)).dropVertex (l, id) (G.isolated_detach (l, id)))
  | keepVertexLabel {G : LiveGraph} {fuel id cur : Nat} : Does (.setVertexLabel fuel id cur cur) G G
  | setVertexLabel {G : LiveGraph} {fuel id cur target new : Nat} {d : VertexData}
      (hcur : target ≠ cur) (hd : G.vertex (cur, id) = some d) (hnew : G.vertex (target, new) = none)
      (hne : (target, new) ≠ (cur, id)) :
      Does (.setVertexLabel fuel id cur target) G (G.moveVertex (cur, id) (target, new) d hne)
  | removeVertexLabel {G : LiveGraph} {fuel id cur target new : Nat} {d : VertexData}
      (hd : G.vertex (cur, id) = some d) (hnew : G.vertex (target, new) = none)
      (hne : (target, new) ≠ (cur, id)) :
      Does (.removeVertexLabel fuel id cur target) G (G.moveVertex (cur, id) (target, new) d hne)
  | keepEdgeLabel {G : LiveGraph} {fuel id cur : Nat} : Does (.setEdgeLabel fuel id cur cur) G G
  | setEdgeLabel {G : LiveGraph} {fuel id target : Nat} {a : Arc VertexKey EdgeData}
      (hcur : target ≠ a.data.labelId) (ha : G.arc id = some a) :
      Does (.setEdgeLabel fuel id a.data.labelId target) G
        (G.putArc id (arcUnder a target) (G.closed id a ha).1 (G.closed id a ha).2)
  | keepEdgeLabel' {G : LiveGraph} {fuel id cur : Nat} : Does (.removeEdgeLabel fuel id cur cur) G G
  | removeEdgeLabel {G : LiveGraph} {fuel id target : Nat} {a : Arc VertexKey EdgeData}
      (hcur : target ≠ a.data.labelId) (ha : G.arc id = some a) :
      Does (.removeEdgeLabel fuel id a.data.labelId target) G
        (G.putArc id (arcUnder a target) (G.closed id a ha).1 (G.closed id a ha).2)
  | rotate {G : LiveGraph} {l : Nat} : Does (.rotateActiveLinkedListTable l) G G
  | compact {G : LiveGraph} {l : Nat} : Does (.compactOldestLinkedListTable l) G G

/-! ## Calls -/

/-- The session sees the vertex. -/
def Store.SeesVertex (st : Store) (s : Session) (k : VertexKey) : Prop :=
  ∃ tid t, st.vtuple (k.1, tid) = some t ∧ t.hdr.id = k.2 ∧
    npEntityTupleIsLive st.xacts s.own t.hdr.toRecordHeader = true

/-- The session sees an edge of the id, under some label. -/
def Store.SeesEdge (st : Store) (s : Session) (id : Nat) : Prop :=
  ∃ l tid t, st.etuple (l, tid) = some t ∧ t.hdr.id = id ∧
    npEntityTupleIsLive st.xacts s.own t.hdr.toRecordHeader = true

/-- **What the callers see to.** Labels are looked up, ids of new vertices are drawn from the sequence
of their label, and an edge is inserted between vertices that were fetched, under an id that no edge
has. What the code does not check is that ids do not share slots, and that a chain which
`delete_vertex` or a move of its vertex reads is not compacted. -/
def GraphOp.Ready (st : Store) (s : Session) : GraphOp → Prop
  | insertVertex v _ => (st.vlabel v.labelId).isSome ∧ FreshVertex st v.labelId v.id
  | insertEdge startV endV e _ => st.elabel e.labelId = true ∧ startV.key = e.startKey ∧
      endV.key = e.endKey ∧ st.SeesVertex s e.startKey ∧ st.SeesVertex s e.endKey ∧
      ¬ st.SeesEdge s e.id ∧ OwnEdgeSlot st e.labelId e.id ∧ EdgeIdFits e.id
  | updateVertex l id _ => OwnVertexSlot st l id
  | updateEdge l id _ => OwnEdgeSlot st l id
  | deleteEdge _ l id => OwnEdgeSlot st l id
  | deleteVertex _ l id _ => OwnVertexSlot st l id ∧ NoBlocks st (l, id) ∧
      (st.HasVertex (l, id) ∨ st.vslot (l, entitySlot id) = none)
  | setVertexLabel _ id cur target => (st.vlabel target).isSome ∧ FreshNextId st target ∧
      OwnVertexSlot st cur id ∧ NoBlocks st (cur, id)
  | removeVertexLabel _ id cur target => (st.vlabel target).isSome ∧ FreshNextId st target ∧
      OwnVertexSlot st cur id ∧ NoBlocks st (cur, id)
  | setEdgeLabel _ id cur target => st.elabel cur = true ∧ st.elabel target = true ∧
      OwnEdgeSlot st cur id ∧ OwnEdgeSlot st target id
  | removeEdgeLabel _ id cur target => st.elabel cur = true ∧ st.elabel target = true ∧
      OwnEdgeSlot st cur id ∧ OwnEdgeSlot st target id
  | rotateActiveLinkedListTable l => (st.vlabel l).isSome
  | compactOldestLinkedListTable l => (st.vlabel l).isSome

/-- The operation with other fuel. -/
def GraphOp.withFuel (fuel : Nat) : GraphOp → GraphOp
  | deleteEdge _ l id => deleteEdge fuel l id
  | deleteVertex _ l id detach => deleteVertex fuel l id detach
  | setVertexLabel _ id cur target => setVertexLabel fuel id cur target
  | removeVertexLabel _ id cur target => removeVertexLabel fuel id cur target
  | setEdgeLabel _ id cur target => setEdgeLabel fuel id cur target
  | removeEdgeLabel _ id cur target => removeEdgeLabel fuel id cur target
  | o => o

/-- Given fuel, the call succeeds. -/
def GraphOp.Completes (u : Unspecified) (s : Session) (o : GraphOp) (db db' : Db) : Prop :=
  ∃ n, ∀ fuel, n ≤ fuel → ((o.withFuel fuel).run u s).Runs db () db'

/-- Given fuel, the call ends with an error. -/
def GraphOp.Fails (u : Unspecified) (s : Session) (o : GraphOp) (db : Db) : Prop :=
  ∃ n er, ∀ fuel, n ≤ fuel → (((o.withFuel fuel).run u s).exec db).1 = .error er

/-- **The state depicts the graph.** -/
def Realizes (base : Nat) (tx : Option Nat) (db : Db) (G : LiveGraph) : Prop :=
  ∃ V A, Refines base tx db.store V A G

/-- What a call comes to: it completes and does its operation, or is refused and fails. -/
def GraphOp.Settles (u : Unspecified) (base : Nat) (s : Session) (o : GraphOp) (db : Db)
    (G : LiveGraph) : Prop :=
  (∃ db' G', o.Does G G' ∧ o.Completes u s db db' ∧ Realizes base (some s.fxid) db' G' ∧
    db'.xacts = db.xacts) ∨ (∀ G', ¬ o.Does G G') ∧ o.Fails u s db

section

variable {base l id : Nat} {tx : Option Nat} {V : List VertexKey} {A : AdjView} {G G' : LiveGraph}
  {s : Session} {db db' : Db} {u : Unspecified} {o : GraphOp} {st : Store}

theorem Realizes.unique (h : Realizes base tx db G) (h' : Realizes base tx db G') : G = G' := by
  obtain ⟨V, A, h⟩ := h
  obtain ⟨V', A', h'⟩ := h'
  exact h.depicts.unique h'.depicts

/-! ## What the session sees -/

/-- **The session sees the vertices of the graph.** -/
theorem Refines.seesVertex_iff (h : Refines base (some s.fxid) st V A G)
    (hs : st.xacts.Open base s.fxid) (k : VertexKey) :
    st.SeesVertex s k ↔ (G.vertex k).isSome := by
  rw [Option.isSome_iff_exists]
  constructor
  · rintro ⟨tid, t, ht, hid, hlive⟩
    have hd := (h.serial.live_iff hs h.inv.room_le ((h.inv.vertex k.1).header tid t ht)).mp hlive
    exact ⟨_, (h.depicts.vertices k.1).eq_some_iff.mpr ⟨tid, t, ht, hid, hd, rfl⟩⟩
  · rintro ⟨d, hd⟩
    obtain ⟨tid, t, ht, hid, hdel, -⟩ := (h.depicts.vertices k.1).eq_some_iff.mp hd
    exact ⟨tid, t, ht, hid,
      (h.serial.live_iff hs h.inv.room_le ((h.inv.vertex k.1).header tid t ht)).mpr hdel⟩

/-- **The session sees the edges of the graph.** -/
theorem Refines.seesEdge_iff (h : Refines base (some s.fxid) st V A G)
    (hs : st.xacts.Open base s.fxid) (id : Nat) : st.SeesEdge s id ↔ (G.arc id).isSome := by
  rw [Option.isSome_iff_exists]
  constructor
  · rintro ⟨l, tid, t, ht, hid, hlive⟩
    have hd := (h.serial.live_iff hs h.inv.room_le ((h.inv.edge l).header tid t ht)).mp hlive
    have hedge : edgesOf G l id = some (edgeArc t) :=
      (h.depicts.edges l).eq_some_iff.mpr ⟨tid, t, ht, hid, hd, rfl⟩
    exact ⟨_, (edgesOf_eq_some.mp hedge).1⟩
  · rintro ⟨a, ha⟩
    have hedge : edgesOf G a.data.labelId id = some a := edgesOf_eq_some.mpr ⟨ha, rfl⟩
    obtain ⟨tid, t, ht, hid, hdel, -⟩ := (h.depicts.edges a.data.labelId).eq_some_iff.mp hedge
    exact ⟨a.data.labelId, tid, t, ht, hid,
      (h.serial.live_iff hs h.inv.room_le ((h.inv.edge a.data.labelId).header tid t ht)).mpr hdel⟩

/-! ## Partitions -/

/-- **A rotation** leaves the graph. -/
theorem Refines.rotate (h : Refines base tx db.store V A G) (hl : (db.store.vlabel l).isSome) :
    ∃ db', (NeoPostGraph.rotateActiveLinkedListTable l).Runs db () db' ∧
      Refines base tx db'.store V A G ∧ db'.store.xacts = db.store.xacts := by
  rcases rotateActiveLinkedListTable_cases h.inv.layout.catalog l with
    ⟨e, he⟩ | ⟨info, db', hinfo, hr, hst⟩
  · obtain ⟨o, db', hr⟩ : ∃ o db', (createNewActiveLinkedList l).Runs db o db' :=
      createNewActiveLinkedList_runs hl
    have hrun : (NeoPostGraph.rotateActiveLinkedListTable l).Runs db () db' :=
      hr.bind (Prog.runs_ret_iff.mpr ⟨rfl, rfl⟩)
    unfold Prog.Runs at hrun
    rw [he] at hrun
    cases hrun
  · refine ⟨db', hr, ?_, by rw [hst]; rfl⟩
    rw [hst]
    exact h.same ⟨rfl, rfl, fun _ _ => rfl, rfl, rfl⟩ (h.inv.layout.rotate hinfo) rfl rfl

/-- **A compaction** leaves the graph: the lists have the same members, in some order. -/
theorem Refines.compact (h : Refines base tx db.store V A G) (hl : (db.store.vlabel l).isSome)
    (u : Unspecified) (s : Session) :
    ∃ db' A', (NeoPostGraph.compactOldestLinkedListTable u s l).Runs db () db' ∧
      Refines base tx db'.store V A' G ∧ db'.store.xacts = db.store.xacts := by
  obtain ⟨db', A', hr, hA', hperm⟩ := h.depicts.shows.compact hl u s
  have hsame : SameTuples db.store db'.store := by
    have hexec := (compact_sameTuples db.store u s l).exec (SameTuples.refl db.store)
    rwa [hr] at hexec
  refine ⟨db', A', hr, ⟨h.inv.same hsame hA'.layout, by rw [hsame.xacts]; exact h.serial,
    fun l => ?_, fun l => ?_, hA', fun v hv => (h.depicts.ends v hv).perm (hperm v hv)⟩, hsame.xacts⟩
  · rw [hsame.vtuple, show db'.store.vertexPtr l = db.store.vertexPtr l from
      funext (hsame.vertexPtr l)]
    exact h.depicts.vertices l
  · rw [hsame.etuple, hsame.edgePtr]
    exact h.depicts.edges l

/-! ## One call after the other -/

theorem Refines.settles (h : Refines base (some s.fxid) db'.store V A G') (hd : o.Does G G')
    (hc : o.Completes u s db db') (hx : db'.store.xacts = db.store.xacts) :
    o.Settles u base s db G := Or.inl ⟨db', G', hd, hc, ⟨V, A, h⟩, hx⟩

theorem runs_discard {α : Type} {p : Op α} {a : α} (h : p.Runs db a db') :
    (discard p).Runs db () db' := h.bind (Prog.runs_ret_iff.mpr ⟨rfl, rfl⟩)

theorem fails_discard {α : Type} {p : Op α} {er : Err} (h : p.exec db = (.error er, db')) :
    ((discard p).exec db).1 = .error er := congrArg Prod.fst (Prog.exec_bind_error h _)

theorem Refines.settles_insertVertex {v : Vertex} {props : Gtype}
    (h : Refines base (some s.fxid) db.store V A G) (hs : db.store.xacts.Open base s.fxid)
    (ho : (GraphOp.insertVertex v props).Ready db.store s) :
    (GraphOp.insertVertex v props).Settles u base s db G := by
  obtain ⟨hl, hfresh⟩ := ho
  by_cases hfits : Fits (totalTupleSize sizeOfVertex props)
  · obtain ⟨db', hr, h', hx⟩ := h.insertVertex hs hl hfits hfresh
    exact h'.settles (.insertVertex (h.not_vertex_of_fresh hfresh) hfits) ⟨0, fun _ _ => hr⟩ hx
  · refine Or.inr ⟨fun G' hd => ?_, ?_⟩
    · cases hd with
      | insertVertex _ hf => exact hfits hf
    · rcases Prog.step_cases _ db with ⟨er, he⟩ | ⟨tid, db', hr⟩
      · exact ⟨0, er, fun _ _ => congrArg Prod.fst (Prog.exec_bind_error he _)⟩
      · obtain ⟨-, hf, -⟩ := writeVertexTuple_inv hr
        exact absurd hf hfits

theorem Refines.settles_insertEdge {startV endV : Vertex} {e : Edge} {props : Gtype}
    (h : Refines base (some s.fxid) db.store V A G) (hs : db.store.xacts.Open base s.fxid)
    (ho : (GraphOp.insertEdge startV endV e props).Ready db.store s) :
    (GraphOp.insertEdge startV endV e props).Settles u base s db G := by
  obtain ⟨hl, hstart, hend, hsv, hev, hno, hown, hid⟩ := ho
  rw [h.seesVertex_iff hs] at hsv hev
  rw [h.seesEdge_iff hs, Option.not_isSome_iff_eq_none] at hno
  by_cases hfits : Fits (totalTupleSize sizeOfEdge props)
  · obtain ⟨db', hr, h', hsame⟩ := h.insertEdge hs hl hfits hstart hend hsv hev hno hown hid u
    exact h'.settles (.insertEdge hsv hev hno hfits) ⟨0, fun _ _ => hr⟩ hsame.xacts
  · refine Or.inr ⟨fun G' hd => ?_, ?_⟩
    · cases hd with
      | insertEdge _ _ _ hf => exact hfits hf
    · rcases Prog.step_cases _ db with ⟨er, he⟩ | ⟨tid, db', hr⟩
      · exact ⟨0, er, fun _ _ => congrArg Prod.fst (Prog.exec_bind_error he _)⟩
      · obtain ⟨-, hf, -⟩ := writeEdgeTuple_inv hr
        exact absurd hf hfits

theorem Refines.settles_updateVertex {props : Gtype} (h : Refines base (some s.fxid) db.store V A G)
    (hs : db.store.xacts.Open base s.fxid) (hown : OwnVertexSlot db.store l id) :
    (GraphOp.updateVertex l id props).Settles u base s db G := by
  by_cases hgo : (G.vertex (l, id)).isSome ∧ Fits (totalTupleSize sizeOfVertex props)
  · obtain ⟨d, hd⟩ := Option.isSome_iff_exists.mp hgo.1
    obtain ⟨db', hr, h', hx⟩ := h.updateVertex hs hd hgo.2
    exact h'.settles (.updateVertex hd hgo.2) ⟨0, fun _ _ => hr⟩ hx
  · refine Or.inr ⟨fun G' hd => ?_, ?_⟩
    · cases hd with
      | updateVertex hd hf => exact hgo ⟨by rw [hd]; rfl, hf⟩
    · rw [not_and_or, Option.not_isSome_iff_eq_none] at hgo
      obtain ⟨er, he⟩ := h.updateVertex_refused hs hown hgo
      exact ⟨0, er, fun _ _ => congrArg Prod.fst he⟩

/-- There is an edge of this label and id, or none. -/
theorem arc_cases (G : LiveGraph) (l id : Nat) :
    (∃ a, G.arc id = some a ∧ a.data.labelId = l) ∨ ∀ a, G.arc id = some a → a.data.labelId ≠ l := by
  by_cases h : ∃ a, G.arc id = some a ∧ a.data.labelId = l
  · exact Or.inl h
  · exact Or.inr fun a ha hl => h ⟨a, ha, hl⟩

theorem Refines.settles_updateEdge {props : Gtype} (h : Refines base (some s.fxid) db.store V A G)
    (hs : db.store.xacts.Open base s.fxid) (hown : OwnEdgeSlot db.store l id) :
    (GraphOp.updateEdge l id props).Settles u base s db G := by
  have hfail : (∀ a, G.arc id = some a → a.data.labelId ≠ l) ∨
      ¬ Fits (totalTupleSize sizeOfEdge props) → (GraphOp.updateEdge l id props).Fails u s db := by
    intro hno
    obtain ⟨er, he⟩ := h.updateEdge_refused hs hown hno u
    exact ⟨0, er, fun _ _ => congrArg Prod.fst he⟩
  rcases arc_cases G l id with ⟨a, ha, rfl⟩ | hno
  · by_cases hfits : Fits (totalTupleSize sizeOfEdge props)
    · obtain ⟨db', hr, h', hx⟩ := h.updateEdge hs ha hfits u
      exact h'.settles (.updateEdge ha hfits) ⟨0, fun _ _ => hr⟩ hx
    · refine Or.inr ⟨fun G' hd => ?_, hfail (Or.inr hfits)⟩
      generalize a.data.labelId = l at hd
      cases hd with
      | updateEdge _ hf => exact hfits hf
  · refine Or.inr ⟨fun G' hd => ?_, hfail (Or.inl hno)⟩
    cases hd with
    | updateEdge ha _ => exact hno _ ha rfl

theorem Refines.settles_deleteEdge (h : Refines base (some s.fxid) db.store V A G)
    (hs : db.store.xacts.Open base s.fxid) (hown : OwnEdgeSlot db.store l id) (f : Nat) :
    (GraphOp.deleteEdge f l id).Settles u base s db G := by
  rcases arc_cases G l id with ⟨a, ha, rfl⟩ | hno
  · obtain ⟨db', n, e, -, -, h', hsame, -, -, hr⟩ := h.deleteEdge hs ha
    exact h'.settles (.deleteEdge ha) ⟨n, hr⟩ hsame.xacts
  · refine Or.inr ⟨fun G' hd => ?_, ?_⟩
    · cases hd with
      | deleteEdge ha => exact hno _ ha rfl
    · obtain ⟨er, he⟩ := h.deleteEdge_refused hs hown hno
      exact ⟨0, er, fun fuel _ => congrArg Prod.fst (he fuel)⟩

theorem Refines.settles_deleteVertex {detach : Bool} (h : Refines base (some s.fxid) db.store V A G)
    (hs : db.store.xacts.Open base s.fxid) (f : Nat)
    (ho : (GraphOp.deleteVertex f l id detach).Ready db.store s) :
    (GraphOp.deleteVertex f l id detach).Settles u base s db G := by
  obtain ⟨hown, hno, hv⟩ := ho
  by_cases hgo : (G.vertex (l, id)).isSome ∧ Deletable G (l, id) detach
  · obtain ⟨db', n, A', h', hx, hr⟩ := h.deleteVertex hs hgo.1 hno hgo.2 u
    exact h'.settles (.deleteVertex hgo.1 hgo.2) ⟨n, hr⟩ hx
  · refine Or.inr ⟨fun G' hd => ?_, ?_⟩
    · cases hd with
      | deleteVertex hv hd => exact hgo ⟨hv, hd⟩
    · rw [not_and_or, Option.not_isSome_iff_eq_none] at hgo
      exact h.deleteVertex_refused hs hown (hv.imp_left (h.inv.mem _).mpr) hno hgo u

theorem Refines.settles_setVertexLabel {cur target : Nat}
    (h : Refines base (some s.fxid) db.store V A G) (hs : db.store.xacts.Open base s.fxid) (f : Nat)
    (ho : (GraphOp.setVertexLabel f id cur target).Ready db.store s) :
    (GraphOp.setVertexLabel f id cur target).Settles u base s db G := by
  obtain ⟨hl, hfresh, hown, hno⟩ := ho
  obtain ⟨info, hinfo⟩ := Option.isSome_iff_exists.mp hl
  by_cases hcur : target = cur
  · subst hcur
    obtain ⟨lab, hlab⟩ := exists_vlabel hl
    have hr : ∀ fuel, (NeoPostGraph.setVertexLabel u fuel s id target target).Runs db none db := by
      intro fuel
      unfold NeoPostGraph.setVertexLabel
      rw [if_pos rfl]
      exact Prog.Runs.bind (a := ()) (runs_readVertexLabel.mpr ⟨lab, hlab, rfl, rfl⟩)
        (Prog.runs_ret_iff.mpr ⟨rfl, rfl⟩)
    exact h.settles .keepVertexLabel ⟨0, fun fuel _ => runs_discard (hr fuel)⟩ rfl
  cases hk : G.vertex (cur, id) with
  | none =>
    refine Or.inr ⟨fun G' hd => ?_, ?_⟩
    · cases hd with
      | keepVertexLabel => exact hcur rfl
      | setVertexLabel _ hd =>
        rw [hk] at hd
        cases hd
    · obtain ⟨er, he⟩ := h.setVertexLabel_refused hs hown hk hcur u
      exact ⟨0, er, fun fuel _ => fails_discard (he fuel)⟩
  | some d =>
    obtain ⟨db', n, A', newV, hne, -, h', hx, hr⟩ :=
      h.setVertexLabel hs hk hno hcur hinfo (hfresh info hinfo) u
    exact h'.settles (.setVertexLabel hcur hk (h.not_vertex_of_fresh (hfresh info hinfo)) hne)
      ⟨n, fun fuel hfuel => runs_discard (hr fuel hfuel)⟩ hx

theorem Refines.settles_removeVertexLabel {cur target : Nat}
    (h : Refines base (some s.fxid) db.store V A G) (hs : db.store.xacts.Open base s.fxid) (f : Nat)
    (ho : (GraphOp.removeVertexLabel f id cur target).Ready db.store s) :
    (GraphOp.removeVertexLabel f id cur target).Settles u base s db G := by
  obtain ⟨hl, hfresh, hown, hno⟩ := ho
  obtain ⟨info, hinfo⟩ := Option.isSome_iff_exists.mp hl
  cases hk : G.vertex (cur, id) with
  | none =>
    refine Or.inr ⟨fun G' hd => ?_, ?_⟩
    · cases hd with
      | removeVertexLabel hd =>
        rw [hk] at hd
        cases hd
    · obtain ⟨er, he⟩ := h.removeVertexLabel_refused hs hown hk u
      exact ⟨0, er, fun fuel _ => fails_discard (he fuel)⟩
  | some d =>
    obtain ⟨db', n, A', newV, hne, -, h', hx, hr⟩ :=
      h.removeVertexLabel hs hk hno hinfo (hfresh info hinfo) u
    exact h'.settles (.removeVertexLabel hk (h.not_vertex_of_fresh (hfresh info hinfo)) hne)
      ⟨n, fun fuel hfuel => runs_discard (hr fuel hfuel)⟩ hx

/-- What `set_edge_label` and `remove_edge_label` come to. -/
theorem Refines.edgeLabel_cases {cur target : Nat} (h : Refines base (some s.fxid) db.store V A G)
    (hs : db.store.xacts.Open base s.fxid) (hl : db.store.elabel cur = true)
    (ht : db.store.elabel target = true) (hown : OwnEdgeSlot db.store cur id)
    (hown' : OwnEdgeSlot db.store target id) (u : Unspecified) :
    (target = cur ∧ ∀ fuel, (NeoPostGraph.setEdgeLabel u fuel s id cur target).Runs db none db) ∨
    (∃ a db' n A' newE, ∃ ha : G.arc id = some a, target ≠ cur ∧ a.data.labelId = cur ∧
      Refines base (some s.fxid) db'.store V A'
        (G.putArc id (arcUnder a target) (G.closed id a ha).1 (G.closed id a ha).2) ∧
      db'.store.xacts = db.store.xacts ∧ ∀ fuel, n ≤ fuel →
        (NeoPostGraph.setEdgeLabel u fuel s id cur target).Runs db (some newE) db') ∨
    (target ≠ cur ∧ (∀ a, G.arc id = some a → a.data.labelId ≠ cur) ∧
      ∃ er, ∀ fuel, (NeoPostGraph.setEdgeLabel u fuel s id cur target).exec db = (.error er, db)) := by
  by_cases hcur : target = cur
  · subst hcur
    exact Or.inl ⟨rfl, fun fuel => setEdgeLabel_same hl u fuel s id⟩
  have hgo : ∀ {r : Except Err (Option Edge) × Db} {fuel : Nat},
      (NeoPostGraph.relabelEdge u fuel s id cur target >>= fun e => pure (some e)).exec db = r →
      (NeoPostGraph.setEdgeLabel u fuel s id cur target).exec db = r := by
    intro r fuel hr
    refine (Prog.exec_bind_ok (checkEdgeLabel_runs hl) _).trans ?_
    rw [if_neg hcur]
    exact hr
  rcases arc_cases G cur id with ⟨a, ha, rfl⟩ | hno
  · obtain ⟨db', n, A', newE, h', hx, hr⟩ := h.relabelEdge hs ha ht hown' u
    refine Or.inr (Or.inl ⟨a, db', n, A', newE, ha, hcur, rfl, h', hx, fun fuel hfuel => hgo ?_⟩)
    exact (hr fuel hfuel).bind (Prog.runs_ret_iff.mpr ⟨rfl, rfl⟩)
  · obtain ⟨er, he⟩ : ∃ er, ∀ fuel,
        (NeoPostGraph.relabelEdge u fuel s id cur target).exec db = (.error er, db) :=
      h.relabelEdge_refused hs hown hno u
    exact Or.inr (Or.inr ⟨hcur, hno, er, fun fuel => hgo (Prog.exec_bind_error (he fuel) _)⟩)

theorem Refines.settles_setEdgeLabel {cur target : Nat}
    (h : Refines base (some s.fxid) db.store V A G) (hs : db.store.xacts.Open base s.fxid) (f : Nat)
    (ho : (GraphOp.setEdgeLabel f id cur target).Ready db.store s) :
    (GraphOp.setEdgeLabel f id cur target).Settles u base s db G := by
  obtain ⟨hl, ht, hown, hown'⟩ := ho
  rcases h.edgeLabel_cases hs hl ht hown hown' u with ⟨rfl, hr⟩ |
    ⟨a, db', n, A', newE, ha, hcur, rfl, h', hx, hr⟩ | ⟨hcur, hno, er, he⟩
  · exact h.settles .keepEdgeLabel ⟨0, fun fuel _ => runs_discard (hr fuel)⟩ rfl
  · exact h'.settles (.setEdgeLabel hcur ha) ⟨n, fun fuel hfuel => runs_discard (hr fuel hfuel)⟩ hx
  · refine Or.inr ⟨fun G' hd => ?_, 0, er, fun fuel _ => fails_discard (he fuel)⟩
    cases hd with
    | keepEdgeLabel => exact hcur rfl
    | setEdgeLabel _ ha => exact hno _ ha rfl

theorem Refines.settles_removeEdgeLabel {cur target : Nat}
    (h : Refines base (some s.fxid) db.store V A G) (hs : db.store.xacts.Open base s.fxid) (f : Nat)
    (ho : (GraphOp.removeEdgeLabel f id cur target).Ready db.store s) :
    (GraphOp.removeEdgeLabel f id cur target).Settles u base s db G := by
  obtain ⟨hl, ht, hown, hown'⟩ := ho
  rcases h.edgeLabel_cases hs hl ht hown hown' u with ⟨rfl, hr⟩ |
    ⟨a, db', n, A', newE, ha, hcur, rfl, h', hx, hr⟩ | ⟨hcur, hno, er, he⟩
  · exact h.settles .keepEdgeLabel' ⟨0, fun fuel _ => runs_discard (hr fuel)⟩ rfl
  · exact h'.settles (.removeEdgeLabel hcur ha) ⟨n, fun fuel hfuel => runs_discard (hr fuel hfuel)⟩ hx
  · refine Or.inr ⟨fun G' hd => ?_, 0, er, fun fuel _ => fails_discard (he fuel)⟩
    cases hd with
    | keepEdgeLabel' => exact hcur rfl
    | removeEdgeLabel _ ha => exact hno _ ha rfl

/-- **A call does its operation on the graph, or is refused and fails.** -/
theorem Realizes.call (h : Realizes base (some s.fxid) db G) (hs : db.store.xacts.Open base s.fxid)
    (ho : o.Ready db.store s) (u : Unspecified) : o.Settles u base s db G := by
  obtain ⟨V, A, h⟩ := h
  cases o with
  | insertVertex v props => exact h.settles_insertVertex hs ho
  | insertEdge startV endV e props => exact h.settles_insertEdge hs ho
  | updateVertex l id props => exact h.settles_updateVertex hs ho
  | updateEdge l id props => exact h.settles_updateEdge hs ho
  | deleteEdge f l id => exact h.settles_deleteEdge hs ho f
  | deleteVertex f l id detach => exact h.settles_deleteVertex hs f ho
  | setVertexLabel f id cur target => exact h.settles_setVertexLabel hs f ho
  | removeVertexLabel f id cur target => exact h.settles_removeVertexLabel hs f ho
  | setEdgeLabel f id cur target => exact h.settles_setEdgeLabel hs f ho
  | removeEdgeLabel f id cur target => exact h.settles_removeEdgeLabel hs f ho
  | rotateActiveLinkedListTable l =>
    obtain ⟨db', hr, h', hx⟩ := h.rotate ho
    exact h'.settles .rotate ⟨0, fun _ _ => hr⟩ hx
  | compactOldestLinkedListTable l =>
    obtain ⟨db', A', hr, h', hx⟩ := h.compact ho u s
    exact h'.settles .compact ⟨0, fun _ _ => hr⟩ hx

end

end NeoPostGraph
