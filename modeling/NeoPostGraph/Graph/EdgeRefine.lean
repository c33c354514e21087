import NeoPostGraph.Graph.Depicts

/-!
# The operations on edges, on the graph

Inserting, updating, deleting and relabelling an edge does to the property graph in the store what its
name says.

* `Refines base tx st V A G`: the invariant holds, every transaction but the open one has committed, and
  the store depicts `G`.
* `EdgeIdFits`, `OwnEdgeSlot`: what an edge id needs; its slot is on its page, and no other edge's.

Results:
* `Refines.insertEdge`, `Refines.deleteEdge`, `Refines.updateEdge`, `Refines.relabelEdge`: each succeeds
  and does that.
* `Refines.deleteEdge_refused`, `Refines.updateEdge_refused`, `Refines.relabelEdge_refused`: where there
  is no such edge, each fails and changes nothing.
-/

namespace NeoPostGraph

open SlottedPage LinkedChain

/-- The store of a graph whose transactions follow one another, and the property graph in it. -/
structure Refines (base : Nat) (tx : Option Nat) (st : Store) (V : List VertexKey) (A : AdjView)
    (G : LiveGraph) : Prop where
  inv : GraphInv base V st
  serial : SerialXacts base tx st.xacts
  depicts : Depicts st V A G

/-- The slot of the id is within what fits on its page. -/
def EdgeIdFits (id : Nat) : Prop :=
  (edgeSlot id).offset ≤ pageCapacity sizeOfNeoEdgePhysMapRecord

section

variable {base l id : Nat} {V : List VertexKey} {A : AdjView} {G : LiveGraph} {s : Session}
  {db db' : Db} {a : Arc VertexKey EdgeData} {u : Unspecified} {st st' : Store}

/-! ## What is there -/

theorem Refines.mem (h : Refines base tx st V A G) {k : VertexKey} (hk : (G.vertex k).isSome) :
    k ∈ V := by
  obtain ⟨d, hd⟩ := Option.isSome_iff_exists.mp hk
  obtain ⟨p, t, ht, hid, -⟩ := (h.depicts.vertices k.1).stored k.2 d hd
  exact (h.inv.mem k).mpr ⟨p, t, ht, hid⟩

/-- The tuple of an edge, which its slot points to. -/
theorem Refines.edge_get (h : Refines base tx st V A G) (ha : G.arc id = some a) :
    ∃ rec t, st.eslot (a.data.labelId, edgeSlot id) = some rec ∧
      st.etuple (a.data.labelId, rec.eItemptr) = some t ∧ t.hdr.id = id ∧ t.hdr.deleter = none ∧
      edgeArc t = a := by
  obtain ⟨p, t, hslot, ht, hid, hd, hview⟩ :=
    (h.depicts.edges a.data.labelId).get (edgesOf_eq_some.mpr ⟨ha, rfl⟩)
  obtain ⟨rec, hrec, rfl⟩ := Option.map_eq_some_iff.mp hslot
  exact ⟨rec, t, hrec, ht, hid, hd, hview⟩

theorem Refines.updatable (h : Refines base (some s.fxid) st V A G) (hs : st.xacts.Open base s.fxid)
    {tid : ItemPointer} {t : EntityTuple Edge} (ht : st.etuple (l, tid) = some t) :
    Updatable st.xacts s.own t ↔ t.hdr.deleter = none :=
  h.serial.updatable_iff hs h.inv.room_le ((h.inv.edge l).header _ t ht)

/-- An id that has a tuple has a slot of its own. -/
theorem GraphInv.ownEdgeSlot (h : GraphInv base V st) {tid : ItemPointer} {t : EntityTuple Edge}
    (ht : st.etuple (l, tid) = some t) : OwnEdgeSlot st l t.hdr.id :=
  fun q v hv hslot => (h.edge l).apart q v tid t hv ht hslot

/-- Where there is no edge of the id, a session may write one. -/
theorem Refines.freeEdge (h : Refines base (some s.fxid) st V A G) (hown : OwnEdgeSlot st l id)
    (hno : ∀ a, G.arc id = some a → a.data.labelId ≠ l) : FreeEdge st s.fxid l id := by
  intro p t ht hslot
  have hid := hown p t ht hslot
  refine ⟨hid, ?_⟩
  cases hd : t.hdr.deleter with
  | none =>
    have hshown := ((h.depicts.edges l).shown p t ht hd).2
    obtain ⟨ha, hl⟩ := edgesOf_eq_some.mp hshown
    rw [hid] at ha
    exact absurd hl (hno _ ha)
  | some d =>
    rcases h.serial d (((h.inv.edge l).header p t ht).xmax d hd) with hc | he
    · exact Or.inl (Or.inr ⟨d, hd, Or.inr hc⟩)
    · obtain rfl := Option.some.inj he
      exact Or.inr hd

/-- The vertex tuples, and what the slots of vertices point to, are the same. -/
structure SameVertices (st st' : Store) : Prop where
  xacts : st'.xacts = st.xacts
  vtuple : st'.vtuple = st.vtuple
  vertexPtr : ∀ l k, st'.vertexPtr l k = st.vertexPtr l k

theorem SameVertices.trans {st'' : Store} (h : SameVertices st st') (h' : SameVertices st' st'') :
    SameVertices st st'' :=
  ⟨h'.xacts.trans h.xacts, h'.vtuple.trans h.vtuple,
    fun l k => (h'.vertexPtr l k).trans (h.vertexPtr l k)⟩

/-- The edge tuples are of the same ids. -/
def SameEdgeIds (st st' : Store) : Prop :=
  ∀ k, (st'.etuple k).map (fun t => t.hdr.id) = (st.etuple k).map fun t => t.hdr.id

theorem SameEdgeIds.own (h : SameEdgeIds st st') (hown : OwnEdgeSlot st l id) : OwnEdgeSlot st' l id := by
  intro tid t ht hslot
  have hk := h (l, tid)
  rw [ht] at hk
  obtain ⟨t', ht', hid⟩ := Option.map_eq_some_iff.mp hk.symm
  replace hid : t'.hdr.id = t.hdr.id := hid
  rw [← hid] at hslot ⊢
  exact hown tid t' ht' hslot

/-! ## Inserting -/

/-- Another label's part of the map is padded at most. -/
theorem edgePtr_placed_ne {tid : ItemPointer} {capacity : Nat} {l' : Nat}
    {eslot : Nat × ItemPointer → Option NeoEdgePhysMapRecord} {pad rec : NeoEdgePhysMapRecord}
    (hplaced : Placed st.eslot eslot l tid capacity pad rec) (hes : st'.eslot = eslot) {k : ItemPointer}
    (hk : (l', k) ≠ (l, tid)) {p : ItemPointer} (hp : st.edgePtr l' k = some p) :
    st'.edgePtr l' k = some p := by
  obtain ⟨rec', hrec', rfl⟩ := Option.map_eq_some_iff.mp hp
  unfold Store.edgePtr
  rw [hes, hplaced.old hk hrec']
  rfl

/-- **An insert of an edge** between vertices of the graph puts it in. -/
theorem Refines.insertEdge {startV endV : Vertex} {e : Edge} {props : Gtype}
    (h : Refines base (some s.fxid) db.store V A G) (hs : db.store.xacts.Open base s.fxid)
    (hl : db.store.elabel e.labelId = true) (hfits : Fits (totalTupleSize sizeOfEdge props))
    (hstart : startV.key = e.startKey) (hend : endV.key = e.endKey)
    (hsv : (G.vertex e.startKey).isSome) (hev : (G.vertex e.endKey).isSome)
    (hnew : G.arc e.id = none) (hown : OwnEdgeSlot db.store e.labelId e.id) (hid : EdgeIdFits e.id)
    (u : Unspecified) :
    ∃ db', (npInternalInsertEdge u s startV endV e props).Runs db () db' ∧
      Refines base (some s.fxid) db'.store V (A.linkEdge s startV endV e)
        (G.putArc e.id (e.arc props) hsv hev) ∧ SameVertices db.store db'.store := by
  have hsmem := h.mem hsv
  have hemem := h.mem hev
  have hfree : FreeEdge db.store s.fxid e.labelId e.id := h.freeEdge hown fun a ha => by
    rw [hnew] at ha
    cases ha
  obtain ⟨db', tid, eslot, hr, hshows, hnone, hplaced, hsame⟩ := h.depicts.shows.insertEdge_runs hl
    hfits (hstart ▸ hsmem) (hend ▸ hemem) u s
  have hinv : GraphInv base V db'.store := ((h.inv.opState s).insertEdge_inv hs (hstart ▸ hsmem)
    (hend ▸ hemem) hsmem hemem hfree List.not_mem_nil hr).inv
  have hsv' : SameVertices db.store db'.store := ⟨hsame.xacts, hsame.vtuple, hsame.vertexPtr⟩
  refine ⟨db', hr, ⟨hinv, by rw [hsv'.xacts]; exact h.serial, fun l => ?_, fun l => ?_, hshows,
    fun v hv => ?_⟩, hsv'⟩
  · rw [hsame.vtuple, show db'.store.vertexPtr l = db.store.vertexPtr l from
      funext (hsame.vertexPtr l)]
    exact h.depicts.vertices l
  · have hno : ∀ b, G.arc e.id = some b → b.data.labelId ≠ l := fun b hb => by
      rw [hnew] at hb
      cases hb
    have het : db'.store.etuple = Function.update db.store.etuple (e.labelId, tid)
        (some (newEntityTuple s e.id .invalid e props)) := hsame.etuple
    rw [het]
    by_cases hle : l = e.labelId
    · subst hle
      have hedges : edgesOf (G.putArc e.id (e.arc props) hsv hev) e.labelId =
          Function.update (edgesOf G e.labelId) e.id (some (e.arc props)) :=
        edgesOf_putArc_self G e.id (e.arc props) hsv hev
      rw [update_label_self, hedges]
      refine (h.depicts.edges e.labelId).write (t := newEntityTuple s e.id .invalid e props) hnone rfl
        (Option.filter_eq_none_iff.mpr fun b hb => absurd hb ?_) hown ?_ fun k q hk hq => ?_
      · rw [show (newEntityTuple s e.id .invalid e props).hdr.id = e.id from rfl, hnew]
        nofun
      · show db'.store.edgePtr e.labelId (edgeSlot e.id) = _
        unfold Store.edgePtr
        rw [show db'.store.eslot = eslot from hsame.eslot, hplaced.self,
          if_pos (show (edgeSlot e.id).offset ≤ _ from hid)]
        rfl
      · exact edgePtr_placed_ne hplaced hsame.eslot (fun he => hk (Prod.mk.inj he).2) hq
    · have hedges : edgesOf (G.putArc e.id (e.arc props) hsv hev) l = edgesOf G l :=
        edgesOf_putArc_ne (a := e.arc props) hsv hev hle hno
      rw [update_label_ne _ hle, hedges]
      exact (h.depicts.edges l).repoint fun i p _ hp =>
        edgePtr_placed_ne hplaced hsame.eslot (fun he => hle (Prod.mk.inj he).1) hp
  · exact (h.depicts.ends v hv).linkEdge hnew hstart hend hsv hev

/-! ## Deleting -/

/-- **A delete of an edge** takes it away. -/
theorem Refines.deleteEdge (h : Refines base (some s.fxid) db.store V A G)
    (hs : db.store.xacts.Open base s.fxid) (ha : G.arc id = some a) :
    ∃ db' fuel₀ e, e.startKey = a.start ∧ e.endKey = a.stop ∧
      Refines base (some s.fxid) db'.store V (A.unlinkEdge s id e) (G.dropArc id) ∧
      SameVertices db.store db'.store ∧ db'.store.elabel = db.store.elabel ∧
      SameEdgeIds db.store db'.store ∧
      ∀ fuel, fuel₀ ≤ fuel → (npInternalDeleteEdge fuel s a.data.labelId id).Runs db () db' := by
  obtain ⟨rec, t, hrec, ht, rfl, hd, rfl⟩ := h.edge_get ha
  have hup := (h.updatable hs ht).mpr hd
  have hok := (h.inv.edge _).entity _ t ht
  obtain ⟨db', n, hshows, hsame, hel, hr⟩ :=
    h.depicts.shows.deleteEdge_runs hrec ht hup hok.startMem hok.endMem
  have hinv : GraphInv base V db'.store := by
    have hk := (OpState.deleteEdge_keeps hs n t.hdr.id (edgeArc t).data.labelId).exec
      (h.inv.opState s)
    rw [show (npInternalDeleteEdge n s (edgeArc t).data.labelId t.hdr.id).exec db = _ from
      hr n (Nat.le_refl n)] at hk
    exact hk.inv
  have hsv : SameVertices db.store db'.store := ⟨hsame.xacts, hsame.vtuple, hsame.vertexPtr⟩
  have het : db'.store.etuple = Function.update db.store.etuple
      ((edgeArc t).data.labelId, rec.eItemptr) (some (stampTuple s t)) := hsame.etuple
  refine ⟨db', n, t.entity, rfl, rfl, ⟨hinv, by rw [hsv.xacts]; exact h.serial, fun l => ?_, fun l => ?_,
    hshows, fun v hv => ?_⟩, hsv, hel, ?_, hr⟩
  · rw [hsame.vtuple, show db'.store.vertexPtr l = db.store.vertexPtr l from
      funext (hsame.vertexPtr l)]
    exact h.depicts.vertices l
  · rw [het, show db'.store.edgePtr l = db.store.edgePtr l by
      unfold Store.edgePtr
      rw [hsame.eslot]
      rfl]
    by_cases hl : l = (edgeArc t).data.labelId
    · subst hl
      rw [update_label_self, edgesOf_dropArc]
      exact (h.depicts.edges _).stamp hs.1.valid ht hd
    · rw [update_label_ne _ hl, edgesOf_dropArc_ne fun b hb => ?_]
      · exact h.depicts.edges l
      · obtain rfl := Option.some.inj (hb.symm.trans ha)
        exact Ne.symm hl
  · exact (h.depicts.ends v hv).unlinkEdge hs.1.valid ha rfl rfl
  · intro k
    rw [het, Function.update_apply]
    split
    · next hk =>
      rw [hk, ht]
      rfl
    · rfl

/-- Where there is no such edge, no tuple of the slot may be superseded. -/
theorem Refines.not_updatable (h : Refines base (some s.fxid) st V A G)
    (hs : st.xacts.Open base s.fxid) (hown : OwnEdgeSlot st l id)
    (hno : ∀ a, G.arc id = some a → a.data.labelId ≠ l) {rec : NeoEdgePhysMapRecord}
    {t : EntityTuple Edge} (hrec : st.eslot (l, edgeSlot id) = some rec)
    (ht : st.etuple (l, rec.eItemptr) = some t) : ¬ Updatable st.xacts s.own t := by
  intro hup
  have hid := (h.inv.edge l).id_of_slot
    (congrArg (Option.map NeoEdgePhysMapRecord.eItemptr) hrec) ht hown
  obtain ⟨ha, hl⟩ := edgesOf_eq_some.mp
    ((h.depicts.edges l).shown _ t ht ((h.updatable hs ht).mp hup)).2
  rw [hid] at ha
  exact hno _ ha hl

/-- **A delete of an edge that is not there fails**, and changes nothing. -/
theorem Refines.deleteEdge_refused (h : Refines base (some s.fxid) db.store V A G)
    (hs : db.store.xacts.Open base s.fxid) (hown : OwnEdgeSlot db.store l id)
    (hno : ∀ a, G.arc id = some a → a.data.labelId ≠ l) :
    ∃ er, ∀ fuel, (npInternalDeleteEdge fuel s l id).exec db = (.error er, db) := by
  have hread : ∀ fuel, npInternalDeleteEdge fuel s l id = (readEdgeLabel l (.edgeLabelNotFound l)
      fun _ lab => readSlot lab.physMap.table (edgeSlot id)) >>= fun pmapRec =>
        tombstoneEdge s l id pmapRec.eItemptr >>= fun deletedE =>
          npDeleteEdgeFromAdjList fuel s deletedE.startId deletedE.startLabel id >>= fun _ =>
            npDeleteEdgeFromAdjList fuel s deletedE.endId deletedE.endLabel id := fun _ => rfl
  rcases hr : (readEdgeLabel l (.edgeLabelNotFound l)
      fun _ lab => readSlot lab.physMap.table (edgeSlot id)).exec db with ⟨er | rec, db₁⟩
  · refine ⟨er, fun fuel => ?_⟩
    obtain rfl := Prog.step_error hr
    rw [hread, Prog.exec_bind_error hr]
  · obtain ⟨rfl, hrec⟩ := readEdgeSlot_iff.mp hr
    rcases Prog.step_cases _ db₁ with ⟨er, he⟩ | ⟨e, db₂, ht⟩
    · refine ⟨er, fun fuel => ?_⟩
      change (tombstoneEdge s l id rec.eItemptr).exec db₁ = _ at he
      rw [hread, Prog.exec_bind_ok hr, Prog.exec_bind_error he]
    · change (tombstoneEdge s l id rec.eItemptr).Runs db₁ e db₂ at ht
      obtain ⟨t, ht, hup, -⟩ := tombstoneEdge_inv ht
      exact absurd hup (h.not_updatable hs hown hno hrec ht)

/-! ## Updating -/

/-- Only what is in `V` matters. -/
theorem GraphInv.of_mem {V' : List VertexKey} (h : GraphInv base V' st) (hV : ∀ k, k ∈ V ↔ k ∈ V') :
    GraphInv base V st := by
  refine ⟨h.base_le, h.room, h.normal, ?_, fun k => (hV k).trans (h.mem k), h.vertex, fun l => ?_⟩
  · obtain ⟨hcat, hagree, hslots, hchain, hcover⟩ := h.layout
    exact ⟨hcat, fun v hv => hagree v ((hV v).mp hv),
      fun v hv w hw => hslots v ((hV v).mp hv) w ((hV w).mp hw),
      fun v hv => hchain v ((hV v).mp hv), fun l a rec hl hn =>
        ⟨(hV _).mpr (hcover l a rec hl hn).1, (hcover l a rec hl hn).2⟩⟩
  · exact (h.edge l).mono fun _ _ _ hok => hok.mono fun k hk => (hV k).mpr hk

/-- New data for an edge that starts and stops where it did, under the label it had, moves no end. -/
theorem hasEnd_putArc {b : Arc VertexKey EdgeData} (ha : G.arc id = some a) (hs : (G.vertex b.start).isSome)
    (he : (G.vertex b.stop).isSome) (hstart : b.start = a.start) (hstop : b.stop = a.stop)
    (hl : b.data.labelId = a.data.labelId) (v : VertexKey) (x : EdgeEnd) :
    HasEnd (G.putArc id b hs he) v x ↔ HasEnd G v x := by
  have harc : (G.putArc id b hs he).arc x.edgeId = Function.update G.arc id (some b) x.edgeId := rfl
  unfold HasEnd
  rw [harc]
  by_cases hx : x.edgeId = id
  · rw [hx, Function.update_self, ha]
    simp only [Option.some.injEq, exists_eq_left']
    unfold EdgeEnd.Of
    rw [hstart, hstop, hl]
  · rw [Function.update_of_ne hx]

/-- An arc with other properties. -/
def arcWith (a : Arc VertexKey EdgeData) (props : Gtype) : Arc VertexKey EdgeData :=
  { a with data := { a.data with props := props } }

/-- **An update of an edge** sets its properties. -/
theorem Refines.updateEdge (h : Refines base (some s.fxid) db.store V A G)
    (hs : db.store.xacts.Open base s.fxid) (ha : G.arc id = some a) {props : Gtype}
    (hfits : Fits (totalTupleSize sizeOfEdge props)) (u : Unspecified) :
    ∃ db', (NeoPostGraph.updateEdge u s a.data.labelId id props).Runs db () db' ∧
      Refines base (some s.fxid) db'.store V A
        (G.putArc id (arcWith a props) (G.closed id a ha).1 (G.closed id a ha).2) ∧
      db'.store.xacts = db.store.xacts := by
  obtain ⟨rec, t, hrec, ht, rfl, hd, rfl⟩ := h.edge_get ha
  have hup := (h.updatable hs ht).mpr hd
  have hown := h.inv.ownEdgeSlot ht
  obtain ⟨db', hr⟩ := updateEdge_runs hrec ht hup hfits u
  have hinv : GraphInv base V db'.store := by
    obtain ⟨V', hsub, hinv', -⟩ := h.inv.updateEdge_exec hs hown u props
    rw [hr] at hinv'
    obtain ⟨_, _, _, _, _, _, _, _, _, _, _, hst⟩ := updateEdge_inv hr
    refine hinv'.of_mem fun k => ⟨hsub k, fun hk => (h.inv.mem k).mpr ?_⟩
    have hhas := (hinv'.mem k).mp hk
    unfold Store.HasVertex at hhas
    rw [hst] at hhas
    exact hhas
  obtain ⟨rec', t', tid, hrec', ht', -, -, hnone, -, -, hplaced, hst⟩ := updateEdge_inv hr
  obtain rfl := Option.some.inj (hrec.symm.trans hrec')
  obtain rfl := Option.some.inj (ht.symm.trans ht')
  have hx : db'.store.xacts = db.store.xacts := by rw [hst]
  have het : db'.store.etuple = Function.update (Function.update db.store.etuple
      ((edgeArc t).data.labelId, tid) (some (newEntityTuple s t.hdr.id rec.eItemptr t.entity props)))
      ((edgeArc t).data.labelId, rec.eItemptr) (some (stampTuple s t)) := by rw [hst]
  refine ⟨db', hr, ⟨hinv, by rw [hx]; exact h.serial, fun l => ?_, fun l => ?_,
    h.depicts.shows.same hinv.layout (by rw [hst]) (by rw [hst]), fun v hv => ?_⟩, hx⟩
  · rw [show db'.store.vtuple = db.store.vtuple by rw [hst],
      show db'.store.vertexPtr l = db.store.vertexPtr l by unfold Store.vertexPtr; rw [hst]]
    exact h.depicts.vertices l
  · rw [het]
    by_cases hl : l = (edgeArc t).data.labelId
    · subst hl
      have hedges : edgesOf (G.putArc t.hdr.id (arcWith (edgeArc t) props) (G.closed _ _ ha).1
          (G.closed _ _ ha).2) (edgeArc t).data.labelId =
          Function.update (edgesOf G (edgeArc t).data.labelId) t.hdr.id
            (some (arcWith (edgeArc t) props)) :=
        edgesOf_putArc_self G t.hdr.id (arcWith (edgeArc t) props) _ _
      rw [update_label_self, update_label_self, hedges]
      refine (h.depicts.edges _).supersede (t := newEntityTuple s t.hdr.id rec.eItemptr t.entity props)
        hs.1.valid ht hd hnone rfl rfl hown ?_ fun k q hk hq => ?_
      · show db'.store.edgePtr _ _ = _
        unfold Store.edgePtr
        rw [hplaced.self, if_pos (eslot_offset_le hrec)]
        rfl
      · exact edgePtr_placed_ne hplaced rfl (fun he => hk (Prod.mk.inj he).2) hq
    · have hedges : edgesOf (G.putArc t.hdr.id (arcWith (edgeArc t) props) (G.closed _ _ ha).1
          (G.closed _ _ ha).2) l = edgesOf G l :=
        edgesOf_putArc_ne (a := arcWith (edgeArc t) props) _ _ hl fun b hb => by
          obtain rfl := Option.some.inj (hb.symm.trans ha)
          exact Ne.symm hl
      rw [update_label_ne _ hl, update_label_ne _ hl, hedges]
      exact (h.depicts.edges l).repoint fun i p _ hp =>
        edgePtr_placed_ne hplaced rfl (fun he => hl (Prod.mk.inj he).1) hp
  · exact (h.depicts.ends v hv).congr 
      (hasEnd_putArc (b := arcWith (edgeArc t) props) ha _ _ rfl rfl rfl v)

/-- **An update of an edge that is not there fails**, and changes nothing; so does one whose new
properties do not fit on a page. -/
theorem Refines.updateEdge_refused (h : Refines base (some s.fxid) db.store V A G)
    (hs : db.store.xacts.Open base s.fxid) (hown : OwnEdgeSlot db.store l id) {props : Gtype}
    (hno : (∀ a, G.arc id = some a → a.data.labelId ≠ l) ∨ ¬ Fits (totalTupleSize sizeOfEdge props))
    (u : Unspecified) : ∃ er, (NeoPostGraph.updateEdge u s l id props).exec db = (.error er, db) := by
  have hrun : ¬ ∃ db', (NeoPostGraph.updateEdge u s l id props).Runs db () db' := by
    rintro ⟨db', hr⟩
    obtain ⟨rec, t, tid, hrec, ht, hup, hfits, -⟩ := updateEdge_inv hr
    exact hno.elim (fun hno => h.not_updatable hs hown hno hrec ht hup) fun hno => hno hfits
  have hdb := updateEdge_error hrun
  rcases hr : (NeoPostGraph.updateEdge u s l id props).exec db with ⟨er | w, db'⟩
  · rw [hr] at hdb
    obtain rfl : db' = db := hdb
    exact ⟨er, rfl⟩
  · exact absurd ⟨db', hr⟩ hrun

/-! ## Relabelling -/

/-- A vertex of the graph is live to the session. -/
theorem Refines.liveVertex (h : Refines base (some s.fxid) st V A G) (hs : st.xacts.Open base s.fxid)
    {k : VertexKey} (hk : (G.vertex k).isSome) : st.LiveVertex s k := by
  obtain ⟨d, hd⟩ := Option.isSome_iff_exists.mp hk
  obtain ⟨p, t, hslot, ht, -, hdel, -⟩ := (h.depicts.vertices k.1).get hd
  obtain ⟨rec, hrec, rfl⟩ := Option.map_eq_some_iff.mp hslot
  exact ⟨rec, t, hrec, ht,
    (h.serial.live_iff hs h.inv.room_le ((h.inv.vertex k.1).header _ t ht)).mpr hdel⟩

/-- An arc with another label. -/
def arcUnder (a : Arc VertexKey EdgeData) (l : Nat) : Arc VertexKey EdgeData :=
  { a with data := { a.data with labelId := l } }

/-- **Moving an edge to another label** gives it that label. -/
theorem Refines.relabelEdge {target : Nat} (h : Refines base (some s.fxid) db.store V A G)
    (hs : db.store.xacts.Open base s.fxid) (ha : G.arc id = some a) (hl : db.store.elabel target = true)
    (hown : OwnEdgeSlot db.store target id) (u : Unspecified) :
    ∃ db' fuel₀ A' newE, Refines base (some s.fxid) db'.store V A'
        (G.putArc id (arcUnder a target) (G.closed id a ha).1 (G.closed id a ha).2) ∧
      db'.store.xacts = db.store.xacts ∧ ∀ fuel, fuel₀ ≤ fuel →
        (NeoPostGraph.relabelEdge u fuel s id a.data.labelId target).Runs db newE db' := by
  obtain ⟨rec, t, hrec, ht, rfl, hd, rfl⟩ := h.edge_get ha
  have hup := (h.updatable hs ht).mpr hd
  have hok := (h.inv.edge _).entity _ t ht
  obtain ⟨db₁, n, e, hes, hee, h₁, hx₁, hel₁, hids₁, hdel⟩ := h.deleteEdge hs ha
  have hs₁ : db₁.store.xacts.Open base s.fxid := by
    rw [hx₁.xacts]
    exact hs
  -- both ends are still there
  have hclosed := G.closed _ _ ha
  have hstartL : db₁.store.LiveVertex s.nextCommand t.entity.startKey :=
    Refines.liveVertex (s := s.nextCommand) h₁ hs₁ hclosed.1
  have hendL : db₁.store.LiveVertex s.nextCommand t.entity.endKey :=
    Refines.liveVertex (s := s.nextCommand) h₁ hs₁ hclosed.2
  obtain ⟨startV, hstart, hfs⟩ := h₁.inv.fetchVertex_runs hok.startMem hstartL
  obtain ⟨endV, hend, hfe⟩ := h₁.inv.fetchVertex_runs hok.endMem hendL
  let newE : Edge := { t.entity with labelId := target }
  have hnid : newE.id = t.hdr.id := hok.id_eq
  obtain ⟨db₂, hins, h₂, hx₂⟩ := Refines.insertEdge (s := s.nextCommand) (e := newE) h₁ hs₁
    (by rw [hel₁]; exact hl) hok.fits hstart hend
    hclosed.1 hclosed.2 (by rw [hnid]; exact Function.update_self ..)
    (by rw [hnid]; exact hids₁.own hown) (by rw [hnid]; exact eslot_offset_le hrec) u
  have hG : (G.dropArc t.hdr.id).putArc newE.id (newE.arc t.props) hclosed.1 hclosed.2 =
      G.putArc t.hdr.id (arcUnder (edgeArc t) target) hclosed.1 hclosed.2 := by
    refine PropertyGraph.ext rfl ?_
    show Function.update (Function.update G.arc t.hdr.id none) newE.id _ = _
    rw [hnid, Function.update_idem]
    rfl
  rw [hG] at h₂
  refine ⟨db₂, n, _, newE, h₂, (hx₁.trans hx₂).xacts, fun fuel hfuel => ?_⟩
  refine Prog.Runs.bind (readOldEdgeSlot_iff.mpr ⟨rfl, hrec⟩) (Prog.Runs.bind
    (readEdgeTuple_iff.mpr ⟨rfl, ht, hup⟩) ((hdel fuel hfuel).bind ?_))
  exact hfs.bind (hfe.bind (hins.bind (Prog.runs_ret_iff.mpr ⟨rfl, rfl⟩)))

/-- **Moving an edge that is not there fails**, and changes nothing. -/
theorem Refines.relabelEdge_refused {target : Nat} (h : Refines base (some s.fxid) db.store V A G)
    (hs : db.store.xacts.Open base s.fxid) (hown : OwnEdgeSlot db.store l id)
    (hno : ∀ a, G.arc id = some a → a.data.labelId ≠ l) (u : Unspecified) :
    ∃ er, ∀ fuel, (NeoPostGraph.relabelEdge u fuel s id l target).exec db = (.error er, db) := by
  rcases hr : (readOldEdgeSlot l id).exec db with ⟨er | rec, db₁⟩
  · obtain rfl := Prog.step_error hr
    exact ⟨er, fun fuel => Prog.exec_bind_error hr _⟩
  · obtain ⟨rfl, hrec⟩ := readOldEdgeSlot_iff.mp hr
    rcases Prog.step_cases _ db₁ with ⟨er, he⟩ | ⟨t, db₂, ht⟩
    · refine ⟨er, fun fuel => (Prog.exec_bind_ok hr _).trans ?_⟩
      exact Prog.exec_bind_error he _
    · obtain ⟨rfl, ht, hup⟩ := readEdgeTuple_iff.mp ht
      exact absurd hup (h.not_updatable hs hown hno hrec ht)

end

end NeoPostGraph
