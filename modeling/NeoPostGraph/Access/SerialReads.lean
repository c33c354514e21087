import NeoPostGraph.Access.EntityStore
import NeoPostGraph.Graph.SerialRun

/-!
# Reads in a serial run

What the functions that read entities return after transactions that followed one another: the property
graph, to the session whose transaction is open and, between two transactions, to everyone.

* `npEntityStoreSeqScan`: all calls of a scan of an entity table.
* `vertexOf`, `edgeOf`: the values stored for a vertex and for an edge of the graph.
* `ReadsGraph db own G`: the reads and the scans of such a session return what `G` says.

Results:
* `TableShows.scan`: a scan returns the entities of a table, each once.
* `SerialRun.reads`: in every state of a serial run the reads return the graph of its operations.
-/

namespace NeoPostGraph

open SlottedPage

variable {μ α : Type}

/-- All calls of `np_entity_store_scan_getnextslot` on a table that stands still. -/
def npEntityStoreSeqScan (x : XactState) (own : List Nat) (t : Table (EntityTuple μ)) :
    List (EntitySlot μ) :=
  (PageScan.all t (entityScanTest x own)).filterMap fun tid =>
    (t.get tid).map fun tuple => tuple.slot tid

/-- The value stored for a vertex. -/
def vertexOf (k : VertexKey) (d : VertexData) : Vertex := ⟨k.2, k.1, d.dictionaryId⟩

/-- The value stored for an edge. -/
def edgeOf (id : Nat) (a : Arc VertexKey EdgeData) : Edge where
  id := id
  labelId := a.data.labelId
  dictionaryId := a.data.dictionaryId
  startLabel := a.start.1
  startId := a.start.2
  endLabel := a.stop.1
  endId := a.stop.2

/-- What a fetch of properties returns: the empty object where there is nothing, and for label 0. -/
def fetched (l : Nat) (props : Option Gtype) : Gtype :=
  if l = 0 then npEmptyGtypeObject else props.getD npEmptyGtypeObject

/-- **The reads of a session return what the graph says.** An id may be asked for when no other one has
its slot. Without a line pointer in its slot, a fetch of an edge's properties reads what is not there. -/
structure ReadsGraph (db : Db) (own : List Nat) (G : LiveGraph) : Prop where
  vertexProperties : ∀ l id, OwnVertexSlot db.store l id →
    (npFetchVertexProperties own l id).Runs db
      (fetched l ((G.vertex (l, id)).map VertexData.props)) db
  edgeProperties : ∀ l id, OwnEdgeSlot db.store l id → (db.store.eslot (l, edgeSlot id)).isSome →
    (npFetchEdgeProperties own l id).Runs db
      (fetched l ((edgesOf G l id).map fun a => a.data.props)) db
  fetchVertex : ∀ (s : Session) l id v, own = s.own → OwnVertexSlot db.store l id →
    ((npInternalFetchVertex s l id).Runs db v db ↔
      ∃ d, G.vertex (l, id) = some d ∧ v = vertexOf (l, id) d)
  fetchEdge : ∀ (s : Session) l id y, own = s.own → OwnEdgeSlot db.store l id →
    ((npInternalFetchEdge s l id).Runs db y db ↔
      ∃ a, edgesOf G l id = some a ∧ y = (edgeOf id a, a.data.props))
  vertices : ∀ l lab, db.vlabels l = some lab →
    ((npEntityStoreSeqScan db.xacts own lab.vertexTbl).map EntitySlot.id).Nodup ∧
      ∀ id d, G.vertex (l, id) = some d ↔ ∃ slot ∈ npEntityStoreSeqScan db.xacts own lab.vertexTbl,
        slot.id = id ∧ slot.entity = vertexOf (l, id) d ∧ slot.props = d.props
  edges : ∀ l lab, db.elabels l = some lab →
    ((npEntityStoreSeqScan db.xacts own lab.vertexTbl).map EntitySlot.id).Nodup ∧
      ∀ id a, edgesOf G l id = some a ↔ ∃ slot ∈ npEntityStoreSeqScan db.xacts own lab.vertexTbl,
        slot.id = id ∧ slot.entity = edgeOf id a ∧ slot.props = a.data.props

section

variable {base l id : Nat} {tx : Option Nat} {own : List Nat} {db db' : Db} {V : List VertexKey}
  {A : AdjView} {G : LiveGraph} {s : Session} {x : XactState} {u : Unspecified} {os : List GraphOp}

/-! ## Scans -/

theorem mem_seqScan_iff {t : Table (EntityTuple μ)} {slot : EntitySlot μ} :
    slot ∈ npEntityStoreSeqScan x own t ↔ ∃ tid tuple, t.get tid = some tuple ∧
      npEntityTupleIsLive x own tuple.hdr.toRecordHeader = true ∧ slot = tuple.slot tid := by
  unfold npEntityStoreSeqScan
  rw [List.mem_filterMap]
  constructor
  · rintro ⟨tid, htid, hslot⟩
    obtain ⟨tuple, ht, rfl⟩ := Option.map_eq_some_iff.mp hslot
    refine ⟨tid, tuple, ht, ?_, rfl⟩
    have hpass := PageScan.mem_all.mp htid
    unfold Table.passes at hpass
    rw [Table.get_eq_lp] at ht
    obtain ⟨lp, hlp, rfl⟩ := Option.map_eq_some_iff.mp ht
    rw [hlp] at hpass
    exact hpass
  · rintro ⟨tid, tuple, ht, hlive, rfl⟩
    refine ⟨tid, PageScan.mem_all.mpr ?_, by rw [ht]; rfl⟩
    rw [Table.get_eq_lp] at ht
    obtain ⟨lp, hlp, rfl⟩ := Option.map_eq_some_iff.mp ht
    unfold Table.passes
    rw [hlp]
    exact hlive

theorem nodup_entitySeqScan (x : XactState) (own : List Nat) (t : Table (EntityTuple μ)) :
    (npEntityStoreSeqScan x own t).Nodup := by
  refine (PageScan.nodup_all t (entityScanTest x own)).filterMap fun p q slot hp hq => ?_
  obtain ⟨tuple, -, rfl⟩ := Option.map_eq_some_iff.mp hp
  obtain ⟨tuple', -, he⟩ := Option.map_eq_some_iff.mp hq
  exact (congrArg EntitySlot.tid he).symm

/-- **A scan returns the entities of a table, each once**, when live means undeleted. -/
theorem TableShows.scan {slotOf : Nat → ItemPointer} {view : EntityTuple μ → α}
    {t : Table (EntityTuple μ)} {slot : ItemPointer → Option ItemPointer} {f : Nat → Option α}
    (h : TableShows slotOf view t.get slot f)
    (hlive : ∀ p tuple, t.get p = some tuple →
      (npEntityTupleIsLive x own tuple.hdr.toRecordHeader = true ↔ tuple.hdr.deleter = none)) :
    ((npEntityStoreSeqScan x own t).map EntitySlot.id).Nodup ∧
      ∀ id y, f id = some y ↔ ∃ p tuple, t.get p = some tuple ∧ view tuple = y ∧
        tuple.slot p ∈ npEntityStoreSeqScan x own t ∧ tuple.hdr.id = id := by
  refine ⟨List.Nodup.map_on (fun a ha b hb he => ?_) (nodup_entitySeqScan x own t), fun id y => ?_⟩
  · obtain ⟨p, tuple, hp, hlp, rfl⟩ := mem_seqScan_iff.mp ha
    obtain ⟨q, tuple', hq, hlq, rfl⟩ := mem_seqScan_iff.mp hb
    have hid : tuple.hdr.id = tuple'.hdr.id := he
    have hsp := (h.shown p tuple hp ((hlive p tuple hp).mp hlp)).1
    have hsq := (h.shown q tuple' hq ((hlive q tuple' hq).mp hlq)).1
    rw [hid, hsq] at hsp
    obtain rfl := Option.some.inj hsp
    rw [hp] at hq
    obtain rfl := Option.some.inj hq
    rfl
  · rw [h.eq_some_iff]
    constructor
    · rintro ⟨p, tuple, hp, hid, hd, hview⟩
      exact ⟨p, tuple, hp, hview,
        mem_seqScan_iff.mpr ⟨p, tuple, hp, (hlive p tuple hp).mpr hd, rfl⟩, hid⟩
    · rintro ⟨p, tuple, hp, hview, hmem, hid⟩
      obtain ⟨q, tuple', hq, hlq, he⟩ := mem_seqScan_iff.mp hmem
      obtain rfl : p = q := congrArg EntitySlot.tid he
      rw [hp] at hq
      obtain rfl := Option.some.inj hq
      exact ⟨p, tuple, hp, hid, (hlive p tuple hp).mp hlq, hview⟩

/-! ## What is live -/

/-- A reader that sees what is undeleted: the open transaction, or anyone when there is none. -/
structure SerialReader (base : Nat) (db : Db) (V : List VertexKey) (A : AdjView) (G : LiveGraph)
    (tx : Option Nat) : Prop where
  refines : Refines base tx db.store V A G
  isOpen : ∀ t, tx = some t → db.xacts.Open base t

theorem SerialReader.live_iff {hdr : RecordHeader} (h : SerialReader base db V A G tx)
    (hi : HeaderInv base db.xacts hdr) :
    npEntityTupleIsLive db.xacts tx.toList hdr = true ↔ hdr.deleter = none :=
  live_iff_undeleted (fun _ ht => h.refines.serial.begun ht)
    (fun o ho => h.isOpen o (Option.mem_toList.mp ho)) h.refines.inv.room_le hi

theorem SerialReader.vertexLive_iff (h : SerialReader base db V A G tx) {p : ItemPointer} {t : EntityTuple Vertex}
    (ht : db.store.vtuple (l, p) = some t) :
    npEntityTupleIsLive db.xacts tx.toList t.hdr.toRecordHeader = true ↔ t.hdr.deleter = none :=
  h.live_iff ((h.refines.inv.vertex l).header p t ht)

theorem SerialReader.edgeLive_iff (h : SerialReader base db V A G tx) {p : ItemPointer} {t : EntityTuple Edge}
    (ht : db.store.etuple (l, p) = some t) :
    npEntityTupleIsLive db.xacts tx.toList t.hdr.toRecordHeader = true ↔ t.hdr.deleter = none :=
  h.live_iff ((h.refines.inv.edge l).header p t ht)

/-- A vertex tuple holds the value of its key and its data. -/
theorem SerialReader.entity_eq_vertexOf (h : SerialReader base db V A G tx) {p : ItemPointer}
    {t : EntityTuple Vertex} (ht : db.store.vtuple (l, p) = some t) :
    t.entity = vertexOf (l, t.hdr.id) (vertexData t) := by
  obtain ⟨hkey, -⟩ := (h.refines.inv.vertex l).entity p t ht
  obtain ⟨hl, hid⟩ := Prod.mk.inj hkey
  unfold vertexOf
  rw [← hl, ← hid]
  rfl

theorem SerialReader.entity_eq_edgeOf (h : SerialReader base db V A G tx) {p : ItemPointer}
    {t : EntityTuple Edge} (ht : db.store.etuple (l, p) = some t) :
    t.entity = edgeOf t.hdr.id (edgeArc t) := by
  have hok := (h.refines.inv.edge l).entity p t ht
  unfold edgeOf
  rw [← hok.id_eq]
  rfl

/-! ## Reads by slot -/

/-- The slot of a vertex leads to a tuple that is live, exactly where the graph has it. -/
theorem SerialReader.vertex_of_slot (h : SerialReader base db V A G tx)
    (hown : OwnVertexSlot db.store l id) {p : ItemPointer} {t : EntityTuple Vertex}
    (hslot : db.store.vertexPtr l (entitySlot id) = some p) (ht : db.store.vtuple (l, p) = some t) :
    t.hdr.id = id ∧ G.vertex (l, id) =
      if npEntityTupleIsLive db.xacts tx.toList t.hdr.toRecordHeader then some (vertexData t)
      else none := by
  have hid := (h.refines.inv.vertex l).id_of_slot hslot ht hown
  refine ⟨hid, ?_⟩
  split
  · next hlive =>
    have hshown := ((h.refines.depicts.vertices l).shown p t ht ((h.vertexLive_iff ht).mp hlive)).2
    rwa [hid] at hshown
  · next hlive =>
    cases hk : G.vertex (l, id) with
    | none => rfl
    | some d =>
      obtain ⟨rec, t', hrec, ht', -, hd, -⟩ := h.refines.vertex_get hk
      obtain rfl : rec.vItemptr = p := Option.some.inj
        ((congrArg (Option.map NeoPhysMapRecord.vItemptr) hrec).symm.trans hslot)
      obtain rfl := Option.some.inj (ht'.symm.trans ht)
      exact absurd ((h.vertexLive_iff ht).mpr hd) hlive

theorem SerialReader.edge_of_slot (h : SerialReader base db V A G tx)
    (hown : OwnEdgeSlot db.store l id) {p : ItemPointer} {t : EntityTuple Edge}
    (hslot : db.store.edgePtr l (edgeSlot id) = some p) (ht : db.store.etuple (l, p) = some t) :
    t.hdr.id = id ∧ edgesOf G l id =
      if npEntityTupleIsLive db.xacts tx.toList t.hdr.toRecordHeader then some (edgeArc t)
      else none := by
  have hid := (h.refines.inv.edge l).id_of_slot hslot ht hown
  refine ⟨hid, ?_⟩
  split
  · next hlive =>
    have hshown := ((h.refines.depicts.edges l).shown p t ht ((h.edgeLive_iff ht).mp hlive)).2
    rwa [hid] at hshown
  · next hlive =>
    cases hk : edgesOf G l id with
    | none => rfl
    | some a =>
      obtain ⟨q, t', hq, ht', -, hd, -⟩ := (h.refines.depicts.edges l).get hk
      obtain rfl := Option.some.inj (hq.symm.trans hslot)
      obtain rfl := Option.some.inj (ht'.symm.trans ht)
      exact absurd ((h.edgeLive_iff ht).mpr hd) hlive

/-- Where its slot leads nowhere, the graph has no vertex. -/
theorem SerialReader.no_vertex (h : SerialReader base db V A G tx)
    (hno : ∀ p, db.store.vertexPtr l (entitySlot id) = some p → p.isValid = false) :
    G.vertex (l, id) = none := by
  cases hk : G.vertex (l, id) with
  | none => rfl
  | some d =>
    obtain ⟨rec, t, hrec, ht, -⟩ := h.refines.vertex_get hk
    have hinvalid := hno _ (congrArg (Option.map NeoPhysMapRecord.vItemptr) hrec)
    rw [(h.refines.inv.vertex l).valid _ t ht] at hinvalid
    cases hinvalid

theorem SerialReader.no_edge (h : SerialReader base db V A G tx)
    (hno : ∀ p, db.store.edgePtr l (edgeSlot id) = some p → p.isValid = false) :
    edgesOf G l id = none := by
  cases hk : edgesOf G l id with
  | none => rfl
  | some a =>
    obtain ⟨p, t, hp, ht, -⟩ := (h.refines.depicts.edges l).get hk
    have hinvalid := hno p hp
    rw [(h.refines.inv.edge l).valid p t ht] at hinvalid
    cases hinvalid

theorem fetched_zero (props : Option Gtype) : fetched 0 props = npEmptyGtypeObject := rfl

theorem fetched_none (l : Nat) : fetched l none = npEmptyGtypeObject := by
  unfold fetched
  split <;> rfl

/-- A fetch that finds no tuple pointer returns the empty object. -/
theorem npFetchVertexProperties_none {props : Gtype} (hprops : props = npEmptyGtypeObject)
    (hno : l = 0 ∨ ∀ p, db.store.vertexPtr l (entitySlot id) = some p → p.isValid = false)
    (own : List Nat) : (npFetchVertexProperties own l id).Runs db props db := by
  refine Prog.Runs.bind (a := none) (Prog.runs_read_iff.mpr ⟨?_, rfl⟩)
    (Prog.runs_ret_iff.mpr ⟨hprops, rfl⟩)
  cases hlab : db.vlabels l with
  | none => rfl
  | some lab =>
    dsimp only
    split
    · rfl
    · next hb =>
      cases hget : lab.physMap.table.get (entitySlot id) with
      | none => rfl
      | some rec =>
        have hptr : db.store.vertexPtr l (entitySlot id) = some rec.vItemptr := by
          unfold Store.vertexPtr
          rw [store_vslot hlab, hget]
          rfl
        dsimp only
        rw [hno.resolve_left (fun h0 => hb (Or.inl h0)) _ hptr]
        rfl

theorem npFetchEdgeProperties_none {props : Gtype} (hprops : props = npEmptyGtypeObject)
    (hsome : (db.store.eslot (l, edgeSlot id)).isSome)
    (hno : l = 0 ∨ ∀ p, db.store.edgePtr l (edgeSlot id) = some p → p.isValid = false)
    (own : List Nat) : (npFetchEdgeProperties own l id).Runs db props db := by
  refine Prog.Runs.bind (a := none) (Prog.runs_read_iff.mpr ⟨?_, rfl⟩)
    (Prog.runs_ret_iff.mpr ⟨hprops, rfl⟩)
  obtain ⟨rec, hrec⟩ := Option.isSome_iff_exists.mp hsome
  obtain ⟨lab, hlab⟩ := exists_elabel_of_eslot hrec
  have hget := (store_eslot hlab _).symm.trans hrec
  rw [hlab]
  dsimp only
  split
  · rfl
  · next hb =>
    rw [hget]
    dsimp only
    rw [hno.resolve_left (fun h0 => hb (Or.inl h0)) _
      (congrArg (Option.map NeoEdgePhysMapRecord.eItemptr) hrec)]
    rfl

theorem SerialReader.vertexProperties (h : SerialReader base db V A G tx)
    (hown : OwnVertexSlot db.store l id) :
    (npFetchVertexProperties tx.toList l id).Runs db
      (fetched l ((G.vertex (l, id)).map VertexData.props)) db := by
  by_cases hl : l = 0
  · exact npFetchVertexProperties_none (by rw [hl, fetched_zero]) (Or.inl hl) _
  by_cases hp : ∃ p, db.store.vertexPtr l (entitySlot id) = some p ∧ p.isValid = true
  · obtain ⟨p, hptr, hvalid⟩ := hp
    obtain ⟨t, ht, -⟩ := (h.refines.inv.vertex l).sound _ p hptr hvalid
    have hr := npFetchVertexProperties_runs hl hptr ht tx.toList
    rw [(h.vertex_of_slot hown hptr ht).2]
    unfold fetched
    rw [if_neg hl]
    cases hlive : npEntityTupleIsLive db.xacts tx.toList t.hdr.toRecordHeader <;>
      rw [hlive] at hr <;> exact hr
  · have hno : ∀ p, db.store.vertexPtr l (entitySlot id) = some p → p.isValid = false := fun p hptr =>
      Bool.eq_false_iff.mpr fun hv => hp ⟨p, hptr, hv⟩
    exact npFetchVertexProperties_none (by rw [h.no_vertex hno]; exact fetched_none l) (Or.inr hno) _

theorem SerialReader.edgeProperties (h : SerialReader base db V A G tx)
    (hown : OwnEdgeSlot db.store l id) (hsome : (db.store.eslot (l, edgeSlot id)).isSome) :
    (npFetchEdgeProperties tx.toList l id).Runs db
      (fetched l ((edgesOf G l id).map fun a => a.data.props)) db := by
  by_cases hl : l = 0
  · exact npFetchEdgeProperties_none (by rw [hl, fetched_zero]) hsome (Or.inl hl) _
  by_cases hp : ∃ p, db.store.edgePtr l (edgeSlot id) = some p ∧ p.isValid = true
  · obtain ⟨p, hptr, hvalid⟩ := hp
    obtain ⟨t, ht, -⟩ := (h.refines.inv.edge l).sound _ p hptr hvalid
    have hr := npFetchEdgeProperties_runs hl hptr ht tx.toList
    rw [(h.edge_of_slot hown hptr ht).2]
    unfold fetched
    rw [if_neg hl]
    cases hlive : npEntityTupleIsLive db.xacts tx.toList t.hdr.toRecordHeader <;>
      rw [hlive] at hr <;> exact hr
  · have hno : ∀ p, db.store.edgePtr l (edgeSlot id) = some p → p.isValid = false := fun p hptr =>
      Bool.eq_false_iff.mpr fun hv => hp ⟨p, hptr, hv⟩
    exact npFetchEdgeProperties_none (by rw [h.no_edge hno]; exact fetched_none l) hsome
      (Or.inr hno) _

theorem SerialReader.fetchVertex (h : SerialReader base db V A G (some s.fxid))
    (hown : OwnVertexSlot db.store l id) (v : Vertex) :
    (npInternalFetchVertex s l id).Runs db v db ↔
      ∃ d, G.vertex (l, id) = some d ∧ v = vertexOf (l, id) d := by
  constructor
  · intro hr
    obtain ⟨-, rec, t, hrec, ht, hlive, rfl⟩ := npInternalFetchVertex_inv hr
    obtain ⟨hid, hk⟩ := h.vertex_of_slot hown
      (congrArg (Option.map NeoPhysMapRecord.vItemptr) hrec) ht
    rw [if_pos (show npEntityTupleIsLive db.xacts (some s.fxid).toList _ = true from hlive)] at hk
    refine ⟨_, hk, ?_⟩
    rw [h.entity_eq_vertexOf ht, hid]
  · rintro ⟨d, hk, rfl⟩
    have hs := h.isOpen _ rfl
    obtain ⟨v, hkey, hr⟩ := h.refines.inv.fetchVertex_runs (v := (l, id))
      (h.refines.mem (by rw [hk]; rfl)) (h.refines.liveVertex hs (by rw [hk]; rfl))
    obtain ⟨-, rec, t, hrec, ht, hlive, rfl⟩ := npInternalFetchVertex_inv hr
    obtain ⟨hid, hk'⟩ := h.vertex_of_slot hown
      (congrArg (Option.map NeoPhysMapRecord.vItemptr) hrec) ht
    rw [if_pos (show npEntityTupleIsLive db.xacts (some s.fxid).toList _ = true from hlive),
      hk] at hk'
    rw [h.entity_eq_vertexOf ht, hid, ← Option.some.inj hk'] at hr
    exact hr

theorem SerialReader.fetchEdge (h : SerialReader base db V A G (some s.fxid))
    (hown : OwnEdgeSlot db.store l id) (y : Edge × Gtype) :
    (npInternalFetchEdge s l id).Runs db y db ↔
      ∃ a, edgesOf G l id = some a ∧ y = (edgeOf id a, a.data.props) := by
  constructor
  · intro hr
    obtain ⟨-, rec, t, hrec, ht, hlive, rfl⟩ := npInternalFetchEdge_inv hr
    obtain ⟨hid, hk⟩ := h.edge_of_slot hown
      (congrArg (Option.map NeoEdgePhysMapRecord.eItemptr) hrec) ht
    rw [if_pos (show npEntityTupleIsLive db.xacts (some s.fxid).toList _ = true from hlive)] at hk
    refine ⟨_, hk, ?_⟩
    rw [h.entity_eq_edgeOf ht, hid]
    rfl
  · rintro ⟨a, hk, rfl⟩
    obtain ⟨p, t, hptr, ht, hid, hd, hview⟩ := (h.refines.depicts.edges l).get hk
    obtain ⟨rec, hrec, rfl⟩ := Option.map_eq_some_iff.mp hptr
    have hr := npInternalFetchEdge_runs hrec ht ((h.edgeLive_iff ht).mpr hd)
    rw [h.entity_eq_edgeOf ht, hid, hview] at hr
    rw [← hview] at hr ⊢
    exact hr

/-! ## All reads -/

theorem SerialReader.readsGraph (h : SerialReader base db V A G tx) : ReadsGraph db tx.toList G := by
  have hsession : ∀ s : Session, tx.toList = s.own → tx = some s.fxid := fun s hs =>
    Option.mem_toList.mp (by rw [hs]; exact List.mem_singleton_self _)
  refine ⟨fun l id hown => h.vertexProperties hown, fun l id hown hs => h.edgeProperties hown hs,
    fun s l id v hs hown => ?_, fun s l id y hs hown => ?_, fun l lab hlab => ?_,
    fun l lab hlab => ?_⟩
  · obtain rfl := hsession s hs
    exact h.fetchVertex hown v
  · obtain rfl := hsession s hs
    exact h.fetchEdge hown y
  · have htuple : (fun tid => db.store.vtuple (l, tid)) = lab.vertexTbl.get :=
      funext fun tid => store_vtuple hlab tid
    have hget : ∀ {p t}, lab.vertexTbl.get p = some t → db.store.vtuple (l, p) = some t := fun ht =>
      (store_vtuple hlab _).trans ht
    have hshows := h.refines.depicts.vertices l
    rw [htuple] at hshows
    obtain ⟨hnodup, hmem⟩ := hshows.scan fun p t ht => h.vertexLive_iff (hget ht)
    refine ⟨hnodup, fun id d => (hmem id d).trans ⟨?_, ?_⟩⟩
    · rintro ⟨p, t, ht, rfl, hslot, rfl⟩
      exact ⟨_, hslot, rfl, h.entity_eq_vertexOf (hget ht), rfl⟩
    · rintro ⟨slot, hslot, rfl, he, hp⟩
      obtain ⟨p, t, ht, -, rfl⟩ := mem_seqScan_iff.mp hslot
      refine ⟨p, t, ht, ?_, hslot, rfl⟩
      obtain ⟨dict, props⟩ := d
      obtain rfl : t.props = props := hp
      obtain rfl : t.entity.dictionaryId = dict := congrArg Vertex.dictionaryId he
      rfl
  · have htuple : (fun tid => db.store.etuple (l, tid)) = lab.vertexTbl.get :=
      funext fun tid => store_etuple hlab tid
    have hget : ∀ {p t}, lab.vertexTbl.get p = some t → db.store.etuple (l, p) = some t := fun ht =>
      (store_etuple hlab _).trans ht
    have hshows := h.refines.depicts.edges l
    rw [htuple] at hshows
    obtain ⟨hnodup, hmem⟩ := hshows.scan fun p t ht => h.edgeLive_iff (hget ht)
    refine ⟨hnodup, fun id a => (hmem id a).trans ⟨?_, ?_⟩⟩
    · rintro ⟨p, t, ht, rfl, hslot, rfl⟩
      exact ⟨_, hslot, rfl, h.entity_eq_edgeOf (hget ht), rfl⟩
    · rintro ⟨slot, hslot, rfl, he, hp⟩
      obtain ⟨p, t, ht, -, rfl⟩ := mem_seqScan_iff.mp hslot
      refine ⟨p, t, ht, ?_, hslot, rfl⟩
      obtain ⟨⟨sl, si⟩, ⟨el, ei⟩, ⟨lab', dict, props⟩⟩ := a
      obtain rfl : t.props = props := hp
      replace he : t.entity = _ := he
      show t.entity.arc t.props = _
      rw [he]
      rfl

/-- **In every state of a serial run the reads return the graph of its operations**, to the open
transaction and, between two transactions, to everyone. -/
theorem SerialRun.reads (h : SerialRun u base os tx db) :
    ∃ G, LiveRun os G ∧ ReadsGraph db tx.toList G := by
  obtain ⟨G, ⟨V, A, href⟩, hos, hopen⟩ := h.state
  exact ⟨G, hos, SerialReader.readsGraph ⟨href, hopen⟩⟩

end

/-- In the second transaction of a run. -/
theorem SerialRun.reads_example :
    ∃ G, LiveRun exampleSerialOps G ∧ ReadsGraph (exampleEdges []) [6] G :=
  (serialRun_exampleEdge.commit.begin (by decide)).reads

end NeoPostGraph
