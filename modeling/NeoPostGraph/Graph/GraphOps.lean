import NeoPostGraph.Graph.GraphInv
import NeoPostGraph.Graph.RelabelEdge
import NeoPostGraph.Graph.Writes

/-!
# The operations keep the invariant

Every insert, update, delete and change of a label of a session with an open transaction keeps
`GraphInv`, whether it succeeds or fails half-way. A change of a vertex label deletes and inserts the
edges of the vertex one after the other, all under the labels and ids they have; between a delete and
its insert the id is free for the session, and that is what its walk has to remember.

* `Pending t K st`: the edge ids `K` are free for transaction `t`.
* `OpState`: what holds while an operation runs.

Results: `insertEdge_opState`, `OpState.deleteEdge_keeps`, `migrateWalk_opState` and so on, one triple
for each function.
-/

namespace NeoPostGraph

open SlottedPage LinkedChain

/-- The edge of a label and id has been inserted. -/
def Store.HasEdge (st : Store) (k : Nat × Nat) : Prop :=
  ∃ tid t, st.etuple (k.1, tid) = some t ∧ t.hdr.id = k.2

/-- The transaction has these edges in hand: it may write each of them anew. -/
def Pending (t : Nat) (K : List (Nat × Nat)) (st : Store) : Prop :=
  ∀ k ∈ K, FreeEdge st t k.1 k.2 ∧ st.HasEdge k

/-- What holds while an operation of session `s` runs on edges: the vertex tuples are `vt`, and the
edges `K` are in hand. -/
structure OpState (base : Nat) (x : XactState) (V : List VertexKey)
    (vt : Nat × ItemPointer → Option (EntityTuple Vertex)) (s : Session) (K : List (Nat × Nat))
    (st : Store) : Prop where
  inv : GraphInv base V st
  xacts : st.xacts = x
  vtuple : st.vtuple = vt
  pending : Pending s.fxid K st

/-- The key of an edge value. -/
def Edge.key (e : Edge) : Nat × Nat := (e.labelId, e.id)

section

variable {base l id fuel : Nat} {x : XactState} {V : List VertexKey}
  {vt : Nat × ItemPointer → Option (EntityTuple Vertex)} {s : Session} {K K' : List (Nat × Nat)}
  {st st' : Store} {db : Db} {u : Unspecified}

/-! ## Edges in hand -/

theorem Pending.same {t : Nat} (h : Pending t K st) (hs : SameTuples st st') : Pending t K st' :=
  fun k hk => by
    obtain ⟨hf, hh⟩ := h k hk
    unfold Store.HasEdge at hh ⊢
    rw [hs.etuple]
    exact ⟨hs.freeEdge.mpr hf, hh⟩

theorem Pending.stampEdge (h : Pending s.fxid K st) (hs : fullXidIsValid s.fxid = true)
    {tid : ItemPointer} {t : EntityTuple Edge} (ht : st.etuple (l, tid) = some t) :
    Pending s.fxid K (st.stampEdge s l tid t) := by
  intro k hk
  obtain ⟨hf, tid', t', ht', hid⟩ := h k hk
  constructor
  · show Free st.xacts s.fxid k.2 edgeSlot fun q => Function.update st.etuple (l, tid) _ (k.1, q)
    by_cases hl : k.1 = l
    · subst hl
      rw [update_label_self]
      exact Free.stamp hf hs ht
    · rw [update_label_ne _ hl]
      exact hf
  · by_cases hq : (k.1, tid') = (l, tid)
    · rw [hq, ht] at ht'
      obtain rfl := Option.some.inj ht'
      exact ⟨tid', stampTuple s t, by rw [hq]; exact Function.update_self .., hid⟩
    · exact ⟨tid', t', (Function.update_of_ne hq ..).trans ht', hid⟩

/-- Writing another edge leaves those in hand. -/
theorem Pending.write (h : Pending s.fxid K st) (hfree : FreeEdge st s.fxid l id)
    (hK : (l, id) ∉ K) {tid : ItemPointer} {t : EntityTuple Edge} (hid : t.hdr.id = id)
    (hnone : st.etuple (l, tid) = none)
    {eslot : Nat × ItemPointer → Option NeoEdgePhysMapRecord} :
    Pending s.fxid K { st with
      etuple := Function.update st.etuple (l, tid) (some t), eslot := eslot } := by
  intro k hk
  obtain ⟨hf, tid', t', ht', hid'⟩ := h k hk
  constructor
  · show Free st.xacts s.fxid k.2 edgeSlot fun q => Function.update st.etuple (l, tid) _ (k.1, q)
    by_cases hl : k.1 = l
    · subst hl
      rw [update_label_self]
      refine Free.write hf fun he => ?_
      rw [hid, ← hid'] at he
      exact hK (by rw [← (hfree tid' t' ht' he.symm).1, hid']; exact hk)
    · rw [update_label_ne _ hl]
      exact hf
  · refine ⟨tid', t', (Function.update_of_ne (fun hq => ?_) ..).trans ht', hid'⟩
    rw [hq, hnone] at ht'
    cases ht'

theorem OpState.same (h : OpState base x V vt s K st) (hs : SameTuples st st')
    (hl : GraphInv base V st') : OpState base x V vt s K st' :=
  ⟨hl, hs.xacts.trans h.xacts, hs.vtuple.trans h.vtuple, h.pending.same hs⟩

theorem OpState.fewer (h : OpState base x V vt s K st) (hK : ∀ k ∈ K', k ∈ K) :
    OpState base x V vt s K' st :=
  ⟨h.inv, h.xacts, h.vtuple, fun k hk => h.pending k (hK k hk)⟩

/-- Without edges in hand, the session does not matter. -/
theorem OpState.session (h : OpState base x V vt s [] st) (s' : Session) :
    OpState base x V vt s' [] st :=
  ⟨h.inv, h.xacts, h.vtuple, fun _ hk => absurd hk List.not_mem_nil⟩

/-- What an operation without edges in hand starts from. -/
theorem GraphInv.opState (h : GraphInv base V st) (s : Session) :
    OpState base st.xacts V st.vtuple s [] st :=
  ⟨h, rfl, rfl, fun _ hk => absurd hk List.not_mem_nil⟩

/-! ## Inserting and deleting one edge -/

/-- An edge insert between vertices of the graph fails at once or succeeds. -/
theorem GraphInv.insertEdge_cases (h : GraphInv base V db.store) {startV endV : Vertex}
    (hstart : startV.key ∈ V) (hend : endV.key ∈ V) (u : Unspecified) (s : Session) (e : Edge)
    (props : Gtype) :
    (∃ er, (npInternalInsertEdge u s startV endV e props).exec db = (.error er, db)) ∨
      ∃ db', (npInternalInsertEdge u s startV endV e props).Runs db () db' := by
  rcases Prog.step_cases _ db with ⟨er, he⟩ | ⟨tid, db₁, h₁⟩
  · exact Or.inl ⟨er, Prog.exec_bind_error he _⟩
  · right
    replace h₁ : (writeEdgeTuple e.labelId .edgeLabelTableNotFound
      (newEntityTuple s e.id .invalid e props)).Runs db tid db₁ := h₁
    obtain ⟨hl, -, -, -, -, hst₁⟩ := writeEdgeTuple_inv h₁
    have hl₁ : db₁.store.elabel e.labelId = true := by
      rw [hst₁]
      exact hl
    obtain ⟨db₂, h₂⟩ := setEdgeSlot_runs hl₁ e.id .edgeLabelTableNotFound ⟨tid, u.stackItemptr e⟩
    obtain ⟨-, -, hst₂⟩ := setEdgeSlot_inv h₂
    have hlay : GraphLayout db₂.store V := by
      rw [hst₂, hst₁]
      exact h.layout.same rfl rfl rfl rfl rfl
    obtain ⟨db₃, h₃, hlay₃⟩ := hlay.link_runs hstart s endV e 0
    obtain ⟨db₄, h₄, -⟩ := hlay₃.link_runs hend s startV e 1
    exact ⟨db₄, h₁.bind (h₂.bind (h₃.bind h₄))⟩

/-- What an edge insert does to the state of an operation. -/
theorem OpState.insertEdge_inv {startV endV : Vertex} {e : Edge} {props : Gtype} {db' : Db} {w : Unit}
    (h : OpState base x V vt s K db.store) (hs : x.Open base s.fxid) (hstart : startV.key ∈ V)
    (hend : endV.key ∈ V) (hes : e.startKey ∈ V) (hee : e.endKey ∈ V)
    (hfree : FreeEdge db.store s.fxid e.labelId e.id) (hK : e.key ∉ K)
    (hr : (npInternalInsertEdge u s startV endV e props).Runs db w db') :
    OpState base x V vt s K db'.store := by
  obtain ⟨tid₀, db₀, h₀, -⟩ := Prog.runs_bind_iff.mp hr
  obtain ⟨-, hfits, -⟩ := writeEdgeTuple_inv h₀
  change Fits (totalTupleSize sizeOfEdge props) at hfits
  obtain ⟨tid, db₁, db₂, -, hnone, hv, -, hplaced, hst, hlink, hlink'⟩ := npInternalInsertEdge_inv hr
  have hs' : db.store.xacts.Begun base s.fxid := by
    rw [h.xacts]
    exact hs.1
  have h₁ : OpState base x V vt s K db₁.store := by
    rw [hst]
    exact ⟨h.inv.writeEdge hs' ⟨rfl, rfl, hes, hee, hfits⟩ hfree hv hnone hplaced, h.xacts,
      h.vtuple, h.pending.write hfree hK rfl hnone⟩
  obtain ⟨db₂', hr₂, hsame₂, h₂⟩ := h₁.inv.link hstart s endV e 0
  obtain ⟨-, rfl⟩ := hlink.det hr₂
  obtain ⟨db₃', hr₃, hsame₃, h₃⟩ := h₂.link hend s startV e 1
  obtain ⟨-, rfl⟩ := hlink'.det hr₃
  exact (h₁.same hsame₂ h₂).same hsame₃ h₃

/-- **Inserting an edge of an id that is free** keeps what holds. -/
theorem insertEdge_opState {startV endV : Vertex} {e : Edge} {props : Gtype}
    (hs : x.Open base s.fxid) (hstart : startV.key ∈ V) (hend : endV.key ∈ V)
    (hes : e.startKey ∈ V) (hee : e.endKey ∈ V) (hK : e.key ∉ K) :
    Prog.Triple
      (fun db => OpState base x V vt s K db.store ∧ FreeEdge db.store s.fxid e.labelId e.id)
      (npInternalInsertEdge u s startV endV e props)
      (fun _ db => OpState base x V vt s K db.store) fun db => OpState base x V vt s K db.store := by
  rintro db ⟨h, hfree⟩
  refine ⟨fun w db' hr => h.insertEdge_inv hs hstart hend hes hee hfree hK hr, fun er db' hr => ?_⟩
  rcases h.inv.insertEdge_cases hstart hend u s e props with ⟨er', he⟩ | ⟨db'', hr'⟩
  · rw [he] at hr
    rw [← (Prod.mk.inj hr).2]
    exact h
  · rw [hr'] at hr
    cases (Prod.mk.inj hr).1

theorem OpState.stampEdge (h : OpState base x V vt s K st) (hs : x.Open base s.fxid)
    {tid : ItemPointer} {t : EntityTuple Edge} (ht : st.etuple (l, tid) = some t)
    (hup : Updatable st.xacts s.own t) : OpState base x V vt s K (st.stampEdge s l tid t) := by
  have hs' : st.xacts.Open base s.fxid := by
    rw [h.xacts]
    exact hs
  exact ⟨h.inv.stampEdge hs' ht hup, h.xacts, h.vtuple, h.pending.stampEdge hs.1.valid ht⟩

theorem OpState.stamp (h : OpState base x V vt s K st) (p : Position) :
    OpState base x V vt s K (st.stamp s p) :=
  h.same (sameEntities_stamp st s p).tuples (h.inv.stamp s p)

/-- The stamps of a delete keep what holds. -/
theorem OpState.deleteEdge_keeps (hs : x.Open base s.fxid) (fuel id l : Nat) :
    (npInternalDeleteEdge fuel s l id).Keeps fun db => OpState base x V vt s K db.store :=
  deleteEdge_keeps_of_open s (fun _ _ _ _ ht hup hI => hI.stampEdge hs ht hup)
    (fun _ p _ hI => hI.stamp p) fuel l

/-- **A delete that succeeds leaves the id of the tuple it found free for the session.** -/
theorem OpState.deleteEdge_free {w : Unit} {db' : Db} {t : EntityTuple Edge}
    (h : OpState base x V vt s K db.store) (hs : x.Open base s.fxid)
    (hf : ∃ rec, db.store.eslot (l, edgeSlot id) = some rec ∧
      db.store.etuple (l, rec.eItemptr) = some t)
    (hr : (npInternalDeleteEdge fuel s l id).Runs db w db') :
    FreeEdge db'.store s.fxid l t.hdr.id ∧ db'.store.HasEdge (l, t.hdr.id) ∧
      (l, t.hdr.id) ∉ K := by
  obtain ⟨rec, hrec, ht⟩ := hf
  obtain ⟨rec', t', ps, hrec', ht', hup, hst, -⟩ := deleteEdge_inv hr
  obtain rfl := Option.some.inj (hrec.symm.trans hrec')
  obtain rfl := Option.some.inj (ht.symm.trans ht')
  have hs' : db.store.xacts.Open base s.fxid := by
    rw [h.xacts]
    exact hs
  have hfold : ∀ (ps : List Position) (st : Store), SameTuples st (st.stamps s ps) := by
    intro ps
    induction ps with
    | nil => exact fun st => SameTuples.refl st
    | cons p ps ih => exact fun st => (sameEntities_stamp st s p).tuples.trans (ih (st.stamp s p))
  have hsame := hfold ps (db.store.stampEdge s l rec.eItemptr t)
  rw [← hst] at hsame
  refine ⟨hsame.freeEdge.mpr ?_, ⟨rec.eItemptr, stampTuple s t, ?_, rfl⟩, fun hmem => ?_⟩
  · show Free db.store.xacts s.fxid t.hdr.id edgeSlot fun q =>
      Function.update db.store.etuple (l, rec.eItemptr) _ (l, q)
    rw [update_label_self]
    exact (h.inv.edge l).free_of_stamp h.inv.room_le hs' ht hup
  · rw [hsame.etuple]
    exact Function.update_self ..
  · exact (h.pending _ hmem).1.not_updatable (h.inv.edge l) h.inv.room_le hs' ht rfl hup

/-! ## Moving the edges of a vertex -/

theorem npInternalFetchVertex_inv {v : Vertex} {db' : Db}
    (hr : (npInternalFetchVertex s l id).Runs db v db') :
    db' = db ∧ ∃ rec t, db.store.vslot (l, entitySlot id) = some rec ∧
      db.store.vtuple (l, rec.vItemptr) = some t ∧
      npEntityTupleIsLive db.xacts s.own t.hdr.toRecordHeader = true ∧ v = t.entity := by
  obtain ⟨rec, db₁, h₁, h₂⟩ := Prog.runs_bind_iff.mp hr
  obtain ⟨lab, hlab, hf, rfl⟩ := runs_readVertexLabel.mp h₁
  obtain ⟨lab', hlab', hf', rfl⟩ := runs_readVertexLabel.mp h₂
  obtain rfl := Option.some.inj (hlab.symm.trans hlab')
  obtain ⟨t, ht, hf'⟩ := bind_ok hf'
  split at hf'
  · cases hf'
  · next hl =>
    refine ⟨rfl, rec, t, ?_, ?_, ?_, (Except.ok.inj hf').symm⟩
    · rw [store_vslot hlab]
      exact readItem_ok hf
    · rw [store_vtuple hlab]
      exact readItem_ok ht
    · simpa using hl

theorem npInternalFetchEdge_inv {y : Edge × Gtype} {db' : Db}
    (hr : (npInternalFetchEdge s l id).Runs db y db') :
    db' = db ∧ ∃ rec t, db.store.eslot (l, edgeSlot id) = some rec ∧
      db.store.etuple (l, rec.eItemptr) = some t ∧
      npEntityTupleIsLive db.xacts s.own t.hdr.toRecordHeader = true ∧ y = (t.entity, t.props) := by
  obtain ⟨rec, db₁, h₁, h₂⟩ := Prog.runs_bind_iff.mp hr
  obtain ⟨lab, hlab, hf, rfl⟩ := runs_readEdgeLabel.mp h₁
  obtain ⟨lab', hlab', hf', rfl⟩ := runs_readEdgeLabel.mp h₂
  obtain rfl := Option.some.inj (hlab.symm.trans hlab')
  obtain ⟨t, ht, hf'⟩ := bind_ok hf'
  split at hf'
  · cases hf'
  · next hl =>
    refine ⟨rfl, rec, t, ?_, ?_, ?_, (Except.ok.inj hf').symm⟩
    · rw [store_eslot hlab]
      exact readItem_ok hf
    · rw [store_etuple hlab]
      exact readItem_ok ht
    · simpa using hl

/-- A vertex of a tuple is one of the graph. -/
theorem GraphInv.key_mem (h : GraphInv base V st) {tid : ItemPointer} {t : EntityTuple Vertex}
    (ht : st.vtuple (l, tid) = some t) : t.entity.key ∈ V := by
  rw [((h.vertex l).entity tid t ht).1, h.mem]
  exact ⟨tid, t, ht, rfl⟩

/-- **An edge is taken in hand**: its other end and the edge are fetched, and the edge is deleted. -/
theorem take_opState {α : Type} {vl vid : Nat} {g : Vertex → Edge × Gtype → Op α}
    {R : α → Db → Prop} (hs : x.Open base s.fxid)
    (hg : ∀ n e props, n.key ∈ V → e.startKey ∈ V → e.endKey ∈ V → e.key ∉ K →
      Prog.Triple (fun db => OpState base x V vt s (e.key :: K) db.store) (g n (e, props)) R
        fun db => OpState base x V vt s [] db.store) :
    Prog.Triple (fun db => OpState base x V vt s K db.store)
      (npInternalFetchVertex s vl vid >>= fun n => npInternalFetchEdge s l id >>= fun y =>
        npInternalDeleteEdge fuel s l id >>= fun _ => g n y) R
      fun db => OpState base x V vt s [] db.store := by
  have hless : ∀ {K : List (Nat × Nat)} {st : Store}, OpState base x V vt s K st →
      OpState base x V vt s [] st := fun h => h.fewer fun _ hk => absurd hk List.not_mem_nil
  refine Prog.Triple.bind (Q := fun n db => OpState base x V vt s K db.store ∧ n.key ∈ V)
    (Prog.triple_of_reads (fun _ => EdgesKept.npInternalFetchVertex _ _ _ _) (fun db n h hr => ?_)
      fun db h => hless h) fun n => ?_
  · obtain ⟨-, rec, t, -, ht, -, rfl⟩ := npInternalFetchVertex_inv hr
    exact ⟨h, h.inv.key_mem ht⟩
  refine Prog.triple_assume (fun _ h => h.2) fun hn => Prog.Triple.bind
    (Q := fun y db => OpState base x V vt s K db.store ∧ ∃ t, y = (t.entity, t.props) ∧
      ∃ rec, db.store.eslot (l, edgeSlot id) = some rec ∧
        db.store.etuple (l, rec.eItemptr) = some t)
    (Prog.triple_of_reads (fun _ => EdgesKept.npInternalFetchEdge _ _ _ _) (fun db y h hr => ?_)
      fun db h => hless h.1) fun y => ?_
  · obtain ⟨-, rec, t, hrec, ht, -, rfl⟩ := npInternalFetchEdge_inv hr
    exact ⟨h.1, t, rfl, rec, hrec, ht⟩
  refine Prog.Triple.bind (Q := fun _ db => OpState base x V vt s (y.1.key :: K) db.store ∧
      y.1.startKey ∈ V ∧ y.1.endKey ∈ V ∧ y.1.key ∉ K) (fun db hdb => ?_) fun _ =>
    Prog.triple_assume (fun _ h => h.2) fun ⟨hstart, hend, hK⟩ =>
      (hg n y.1 y.2 hn hstart hend hK).pre fun _ h => h.1
  obtain ⟨h, t, rfl, rec, hrec, ht⟩ := hdb
  have hkeep : (npInternalDeleteEdge fuel s l id).Keeps fun db => OpState base x V vt s K db.store :=
    OpState.deleteEdge_keeps hs fuel id l
  replace hkeep := hkeep.triple db h
  refine ⟨fun w db' hr => ?_, fun er db' hr => hless (hkeep.2 er db' hr)⟩
  have hok := (h.inv.edge l).entity rec.eItemptr t ht
  have hkey : t.entity.key = (l, t.hdr.id) := Prod.ext hok.label hok.id_eq
  obtain ⟨hfree, hhas, hK⟩ := h.deleteEdge_free hs ⟨rec, hrec, ht⟩ hr
  have h' := hkeep.1 w db' hr
  refine ⟨⟨h'.inv, h'.xacts, h'.vtuple, fun k hk => ?_⟩, hok.startMem, hok.endMem, hkey ▸ hK⟩
  rcases List.mem_cons.mp hk with rfl | hk
  · rw [hkey]
    exact ⟨hfree, hhas⟩
  · exact h'.pending k hk

@[simp] theorem key_redirectEdge (oldV newV : Vertex) (e : Edge) :
    (redirectEdge oldV newV e).key = e.key := by
  unfold redirectEdge Edge.key
  dsimp only
  split <;> split <;> rfl

/-- A redirected edge lies between vertices of the graph. -/
theorem ends_redirectEdge {oldV newV : Vertex} {e : Edge} (hnew : newV.key ∈ V)
    (hstart : e.startKey ∈ V) (hend : e.endKey ∈ V) :
    (redirectEdge oldV newV e).startKey ∈ V ∧ (redirectEdge oldV newV e).endKey ∈ V := by
  unfold redirectEdge
  dsimp only
  split <;> split
  · exact ⟨hnew, hnew⟩
  · exact ⟨hnew, hend⟩
  · exact ⟨hstart, hnew⟩
  · exact ⟨hstart, hend⟩

/-- **An edge in hand is inserted again.** -/
theorem insertMigrated_opState {oldV newV neighborV : Vertex} {oId oLid : Nat} {e : Edge}
    {props : Gtype} (hs : x.Open base s.fxid) (hnew : newV.key ∈ V) (hn : neighborV.key ∈ V)
    (hstart : e.startKey ∈ V) (hend : e.endKey ∈ V) (hK : e.key ∉ K) :
    Prog.Triple (fun db => OpState base x V vt s (e.key :: K) db.store)
      (insertMigrated u s oldV newV neighborV oId oLid e props)
      (fun _ db => OpState base x V vt s K db.store)
      fun db => OpState base x V vt s K db.store := by
  obtain ⟨hs', he'⟩ : (redirectEdge oldV newV e).startKey ∈ V ∧ (redirectEdge oldV newV e).endKey ∈ V :=
    ends_redirectEdge hnew hstart hend
  have hK' : (redirectEdge oldV newV e).key ∉ K := by
    rw [key_redirectEdge]
    exact hK
  have hpre : ∀ db : Db, OpState base x V vt s (e.key :: K) db.store →
      OpState base x V vt s K db.store ∧ FreeEdge db.store s.fxid (redirectEdge oldV newV e).labelId
        (redirectEdge oldV newV e).id := fun db h => by
    refine ⟨h.fewer fun _ hk => List.mem_cons_of_mem _ hk, ?_⟩
    have hf := (h.pending _ List.mem_cons_self).1
    rw [← key_redirectEdge oldV newV e] at hf
    exact hf
  unfold insertMigrated
  dsimp only
  have hm : (if oId = oldV.id ∧ oLid = oldV.labelId then newV else neighborV).key ∈ V := by
    split
    · exact hnew
    · exact hn
  generalize (if oId = oldV.id ∧ oLid = oldV.labelId then newV else neighborV) = m at hm ⊢
  split
  · exact (insertEdge_opState hs hnew hm hs' he' hK').pre hpre
  · exact (insertEdge_opState hs hm hnew hs' he' hK').pre hpre

theorem migrateRecord_opState {oldV newV : Vertex} {rec : NeoLinkedListRecord}
    (hs : x.Open base s.fxid) (hnew : newV.key ∈ V) :
    Prog.Triple (fun db => OpState base x V vt s [] db.store)
      (migrateRecord u fuel s oldV newV rec) (fun _ db => OpState base x V vt s [] db.store)
      fun db => OpState base x V vt s [] db.store := by
  unfold migrateRecord
  split
  · exact Prog.triple_ret fun _ h => h
  · exact take_opState hs fun n e props hn hstart hend hK =>
      insertMigrated_opState hs hnew hn hstart hend hK

/-- The edges of a copied block, by key. -/
def savedKeys (saved : List (Vertex × Edge × Gtype)) : List (Nat × Nat) :=
  saved.map fun y => y.2.1.key

/-- What pass 1 leaves for pass 2: the edges are in hand, each once. -/
structure Saved (V : List VertexKey) (K : List (Nat × Nat)) (saved : List (Vertex × Edge × Gtype)) :
    Prop where
  nodup : (savedKeys saved ++ K).Nodup
  ends : ∀ y ∈ saved, y.1.key ∈ V ∧ y.2.1.startKey ∈ V ∧ y.2.1.endKey ∈ V

theorem migrateFetch_opState (hs : x.Open base s.fxid) (ms : List AdjListMember) (hK : K.Nodup) :
    Prog.Triple (fun db => OpState base x V vt s K db.store) (migrateFetch fuel s ms)
      (fun saved db => OpState base x V vt s (savedKeys saved ++ K) db.store ∧ Saved V K saved)
      fun db => OpState base x V vt s [] db.store := by
  induction ms generalizing K with
  | nil => exact Prog.triple_ret fun _ h => ⟨h, hK, fun y hy => absurd hy List.not_mem_nil⟩
  | cons m ms ih =>
    unfold migrateFetch
    split
    · exact ih hK
    · refine take_opState hs fun n e props hn hstart hend heK =>
        (ih (List.nodup_cons.mpr ⟨heK, hK⟩)).bind fun rest => Prog.triple_ret fun db h => ?_
      obtain ⟨hop, hnodup, hends⟩ := h
      have hperm : (savedKeys rest ++ e.key :: K).Perm
          (savedKeys ((n, e, props) :: rest) ++ K) := List.perm_middle
      refine ⟨hop.fewer fun k hk => hperm.mem_iff.mpr hk, hperm.nodup_iff.mp hnodup, fun y hy => ?_⟩
      rcases List.mem_cons.mp hy with rfl | hy
      · exact ⟨hn, hstart, hend⟩
      · exact hends y hy

theorem migrateInsert_opState {oldV newV : Vertex} (hs : x.Open base s.fxid) (hnew : newV.key ∈ V)
    {saved : List (Vertex × Edge × Gtype)} (h : Saved V K saved) :
    Prog.Triple (fun db => OpState base x V vt s (savedKeys saved ++ K) db.store)
      (migrateInsert u s oldV newV saved) (fun _ db => OpState base x V vt s K db.store)
      fun db => OpState base x V vt s [] db.store := by
  induction saved with
  | nil => exact Prog.triple_ret fun _ h => h
  | cons y rest ih =>
    obtain ⟨n, e, props⟩ := y
    obtain ⟨hnodup, hends⟩ := h
    obtain ⟨hn, hstart, hend⟩ := hends (n, e, props) List.mem_cons_self
    obtain ⟨hK, hrest⟩ := List.nodup_cons.mp hnodup
    have hless : ∀ {K : List (Nat × Nat)} {st : Store}, OpState base x V vt s K st →
        OpState base x V vt s [] st := fun h => h.fewer fun _ hk => absurd hk List.not_mem_nil
    exact ((insertMigrated_opState hs hnew hn hstart hend hK).weaken (fun _ h => h)
      (fun _ _ h => h) fun _ h => hless h).bind fun _ =>
        ih ⟨hrest, fun y hy => hends y (List.mem_cons_of_mem _ hy)⟩

/-- **The walk of `migrate_vertex_edges` keeps what holds.** -/
theorem migrateWalk_opState {oldV newV : Vertex} (hs : x.Open base s.fxid) (hnew : newV.key ∈ V)
    (n : Nat) (tbl : Oid) (tid : ItemPointer) :
    Prog.Triple (fun db => OpState base x V vt s [] db.store)
      (migrateWalk u fuel s oldV newV n tbl tid) (fun _ db => OpState base x V vt s [] db.store)
      fun db => OpState base x V vt s [] db.store := by
  induction n generalizing tbl tid with
  | zero => exact Prog.triple_fail fun _ h => h
  | succ n ih =>
    unfold migrateWalk
    split
    · refine Prog.Triple.bind (Prog.keeps_read _ _).triple fun r => ?_
      rcases r with - | rec | rec
      · exact Prog.triple_ret fun _ h => h
      · exact (migrateRecord_opState hs hnew).bind fun _ => ih _ _
      · refine (migrateFetch_opState hs rec.adjList List.nodup_nil).bind fun saved =>
          Prog.triple_assume (fun _ h => h.2) fun hsaved =>
            ((migrateInsert_opState hs hnew hsaved).pre fun _ h => h.1).bind fun _ => ih _ _
    · exact Prog.triple_ret fun _ h => h

end

end NeoPostGraph
