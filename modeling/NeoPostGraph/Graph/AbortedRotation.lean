import NeoPostGraph.Graph.EdgeMove
import NeoPostGraph.Graph.PartitionRun

/-!
# Transactions that rotate and abort

Pages stay as an aborted transaction left them; catalog rows go back, and the relations it created
cease to exist. So an aborted rotation takes its partition away, and with it every record that was
written there. The heads in the physical maps still lead to them.

* `Db.rollBack saved db t`: the abort of transaction `t`, which began in `saved`.
* `RotationRun u base P tx log db`: transactions of edge inserts, edge deletes and rotations, one after
  the other, on a graph of any run; each abort meets the condition `P`, and `log` lists the records
  that edge inserts wrote.
* `CreatedEmpty`: the condition, the relations the transaction created hold no record.
* `EdgesReachable`: the records of committed edges are on the chains, and inserts and deletes succeed.

Result: `edgesReachable_of_createdEmpty`, every state of a run whose aborts meet the condition.
-/

namespace NeoPostGraph

open SlottedPage LinkedChain

/-! ## Aborts -/

/-- The catalog goes back to `saved`: the rows of `linked_list_meta`, and which labels and relations
there are. Oids, sequences and pages do not. -/
def Db.undoCatalog (saved db : Db) : Db :=
  { db with
    vlabels := fun l => (saved.vlabels l).bind fun lab₀ =>
      (db.vlabels l).map fun lab => { lab with linkedListMeta := lab₀.linkedListMeta }
    rels := fun o => if o < saved.nextOid then db.rels o else none }

/-- Transaction `t`, which began in `saved`, aborts. -/
def Db.rollBack (saved db : Db) (t : Nat) : Db := (saved.undoCatalog db).abort t

/-- The relations that were created since `saved` hold no record. -/
def CreatedEmpty (saved db : Db) : Prop :=
  ∀ a : Addr, saved.nextOid ≤ a.1 → db.store.node a = none

/-! ## Runs -/

/-- The adjacency record an edge insert wrote at one end. -/
structure LinkedRecord where
  owner : VertexKey
  key : Nat × Nat
  direction : Nat
  fxid : Nat
deriving DecidableEq, Repr

/-- The record is on its owner's chain. -/
def LinkedRecord.OnChain (r : LinkedRecord) (st : Store) : Prop :=
  ∃ ms, st.Holds r.owner ms ∧ ∃ m ∈ ms, m.key = r.key ∧ m.dir = r.direction ∧ m.xmin = r.fxid

/-- Edge inserts, edge deletes and rotations. -/
def GraphOp.OnEdges : GraphOp → Prop
  | insertEdge .. => True
  | deleteEdge .. => True
  | rotateActiveLinkedListTable _ => True
  | _ => False

/-- The records an operation writes when it succeeds. -/
def GraphOp.linked (s : Session) : GraphOp → List LinkedRecord
  | insertEdge startV endV e _ =>
    [⟨startV.key, e.key, 0, s.fxid⟩, ⟨endV.key, e.key, 1, s.fxid⟩]
  | _ => []

/-- The states such transactions lead to, with the open transaction and the state it began in. A call
that fails aborts its transaction. -/
inductive RotationRun (u : Unspecified) (base : Nat) (P : Db → Db → Prop) :
    Option (Db × Nat) → List LinkedRecord → Db → Prop
  | start {db : Db} {log : List LinkedRecord} (h : GraphRun u base db)
      (hlog : ∀ r ∈ log, db.store.HasVertex r.owner ∧ r.OnChain db.store) :
      RotationRun u base P none log db
  | begin {db : Db} {log : List LinkedRecord} (h : RotationRun u base P none log db)
      (hroom : db.xacts.begin.nextFxid ≤ base + 2 ^ 31) :
      RotationRun u base P (some (db.begin, db.xacts.nextFxid)) log db.begin
  | call {saved db db' : Db} {s : Session} {log : List LinkedRecord} {o : GraphOp}
      (h : RotationRun u base P (some (saved, s.fxid)) log db) (ho : o.OnEdges)
      (hallowed : o.Allowed db.store s) (hr : (o.run u s).Runs db () db') :
      RotationRun u base P (some (saved, s.fxid)) (o.linked s ++ log) db'
  | fail {saved db db' : Db} {s : Session} {log : List LinkedRecord} {o : GraphOp} {e : Err}
      (h : RotationRun u base P (some (saved, s.fxid)) log db) (ho : o.OnEdges)
      (hallowed : o.Allowed db.store s) (hr : (o.run u s).exec db = (.error e, db'))
      (hP : P saved db') : RotationRun u base P none log (saved.rollBack db' s.fxid)
  | commit {saved db : Db} {t : Nat} {log : List LinkedRecord}
      (h : RotationRun u base P (some (saved, t)) log db) :
      RotationRun u base P none log (db.commit t)
  | abort {saved db : Db} {t : Nat} {log : List LinkedRecord}
      (h : RotationRun u base P (some (saved, t)) log db) (hP : P saved db) :
      RotationRun u base P none log (saved.rollBack db t)

/-- **What aborts must leave**: the records of committed edges are on the chains of their owners,
through relations that exist, and edges are inserted and deleted without errors. -/
structure EdgesReachable (u : Unspecified) (log : List LinkedRecord) (db : Db) : Prop where
  reach : ∀ r ∈ log, db.xacts.status r.fxid = .committed → r.OnChain db.store
  insert : ∀ s startV endV e props, db.store.HasVertex startV.key → db.store.HasVertex endV.key →
    db.store.elabel e.labelId = true → Fits (totalTupleSize sizeOfEdge props) →
    ∃ db', (insertEdge u s startV endV e props).Runs db () db'
  delete : ∀ s l id rec t, db.store.eslot (l, edgeSlot id) = some rec →
    db.store.etuple (l, rec.eItemptr) = some t → Updatable db.store.xacts s.own t →
    ∃ db' n, ∀ fuel, n ≤ fuel → (deleteEdge fuel s id l).Runs db () db'

section

variable {base l t : Nat} {u : Unspecified} {V : List VertexKey} {s : Session} {db db' saved : Db}
  {st st' : Store} {r : LinkedRecord} {log : List LinkedRecord}

/-! ## Records on chains -/

theorem LinkedRecord.OnChain.same (h : r.OnChain st) (hs : st'.vslot = st.vslot)
    (hn : st'.node = st.node) : r.OnChain st' := by
  obtain ⟨ms, ⟨p, hp, hms⟩, hm⟩ := h
  refine ⟨ms, ⟨p, ?_, hms⟩, hm⟩
  unfold Store.Path Store.head at hp ⊢
  rw [hs, hn]
  exact hp

/-- A stamp on a member of a node keeps what the record is told by. -/
theorem exists_stampAt {n : AdjNode} {m : AdjListMember} (hm : m ∈ n.members) (s : Session) (i : Nat) :
    ∃ m' ∈ (n.stampAt s i).members, m'.key = m.key ∧ m'.dir = m.dir ∧ m'.xmin = m.xmin := by
  rw [AdjNode.members_stampAt]
  obtain ⟨j, hj⟩ := List.mem_iff_getElem?.mp hm
  by_cases hij : i = j
  · refine ⟨stampMember s m, List.mem_iff_getElem?.mpr ⟨j, ?_⟩, rfl, rfl, rfl⟩
    rw [List.getElem?_modify, hj, Option.map_eq_map, Option.map_some, if_pos hij]
  · refine ⟨m, List.mem_iff_getElem?.mpr ⟨j, ?_⟩, rfl, rfl, rfl⟩
    rw [List.getElem?_modify, hj, Option.map_eq_map, Option.map_some, if_neg hij]

theorem LinkedRecord.OnChain.stamp (h : r.OnChain st) (s : Session) (p : Position) :
    r.OnChain (st.stamp s p) := by
  obtain ⟨ms, ⟨path, hpath, rfl⟩, m, hm, hkey, hdir, hxmin⟩ := h
  refine ⟨_, ⟨_, seg_stamp hpath s p, rfl⟩, ?_⟩
  obtain ⟨x, hx, hmx⟩ := List.mem_flatMap.mp hm
  by_cases hxp : x.1 = p.1
  · obtain ⟨m', hm', hk, hd, hmin⟩ := exists_stampAt hmx s p.2
    refine ⟨m', List.mem_flatMap.mpr ⟨(x.1, x.2.stampAt s p.2), List.mem_map.mpr ⟨x, hx, ?_⟩, hm'⟩,
      hk.trans hkey, hd.trans hdir, hmin.trans hxmin⟩
    rw [if_pos hxp]
  · refine ⟨m, List.mem_flatMap.mpr ⟨x, List.mem_map.mpr ⟨x, hx, ?_⟩, hmx⟩, hkey, hdir, hxmin⟩
    rw [if_neg hxp]

/-- What a view shows of a record. -/
theorem Shows.onChain_iff {A : AdjView} (h : Shows st V A) (hr : r.owner ∈ V) : r.OnChain st ↔
    ∃ m ∈ A r.owner, m.key = r.key ∧ m.dir = r.direction ∧ m.xmin = r.fxid := by
  constructor
  · rintro ⟨ms, hms, hm⟩
    rwa [hms.det (h.holds _ hr)] at hm
  · exact fun hm => ⟨_, h.holds _ hr, hm⟩

/-! ## The catalog since the transaction began -/

/-- The rows of a label since `info₀`: the same partitions, and new ones under oids from `next` on. -/
structure RowsSince (next : Oid) (info₀ info : LabelInfo) : Prop where
  arraylist : info.arraylist = info₀.arraylist
  old : ∀ row₀ ∈ info₀.linkedListMeta, ∃ row ∈ info.linkedListMeta, row.id = row₀.id ∧
    row.tbl = row₀.tbl ∧ row.compacted = row₀.compacted
  new : ∀ row ∈ info.linkedListMeta, next ≤ row.tbl ∨ ∃ row₀ ∈ info₀.linkedListMeta,
    row₀.id = row.id ∧ row₀.tbl = row.tbl ∧ row₀.compacted = row.compacted

/-- What the open transaction has done to the catalog. -/
structure CatalogSince (saved st : Store) : Prop where
  before : Catalog saved
  grow : SequencesGrow saved st
  format : ∀ o < saved.nextOid, st.format o = saved.format o
  rows : ∀ l info, st.vlabel l = some info → ∃ info₀, saved.vlabel l = some info₀ ∧
    RowsSince saved.nextOid info₀ info

theorem CatalogSince.refl (h : Catalog st) : CatalogSince st st where
  before := h
  grow := SequencesGrow.refl st
  format _ _ := rfl
  rows _ info hi := ⟨info, hi, rfl, fun row hrow => ⟨row, hrow, rfl, rfl, rfl⟩,
    fun row hrow => Or.inr ⟨row, hrow, rfl, rfl, rfl⟩⟩

theorem CatalogSince.same {saved : Store} (h : CatalogSince saved st) (hs : SameCatalog st st') :
    CatalogSince saved st' := by
  obtain ⟨hv, hf, hn⟩ := hs
  refine ⟨h.before, ⟨hn ▸ h.grow.nextOid, fun l info hi => ?_⟩, fun o ho => ?_, fun l info hi => ?_⟩
  · rw [hv]
    exact h.grow.label l info hi
  · rw [hf]
    exact h.format o ho
  · rw [hv] at hi
    exact h.rows l info hi

theorem CatalogSince.rotate {saved : Store} (h : CatalogSince saved st) {info : LabelInfo}
    (hinfo : st.vlabel l = some info) : CatalogSince saved (st.rotate l info) := by
  refine ⟨h.before, h.grow.trans (sequencesGrow_rotate hinfo), fun o ho => ?_, fun l' info' hi => ?_⟩
  · have hne : o ≠ st.nextOid := Nat.ne_of_lt (Nat.lt_of_lt_of_le ho h.grow.nextOid)
    exact (Function.update_of_ne hne ..).trans (h.format o ho)
  · change Function.update st.vlabel l _ l' = _ at hi
    by_cases hl : l' = l
    · subst hl
      rw [Function.update_self] at hi
      obtain rfl := Option.some.inj hi
      obtain ⟨info₀, hinfo₀, hrows⟩ := h.rows l' info hinfo
      refine ⟨info₀, hinfo₀, hrows.arraylist, fun row₀ hrow₀ => ?_, fun row hrow => ?_⟩
      · obtain ⟨row, hrow, hid, htbl, hc⟩ := hrows.old row₀ hrow₀
        obtain ⟨row', hrow', hid', htbl', hc'⟩ := exists_mem_deactivate hrow
        exact ⟨row', List.mem_append_left _ hrow', hid'.trans hid, htbl'.trans htbl, hc'.trans hc⟩
      · rcases List.mem_append.mp hrow with hrow | hrow
        · obtain ⟨row', hrow', hid', htbl', hc'⟩ := exists_of_mem_deactivate hrow
          rcases hrows.new row' hrow' with hnew | ⟨row₀, hrow₀, hid, htbl, hc⟩
          · exact Or.inl (htbl' ▸ hnew)
          · exact Or.inr ⟨row₀, hrow₀, hid.trans hid', htbl.trans htbl', hc.trans hc'⟩
        · rw [List.mem_singleton.mp hrow]
          exact Or.inl h.grow.nextOid
    · rw [Function.update_of_ne hl] at hi
      exact h.rows l' info' hi

/-! ## An abort -/

theorem vlabel_undoCatalog (saved db : Db) (l : Nat) : (saved.undoCatalog db).store.vlabel l =
    (saved.store.vlabel l).bind fun info₀ =>
      (db.store.vlabel l).map fun info => { info with linkedListMeta := info₀.linkedListMeta } := by
  show ((saved.vlabels l).bind _).map VertexLabel.info =
    ((saved.vlabels l).map VertexLabel.info).bind _
  cases saved.vlabels l with
  | none => rfl
  | some lab₀ =>
    show ((db.vlabels l).map _).map _ = ((db.vlabels l).map _).map _
    rw [Option.map_map, Option.map_map]
    rfl

/-- The rows of a label after the catalog went back. -/
theorem vlabel_undoCatalog_iff {info : LabelInfo} : (saved.undoCatalog db).store.vlabel l = some info ↔
    ∃ info₀ info₁, saved.store.vlabel l = some info₀ ∧ db.store.vlabel l = some info₁ ∧
      info = { info₁ with linkedListMeta := info₀.linkedListMeta } := by
  rw [vlabel_undoCatalog, Option.bind_eq_some_iff]
  constructor
  · rintro ⟨info₀, h₀, h⟩
    obtain ⟨info₁, h₁, rfl⟩ := Option.map_eq_some_iff.mp h
    exact ⟨info₀, info₁, h₀, h₁, rfl⟩
  · rintro ⟨info₀, info₁, h₀, h₁, rfl⟩
    exact ⟨info₀, h₀, Option.map_eq_some_iff.mpr ⟨info₁, h₁, rfl⟩⟩

/-- Labels that were there before keep their tables. -/
theorem CatalogSince.undo_tables (h : CatalogSince saved.store db.store) {α : Type} (l : Nat)
    {f : VertexLabel → Option α} (hf : ∀ lab rows, f { lab with linkedListMeta := rows } = f lab) :
    ((saved.undoCatalog db).vlabels l).bind f = (db.vlabels l).bind f := by
  show ((saved.vlabels l).bind _).bind f = (db.vlabels l).bind f
  cases hl : db.vlabels l with
  | none => cases saved.vlabels l <;> rfl
  | some lab =>
    obtain ⟨info₀, hinfo₀, -⟩ := h.rows l _ (store_vlabel hl)
    obtain ⟨lab₀, hlab₀⟩ := exists_vlabel (by rw [hinfo₀]; rfl : (saved.store.vlabel l).isSome)
    rw [hlab₀]
    exact hf lab lab₀.linkedListMeta

theorem CatalogSince.undo_vtuple (h : CatalogSince saved.store db.store) :
    (saved.undoCatalog db).store.vtuple = db.store.vtuple :=
  funext fun k => h.undo_tables k.1 fun _ _ => rfl

theorem CatalogSince.undo_vslot (h : CatalogSince saved.store db.store) :
    (saved.undoCatalog db).store.vslot = db.store.vslot :=
  funext fun k => h.undo_tables k.1 fun _ _ => rfl

/-- The relations created since hold nothing, so every node is where it was. -/
theorem CreatedEmpty.node (h : CreatedEmpty saved db) :
    (saved.undoCatalog db).store.node = db.store.node := by
  funext a
  show (if a.1 < saved.nextOid then db.rels a.1 else none).bind _ = db.store.node a
  split
  · rfl
  · next ho =>
    rw [h a (Nat.not_lt.mp ho)]
    rfl

/-- A relation that was there before is a live partition iff it was. -/
theorem CatalogSince.live_iff (h : CatalogSince saved.store db.store) {o : Oid}
    (ho : o < saved.nextOid) : (saved.undoCatalog db).store.LivePartition l o ↔
      db.store.LivePartition l o := by
  constructor
  · rintro ⟨info, hi, row, hrow, htbl, hc⟩
    obtain ⟨info₀, info₁, hi₀, hi₁, rfl⟩ := vlabel_undoCatalog_iff.mp hi
    obtain ⟨info₀', hi₀', hrows⟩ := h.rows l info₁ hi₁
    obtain rfl := Option.some.inj (hi₀.symm.trans hi₀')
    obtain ⟨row', hrow', -, htbl', hc'⟩ := hrows.old row hrow
    exact ⟨info₁, hi₁, row', hrow', htbl'.trans htbl, hc'.trans hc⟩
  · rintro ⟨info, hi, row, hrow, rfl, hc⟩
    obtain ⟨info₀, hi₀, hrows⟩ := h.rows l info hi
    rcases hrows.new row hrow with hnew | ⟨row₀, hrow₀, -, htbl, hc₀⟩
    · exact absurd ho (Nat.not_lt.mpr hnew)
    · exact ⟨_, vlabel_undoCatalog_iff.mpr ⟨info₀, info, hi₀, hi, rfl⟩, row₀, hrow₀, htbl,
        hc₀.trans hc⟩

theorem CatalogSince.undo_catalog (h : CatalogSince saved.store db.store) (hcat : Catalog db.store) :
    Catalog (saved.undoCatalog db).store := by
  refine PartitionInv.rollback ⟨h.before, hcat, h.grow⟩ ⟨fun l info hi => ?_, fun l hl => ?_, ?_,
    Nat.le_refl _⟩
  · obtain ⟨info₀, info₁, hi₀, hi₁, rfl⟩ := vlabel_undoCatalog_iff.mp hi
    obtain ⟨info₀', hi₀', hrows⟩ := h.rows l info₁ hi₁
    obtain rfl := Option.some.inj (hi₀.symm.trans hi₀')
    refine ⟨info₀, hi₀, hrows.arraylist, rfl, fun info₂ hi₂ => ?_⟩
    rw [Option.some.inj (hi₁.symm.trans hi₂)]
  · obtain ⟨info₀, hi₀⟩ := Option.isSome_iff_exists.mp hl
    obtain ⟨info₁, hi₁, -⟩ := h.grow.label l info₀ hi₀
    exact Option.isSome_iff_exists.mpr ⟨_, vlabel_undoCatalog_iff.mpr ⟨info₀, info₁, hi₀, hi₁, rfl⟩⟩
  · funext o
    show (if o < saved.nextOid then db.rels o else none).map AdjRelation.format = saved.store.format o
    split
    · next ho => exact h.format o ho
    · next ho =>
      cases hf : saved.store.format o with
      | none => rfl
      | some f => exact absurd (h.before.fresh o (by rw [hf]; rfl)) ho

/-- **An abort that meets the condition keeps the graph.** -/
theorem GraphInv.rollBack (h : GraphInv base V db.store) (hc : CatalogSince saved.store db.store)
    (hempty : CreatedEmpty saved db) (ht : db.xacts.Open base t) :
    GraphInv base V (saved.rollBack db t).store := by
  have hvs := hc.undo_vslot
  have hcat := hc.undo_catalog h.layout.catalog
  have hbelow : ∀ a, db.store.node a ≠ none → a.1 < saved.nextOid := fun a ha =>
    Nat.not_le.mp fun hle => ha (hempty a hle)
  suffices hundone : GraphInv base V (saved.undoCatalog db).store from hundone.abort ht
  refine h.same ⟨rfl, hc.undo_vtuple, fun l k => ?_, rfl, rfl⟩
    (h.layout.emptyPartitions hcat hvs hempty.node (fun l a ha => hc.live_iff (hbelow a ha))
      (fun l a ha hlive => ?_) fun l o ho => ?_)
  · unfold Store.vertexPtr
    rw [hvs]
  · -- the row has the id it had
    obtain ⟨info, hi, row, hrow, htbl, -⟩ := hlive
    obtain ⟨info₀, hi₀, hrows⟩ := hc.rows l info hi
    rcases hrows.new row hrow with hnew | ⟨row₀, hrow₀, hid, htbl₀, -⟩
    · exact absurd (htbl ▸ hbelow a ha) (Nat.not_lt.mpr hnew)
    · rw [← htbl, rank_eq h.layout.catalog hi hrow, ← htbl₀,
        rank_eq hcat (vlabel_undoCatalog_iff.mpr ⟨info₀, info, hi₀, hi, rfl⟩) hrow₀, hid]
  · obtain ⟨info, hi, rfl⟩ := ho
    obtain ⟨info₀, hi₀, hrows⟩ := hc.rows l info hi
    exact ⟨_, vlabel_undoCatalog_iff.mpr ⟨info₀, info, hi₀, hi, rfl⟩, rfl⟩

/-! ## Calls -/

/-- **An edge insert puts its two records on the chains of the ends**, and takes none away. -/
theorem GraphInv.insertEdge_onChain {startV endV : Vertex} {e : Edge} {props : Gtype}
    (h : GraphInv base V db.store) (hstart : startV.key ∈ V) (hend : endV.key ∈ V)
    (hr : (npInternalInsertEdge u s startV endV e props).Runs db () db') :
    (∀ r : LinkedRecord, r.owner ∈ V → r.OnChain db.store → r.OnChain db'.store) ∧
      ∀ r ∈ (GraphOp.insertEdge startV endV e props).linked s, r.owner ∈ V ∧ r.OnChain db'.store := by
  obtain ⟨A, hA⟩ := h.layout.shows
  obtain ⟨tid, db₁, h₁, -⟩ := Prog.runs_bind_iff.mp hr
  obtain ⟨hl, hfits, -⟩ := writeEdgeTuple_inv h₁
  change Fits (totalTupleSize sizeOfEdge props) at hfits
  obtain ⟨db₂, _, _, hr₂, hA', -⟩ := hA.insertEdge_runs hl hfits hstart hend u s
  obtain ⟨-, rfl⟩ := hr.det hr₂
  refine ⟨fun r hrV hon => ?_, fun r hmem => ?_⟩
  · obtain ⟨m, hm, hspec⟩ := (hA.onChain_iff hrV).mp hon
    exact (hA'.onChain_iff hrV).mpr ⟨m, mem_link_of_mem (mem_link_of_mem hm), hspec⟩
  · rcases List.mem_cons.mp hmem with rfl | hmem
    · exact ⟨hstart, (hA'.onChain_iff hstart).mpr
        ⟨newMember s endV e 0, mem_link_of_mem (mem_link A _ _), rfl, rfl, rfl⟩⟩
    · rw [List.mem_singleton.mp hmem]
      exact ⟨hend, (hA'.onChain_iff hend).mpr
        ⟨newMember s startV e 1, mem_link _ _ _, rfl, rfl, rfl⟩⟩

/-- What a call keeps, however it ends. -/
structure CallKeeps (saved : Store) (V : List VertexKey) (st st' : Store) : Prop where
  onChain : ∀ r : LinkedRecord, r.owner ∈ V → r.OnChain st → r.OnChain st'
  catalog : CatalogSince saved st → CatalogSince saved st'

/-- **Each call keeps the records on their chains**, and undoing it is undoing its rotations. -/
theorem GraphInv.call_keeps (h : GraphInv base V db.store) {o : GraphOp} (ho : o.OnEdges)
    (hallowed : o.Allowed db.store s) (saved : Store) :
    CallKeeps saved V db.store ((o.run u s).exec db).2.store := by
  cases o with
  | insertEdge startV endV e props =>
    obtain ⟨hstart, hend, -⟩ := hallowed
    show CallKeeps _ _ _ ((npInternalInsertEdge u s startV endV e props).exec db).2.store
    rcases h.insertEdge_cases ((h.mem _).mpr hstart) ((h.mem _).mpr hend) u s e props with
      ⟨er, he⟩ | ⟨db', hr⟩
    · rw [he]
      exact ⟨fun _ _ hon => hon, fun hc => hc⟩
    · rw [hr]
      exact ⟨(h.insertEdge_onChain ((h.mem _).mpr hstart) ((h.mem _).mpr hend) hr).1,
        fun hc => hc.same (sameCatalog_insertEdge hr)⟩
  | deleteEdge fuel l id =>
    have hon : ∀ r : LinkedRecord, (deleteEdge fuel s id l).Keeps fun db' => r.OnChain db'.store :=
      fun r => deleteEdge_keeps s (fun _ _ _ _ h => h.same rfl rfl) (fun _ p h => h.stamp s p) fuel id l
    have hcat : (deleteEdge fuel s id l).Keeps fun db' => CatalogSince saved db'.store :=
      deleteEdge_keeps s (fun _ _ _ _ h => h.same ⟨rfl, rfl, rfl⟩)
        (fun _ _ h => h.same ⟨rfl, rfl, rfl⟩) fuel id l
    exact ⟨fun r _ => (hon r).exec, hcat.exec⟩
  | rotateActiveLinkedListTable l =>
    show CallKeeps _ _ _ ((NeoPostGraph.rotateActiveLinkedListTable l).exec db).2.store
    rcases rotateActiveLinkedListTable_cases h.layout.catalog l with ⟨e, he⟩ | ⟨info, db', hinfo, hr, hst⟩
    · rw [he]
      exact ⟨fun _ _ hon => hon, fun hc => hc⟩
    · rw [hr, hst]
      exact ⟨fun _ _ hon => hon.same rfl rfl, fun hc => hc.rotate hinfo⟩
  | _ => exact ho.elim

/-! ## Over a run -/

/-- What holds in every state of a run. -/
structure RotationInv (base : Nat) (V : List VertexKey) (tx : Option (Db × Nat))
    (log : List LinkedRecord) (db : Db) : Prop where
  inv : GraphInv base V db.store
  onChain : ∀ r ∈ log, r.owner ∈ V ∧ r.OnChain db.store
  tx : ∀ saved t, tx = some (saved, t) → CatalogSince saved.store db.store ∧ db.xacts.Open base t

/-- A call, however it ends. -/
theorem RotationInv.call {o : GraphOp} (h : RotationInv base V (some (saved, s.fxid)) log db)
    (ho : o.OnEdges) (hallowed : o.Allowed db.store s) :
    ∃ V', (∀ v ∈ V, v ∈ V') ∧
      RotationInv base V' (some (saved, s.fxid)) log ((o.run u s).exec db).2 := by
  obtain ⟨hc, hopen⟩ := h.tx _ _ rfl
  obtain ⟨V', hV, hinv, hx⟩ := h.inv.run_exec (u := u) hopen hallowed
  have hkeeps : CallKeeps saved.store V db.store _ := h.inv.call_keeps (u := u) ho hallowed saved.store
  refine ⟨V', hV, hinv, fun r hr => ?_, fun saved' t he => ?_⟩
  · obtain ⟨hmem, hon⟩ := h.onChain r hr
    exact ⟨hV _ hmem, hkeeps.onChain r hmem hon⟩
  · obtain ⟨rfl, rfl⟩ := Prod.mk.inj (Option.some.inj he)
    refine ⟨hkeeps.catalog hc, ?_⟩
    rw [show ((o.run u s).exec db).2.xacts = db.xacts from hx]
    exact hopen

/-- The records of a call that succeeds are on their chains. -/
theorem RotationInv.linked {o : GraphOp} (h : RotationInv base V (some (saved, s.fxid)) log db)
    (hallowed : o.Allowed db.store s) (hr : (o.run u s).Runs db () db') :
    ∀ r ∈ o.linked s, r.owner ∈ V ∧ r.OnChain db'.store := by
  cases o with
  | insertEdge startV endV e props =>
    exact (h.inv.insertEdge_onChain ((h.inv.mem _).mpr hallowed.1) ((h.inv.mem _).mpr hallowed.2.1)
      hr).2
  | _ => exact fun r hmem => absurd hmem List.not_mem_nil

/-- The transaction aborts. -/
theorem RotationInv.rollBack (h : RotationInv base V (some (saved, t)) log db)
    (hempty : CreatedEmpty saved db) : RotationInv base V none log (saved.rollBack db t) := by
  obtain ⟨hc, hopen⟩ := h.tx _ _ rfl
  refine ⟨h.inv.rollBack hc hempty hopen, fun r hr => ?_, fun saved' t' he => by cases he⟩
  obtain ⟨hmem, hon⟩ := h.onChain r hr
  exact ⟨hmem, hon.same hc.undo_vslot hempty.node⟩

theorem RotationRun.inv {tx : Option (Db × Nat)} (h : RotationRun u base CreatedEmpty tx log db) :
    ∃ V, RotationInv base V tx log db := by
  induction h with
  | start h hlog =>
    obtain ⟨V, hinv⟩ := h.inv
    exact ⟨V, hinv, fun r hr => ⟨(hinv.mem _).mpr (hlog r hr).1, (hlog r hr).2⟩,
      fun saved t he => by cases he⟩
  | @begin db log _ hroom ih =>
    obtain ⟨V, ih⟩ := ih
    have hinv : GraphInv base V db.begin.store :=
      GraphInv.later ih.inv (XactState.later_begin base _) (XactState.settles_begin base _) hroom
        (fullTransactionIdAdvance_normal _)
    refine ⟨V, hinv, fun r hr => ⟨(ih.onChain r hr).1, (ih.onChain r hr).2.same rfl rfl⟩,
      fun saved t he => ?_⟩
    obtain ⟨rfl, rfl⟩ := Prod.mk.inj (Option.some.inj he)
    exact ⟨CatalogSince.refl hinv.layout.catalog, XactState.open_begin ih.inv.base_le ih.inv.normal⟩
  | @call saved db db' s log o _ ho hallowed hr ih =>
    obtain ⟨V, ih⟩ := ih
    obtain ⟨V', hV, ih'⟩ := ih.call (u := u) ho hallowed
    rw [hr] at ih'
    refine ⟨V', ih'.inv, fun r hmem => ?_, ih'.tx⟩
    rcases List.mem_append.mp hmem with hnew | hold
    · obtain ⟨hin, hon⟩ := ih.linked hallowed hr r hnew
      exact ⟨hV _ hin, hon⟩
    · exact ih'.onChain r hold
  | @fail saved db db' s log o e _ ho hallowed hr hempty ih =>
    obtain ⟨V, ih⟩ := ih
    obtain ⟨V', -, ih'⟩ := ih.call (u := u) ho hallowed
    rw [hr] at ih'
    exact ⟨V', ih'.rollBack hempty⟩
  | @commit saved db t log _ ih =>
    obtain ⟨V, ih⟩ := ih
    have hopen := (ih.tx _ _ rfl).2
    exact ⟨V, GraphInv.later ih.inv (XactState.later_commit base _ _) (XactState.settles_commit hopen)
      ih.inv.room ih.inv.normal, fun r hr => ⟨(ih.onChain r hr).1, (ih.onChain r hr).2.same rfl rfl⟩,
      fun saved t he => by cases he⟩
  | abort _ hempty ih =>
    obtain ⟨V, ih⟩ := ih
    exact ⟨V, ih.rollBack hempty⟩

theorem RotationInv.edgesReachable {tx : Option (Db × Nat)} (h : RotationInv base V tx log db)
    (u : Unspecified) : EdgesReachable u log db := by
  obtain ⟨A, hA⟩ := h.inv.layout.shows
  refine ⟨fun r hr _ => (h.onChain r hr).2, fun s startV endV e props hstart hend hl hfits => ?_,
    fun s l id rec t hrec ht hup => ?_⟩
  · obtain ⟨db', _, _, hr, -⟩ := hA.insertEdge_runs hl hfits ((h.inv.mem _).mpr hstart)
      ((h.inv.mem _).mpr hend) u s
    exact ⟨db', hr⟩
  · have hok := (h.inv.edge l).entity _ t ht
    obtain ⟨db', n, -, -, -, hr⟩ := hA.deleteEdge_runs hrec ht hup hok.startMem hok.endMem
    exact ⟨db', n, hr⟩

/-- **Aborts lose no edge where they take no record with them**: in every state of a run of
transactions of edge inserts, edge deletes and rotations, each of which commits, or aborts when the
relations it created hold no record. -/
theorem edgesReachable_of_createdEmpty {tx : Option (Db × Nat)}
    (h : RotationRun u base CreatedEmpty tx log db) : EdgesReachable u log db := by
  obtain ⟨V, hinv⟩ := h.inv
  exact hinv.edgesReachable u

/-- A rotation alone leaves nothing in its partition. -/
theorem createdEmpty_rotate (hcat : Catalog saved.store)
    (hr : (rotateActiveLinkedListTable l).Runs saved () db) : CreatedEmpty saved db := by
  obtain ⟨info, -, hst⟩ := rotateActiveLinkedListTable_inv hcat hr
  intro a ha
  have hn : db.store.node a = saved.store.node a := by
    rw [hst]
    rfl
  rw [hn]
  by_contra hne
  exact absurd (hcat.fresh a.1 (format_of_node hne)) (Nat.not_lt.mpr ha)

end

/-! ## Two runs -/

/-- After an edge is committed, transaction 6 rotates the partitions of label 1, does what `ops` say,
and aborts. -/
def exampleAbort (ops : List GraphOp) : Db :=
  (exampleEdges []).rollBack (performAll exampleUnspecified ⟨6, 0⟩
    (.rotateActiveLinkedListTable 1 :: ops) (exampleEdges [])) 6

/-- The records of the committed edge. -/
def exampleCommittedEdges : List LinkedRecord := [⟨(1, 1), (1, 1), 0, 5⟩, ⟨(1, 2), (1, 1), 1, 5⟩]

/-- A second edge between the two vertices. -/
def exampleSecondEdge : GraphOp :=
  .insertEdge ⟨1, 1, 0⟩ ⟨2, 1, 0⟩ ⟨2, 1, 0, 1, 1, 1, 2⟩ npEmptyGtypeObject

theorem rotationRun_example (P : Db → Db → Prop) : RotationRun exampleUnspecified 5 P
    (some (exampleEdges [], 6)) exampleCommittedEdges (performAll exampleUnspecified ⟨6, 0⟩
      [.rotateActiveLinkedListTable 1] (exampleEdges [])) := by
  have h₀ : RotationRun exampleUnspecified 5 P none exampleCommittedEdges (exampleEdge.commit 5) := by
    refine .start (graphRun_exampleEdge.commit ⟨⟨by decide, by decide, by decide⟩, rfl⟩) fun r hr => ?_
    rcases List.mem_cons.mp hr with rfl | hr
    · exact ⟨⟨⟨0, 1⟩, _, rfl, rfl⟩, _, ⟨[(_, _)], Seg.cons rfl (Seg.nil none), rfl⟩, _,
        List.mem_singleton_self _, rfl, rfl, rfl⟩
    · rw [List.mem_singleton.mp hr]
      exact ⟨⟨⟨0, 2⟩, _, rfl, rfl⟩, _, ⟨[(_, _)], Seg.cons rfl (Seg.nil none), rfl⟩, _,
        List.mem_singleton_self _, rfl, rfl, rfl⟩
  exact (h₀.begin (by decide)).call (s := ⟨6, 0⟩) (o := .rotateActiveLinkedListTable 1) trivial trivial
    (Prog.runs_of_ok rfl)

/-- The transaction rotates and aborts. -/
theorem edgesReachable_of_createdEmpty_example :
    EdgesReachable exampleUnspecified exampleCommittedEdges (exampleAbort []) :=
  edgesReachable_of_createdEmpty ((rotationRun_example CreatedEmpty).abort
    (createdEmpty_rotate (l := 1) graphRun_exampleEdges.inv.choose_spec.layout.catalog
      (show (rotateActiveLinkedListTable 1).Runs _ () _ from Prog.runs_of_ok rfl)))

/-- It rotates, inserts an edge and aborts: the vertices of the committed edge have lost their lists,
and no edge is inserted there any more, nor this one deleted. -/
theorem edgesReachable_fails : ∃ log,
    RotationRun exampleUnspecified 5 (fun _ _ => True) none log (exampleAbort [exampleSecondEdge]) ∧
      ¬ EdgesReachable exampleUnspecified log (exampleAbort [exampleSecondEdge]) := by
  have h := (rotationRun_example fun _ _ => True).call (s := ⟨6, 0⟩) (o := exampleSecondEdge) trivial
    ⟨⟨⟨0, 1⟩, _, rfl, rfl⟩, ⟨⟨0, 2⟩, _, rfl, rfl⟩, ⟨⟨0, 1⟩, _, rfl, rfl⟩, ⟨⟨0, 2⟩, _, rfl, rfl⟩,
      (edgeIdUnused_of_entries rfl (by decide)).free 6⟩ (Prog.runs_of_ok rfl)
  refine ⟨_, h.abort trivial, fun hreach => ?_⟩
  obtain ⟨ms, ⟨p, hp, -⟩, -⟩ := hreach.reach ⟨(1, 1), (1, 1), 0, 5⟩
    (List.mem_append_right _ List.mem_cons_self) rfl
  cases p with
  | nil => cases hp.nil_inv
  | cons x p =>
    -- the head leads to the partition of the aborted transaction
    obtain ⟨hx, hn, -⟩ := hp.cons_inv
    rw [← Option.some.inj hx] at hn
    cases hn

end NeoPostGraph
