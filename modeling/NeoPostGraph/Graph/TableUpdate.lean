import NeoPostGraph.Access.EntityStore
import NeoPostGraph.Graph.EntityReads

/-!
# The two update paths

`np_entity_store_tuple_update`, the update of the access method, which an SQL `UPDATE` of a table of
vertices or edges comes to, beside `update_vertex` and `update_edge`. All of them append a version that
points back to the old one and stamp the old one. `update_vertex` and `update_edge` point the slot to
the new version; the access method leaves the slot alone. And it appends with the page of the old tuple
locked: when that is the last page, the session waits for its own lock.

* `TableAccess`: the read and both updates of one entity, as the two kinds of entity share them.
* `PathsAgree acc db s otid slot`: after either update the read by id in the same transaction returns
  the new properties, and the old version is stamped.
* `SlotReads acc db s otid props`: the slot, which the access method leaves alone, reads as the new
  properties.

Result: `updatePathsAgree_iff`, for every live version of a vertex or an edge.
-/

namespace NeoPostGraph

open SlottedPage

variable {μ : Type} {x : XactState} {s : Session} {db db' : Db} {l id : Nat} {p otid : ItemPointer}
  {slot slot' : EntitySlot μ} {tbl tbl' : Table (EntityTuple μ)} {old cur : EntityTuple μ}

/-! ## The update of the access method -/

/-- `np_entity_store_tuple_update` (`np_entity_store.c:378-458`), with the values of the slot: the
result and the slot, or no result when the session waits for its own lock. -/
def npEntityStoreTupleUpdate (x : XactState) (s : Session) (t : Table (EntityTuple μ))
    (otid : ItemPointer) (slot : EntitySlot μ) (metaSize : Nat) :
    Except Err (Option (TmResult × EntitySlot μ) × Table (EntityTuple μ)) := do
  let (res, t) ← npEntityStoreStampOld x s t otid
  if res ≠ .ok then
    return (some (res, slot), t)
  -- the page of the old tuple is still locked, and the writer locks the last page first
  if otid.block = t.nblocks - 1 then
    return (none, t)
  let (t, newTid) ← npWriteRecordToPage t
    (newEntityTuple s slot.id otid slot.entity slot.props) (totalTupleSize metaSize slot.props)
  return (some (.ok, { slot with tid := newTid }), t)

/-- The update of a row of a vertex table. -/
def updateVertexTable (s : Session) (l : Nat) (otid : ItemPointer) (slot : EntitySlot Vertex) :
    Op (Option (TmResult × EntitySlot Vertex)) :=
  onVertexLabel l (.labelNotFound l) fun x lab => do
    let (res, t) ← npEntityStoreTupleUpdate x s lab.vertexTbl otid slot sizeOfVertex
    return (res, { lab with vertexTbl := t })

/-- The update of a row of an edge table. -/
def updateEdgeTable (s : Session) (l : Nat) (otid : ItemPointer) (slot : EntitySlot Edge) :
    Op (Option (TmResult × EntitySlot Edge)) :=
  onEdgeLabel l (.edgeLabelNotFound l) fun x lab => do
    let (res, t) ← npEntityStoreTupleUpdate x s lab.vertexTbl otid slot sizeOfEdge
    return (res, { lab with vertexTbl := t })

theorem stampOld_of_updatable (ht : tbl.get otid = some old) (hup : Updatable x s.own old) :
    npEntityStoreStampOld x s tbl otid = .ok (.ok, tbl.modify otid (stampTuple s)) := by
  unfold npEntityStoreStampOld
  rw [if_neg (Nat.not_le.mpr (nblocks_of_get ht)), ht]
  simp [hup.1, hup.2]

theorem stampOld_inv {res : TmResult} (h : npEntityStoreStampOld x s tbl otid = .ok (res, tbl')) :
    res ≠ .ok ∧ tbl' = tbl ∨ res = .ok ∧ ∃ old, tbl.get otid = some old ∧
      Updatable x s.own old ∧ tbl' = tbl.modify otid (stampTuple s) := by
  unfold npEntityStoreStampOld at h
  by_cases hb : tbl.nblocks ≤ otid.block
  · rw [if_pos hb] at h
    cases h
  rw [if_neg hb] at h
  cases hg : tbl.get otid with
  | none =>
    rw [hg] at h
    obtain ⟨rfl, rfl⟩ := Prod.mk.inj (Except.ok.inj h)
    exact Or.inl ⟨by simp, rfl⟩
  | some old =>
    rw [hg] at h
    dsimp only at h
    split at h
    · obtain ⟨rfl, rfl⟩ := Prod.mk.inj (Except.ok.inj h)
      exact Or.inl ⟨by simp, rfl⟩
    · next hlive =>
      split at h
      · obtain ⟨rfl, rfl⟩ := Prod.mk.inj (Except.ok.inj h)
        exact Or.inl ⟨by simp, rfl⟩
      · next hother =>
        obtain ⟨rfl, rfl⟩ := Prod.mk.inj (Except.ok.inj h)
        exact Or.inr ⟨rfl, old, rfl, ⟨by simpa using hlive, by simpa using hother⟩, rfl⟩

/-- **An update of the access method that returns `TM_Ok`**: the old tuple was one the session may
supersede, not on the last page, and is stamped; the other tuples are as they were. -/
theorem tupleUpdate_ok {metaSize : Nat}
    (h : npEntityStoreTupleUpdate x s tbl otid slot metaSize = .ok (some (.ok, slot'), tbl')) :
    ∃ old, tbl.get otid = some old ∧ Updatable x s.own old ∧ otid.block ≠ tbl.nblocks - 1 ∧
      Fits (totalTupleSize metaSize slot.props) ∧ tbl'.get otid = some (stampTuple s old) ∧
      ∀ tid t, tid ≠ otid → tbl.get tid = some t → tbl'.get tid = some t := by
  obtain ⟨⟨res, t₁⟩, h₁, h⟩ := bind_ok h
  rcases stampOld_inv h₁ with ⟨hres, -⟩ | ⟨rfl, old, hold, hup, rfl⟩
  · dsimp only at h
    rw [if_pos hres] at h
    obtain ⟨he, -⟩ := Prod.mk.inj (Except.ok.inj h)
    exact absurd (Prod.mk.inj (Option.some.inj he)).1 hres
  · dsimp only at h
    rw [if_neg (by simp), Table.nblocks_modify] at h
    by_cases hb : otid.block = tbl.nblocks - 1
    · rw [if_pos hb] at h
      cases (Prod.mk.inj (Except.ok.inj h)).1
    rw [if_neg hb] at h
    obtain ⟨⟨t₂, newTid⟩, h₂, h⟩ := bind_ok h
    obtain ⟨-, rfl⟩ := Prod.mk.inj (Except.ok.inj h)
    have hw := npWriteRecordToPage_ok h₂
    have hfits := (Table.write_isSome (tbl.modify otid (stampTuple s)) _ _).mp (by rw [hw]; rfl)
    have hstamped : (tbl.modify otid (stampTuple s)).get otid = some (stampTuple s old) :=
      Table.get_modify_self _ hold
    have hkeep : ∀ tid t, (tbl.modify otid (stampTuple s)).get tid = some t →
        t₂.get tid = some t := fun tid t ht => by
      have hne : tid ≠ newTid := fun he => by
        rw [he, Table.write_fresh hw] at ht
        cases ht
      rw [Table.write_ne hw hne, ht]
    exact ⟨old, hold, hup, hb, hfits, hkeep _ _ hstamped, fun tid t hne ht =>
      hkeep tid t (by rw [Table.get_modify_ne _ _ hne, ht])⟩

theorem tupleUpdate_of_fits {metaSize : Nat} (ht : tbl.get otid = some old)
    (hup : Updatable x s.own old) (hb : otid.block ≠ tbl.nblocks - 1)
    (hfits : Fits (totalTupleSize metaSize slot.props)) :
    ∃ slot' tbl', npEntityStoreTupleUpdate x s tbl otid slot metaSize =
      .ok (some (.ok, slot'), tbl') := by
  obtain ⟨t', newTid, hw⟩ := npWriteRecordToPage_of_fits (tbl.modify otid (stampTuple s))
    (newEntityTuple s slot.id otid slot.entity slot.props) hfits
  refine ⟨{ slot with tid := newTid }, t', ?_⟩
  unfold npEntityStoreTupleUpdate
  rw [stampOld_of_updatable ht hup]
  simp [bind, Except.bind, pure, Except.pure, hb, hw]

/-! ## The paths of one entity -/

/-- The read and both updates of one entity. -/
structure TableAccess (μ : Type) extends EntityAccess μ where
  /-- The table its rows are in. -/
  table : Db → Option (Table (EntityTuple μ))
  setTable : Db → Table (EntityTuple μ) → Db
  metaSize : Nat
  tableUpdate : Session → ItemPointer → EntitySlot μ → Op (Option (TmResult × EntitySlot μ))

/-- The update of the access method works on the table, and the slots are somewhere else. -/
structure TableAccess.Lawful (acc : TableAccess μ) : Prop extends acc.toEntityAccess.Lawful where
  tuple_eq : ∀ db t tid, acc.table db = some t → acc.tuple db.store tid = t.get tid
  table_setTable : ∀ db t t', acc.table db = some t → acc.table (acc.setTable db t') = some t'
  ptr_setTable : ∀ db t t', acc.table db = some t →
    acc.ptr (acc.setTable db t').store = acc.ptr db.store
  xacts_setTable : ∀ db t, (acc.setTable db t).xacts = db.xacts
  tableUpdate : ∀ db s otid slot r db', (acc.tableUpdate s otid slot).Runs db r db' ↔
    ∃ t t', acc.table db = some t ∧
      npEntityStoreTupleUpdate db.xacts s t otid slot acc.metaSize = .ok (r, t') ∧
      db' = acc.setTable db t'
  tupleSize_eq : ∀ props, acc.tupleSize props = totalTupleSize acc.metaSize props
  fits_of_update : ∀ db s props db', (acc.update s props).Runs db () db' →
    Fits (acc.tupleSize props)
  newVersion : ∀ s tid t props, ∃ id entity,
    acc.newVersion s tid t props = newEntityTuple s id tid entity props

/-- **Both update paths are followed by the read.** -/
structure PathsAgree (acc : TableAccess μ) (db : Db) (s : Session) (otid : ItemPointer)
    (slot : EntitySlot μ) : Prop where
  /-- After the access method has returned `TM_Ok`. -/
  table : ∀ slot' db', (acc.tableUpdate s otid slot).Runs db (some (.ok, slot')) db' →
    (acc.fetchProperties s.own).Runs db' slot.props db' ∧
      acc.tuple db'.store otid = (acc.tuple db.store otid).map (stampTuple s)
  /-- After `update_vertex` or `update_edge`. -/
  dml : ∀ p db', acc.ptr db.store = some p → (acc.update s slot.props).Runs db () db' →
    (acc.fetchProperties s.own).Runs db' slot.props db' ∧
      acc.tuple db'.store p = (acc.tuple db.store p).map (stampTuple s)

/-- The access method gets to `TM_Ok`: nobody else is deleting the old tuple, it is not on the last
page, and the new version fits on a page. -/
def ReturnsOk (acc : TableAccess μ) (db : Db) (s : Session) (otid : ItemPointer) (props : Gtype) :
    Prop :=
  ∃ tbl old, acc.table db = some tbl ∧ tbl.get otid = some old ∧
    npEntityTupleXmaxOther db.xacts s.own old.hdr.toRecordHeader = false ∧
    otid.block ≠ tbl.nblocks - 1 ∧ Fits (acc.tupleSize props)

/-- What the slot points to, once the tuple at `otid` is stamped, reads as these properties. -/
def SlotReads (acc : TableAccess μ) (db : Db) (s : Session) (otid : ItemPointer) (props : Gtype) :
    Prop :=
  ∃ p cur, acc.ptr db.store = some p ∧ acc.tuple db.store p = some cur ∧
    if p ≠ otid ∧ npEntityTupleIsLive db.xacts s.own cur.hdr.toRecordHeader = true then
      props = cur.props
    else props = npEmptyGtypeObject

/-! ## What the reads return -/

/-- **After `update_vertex` or `update_edge`** the read returns the new properties, and the version
the slot pointed to is stamped. -/
theorem fetch_of_update {acc : TableAccess μ} (hacc : acc.Lawful) (hs : fullXidIsValid s.fxid = true)
    {props : Gtype} (hptr : acc.ptr db.store = some p) (hcur : acc.tuple db.store p = some cur)
    (h : (acc.update s props).Runs db () db') :
    (acc.fetchProperties s.own).Runs db' props db' ∧
      acc.tuple db'.store p = some (stampTuple s cur) := by
  have hup := hacc.updatable db db' s props p cur hptr hcur h
  obtain ⟨db₁, tid, hr, hold, hnew, hptr₁⟩ :=
    hacc.update db s props p cur hptr hcur (hacc.fits_of_update db s props db' h) hup
  obtain ⟨-, rfl⟩ := h.det hr
  refine ⟨?_, hold⟩
  have hf := hacc.fetch db' s.own tid _ hptr₁ hnew
  obtain ⟨id, entity, he⟩ := hacc.newVersion s p cur props
  have hlive : npEntityTupleIsLive db'.xacts s.own (newEntityTuple s id p entity props).hdr.toRecordHeader =
      true := npEntityTupleIsLive_self _ hs rfl rfl
  rw [he, hlive, if_pos rfl] at hf
  exact hf

/-- **After the access method has returned `TM_Ok`** the old version is stamped, and the read returns
what the slot, left alone, points to. -/
theorem fetch_of_tableUpdate {acc : TableAccess μ} (hacc : acc.Lawful)
    (hs : fullXidIsValid s.fxid = true) (hptr : acc.ptr db.store = some p)
    (hcur : acc.tuple db.store p = some cur)
    (h : (acc.tableUpdate s otid slot).Runs db (some (.ok, slot')) db') :
    ReturnsOk acc db s otid slot.props ∧
      acc.tuple db'.store otid = (acc.tuple db.store otid).map (stampTuple s) ∧
      (acc.fetchProperties s.own).Runs db'
        (if p ≠ otid ∧ npEntityTupleIsLive db.xacts s.own cur.hdr.toRecordHeader = true then
          cur.props else npEmptyGtypeObject) db' := by
  obtain ⟨t, t', htbl, hupd, rfl⟩ := (hacc.tableUpdate db s otid slot _ db').mp h
  obtain ⟨old, hold, hup, hb, hfits, hstamp, hkeep⟩ := tupleUpdate_ok hupd
  have htbl' := hacc.table_setTable db t t' htbl
  have hptr' := (hacc.ptr_setTable db t t' htbl).trans hptr
  refine ⟨⟨t, old, htbl, hold, hup.2, hb, by rwa [hacc.tupleSize_eq]⟩, ?_, ?_⟩
  · rw [hacc.tuple_eq _ _ _ htbl', hstamp, hacc.tuple_eq _ _ _ htbl, hold]
    rfl
  · rw [hacc.tuple_eq _ _ _ htbl] at hcur
    by_cases hp : p = otid
    · -- the slot points to the version just stamped
      subst hp
      have hf := hacc.fetch _ s.own p _ hptr' ((hacc.tuple_eq _ _ _ htbl').trans hstamp)
      rw [npEntityTupleIsLive_stampTuple _ hs] at hf
      simpa using hf
    · have hf := hacc.fetch _ s.own p _ hptr' ((hacc.tuple_eq _ _ _ htbl').trans (hkeep p cur hp hcur))
      rw [hacc.xacts_setTable] at hf
      simpa only [ne_eq, hp, not_false_eq_true, true_and] using hf

theorem tableUpdate_of_returnsOk {acc : TableAccess μ} (hacc : acc.Lawful)
    (hold : acc.tuple db.store otid = some old)
    (hlive : npEntityTupleIsLive db.xacts s.own old.hdr.toRecordHeader = true)
    (h : ReturnsOk acc db s otid slot.props) :
    ∃ slot' db', (acc.tableUpdate s otid slot).Runs db (some (.ok, slot')) db' := by
  obtain ⟨t, old', htbl, hold', hother, hb, hfits⟩ := h
  rw [hacc.tuple_eq _ _ _ htbl] at hold
  obtain rfl := Option.some.inj (hold.symm.trans hold')
  rw [hacc.tupleSize_eq] at hfits
  obtain ⟨slot', t', hrun⟩ := tupleUpdate_of_fits hold ⟨hlive, hother⟩ hb hfits
  exact ⟨slot', _, (hacc.tableUpdate db s otid slot _ _).mpr ⟨t, t', htbl, hrun, rfl⟩⟩

/-- **The paths agree exactly when the access method does not get to `TM_Ok`, or the slot it leaves
alone reads as the new properties.** -/
theorem pathsAgree_iff_slotReads {acc : TableAccess μ} (hacc : acc.Lawful)
    (hs : fullXidIsValid s.fxid = true) (hptr : acc.ptr db.store = some p)
    (hcur : acc.tuple db.store p = some cur) (hold : acc.tuple db.store otid = some old)
    (hlive : npEntityTupleIsLive db.xacts s.own old.hdr.toRecordHeader = true) :
    PathsAgree acc db s otid slot ↔
      (ReturnsOk acc db s otid slot.props → SlotReads acc db s otid slot.props) := by
  constructor
  · intro h hok
    obtain ⟨slot', db', hr⟩ := tableUpdate_of_returnsOk hacc hold hlive hok
    obtain ⟨-, -, hf⟩ := fetch_of_tableUpdate hacc hs hptr hcur hr
    have hprops := ((h.table slot' db' hr).1.det hf).1
    refine ⟨p, cur, hptr, hcur, ?_⟩
    split <;> simp_all
  · intro h
    refine ⟨fun slot' db' hr => ?_, fun p' db' hp' hr => ?_⟩
    · obtain ⟨hok, hstamp, hf⟩ := fetch_of_tableUpdate hacc hs hptr hcur hr
      obtain ⟨p', cur', hp', hcur', hreads⟩ := h hok
      obtain rfl := Option.some.inj (hptr.symm.trans hp')
      obtain rfl := Option.some.inj (hcur.symm.trans hcur')
      refine ⟨?_, hstamp⟩
      split at hf
      · next hc => rwa [if_pos hc, ← hreads] at *
      · next hc => rwa [if_neg hc, ← hreads] at *
    · obtain rfl := Option.some.inj (hptr.symm.trans hp')
      rw [hcur]
      exact fetch_of_update hacc hs hptr hcur hr

/-! ## Vertices and edges -/

/-- A vertex and the row of its table. -/
def vertexTable (l id : Nat) : TableAccess Vertex where
  toEntityAccess := vertexAccess l id
  table db := (db.vlabels l).map VertexLabel.vertexTbl
  setTable db t := (db.vlabels l).elim db fun lab => db.setVertexLabel l { lab with vertexTbl := t }
  metaSize := sizeOfVertex
  tableUpdate s otid slot := updateVertexTable s l otid slot

/-- An edge and the row of its table. -/
def edgeTable (u : Unspecified) (l id : Nat) : TableAccess Edge where
  toEntityAccess := edgeAccess u l id
  table db := (db.elabels l).map EdgeLabel.vertexTbl
  setTable db t := (db.elabels l).elim db fun lab => db.setEdgeLabel l { lab with vertexTbl := t }
  metaSize := sizeOfEdge
  tableUpdate s otid slot := updateEdgeTable s l otid slot

theorem vertexTable_lawful (hl : l ≠ 0) (id : Nat) : (vertexTable l id).Lawful where
  toLawful := vertexAccess_lawful hl id
  tuple_eq db t tid h := by
    obtain ⟨lab, hlab, rfl⟩ := Option.map_eq_some_iff.mp h
    exact store_vtuple hlab tid
  table_setTable db t t' h := by
    obtain ⟨lab, hlab, rfl⟩ := Option.map_eq_some_iff.mp h
    show (((db.vlabels l).elim db _).vlabels l).map VertexLabel.vertexTbl = some t'
    rw [hlab]
    exact congrArg (Option.map VertexLabel.vertexTbl)
      (Function.update_self l (some { lab with vertexTbl := t' }) db.vlabels)
  ptr_setTable db t t' h := by
    obtain ⟨lab, hlab, rfl⟩ := Option.map_eq_some_iff.mp h
    have hlab' : (db.setVertexLabel l { lab with vertexTbl := t' }).vlabels l =
        some { lab with vertexTbl := t' } := Function.update_self ..
    show (((db.vlabels l).elim db _).store.vslot (l, entitySlot id)).map _ =
      (db.store.vslot (l, entitySlot id)).map _
    rw [store_vslot hlab, hlab]
    exact congrArg _ (store_vslot hlab' (entitySlot id))
  xacts_setTable db t := by
    show ((db.vlabels l).elim db _).xacts = db.xacts
    cases db.vlabels l <;> rfl
  tableUpdate db s otid slot r db' := by
    show (updateVertexTable s l otid slot).Runs db r db' ↔ _
    unfold updateVertexTable
    rw [runs_onVertexLabel]
    constructor
    · rintro ⟨lab, lab', hlab, hf, rfl⟩
      obtain ⟨⟨r', t'⟩, hupd, hf⟩ := bind_ok hf
      obtain ⟨rfl, rfl⟩ := Prod.mk.inj (Except.ok.inj hf)
      refine ⟨lab.vertexTbl, t', Option.map_eq_some_iff.mpr ⟨lab, hlab, rfl⟩, hupd, ?_⟩
      show _ = (db.vlabels l).elim db _
      rw [hlab]
      rfl
    · rintro ⟨t, t', htbl, hupd, rfl⟩
      obtain ⟨lab, hlab, rfl⟩ := Option.map_eq_some_iff.mp htbl
      refine ⟨lab, { lab with vertexTbl := t' }, hlab, ?_, ?_⟩
      · dsimp only
        rw [show npEntityStoreTupleUpdate db.xacts s lab.vertexTbl otid slot sizeOfVertex =
          .ok (r, t') from hupd]
        rfl
      · show (db.vlabels l).elim db _ = _
        rw [hlab]
        rfl
  tupleSize_eq _ := rfl
  fits_of_update db s props db' h := by
    obtain ⟨-, -, -, -, -, -, hfits, -⟩ := updateVertex_inv h
    exact hfits
  newVersion s tid t props := ⟨id, _, rfl⟩

theorem edgeTable_lawful (u : Unspecified) (hl : l ≠ 0) (id : Nat) :
    (edgeTable u l id).Lawful where
  toLawful := edgeAccess_lawful u hl id
  tuple_eq db t tid h := by
    obtain ⟨lab, hlab, rfl⟩ := Option.map_eq_some_iff.mp h
    exact store_etuple hlab tid
  table_setTable db t t' h := by
    obtain ⟨lab, hlab, rfl⟩ := Option.map_eq_some_iff.mp h
    show (((db.elabels l).elim db _).elabels l).map EdgeLabel.vertexTbl = some t'
    rw [hlab]
    exact congrArg (Option.map EdgeLabel.vertexTbl)
      (Function.update_self l (some { lab with vertexTbl := t' }) db.elabels)
  ptr_setTable db t t' h := by
    obtain ⟨lab, hlab, rfl⟩ := Option.map_eq_some_iff.mp h
    have hlab' : (db.setEdgeLabel l { lab with vertexTbl := t' }).elabels l =
        some { lab with vertexTbl := t' } := Function.update_self ..
    show (((db.elabels l).elim db _).store.eslot (l, edgeSlot id)).map _ =
      (db.store.eslot (l, edgeSlot id)).map _
    rw [store_eslot hlab, hlab]
    exact congrArg _ (store_eslot hlab' (edgeSlot id))
  xacts_setTable db t := by
    show ((db.elabels l).elim db _).xacts = db.xacts
    cases db.elabels l <;> rfl
  tableUpdate db s otid slot r db' := by
    show (updateEdgeTable s l otid slot).Runs db r db' ↔ _
    unfold updateEdgeTable
    rw [runs_onEdgeLabel]
    constructor
    · rintro ⟨lab, lab', hlab, hf, rfl⟩
      obtain ⟨⟨r', t'⟩, hupd, hf⟩ := bind_ok hf
      obtain ⟨rfl, rfl⟩ := Prod.mk.inj (Except.ok.inj hf)
      refine ⟨lab.vertexTbl, t', Option.map_eq_some_iff.mpr ⟨lab, hlab, rfl⟩, hupd, ?_⟩
      show _ = (db.elabels l).elim db _
      rw [hlab]
      rfl
    · rintro ⟨t, t', htbl, hupd, rfl⟩
      obtain ⟨lab, hlab, rfl⟩ := Option.map_eq_some_iff.mp htbl
      refine ⟨lab, { lab with vertexTbl := t' }, hlab, ?_, ?_⟩
      · dsimp only
        rw [show npEntityStoreTupleUpdate db.xacts s lab.vertexTbl otid slot sizeOfEdge =
          .ok (r, t') from hupd]
        rfl
      · show (db.elabels l).elim db _ = _
        rw [hlab]
        rfl
  tupleSize_eq _ := rfl
  fits_of_update db s props db' h := by
    obtain ⟨-, -, -, -, -, -, hfits, -⟩ := updateEdge_inv h
    exact hfits
  newVersion s tid t props := ⟨id, _, rfl⟩

/-- **The two update paths agree exactly when the access method does not get to `TM_Ok`, or the slot
it leaves alone reads as the new properties**, for every live version of a vertex or an edge that has a
slot. -/
theorem updatePathsAgree_iff (u : Unspecified) (db : Db) (s : Session) (l id : Nat) (hl : l ≠ 0)
    (hs : fullXidIsValid s.fxid = true) :
    (∀ (slot : EntitySlot Vertex) p cur otid old, db.store.vertexPtr l (entitySlot id) = some p →
      db.store.vtuple (l, p) = some cur → db.store.vtuple (l, otid) = some old →
      npEntityTupleIsLive db.xacts s.own old.hdr.toRecordHeader = true →
      (PathsAgree (vertexTable l id) db s otid slot ↔
        (ReturnsOk (vertexTable l id) db s otid slot.props →
          SlotReads (vertexTable l id) db s otid slot.props))) ∧
    ∀ (slot : EntitySlot Edge) p cur otid old, db.store.edgePtr l (edgeSlot id) = some p →
      db.store.etuple (l, p) = some cur → db.store.etuple (l, otid) = some old →
      npEntityTupleIsLive db.xacts s.own old.hdr.toRecordHeader = true →
      (PathsAgree (edgeTable u l id) db s otid slot ↔
        (ReturnsOk (edgeTable u l id) db s otid slot.props →
          SlotReads (edgeTable u l id) db s otid slot.props)) :=
  ⟨fun _ _ _ _ _ hptr hcur hold hlive =>
      pathsAgree_iff_slotReads (vertexTable_lawful hl id) hs hptr hcur hold hlive,
    fun _ _ _ _ _ hptr hcur hold hlive =>
      pathsAgree_iff_slotReads (edgeTable_lawful u hl id) hs hptr hcur hold hlive⟩

/-! ## An update of a row -/

/-- Properties that leave no room on a page. -/
def exampleLongProps : Gtype := ⟨List.replicate 8000 0⟩

/-- Transaction 4 inserts vertex 2 with long properties: it goes to the page after vertex 1. -/
def exampleTwoPages : Db :=
  (EntityOp.insertVertex ⟨2, 1, 0⟩ exampleLongProps).perform exampleUnspecified ⟨4, 0⟩ exampleInserted

/-- The row of vertex 1, with the properties `{"b": null}`. -/
def exampleRow : EntitySlot Vertex :=
  ⟨⟨0, 1⟩, 1, ⟨1, 1, 0⟩, ⟨[1, 0, 0, 0x20, 1, 0, 0, 0x80, 0, 0, 0, 0x40, 0x62]⟩⟩

/-- The version of vertex 1. -/
def exampleVersion : EntityTuple Vertex := newEntityTuple ⟨3, 0⟩ 1 .invalid ⟨1, 1, 0⟩ exampleProps

theorem freshVertexId_of_entries {lab : VertexLabel} (hlab : db.vlabels l = some lab)
    (h : ∀ a ∈ lab.vertexTbl.entries, entitySlot a.2.hdr.id ≠ entitySlot id) :
    FreshVertexId db.store l id := fun tid t ht => by
  rw [store_vtuple hlab] at ht
  exact h (tid, t) (Table.mem_entries.mpr ht)

theorem history_exampleTwoPages : History exampleUnspecified 3 exampleTwoPages := by
  have hfresh : FreshVertexId exampleInserted.store 1 2 :=
    freshVertexId_of_entries rfl (by decide)
  exact history_exampleInserted.op (o := .insertVertex ⟨2, 1, 0⟩ exampleLongProps)
    ⟨⟨by decide, by decide, by decide⟩, rfl⟩ hfresh

attribute [irreducible] exampleTwoPages

theorem vertexPtr_exampleTwoPages :
    exampleTwoPages.store.vertexPtr 1 (entitySlot 1) = some ⟨0, 1⟩ := by decide +kernel

theorem vtuple_exampleTwoPages :
    exampleTwoPages.store.vtuple (1, ⟨0, 1⟩) = some exampleVersion := by decide +kernel

theorem live_exampleTwoPages : npEntityTupleIsLive exampleTwoPages.xacts (Session.own ⟨4, 1⟩)
    exampleVersion.hdr.toRecordHeader = true := by decide +kernel

theorem returnsOk_exampleTwoPages :
    ReturnsOk (vertexTable 1 1) exampleTwoPages ⟨4, 1⟩ ⟨0, 1⟩ exampleRow.props := by
  obtain ⟨lab, hlab⟩ := exists_vlabel_of_vtuple vtuple_exampleTwoPages
  have hblocks : (exampleTwoPages.vlabels 1).map (fun lab => lab.vertexTbl.nblocks) = some 2 := by
    decide +kernel
  have htuple := vtuple_exampleTwoPages
  rw [store_vtuple hlab] at htuple
  rw [hlab] at hblocks
  have htbl : (vertexTable 1 1).table exampleTwoPages = some lab.vertexTbl :=
    congrArg (Option.map VertexLabel.vertexTbl) hlab
  refine ⟨lab.vertexTbl, exampleVersion, htbl, htuple, by decide +kernel, ?_, by decide⟩
  have h2 : lab.vertexTbl.nblocks = 2 := Option.some.inj hblocks
  rw [h2]
  decide

/-- Vertex 1 on the first of two pages. -/
theorem updatePathsAgree_iff_example :
    PathsAgree (vertexTable 1 1) exampleTwoPages ⟨4, 1⟩ ⟨0, 1⟩ exampleRow ↔
      (ReturnsOk (vertexTable 1 1) exampleTwoPages ⟨4, 1⟩ ⟨0, 1⟩ exampleRow.props →
        SlotReads (vertexTable 1 1) exampleTwoPages ⟨4, 1⟩ ⟨0, 1⟩ exampleRow.props) :=
  (updatePathsAgree_iff exampleUnspecified exampleTwoPages ⟨4, 1⟩ 1 1 (by decide) (by decide)).1
    exampleRow ⟨0, 1⟩ exampleVersion ⟨0, 1⟩ exampleVersion vertexPtr_exampleTwoPages
    vtuple_exampleTwoPages vtuple_exampleTwoPages live_exampleTwoPages

/-- The access method returns `TM_Ok` for the row of vertex 1, and the read in the same transaction
returns the empty object. -/
theorem updatePathsAgree_fails :
    History exampleUnspecified 3 exampleTwoPages ∧
      (∃ row db', (updateVertexTable ⟨4, 1⟩ 1 ⟨0, 1⟩ exampleRow).Runs exampleTwoPages
          (some (.ok, row)) db' ∧
        (npFetchVertexProperties [4] 1 1).Runs db' npEmptyGtypeObject db') ∧
      exampleRow.props ≠ npEmptyGtypeObject ∧
      ¬ PathsAgree (vertexTable 1 1) exampleTwoPages ⟨4, 1⟩ ⟨0, 1⟩ exampleRow := by
  have hacc := vertexTable_lawful (l := 1) (by decide) 1
  have hs : fullXidIsValid (Session.mk 4 1).fxid = true := by decide
  have hne : exampleRow.props ≠ npEmptyGtypeObject := by decide
  obtain ⟨row, db', hr⟩ := tableUpdate_of_returnsOk hacc vtuple_exampleTwoPages
    live_exampleTwoPages returnsOk_exampleTwoPages
  obtain ⟨-, -, hf⟩ :=
    fetch_of_tableUpdate hacc hs vertexPtr_exampleTwoPages vtuple_exampleTwoPages hr
  rw [if_neg (by simp)] at hf
  exact ⟨history_exampleTwoPages, ⟨row, db', hr, hf⟩, hne,
    fun h => hne ((h.table row db' hr).1.det hf).1⟩

end NeoPostGraph
