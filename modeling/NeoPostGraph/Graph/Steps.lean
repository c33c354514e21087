import NeoPostGraph.Graph.Label
import NeoPostGraph.Graph.Store

/-!
# What each step does to the store

One pair of lemmas for each atomic step of the DML functions: `f_inv` says what a successful step
found in the store and what it left there, `f_runs` when it succeeds. Every later proof uses these
and never looks at a page.
-/

namespace NeoPostGraph

open SlottedPage

variable {db db' : Db} {l : Nat} {o : Oid} {tid : ItemPointer}

theorem bind_ok {α β : Type} {x : Except Err α} {f : α → Except Err β} {b : β}
    (h : (x >>= f) = .ok b) : ∃ a, x = .ok a ∧ f a = .ok b := by
  cases x with
  | error e => cases h
  | ok a => exact ⟨a, rfl, h⟩

theorem npWriteRecordToPage_ok {α : Type} {t t' : Table α} {a : α} {len : Nat}
    (h : npWriteRecordToPage t a len = .ok (t', tid)) : t.write len a = some (t', tid) := by
  unfold npWriteRecordToPage at h
  cases hw : t.write len a with
  | none => simp [hw] at h
  | some x => simpa [hw] using h

theorem npWriteRecordToPage_of_fits {α : Type} (t : Table α) {len : Nat} (a : α) (h : Fits len) :
    ∃ t' tid, npWriteRecordToPage t a len = .ok (t', tid) := by
  obtain ⟨t', tid, hw⟩ := t.write_of_fits a h
  exact ⟨t', tid, by unfold npWriteRecordToPage; rw [hw]⟩

/-! ## Adjacency records -/

theorem getActiveLinkedListOid_iff :
    (getActiveLinkedListOid l).Runs db o db' ↔ db' = db ∧ ∃ info, db.store.vlabel l = some info ∧
      activeLinkedList info.linkedListMeta = some o ∧ oidIsValid o = true := by
  unfold getActiveLinkedListOid
  rw [runs_readVertexLabel]
  constructor
  · rintro ⟨lab, hlab, hf, rfl⟩
    refine ⟨rfl, lab.info, store_vlabel hlab, ?_⟩
    show activeLinkedList lab.linkedListMeta = some o ∧ _
    cases ha : activeLinkedList lab.linkedListMeta with
    | none => simp [ha] at hf
    | some o' =>
      rw [ha] at hf
      by_cases hv : oidIsValid o' = true
      · simp only [hv, if_true, Except.ok.injEq] at hf
        subst hf
        exact ⟨rfl, hv⟩
      · simp [hv] at hf
  · rintro ⟨rfl, info, hinfo, ha, hv⟩
    obtain ⟨lab, hlab⟩ := exists_vlabel (by rw [hinfo]; rfl)
    rw [store_vlabel hlab, Option.some.injEq] at hinfo
    subst hinfo
    refine ⟨lab, hlab, ?_, rfl⟩
    change activeLinkedList lab.linkedListMeta = some o at ha
    simp [ha, hv]

theorem readHead_iff {id : Nat} {p : Oid × ItemPointer} :
    (readHead l id).Runs db p db' ↔ db' = db ∧ (db.store.vlabel l).isSome ∧
      p = match db.store.vslot (l, headSlot id) with
        | none => (0, ItemPointer.invalid)
        | some rec => (rec.eTblId, rec.eItemptr) := by
  unfold readHead
  rw [runs_readVertexLabel]
  constructor
  · rintro ⟨lab, hlab, hf, rfl⟩
    obtain rfl := Except.ok.inj hf
    rw [store_vlabel hlab, store_vslot hlab]
    exact ⟨rfl, rfl, rfl⟩
  · rintro ⟨rfl, hs, rfl⟩
    obtain ⟨lab, hlab⟩ := exists_vlabel hs
    rw [store_vslot hlab]
    exact ⟨lab, hlab, rfl, rfl⟩

/-- The pointer a head read returns is the head of the chain. -/
theorem readHead_cursor {id : Nat} {tbl : Oid} (h : (readHead l id).Runs db (tbl, tid) db') :
    cursor tbl tid = db.store.head l id := by
  obtain ⟨-, -, hp⟩ := readHead_iff.mp h
  unfold Store.head
  cases hs : db.store.vslot (l, headSlot id) with
  | none =>
    rw [hs] at hp
    obtain ⟨rfl, rfl⟩ := Prod.mk.inj hp
    rfl
  | some rec =>
    rw [hs] at hp
    obtain ⟨rfl, rfl⟩ := Prod.mk.inj hp
    rfl

theorem insertLinkedListRecord_inv {rec : NeoLinkedListRecord}
    (h : (insertLinkedListRecord o rec).Runs db tid db') :
    db.store.format o = some .linkedList ∧ db.store.node (o, tid) = none ∧ tid.isValid = true ∧
      db'.store = db.store.putNode (o, tid) (.linked rec) := by
  obtain ⟨r, r', hr, hf, rfl⟩ := runs_onRel.mp h
  cases r with
  | arrayList t => cases hf
  | linkedList t =>
    obtain ⟨⟨t', tid'⟩, hw, hf⟩ := bind_ok hf
    obtain ⟨rfl, rfl⟩ := Prod.mk.inj (Except.ok.inj hf)
    have hw := npWriteRecordToPage_ok hw
    exact ⟨store_format hr, by rw [store_linked hr, Table.write_fresh hw]; rfl,
      Table.write_valid hw, store_writeLinked hr hw⟩

theorem insertLinkedListRecord_runs (h : db.store.format o = some .linkedList)
    (rec : NeoLinkedListRecord) : ∃ tid db', (insertLinkedListRecord o rec).Runs db tid db' := by
  obtain ⟨t, ht⟩ := exists_linkedList h
  obtain ⟨t', tid, hw⟩ := npWriteRecordToPage_of_fits t rec fits_linkedListRecord
  exact ⟨tid, onRel_runs ht (by simp only [hw]; rfl)⟩

theorem updatePrevPointer_inv {u : Unit} {tbl' : Oid} {tid' : ItemPointer}
    (h : (updatePrevPointer o tid tbl' tid').Runs db u db') :
    ∃ n, db.store.node (o, tid) = some n ∧
      db'.store = db.store.putNode (o, tid) (n.setPrev tbl' tid') := by
  obtain ⟨r, r', hr, hf, rfl⟩ := runs_onRel.mp h
  cases r with
  | linkedList t =>
    obtain ⟨rec, hi, hf⟩ := bind_ok hf
    obtain ⟨-, rfl⟩ := Prod.mk.inj (Except.ok.inj hf)
    have hget := readItem_ok hi
    exact ⟨.linked rec, by rw [store_linked hr, hget]; rfl, store_modifyLinked hr hget _⟩
  | arrayList t =>
    obtain ⟨rec, hi, hf⟩ := bind_ok hf
    obtain ⟨-, rfl⟩ := Prod.mk.inj (Except.ok.inj hf)
    have hget := readItem_ok hi
    exact ⟨.block rec, by rw [store_block hr, hget]; rfl, store_modifyBlock hr hget _⟩

theorem updatePrevPointer_runs {n : AdjNode} (h : db.store.node (o, tid) = some n) (tbl' : Oid)
    (tid' : ItemPointer) : ∃ db', (updatePrevPointer o tid tbl' tid').Runs db () db' := by
  cases n with
  | linked rec =>
    obtain ⟨t, ht, hget⟩ := rel_of_linked h
    exact onRel_runs ht (by simp only [readItem_of_get hget]; rfl)
  | block rec =>
    obtain ⟨t, ht, hget⟩ := rel_of_block h
    exact onRel_runs ht (by simp only [readItem_of_get hget]; rfl)

theorem writeHead_inv {u : Unit} {id : Nat} {tbl : Oid}
    (h : (writeHead l id tbl tid).Runs db u db') :
    ∃ rec, db.store.vslot (l, headSlot id) = some rec ∧
      db'.store = db.store.setHead (l, id) (tbl, tid) := by
  unfold writeHead at h
  obtain ⟨lab, lab', hlab, hf, rfl⟩ := runs_onVertexLabel.mp h
  split at hf
  · cases hf
  · next pmap hu =>
    simp only [Except.ok.injEq, Prod.mk.injEq] at hf
    obtain ⟨-, rfl⟩ := hf
    obtain ⟨rec, hget, rfl⟩ := updateVertexPhysMap_ok hu
    exact ⟨rec, by rw [store_vslot hlab, hget], store_modifySlot hlab (headSlot id) _ rfl⟩

theorem writeHead_runs {id : Nat} {rec : NeoPhysMapRecord}
    (h : db.store.vslot (l, headSlot id) = some rec) (tbl : Oid) (tid : ItemPointer) :
    ∃ db', (writeHead l id tbl tid).Runs db () db' := by
  obtain ⟨lab, hlab⟩ := exists_vlabel_of_vslot h
  rw [store_vslot hlab] at h
  have hu := updateVertexPhysMap_of_get h tbl tid
  let lab' : VertexLabel := { lab with
    physMap := ⟨_, fixedTable_updateVertexPhysMap lab.physMap.fixed hu⟩ }
  refine ⟨db.setVertexLabel l lab', runs_onVertexLabel.mpr ⟨lab, lab', hlab, ?_, rfl⟩⟩
  split
  · next e he =>
    rw [hu] at he
    cases he
  · next pmap he =>
    obtain rfl := Except.ok.inj (hu.symm.trans he)
    rfl

/-! ## Tuples -/

theorem writeVertexTuple_inv {tuple : EntityTuple Vertex}
    (h : (writeVertexTuple l tuple).Runs db tid db') :
    (db.store.vlabel l).isSome ∧ Fits (totalTupleSize sizeOfVertex tuple.props) ∧
      db.store.vtuple (l, tid) = none ∧ tid.isValid = true ∧
      (∀ tid' t, db.store.vtuple (l, tid') = some t → tid'.Before tid) ∧
      db'.store = { db.store with
        vtuple := Function.update db.store.vtuple (l, tid) (some tuple) } := by
  obtain ⟨lab, lab', hlab, hf, rfl⟩ := runs_onVertexLabel.mp h
  obtain ⟨⟨t', tid'⟩, hw, hf⟩ := bind_ok hf
  obtain ⟨rfl, rfl⟩ := Prod.mk.inj (Except.ok.inj hf)
  have hw := npWriteRecordToPage_ok hw
  refine ⟨by rw [store_vlabel hlab]; rfl, ?_, by rw [store_vtuple hlab, Table.write_fresh hw],
    Table.write_valid hw, fun tid' t ht => ?_, store_setVertexTbl hlab (Table.get_write hw)⟩
  · exact (Table.write_isSome lab.vertexTbl _ tuple).mp (by rw [hw]; rfl)
  · rw [store_vtuple hlab] at ht
    exact Table.before_write hw ht

theorem writeVertexTuple_runs {tuple : EntityTuple Vertex} (h : (db.store.vlabel l).isSome)
    (hfits : Fits (totalTupleSize sizeOfVertex tuple.props)) :
    ∃ tid db', (writeVertexTuple l tuple).Runs db tid db' := by
  obtain ⟨lab, hlab⟩ := exists_vlabel h
  obtain ⟨t', tid, hw⟩ := npWriteRecordToPage_of_fits lab.vertexTbl tuple hfits
  exact ⟨tid, onVertexLabel_runs hlab (by simp only [hw]; rfl)⟩

theorem writeEdgeTuple_inv {e : Err} {tuple : EntityTuple Edge}
    (h : (writeEdgeTuple l e tuple).Runs db tid db') :
    db.store.elabel l = true ∧ Fits (totalTupleSize sizeOfEdge tuple.props) ∧
      db.store.etuple (l, tid) = none ∧ tid.isValid = true ∧
      (∀ tid' t, db.store.etuple (l, tid') = some t → tid'.Before tid) ∧
      db'.store = { db.store with
        etuple := Function.update db.store.etuple (l, tid) (some tuple) } := by
  obtain ⟨lab, lab', hlab, hf, rfl⟩ := runs_onEdgeLabel.mp h
  obtain ⟨⟨t', tid'⟩, hw, hf⟩ := bind_ok hf
  obtain ⟨rfl, rfl⟩ := Prod.mk.inj (Except.ok.inj hf)
  have hw := npWriteRecordToPage_ok hw
  refine ⟨store_elabel hlab, ?_, by rw [store_etuple hlab, Table.write_fresh hw],
    Table.write_valid hw, fun tid' t ht => ?_, store_setEdgeTbl hlab (Table.get_write hw)⟩
  · exact (Table.write_isSome lab.vertexTbl _ tuple).mp (by rw [hw]; rfl)
  · rw [store_etuple hlab] at ht
    exact Table.before_write hw ht

theorem writeEdgeTuple_runs {e : Err} {tuple : EntityTuple Edge} (h : db.store.elabel l = true)
    (hfits : Fits (totalTupleSize sizeOfEdge tuple.props)) :
    ∃ tid db', (writeEdgeTuple l e tuple).Runs db tid db' := by
  obtain ⟨lab, hlab⟩ := exists_elabel h
  obtain ⟨t', tid, hw⟩ := npWriteRecordToPage_of_fits lab.vertexTbl tuple hfits
  exact ⟨tid, onEdgeLabel_runs hlab (by simp only [hw]; rfl)⟩

/-! ## Slots -/

/-- What placing a record does to a map: the slot reads the record if its offset is within the
page's capacity; every other slot keeps what it holds, or was empty and is padded. -/
structure Placed {α : Type} (slot slot' : Nat × ItemPointer → Option α) (l : Nat)
    (tid : ItemPointer) (capacity : Nat) (pad rec : α) : Prop where
  self : slot' (l, tid) = if tid.offset ≤ capacity then some rec else none
  other : ∀ k, k ≠ (l, tid) → slot' k = slot k ∨ slot k = none ∧ slot' k = some pad

theorem Placed.old {α : Type} {slot slot' : Nat × ItemPointer → Option α} {capacity : Nat}
    {pad rec x : α} (h : Placed slot slot' l tid capacity pad rec) {k : Nat × ItemPointer}
    (hk : k ≠ (l, tid)) (hx : slot k = some x) : slot' k = some x := by
  rcases h.other k hk with he | ⟨hn, -⟩
  · rw [he, hx]
  · rw [hn] at hx
    cases hx

theorem placeVertexSlot_inv {u : Unit} {id : Nat} {rec : NeoPhysMapRecord}
    (h : (placeVertexSlot l id rec).Runs db u db') :
    (db.store.vlabel l).isSome ∧ Placed db.store.vslot db'.store.vslot l (entitySlot id)
      (pageCapacity sizeOfNeoPhysMapRecord) emptyPad rec ∧
      db'.store = { db.store with vslot := db'.store.vslot } := by
  obtain ⟨lab, lab', hlab, hf, rfl⟩ := runs_onVertexLabel.mp h
  obtain ⟨-, rfl⟩ := Prod.mk.inj (Except.ok.inj hf)
  have h1 : 1 ≤ (entitySlot id).offset := one_le_npIdToTid id (by decide) (by decide)
  rw [store_setPhysMap hlab]
  refine ⟨by rw [store_vlabel hlab]; rfl, ⟨?_, fun k hk => ?_⟩, rfl⟩
  · simp only [if_true]
    exact get_extendAndPlace lab.physMap.fixed emptyPad h1 rec
  · obtain ⟨l', tid'⟩ := k
    by_cases hl : l' = l
    · subst hl
      have hne : tid' ≠ entitySlot id := fun he => hk (by rw [he])
      simp only [if_true, store_vslot hlab]
      exact get_extendAndPlace_other lab.physMap.fixed emptyPad h1 hne rec
    · simp [hl]

theorem placeVertexSlot_runs (h : (db.store.vlabel l).isSome) (id : Nat) (rec : NeoPhysMapRecord) :
    ∃ db', (placeVertexSlot l id rec).Runs db () db' := by
  obtain ⟨lab, hlab⟩ := exists_vlabel h
  exact onVertexLabel_runs hlab rfl

theorem setEdgeSlot_inv {u : Unit} {id : Nat} {e : Err} {rec : NeoEdgePhysMapRecord}
    (h : (setEdgeSlot l id e rec).Runs db u db') :
    db.store.elabel l = true ∧ Placed db.store.eslot db'.store.eslot l (edgeSlot id)
      (pageCapacity sizeOfNeoEdgePhysMapRecord) emptyEdgePad rec ∧
      db'.store = { db.store with eslot := db'.store.eslot } := by
  obtain ⟨lab, lab', hlab, hf, rfl⟩ := runs_onEdgeLabel.mp h
  obtain ⟨-, rfl⟩ := Prod.mk.inj (Except.ok.inj hf)
  have h1 : 1 ≤ (edgeSlot id).offset := one_le_npIdToTid id (by decide) (by decide)
  rw [store_setEdgePhysMap hlab]
  refine ⟨store_elabel hlab, ⟨?_, fun k hk => ?_⟩, rfl⟩
  · simp only [if_true]
    exact get_extendAndPlace lab.physMap.fixed emptyEdgePad h1 rec
  · obtain ⟨l', tid'⟩ := k
    by_cases hl : l' = l
    · subst hl
      have hne : tid' ≠ edgeSlot id := fun he => hk (by rw [he])
      simp only [if_true, store_eslot hlab]
      exact get_extendAndPlace_other lab.physMap.fixed emptyEdgePad h1 hne rec
    · simp [hl]

theorem setEdgeSlot_runs (h : db.store.elabel l = true) (id : Nat) (e : Err)
    (rec : NeoEdgePhysMapRecord) : ∃ db', (setEdgeSlot l id e rec).Runs db () db' := by
  obtain ⟨lab, hlab⟩ := exists_elabel h
  exact onEdgeLabel_runs hlab rfl

/-- A slot the two computations agree on is within the capacity of its page. -/
theorem offset_le_of_agree {id : Nat} (h : headSlot id = entitySlot id) :
    (entitySlot id).offset ≤ pageCapacity sizeOfNeoPhysMapRecord := by
  rw [← h, pageCapacity_vertex]
  unfold headSlot
  rw [npCalculateTuplesPerPage_vertex, npIdToTid_offset id (by decide) (by decide)]
  omega

/-! ## Checked reads and stamps -/

theorem readSlot_iff {α : Type} {pmap : Table α} {a : α} :
    readSlot pmap tid = .ok a ↔ pmap.get tid = some a := by
  unfold readSlot
  constructor
  · intro h
    split at h
    · cases h
    · cases hg : pmap.get tid with
      | none => simp [hg] at h
      | some b => simpa [hg] using h
  · intro h
    rw [if_neg (Nat.not_le.mpr (nblocks_of_get h)), h]

/-- A tuple the session may supersede: live to it, and not being deleted by another. -/
def Updatable {μ : Type} (x : XactState) (own : List Nat) (t : EntityTuple μ) : Prop :=
  npEntityTupleIsLive x own t.hdr.toRecordHeader = true ∧
    npEntityTupleXmaxOther x own t.hdr.toRecordHeader = false

instance {μ : Type} (x : XactState) (own : List Nat) (t : EntityTuple μ) :
    Decidable (Updatable x own t) := inferInstanceAs (Decidable (_ ∧ _))

theorem checkTuple_iff {μ : Type} {x : XactState} {own : List Nat} {t : Table (EntityTuple μ)}
    {corrupted updated : Err} {tuple : EntityTuple μ} :
    checkTuple x own t tid corrupted updated = .ok tuple ↔
      t.get tid = some tuple ∧ Updatable x own tuple := by
  unfold checkTuple
  constructor
  · intro h
    obtain ⟨a, ha, h⟩ := bind_ok h
    split at h
    · cases h
    · next hc =>
      obtain rfl := Except.ok.inj h
      simp only [Bool.or_eq_true, Bool.not_eq_true', not_or, Bool.not_eq_false,
        Bool.not_eq_true] at hc
      exact ⟨readItem_ok ha, hc⟩
  · rintro ⟨hg, hlive, hother⟩
    rw [readItem_of_get hg]
    show (if _ then _ else _) = _
    rw [hlive, hother]
    rfl

theorem readVertexSlot_iff {e : Err} {rec : NeoPhysMapRecord} :
    (readVertexLabel l e fun _ lab => readSlot lab.physMap.table tid).Runs db rec db' ↔
      db' = db ∧ db.store.vslot (l, tid) = some rec := by
  rw [runs_readVertexLabel]
  constructor
  · rintro ⟨lab, hlab, hf, rfl⟩
    exact ⟨rfl, by rw [store_vslot hlab]; exact readSlot_iff.mp hf⟩
  · rintro ⟨rfl, hs⟩
    obtain ⟨lab, hlab⟩ := exists_vlabel_of_vslot hs
    exact ⟨lab, hlab, readSlot_iff.mpr (by rw [← store_vslot hlab]; exact hs), rfl⟩

theorem readEdgeSlot_iff {e : Err} {rec : NeoEdgePhysMapRecord} :
    (readEdgeLabel l e fun _ lab => readSlot lab.physMap.table tid).Runs db rec db' ↔
      db' = db ∧ db.store.eslot (l, tid) = some rec := by
  rw [runs_readEdgeLabel]
  constructor
  · rintro ⟨lab, hlab, hf, rfl⟩
    exact ⟨rfl, by rw [store_eslot hlab]; exact readSlot_iff.mp hf⟩
  · rintro ⟨rfl, hs⟩
    obtain ⟨lab, hlab⟩ := exists_elabel_of_eslot hs
    exact ⟨lab, hlab, readSlot_iff.mpr (by rw [← store_eslot hlab]; exact hs), rfl⟩

theorem store_xacts : db.store.xacts = db.xacts := rfl

theorem readVertexTuple_iff {e corrupted updated : Err} {own : List Nat} {t : EntityTuple Vertex} :
    (readVertexLabel l e fun x lab => checkTuple x own lab.vertexTbl tid corrupted updated).Runs
        db t db' ↔
      db' = db ∧ db.store.vtuple (l, tid) = some t ∧ Updatable db.store.xacts own t := by
  rw [runs_readVertexLabel]
  constructor
  · rintro ⟨lab, hlab, hf, rfl⟩
    obtain ⟨hget, hup⟩ := checkTuple_iff.mp hf
    exact ⟨rfl, by rw [store_vtuple hlab, hget], hup⟩
  · rintro ⟨rfl, ht, hup⟩
    obtain ⟨lab, hlab⟩ := exists_vlabel_of_vtuple ht
    exact ⟨lab, hlab, checkTuple_iff.mpr ⟨by rw [← store_vtuple hlab]; exact ht, hup⟩, rfl⟩

theorem readEdgeTuple_iff {e corrupted updated : Err} {own : List Nat} {t : EntityTuple Edge} :
    (readEdgeLabel l e fun x lab => checkTuple x own lab.vertexTbl tid corrupted updated).Runs
        db t db' ↔
      db' = db ∧ db.store.etuple (l, tid) = some t ∧ Updatable db.store.xacts own t := by
  rw [runs_readEdgeLabel]
  constructor
  · rintro ⟨lab, hlab, hf, rfl⟩
    obtain ⟨hget, hup⟩ := checkTuple_iff.mp hf
    exact ⟨rfl, by rw [store_etuple hlab, hget], hup⟩
  · rintro ⟨rfl, ht, hup⟩
    obtain ⟨lab, hlab⟩ := exists_elabel_of_etuple ht
    exact ⟨lab, hlab, checkTuple_iff.mpr ⟨by rw [← store_etuple hlab]; exact ht, hup⟩, rfl⟩

theorem tombstoneEdge_inv {s : Session} {edgeId : Nat} {e : Edge}
    (h : (tombstoneEdge s l edgeId tid).Runs db e db') :
    ∃ t, db.store.etuple (l, tid) = some t ∧ Updatable db.store.xacts s.own t ∧ e = t.entity ∧
      db'.store = { db.store with
        etuple := Function.update db.store.etuple (l, tid) (some (stampTuple s t)) } := by
  obtain ⟨lab, lab', hlab, hf, rfl⟩ := runs_onEdgeLabel.mp h
  obtain ⟨t, ht, hf⟩ := bind_ok hf
  obtain ⟨rfl, rfl⟩ := Prod.mk.inj (Except.ok.inj hf)
  obtain ⟨hget, hup⟩ := checkTuple_iff.mp ht
  exact ⟨t, by rw [store_etuple hlab, hget], hup, rfl, store_modifyEdgeTbl hlab hget _⟩

theorem tombstoneEdge_runs {s : Session} {t : EntityTuple Edge}
    (h : db.store.etuple (l, tid) = some t) (hup : Updatable db.store.xacts s.own t)
    (edgeId : Nat) : ∃ db', (tombstoneEdge s l edgeId tid).Runs db t.entity db' := by
  obtain ⟨lab, hlab⟩ := exists_elabel_of_etuple h
  rw [store_etuple hlab] at h
  rw [store_xacts] at hup
  exact onEdgeLabel_runs hlab (by
    rw [checkTuple_iff.mpr ⟨h, hup⟩]
    rfl)

theorem tombstoneVertex_inv {s : Session} {vertexId : Nat} {u : Unit}
    (h : (tombstoneVertex s l vertexId tid).Runs db u db') :
    ∃ t, db.store.vtuple (l, tid) = some t ∧ Updatable db.store.xacts s.own t ∧
      db'.store = { db.store with
        vtuple := Function.update db.store.vtuple (l, tid) (some (stampTuple s t)) } := by
  obtain ⟨lab, lab', hlab, hf, rfl⟩ := runs_onVertexLabel.mp h
  obtain ⟨t, ht, hf⟩ := bind_ok hf
  obtain ⟨-, rfl⟩ := Prod.mk.inj (Except.ok.inj hf)
  obtain ⟨hget, hup⟩ := checkTuple_iff.mp ht
  exact ⟨t, by rw [store_vtuple hlab, hget], hup, store_modifyVertexTbl hlab hget _⟩

theorem tombstoneVertex_runs {s : Session} {t : EntityTuple Vertex}
    (h : db.store.vtuple (l, tid) = some t) (hup : Updatable db.store.xacts s.own t)
    (vertexId : Nat) : ∃ db', (tombstoneVertex s l vertexId tid).Runs db () db' := by
  obtain ⟨lab, hlab⟩ := exists_vlabel_of_vtuple h
  rw [store_vtuple hlab] at h
  rw [store_xacts] at hup
  exact onVertexLabel_runs hlab (by
    rw [checkTuple_iff.mpr ⟨h, hup⟩]
    rfl)

theorem stampVertexTuple_inv {s : Session} {u : Unit} {t : EntityTuple Vertex}
    (ht : db.store.vtuple (l, tid) = some t) (h : (stampVertexTuple s l tid).Runs db u db') :
    db'.store = { db.store with
      vtuple := Function.update db.store.vtuple (l, tid) (some (stampTuple s t)) } := by
  obtain ⟨lab, lab', hlab, hf, rfl⟩ := runs_onVertexLabel.mp h
  obtain ⟨t', hi, hf⟩ := bind_ok hf
  obtain ⟨-, rfl⟩ := Prod.mk.inj (Except.ok.inj hf)
  rw [store_vtuple hlab] at ht
  exact store_modifyVertexTbl hlab ht _

theorem stampVertexTuple_runs {t : EntityTuple Vertex} (ht : db.store.vtuple (l, tid) = some t)
    (s : Session) : ∃ db', (stampVertexTuple s l tid).Runs db () db' := by
  obtain ⟨lab, hlab⟩ := exists_vlabel_of_vtuple ht
  rw [store_vtuple hlab] at ht
  exact onVertexLabel_runs hlab (by simp only [readItem_of_get ht]; rfl)

theorem stampEdgeTuple_inv {s : Session} {u : Unit} {t : EntityTuple Edge}
    (ht : db.store.etuple (l, tid) = some t) (h : (stampEdgeTuple s l tid).Runs db u db') :
    db'.store = { db.store with
      etuple := Function.update db.store.etuple (l, tid) (some (stampTuple s t)) } := by
  obtain ⟨lab, lab', hlab, hf, rfl⟩ := runs_onEdgeLabel.mp h
  obtain ⟨t', hi, hf⟩ := bind_ok hf
  obtain ⟨-, rfl⟩ := Prod.mk.inj (Except.ok.inj hf)
  rw [store_etuple hlab] at ht
  exact store_modifyEdgeTbl hlab ht _

theorem stampEdgeTuple_runs {t : EntityTuple Edge} (ht : db.store.etuple (l, tid) = some t)
    (s : Session) : ∃ db', (stampEdgeTuple s l tid).Runs db () db' := by
  obtain ⟨lab, hlab⟩ := exists_elabel_of_etuple ht
  rw [store_etuple hlab] at ht
  exact onEdgeLabel_runs hlab (by simp only [readItem_of_get ht]; rfl)

theorem npOverwritePhysmapInPage_inv {u : Unit} {newData : NeoPhysMapRecord}
    (h : (npOverwritePhysmapInPage l tid newData).Runs db u db') :
    db'.store = { db.store with
      vslot := Function.update db.store.vslot (l, tid) (some newData) } := by
  obtain ⟨lab, lab', hlab, hf, rfl⟩ := runs_onVertexLabel.mp h
  obtain ⟨rec, hi, hf⟩ := bind_ok hf
  obtain ⟨-, rfl⟩ := Prod.mk.inj (Except.ok.inj hf)
  rw [store_modifySlot hlab tid (fun _ => newData) rfl, store_vslot hlab, readItem_ok hi]
  rfl

theorem npOverwritePhysmapInPage_runs {rec : NeoPhysMapRecord}
    (h : db.store.vslot (l, tid) = some rec) (newData : NeoPhysMapRecord) :
    ∃ db', (npOverwritePhysmapInPage l tid newData).Runs db () db' := by
  obtain ⟨lab, hlab⟩ := exists_vlabel_of_vslot h
  rw [store_vslot hlab] at h
  exact onVertexLabel_runs hlab (by simp only [readItem_of_get h]; rfl)

/-! ## Slots within a page -/

theorem vslot_offset_le {rec : NeoPhysMapRecord} (h : db.store.vslot (l, tid) = some rec) :
    tid.offset ≤ pageCapacity sizeOfNeoPhysMapRecord := by
  obtain ⟨lab, hlab⟩ := exists_vlabel_of_vslot h
  rw [store_vslot hlab] at h
  exact fixedTable_offset_le lab.physMap.fixed h

theorem eslot_offset_le {rec : NeoEdgePhysMapRecord} (h : db.store.eslot (l, tid) = some rec) :
    tid.offset ≤ pageCapacity sizeOfNeoEdgePhysMapRecord := by
  obtain ⟨lab, hlab⟩ := exists_elabel_of_eslot h
  rw [store_eslot hlab] at h
  exact fixedTable_offset_le lab.physMap.fixed h

end NeoPostGraph
