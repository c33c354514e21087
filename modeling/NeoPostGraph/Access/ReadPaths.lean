import NeoPostGraph.Access.CatalogReads
import NeoPostGraph.Graph.Savepoint

/-!
# Do the read paths of a catalog agree

A scan with an MVCC snapshot returns an item that was deleted after the snapshot was taken. So do the
fetch without an index and the bitmap scan. The index fetch looks at the current state first.

* `ReadPathsAgree`: the four paths return the same for a tid.
* `DeletedSince`: the item is there for the snapshot, and has been deleted since.

Result: `readPathsAgree_iff`, the paths agree on a tid exactly when its item has not been deleted
since the snapshot.
-/

namespace NeoPostGraph

open SlottedPage

/-- **The read paths agree on a tid**: the fetches with and without an index, and a bitmap scan over
any bitmap of the table that covers the tid, return what the sequential scan returns for it. -/
structure ReadPathsAgree (r : CatalogReader) (t : Table CatalogItem) (tid : ItemPointer) : Prop where
  index : (npCatalogIndexFetchTuple r t tid).map IndexFetch.slot =
    .ok (slotAt (npCatalogSeqScan r t) tid)
  rowVersion : npCatalogFetchRowVersion r t tid = .ok (slotAt (npCatalogSeqScan r t) tid)
  bitmap : ∀ bitmap : List TBMIterateResult, (∀ res ∈ bitmap, res.blockno < t.nblocks) →
    (∃ res ∈ bitmap, res.Covers tid) → ∃ out, npCatalogBitmapScan r t bitmap = .ok out ∧
      slotAt out tid = slotAt (npCatalogSeqScan r t) tid

/-- The record is there for the snapshot: written by the reader before the command of the snapshot, or
by a transaction that has committed and was not running. -/
def CreatedFor (x : XactState) (own : List Nat) (hdr : RecordHeader) (snapshot : Snapshot) : Prop :=
  let xmin := xidFromFull hdr.xmin
  fullXidIsValid hdr.xmin = true ∧
    if transactionIdIsCurrent own xmin then hdr.cmin < snapshot.curcid
    else xidInMVCCSnapshot xmin snapshot = false ∧ transactionIdDidCommit x xmin = true

/-- The record has been deleted since the snapshot was taken: by the reader, in the command of the
snapshot or a later one, or by a transaction that was running then and has committed. -/
def DeletedSince (x : XactState) (own : List Nat) (hdr : RecordHeader) (snapshot : Snapshot) : Prop :=
  let xmax := xidFromFull hdr.xmax
  CreatedFor x own hdr snapshot ∧ fullXidIsValid hdr.xmax = true ∧
    if transactionIdIsCurrent own xmax then snapshot.curcid ≤ hdr.cmax
    else transactionIdIsCurrent own (xidFromFull hdr.xmin) = false ∧
      xidInMVCCSnapshot xmax snapshot = true ∧ transactionIdDidCommit x xmax = true

section

variable {r : CatalogReader} {t : Table CatalogItem} {tid : ItemPointer}

/-- The paths agree unless the reader sees an item that is not live now. -/
theorem readPathsAgree_iff_live {lp : Nat × CatalogItem} (h : t.lp tid = some lp) :
    ReadPathsAgree r t tid ↔
      (r.sees lp = true → npEntityTupleIsLive r.xacts r.own lp.2.toRecordHeader = true) := by
  have htid : tid.block < t.nblocks := by
    obtain ⟨page, hp, -⟩ := Option.bind_eq_some_iff.mp h
    exact (List.getElem?_eq_some_iff.mp hp).1
  have hindex := indexFetchTuple_slot (r := r) htid
  rw [h, Option.any_some] at hindex
  have hslot : r.slot t tid = if r.sees lp then some ⟨tid, lp.2.heapTuple⟩ else none := by
    unfold CatalogReader.slot
    rw [h]
    cases hs : r.sees lp <;> simp [Option.filter, hs]
  constructor
  · rintro ⟨hi, -, -⟩ hs
    rw [hindex, slotAt_seqScan, hslot, if_pos hs] at hi
    by_contra hl
    rw [if_neg hl] at hi
    cases hi
  · intro hl
    refine ⟨?_, ?_, fun bitmap hb hc => ⟨_, bitmapScan_eq hb, ?_⟩⟩
    · rw [hindex, slotAt_seqScan, hslot]
      cases hs : r.sees lp with
      | false => simp
      | true => rw [if_pos (hl hs)]
    · rw [fetchRowVersion_eq htid, slotAt_seqScan]
    · rw [slotAt_bitmap hb hc, slotAt_seqScan]

/-- **An item the snapshot sees is not live now exactly when it has been deleted since.** -/
theorem visible_not_live_iff {x : XactState} {own : List Nat} {hdr : RecordHeader}
    {snapshot : Snapshot} : (catalogMvccVisible x own hdr snapshot = true ∧
      npEntityTupleIsLive x own hdr = false) ↔ DeletedSince x own hdr snapshot := by
  unfold catalogMvccVisible npEntityTupleIsLive DeletedSince CreatedFor
  dsimp only
  have hprog : ∀ xid, transactionIdDidCommit x xid = true → transactionIdIsInProgress x xid = false :=
    fun xid hc => by
      unfold transactionIdDidCommit at hc
      unfold transactionIdIsInProgress
      rw [of_decide_eq_true hc]
      rfl
  cases fullXidIsValid hdr.xmin with
  | false => simp
  | true =>
    by_cases hmin : transactionIdIsCurrent own (xidFromFull hdr.xmin) = true
    · -- the reader's own item is live until the reader deletes it
      by_cases hcid : snapshot.curcid ≤ hdr.cmin
      · simp [hmin, hcid]
      · have hlt := Nat.not_le.mp hcid
        cases fullXidIsValid hdr.xmax <;>
          cases transactionIdIsCurrent own (xidFromFull hdr.xmax) <;> simp [hmin, hcid, hlt]
    · cases hin : xidInMVCCSnapshot (xidFromFull hdr.xmin) snapshot with
      | true => simp [hmin]
      | false =>
        cases hc : transactionIdDidCommit x (xidFromFull hdr.xmin) with
        | false => simp [hmin]
        | true =>
          cases fullXidIsValid hdr.xmax with
          | false => simp [hmin, hprog _ hc]
          | true =>
            by_cases hmax : transactionIdIsCurrent own (xidFromFull hdr.xmax) = true
            · simp [hmin, hmax, hprog _ hc]
            · cases hin' : xidInMVCCSnapshot (xidFromFull hdr.xmax) snapshot with
              | false =>
                simp only [hmin, hmax, hprog _ hc]
                cases transactionIdIsInProgress x (xidFromFull hdr.xmax) <;>
                  cases transactionIdDidCommit x (xidFromFull hdr.xmax) <;> simp
              | true =>
                cases hc' : transactionIdDidCommit x (xidFromFull hdr.xmax) with
                | false => simp [hmin, hmax, hprog _ hc]
                | true => simp [hmin, hmax, hprog _ hc, hprog _ hc']

/-- **The read paths agree on a tid exactly when its item has not been deleted since the snapshot was
taken.** -/
theorem readPathsAgree_iff {x : XactState} {own : List Nat} {snapshot : Snapshot}
    {lp : Nat × CatalogItem} (h : t.lp tid = some lp) :
    ReadPathsAgree ⟨x, own, some (.mvcc, snapshot)⟩ t tid ↔
      (npCatalogItemIsFetchable lp = true → ¬ DeletedSince x own lp.2.toRecordHeader snapshot) := by
  rw [readPathsAgree_iff_live h, ← visible_not_live_iff]
  unfold CatalogReader.sees npCatalogTupleVisible
  dsimp only
  cases npCatalogItemIsFetchable lp <;>
    cases catalogMvccVisible x own lp.2.toRecordHeader snapshot <;> simp

end

/-! ## A deleted row and an old snapshot -/

/-- Transaction 5 has written an item and committed, and transaction 6 has begun. -/
def exampleWritten : Instance :=
  let i : Instance := ⟨Db.empty ⟨5, fun _ => .aborted⟩, fun _ => none⟩
  let i := { i with catalogs := Function.update i.catalogs 1 (some Table.empty) }
  let i := { i with db := i.db.begin }
  let i := ((Command.op (.catalogInsert 1 (List.replicate 23 0))).run exampleUnspecified 5 (0, i)).2
  let i := { i with db := i.db.commit 5 }
  { i with db := i.db.begin }

/-- Transaction 6 has deleted the item and committed. -/
def exampleDeleted : Instance :=
  let i := ((Command.op (.catalogDelete 1 ⟨0, 1⟩)).run exampleUnspecified 6 (0, exampleWritten)).2
  { i with db := i.db.commit 6 }

theorem exampleWritten_history : XactHistory exampleUnspecified 5 exampleWritten :=
  .begin (.commit (.command (.begin (.catalog (.empty _ (by decide) (by decide)) 1) (by decide))
    ⟨⟨by decide, by decide, by decide⟩, rfl⟩ 0 _) ⟨⟨by decide, by decide, by decide⟩, rfl⟩) (by decide)

theorem exampleDeleted_history : XactHistory exampleUnspecified 5 exampleDeleted :=
  .commit (.command exampleWritten_history ⟨⟨by decide, by decide, by decide⟩, rfl⟩ 0 _)
    ⟨⟨by decide, by decide, by decide⟩, rfl⟩

/-- The catalog of the example. -/
def exampleCatalog : Table CatalogItem :=
  ⟨[⟨[some (55, ⟨⟨5, 6, 0, 0⟩, .invalid, 0, List.replicate 23 0⟩)]⟩]⟩

theorem exampleDeleted_catalog : exampleDeleted.catalogs 1 = some exampleCatalog := rfl

/-- A snapshot taken before the deletion committed, by a session that has written nothing. -/
def exampleOldSnapshot : FullSnapshot := ⟨6, 7, [6], 0⟩

theorem exampleOldSnapshot_consistent : Consistent exampleWritten.db.xacts [] exampleOldSnapshot where
  next_lt := by decide
  xmin_normal := by decide
  xmax_normal := by decide
  xmin_le := by decide
  xmax_le := by decide
  window := by decide
  xip_mem := by decide
  own_mem := nofun
  finished := by
    intro y ⟨hlt, hnormal⟩ hrun _
    have h6 : y ≠ 6 := fun h => hrun (by rw [h]; decide)
    have hlt : y < 7 := hlt
    by_cases h5 : y = 5
    · rw [h5]
      decide
    · show Function.update (Function.update (Function.update _ 5 _) 5 _) 6 _ y ≠ _
      rw [Function.update_of_ne h6, Function.update_of_ne h5, Function.update_of_ne h5]
      exact XidStatus.noConfusion

/-- The item deleted since, read with the snapshot. -/
theorem readPathsAgree_iff_example :
    ReadPathsAgree ⟨exampleDeleted.db.xacts, [], some (.mvcc, exampleOldSnapshot.data)⟩
      exampleCatalog ⟨0, 1⟩ ↔
      (npCatalogItemIsFetchable (55, ⟨⟨5, 6, 0, 0⟩, .invalid, 0, List.replicate 23 0⟩) = true →
        ¬ DeletedSince exampleDeleted.db.xacts [] ⟨5, 6, 0, 0⟩ exampleOldSnapshot.data) := by
  have hlp : exampleCatalog.lp ⟨0, 1⟩ =
    some (55, ⟨⟨5, 6, 0, 0⟩, .invalid, 0, List.replicate 23 0⟩) := rfl
  exact readPathsAgree_iff hlp

/-- A reachable catalog whose item the sequential scan returns and the index fetch does not. -/
theorem readPathsAgree_fails :
    XactHistory exampleUnspecified 5 exampleDeleted ∧
      Consistent exampleWritten.db.xacts [] exampleOldSnapshot ∧
      exampleDeleted.catalogs 1 = some exampleCatalog ∧
      ¬ ReadPathsAgree ⟨exampleDeleted.db.xacts, [], some (.mvcc, exampleOldSnapshot.data)⟩
        exampleCatalog ⟨0, 1⟩ := by
  refine ⟨exampleDeleted_history, exampleOldSnapshot_consistent, exampleDeleted_catalog, fun h => ?_⟩
  have hindex : (Except.ok none : Except Err (Option TupleTableSlot)) =
    .ok (some ⟨⟨0, 1⟩, List.replicate 23 0⟩) := h.index
  cases hindex

end NeoPostGraph
