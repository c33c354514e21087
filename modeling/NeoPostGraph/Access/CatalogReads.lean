import NeoPostGraph.Access.CatalogHeap
import NeoPostGraph.Lib.PageScan
import Mathlib.Algebra.Order.BigOperators.Group.List

/-!
# Reading a catalog

The read paths of `np_catalog_heap.c`: the sequential scan, a fetch by tid with an index or without,
and the bitmap scan. Each looks at an item under the lock of its page, and each asks
`np_catalog_tuple_visible`; the index fetch asks first whether the item is live now.

A slot gets the tid and the heap tuple. `HeapKeyTest` of the keys of a scan is a test `key` on the
bytes of the heap tuple, which is always true where a scan has no keys.

* `npCatalogScanGetnextslot`, `npCatalogSeqScan`: one call of a scan, and all calls of it.
* `npCatalogIndexFetchTuple`, `npCatalogFetchRowVersion`, `npCatalogBitmapScan`.
* `CatalogReader.slot`: what there is at a tid for a reader.

Results:
* `slotAt_seqScan`, `nodup_seqScan`: a sequential scan returns it for each tid, and no slot twice.
* `rescan_returns`: so does a scan that is started again, as far as its keys go.
* `fetchRowVersion_eq`, `slotAt_bitmap`: so do a fetch without an index and a bitmap scan.
* `indexFetchTuple_slot`: a fetch by an index does so for an item that is live now.
-/

namespace NeoPostGraph

open SlottedPage

/-! ## Slots -/

/-- `np_catalog_item_is_fetchable` (`np_catalog_heap.c:163-175`), behind the offset check: the stored
length is that of an item. -/
def npCatalogItemIsFetchable (lp : Nat × CatalogItem) : Bool :=
  decide (sizeOfNPCatalogItemHeader + sizeofHeapTupleHeader ≤ lp.1)

/-- What the access method puts into a `TupleTableSlot`. -/
structure TupleTableSlot where
  tid : ItemPointer
  heapTuple : List Nat
deriving DecidableEq, Repr

/-- `np_catalog_store_heap_tuple` (`np_catalog_heap.c:183-202`). -/
def npCatalogStoreHeapTuple (t : Table CatalogItem) (tid : ItemPointer) : Option TupleTableSlot :=
  (t.get tid).map fun item => ⟨tid, item.heapTuple⟩

/-- Who reads, and with what: the state of the transactions, the ids of the session and the
snapshot. -/
structure CatalogReader where
  xacts : XactState
  own : List Nat
  snapshot : Option (SnapshotType × Snapshot)

/-- The item may be fetched, and the reader sees it. -/
def CatalogReader.sees (r : CatalogReader) (lp : Nat × CatalogItem) : Bool :=
  npCatalogItemIsFetchable lp && npCatalogTupleVisible r.xacts r.own lp.2.toRecordHeader r.snapshot

/-! ## Sequential scans -/

/-- `table_block_parallelscan_initialize` fills in what participants share. -/
structure ParallelBlockTableScanDesc where
  phsNblocks : Nat
  phsStartblock : Nat
  phsNallocated : Nat
deriving DecidableEq, Repr

/-- `np_catalog_parallelscan_initialize` (`np_catalog_heap.c:1061-1065`). -/
def npCatalogParallelscanInitialize (t : Table CatalogItem) : ParallelBlockTableScanDesc :=
  ⟨t.nblocks, invalidBlockNumber, 0⟩

/-- `NPCatalogScanDescData`, less the fields of the bitmap scan. -/
structure NPCatalogScanDesc where
  key : List Nat → Bool
  /-- `rs_parallel`: the shared descriptor, where there is one. No function reads it. -/
  rsParallel : Option ParallelBlockTableScanDesc
  pos : PageScan

/-- `np_catalog_scan_begin` (`np_catalog_heap.c:239-265`). -/
def npCatalogScanBegin (t : Table CatalogItem) (key : List Nat → Bool)
    (pscan : Option ParallelBlockTableScanDesc) : NPCatalogScanDesc :=
  ⟨key, pscan, .start t.nblocks⟩

/-- `np_catalog_scan_rescan` (`np_catalog_heap.c:283-306`). -/
def npCatalogScanRescan (t : Table CatalogItem) (key : Option (List Nat → Bool))
    (scan : NPCatalogScanDesc) : NPCatalogScanDesc :=
  { scan with key := key.getD scan.key, pos := .start t.nblocks }

/-- The test a scan puts to each item. -/
def scanTest (r : CatalogReader) (key : List Nat → Bool) (lp : Nat × CatalogItem) : Bool :=
  r.sees lp && key lp.2.heapTuple

/-- `np_catalog_scan_getnextslot` (`np_catalog_heap.c:308-365`). -/
def npCatalogScanGetnextslot (r : CatalogReader) (t : Table CatalogItem)
    (scan : NPCatalogScanDesc) : Option TupleTableSlot × NPCatalogScanDesc :=
  let (tid, pos) := scan.pos.next t (scanTest r scan.key)
  (tid.bind (npCatalogStoreHeapTuple t), { scan with pos := pos })

/-- Calls of `np_catalog_scan_getnextslot` until it returns false. -/
def scanLoop (r : CatalogReader) (t : Table CatalogItem) :
    Nat → NPCatalogScanDesc → List TupleTableSlot
  | 0, _ => []
  | fuel + 1, scan =>
    match npCatalogScanGetnextslot r t scan with
    | (some slot, scan') => slot :: scanLoop r t fuel scan'
    | (none, _) => []

/-- A serial scan without keys, from its beginning to its end. -/
def npCatalogSeqScan (r : CatalogReader) (t : Table CatalogItem) : List TupleTableSlot :=
  scanLoop r t (t.entries.length + 1) (npCatalogScanBegin t (fun _ => true) none)

/-! ## Fetches by tid -/

/-- `ReadBuffer`. -/
def readBuffer {α : Type} (t : Table α) (block : Nat) : Except Err (Page α) :=
  match t.pages[block]? with
  | none => .error (.couldNotReadBlock block)
  | some page => .ok page

/-- What `np_catalog_index_fetch_tuple` returns: the slot where it returns true, and the two flags. -/
structure IndexFetch where
  slot : Option TupleTableSlot
  callAgain : Bool
  allDead : Bool
deriving DecidableEq, Repr

/-- `np_catalog_index_fetch_tuple` (`np_catalog_heap.c:602-645`). -/
def npCatalogIndexFetchTuple (r : CatalogReader) (t : Table CatalogItem) (tid : ItemPointer) :
    Except Err IndexFetch := do
  let page ← readBuffer t tid.block
  match (page.lp tid.offset).filter npCatalogItemIsFetchable with
  | none => return ⟨none, false, true⟩
  | some lp =>
    if !npEntityTupleIsLive r.xacts r.own lp.2.toRecordHeader then return ⟨none, false, true⟩
    else if !npCatalogTupleVisible r.xacts r.own lp.2.toRecordHeader r.snapshot then
      return ⟨none, false, false⟩
    else return ⟨some ⟨tid, lp.2.heapTuple⟩, false, false⟩

/-- `np_catalog_fetch_row_version` (`np_catalog_heap.c:647-673`). -/
def npCatalogFetchRowVersion (r : CatalogReader) (t : Table CatalogItem) (tid : ItemPointer) :
    Except Err (Option TupleTableSlot) := do
  let page ← readBuffer t tid.block
  match (page.lp tid.offset).filter npCatalogItemIsFetchable with
  | none => return none
  | some lp =>
    if !npCatalogTupleVisible r.xacts r.own lp.2.toRecordHeader r.snapshot then return none
    else return some ⟨tid, lp.2.heapTuple⟩

/-! ## Bitmap scans -/

/-- `TBMIterateResult` with its offsets extracted; a lossy page has none. -/
structure TBMIterateResult where
  blockno : Nat
  lossy : Bool
  recheck : Bool
  offsets : List Nat
deriving DecidableEq, Repr

/-- The bitmap part of `NPCatalogScanDescData`, with the flag and the counters the caller passes. -/
structure BitmapScan where
  /-- What `tbm_iterate` has still to return. -/
  iterator : List TBMIterateResult
  cblock : Nat
  /-- `rs_vistuples` from `rs_cindex` on. -/
  vistuples : List Nat
  recheck : Bool
  lossyPages : Nat
  exactPages : Nat
deriving DecidableEq, Repr

/-- The offsets of a page that `np_catalog_bitmap_next_block` looks at. -/
def TBMIterateResult.candidates (res : TBMIterateResult) (page : Page CatalogItem) : List Nat :=
  if res.lossy then List.range' 1 page.maxOffset else res.offsets

/-- `np_catalog_bitmap_next_block` (`np_catalog_heap.c:1134-1207`), once `tbm_iterate` has returned
`res`. -/
def npCatalogBitmapNextBlock (r : CatalogReader) (t : Table CatalogItem) (scan : BitmapScan)
    (res : TBMIterateResult) (rest : List TBMIterateResult) : Except Err BitmapScan := do
  let page ← readBuffer t res.blockno
  return {
    iterator := rest
    cblock := res.blockno
    vistuples := (res.candidates page).filter fun off => (page.lp off).any r.sees
    recheck := res.recheck
    lossyPages := scan.lossyPages + res.lossy.toNat
    exactPages := scan.exactPages + (!res.lossy).toNat }

/-- The loop of `np_catalog_scan_bitmap_next_tuple` over the blocks. -/
def bitmapNextTupleLoop (r : CatalogReader) (t : Table CatalogItem) :
    List TBMIterateResult → BitmapScan → Except Err (Option TupleTableSlot × BitmapScan)
  | blocks, scan =>
    match scan.vistuples with
    | off :: offs =>
      .ok (npCatalogStoreHeapTuple t ⟨scan.cblock, off⟩, { scan with vistuples := offs })
    | [] =>
      match blocks with
      | [] => .ok (none, scan)
      | res :: rest => do
        let scan' ← npCatalogBitmapNextBlock r t scan res rest
        bitmapNextTupleLoop r t rest scan'

/-- `np_catalog_scan_bitmap_next_tuple` (`np_catalog_heap.c:1209-1228`). -/
def npCatalogScanBitmapNextTuple (r : CatalogReader) (t : Table CatalogItem) (scan : BitmapScan) :
    Except Err (Option TupleTableSlot × BitmapScan) :=
  bitmapNextTupleLoop r t scan.iterator scan

/-- Calls of `np_catalog_scan_bitmap_next_tuple` until it returns false. -/
def bitmapScanLoop (r : CatalogReader) (t : Table CatalogItem) :
    Nat → BitmapScan → Except Err (List TupleTableSlot)
  | 0, _ => .ok []
  | fuel + 1, scan => do
    let (slot, scan') ← npCatalogScanBitmapNextTuple r t scan
    match slot with
    | none => return []
    | some slot => return slot :: (← bitmapScanLoop r t fuel scan')

/-- The slots a bitmap leads to at most. -/
def bitmapSize (t : Table CatalogItem) (bitmap : List TBMIterateResult) : Nat :=
  (bitmap.map fun res => (res.candidates ((t.pages[res.blockno]?).getD Page.init)).length).sum

/-- A bitmap scan from its beginning to its end. -/
def npCatalogBitmapScan (r : CatalogReader) (t : Table CatalogItem)
    (bitmap : List TBMIterateResult) : Except Err (List TupleTableSlot) :=
  bitmapScanLoop r t (bitmapSize t bitmap + 1) ⟨bitmap, 0, [], false, 0, 0⟩

/-! ## What the paths return -/

/-- The slot of a tid among those a scan returned. -/
def slotAt (out : List TupleTableSlot) (tid : ItemPointer) : Option TupleTableSlot :=
  out.find? fun slot => slot.tid == tid

/-- The bitmap page holds the tid. -/
def TBMIterateResult.Covers (res : TBMIterateResult) (tid : ItemPointer) : Prop :=
  res.blockno = tid.block ∧ (res.lossy = true ∨ tid.offset ∈ res.offsets)

/-- The slot of a tid, where the reader sees its item. -/
def CatalogReader.slot (r : CatalogReader) (t : Table CatalogItem) (tid : ItemPointer) :
    Option TupleTableSlot :=
  ((t.lp tid).filter r.sees).map fun lp => ⟨tid, lp.2.heapTuple⟩

section

variable {r : CatalogReader} {t : Table CatalogItem} {tid : ItemPointer} {lp : Nat × CatalogItem}

theorem readBuffer_of_lt {block : Nat} (h : block < t.nblocks) :
    ∃ page, t.pages[block]? = some page ∧ readBuffer t block = .ok page := by
  have h : block < t.pages.length := h
  have hsome : t.pages[block]? ≠ none := fun hn => by
    have := List.getElem?_eq_none_iff.mp hn
    omega
  obtain ⟨page, hp⟩ := Option.ne_none_iff_exists'.mp hsome
  refine ⟨page, hp, ?_⟩
  unfold readBuffer
  rw [hp]

/-! ### The sequential scan -/

theorem storeHeapTuple_of_passes {key : List Nat → Bool} (h : t.passes (scanTest r key) tid = true) :
    npCatalogStoreHeapTuple t tid = r.slot t tid ∧ (r.slot t tid).isSome = true := by
  unfold npCatalogStoreHeapTuple CatalogReader.slot
  unfold Table.passes at h
  rw [Table.get_eq_lp]
  cases hlp : t.lp tid with
  | none =>
    rw [hlp] at h
    cases h
  | some lp =>
    rw [hlp] at h
    have hsees : r.sees lp = true := (Bool.and_eq_true_iff.mp h).1
    rw [Option.filter_some, if_pos hsees]
    exact ⟨rfl, rfl⟩

theorem passes_iff_slot :
    t.passes (scanTest r fun _ => true) tid = true ↔ (r.slot t tid).isSome = true := by
  unfold Table.passes CatalogReader.slot scanTest
  cases t.lp tid with
  | none => simp
  | some lp => simp [Option.filter]

/-- A sequential scan returns the slot of every tid its cursor returns. -/
theorem scanLoop_eq (fuel : Nat) (scan : NPCatalogScanDesc) :
    scanLoop r t fuel scan =
      (PageScan.allLoop t (scanTest r scan.key) fuel scan.pos).filterMap (r.slot t) := by
  induction fuel generalizing scan with
  | zero => rfl
  | succ fuel ih =>
    unfold scanLoop PageScan.allLoop npCatalogScanGetnextslot
    rcases hnext : scan.pos.next t (scanTest r scan.key) with ⟨_ | tid, pos⟩
    · rfl
    · obtain ⟨hstore, hsome⟩ := storeHeapTuple_of_passes (PageScan.passes_of_nextLoop _ hnext)
      obtain ⟨slot, hslot⟩ := Option.isSome_iff_exists.mp hsome
      dsimp only
      rw [Option.bind_some, hstore, hslot, List.filterMap_cons, hslot]
      exact congrArg (slot :: ·) (ih { scan with pos := pos })

theorem slot_tid {slot : TupleTableSlot} (h : r.slot t tid = some slot) : slot.tid = tid := by
  obtain ⟨lp, -, rfl⟩ := Option.map_eq_some_iff.mp h
  rfl

/-- Picking the slot of a tid among those of a list of tids. -/
theorem slotAt_filterMap (tids : List ItemPointer) :
    slotAt (tids.filterMap (r.slot t)) tid = if tid ∈ tids then r.slot t tid else none := by
  unfold slotAt
  induction tids with
  | nil => rfl
  | cons a tids ih =>
    rw [List.filterMap_cons]
    by_cases ha : a = tid
    · subst ha
      rw [if_pos List.mem_cons_self]
      cases hs : r.slot t a with
      | none =>
        dsimp only
        rw [ih, hs, ite_self]
      | some slot => simp [slot_tid hs]
    · have hmem : tid ∈ a :: tids ↔ tid ∈ tids := by simp [Ne.symm ha]
      simp only [hmem]
      cases hs : r.slot t a with
      | none => exact ih
      | some slot =>
        have hne : ¬ slot.tid = tid := by
          rw [slot_tid hs]
          exact ha
        simp [hne, ih]

/-- **A sequential scan returns the slot of a tid exactly when the reader sees its item.** -/
theorem slotAt_seqScan (r : CatalogReader) (t : Table CatalogItem) (tid : ItemPointer) :
    slotAt (npCatalogSeqScan r t) tid = r.slot t tid := by
  unfold npCatalogSeqScan
  rw [scanLoop_eq, slotAt_filterMap]
  show (if tid ∈ PageScan.all t (scanTest r fun _ => true) then _ else _) = _
  simp only [PageScan.mem_all, passes_iff_slot]
  cases r.slot t tid <;> rfl

theorem mem_seqScan {slot : TupleTableSlot} :
    slot ∈ npCatalogSeqScan r t ↔ r.slot t slot.tid = some slot := by
  unfold npCatalogSeqScan
  rw [scanLoop_eq, List.mem_filterMap]
  constructor
  · rintro ⟨tid, -, hs⟩
    rwa [slot_tid hs]
  · intro hs
    refine ⟨slot.tid, PageScan.mem_all.mpr (passes_iff_slot.mpr ?_), hs⟩
    rw [hs]
    rfl

theorem passes_scanTest {key : List Nat → Bool} :
    t.passes (scanTest r key) tid = true ↔ ∃ slot, r.slot t tid = some slot ∧ key slot.heapTuple = true := by
  unfold Table.passes CatalogReader.slot scanTest
  cases t.lp tid with
  | none => simp
  | some lp =>
    cases hs : r.sees lp <;> simp [Option.filter, hs]

/-- **A scan that is started again** returns, wherever it stood, each slot that the reader sees and its
keys let pass, and each once. -/
theorem rescan_returns (r : CatalogReader) (t : Table CatalogItem) (key : Option (List Nat → Bool))
    (scan : NPCatalogScanDesc) :
    ∃ tids : List ItemPointer, tids.Nodup ∧
      scanLoop r t (t.entries.length + 1) (npCatalogScanRescan t key scan) =
        tids.filterMap (r.slot t) ∧
      ∀ tid, tid ∈ tids ↔
        ∃ slot, r.slot t tid = some slot ∧ (key.getD scan.key) slot.heapTuple = true := by
  refine ⟨PageScan.all t (scanTest r (key.getD scan.key)), PageScan.nodup_all t _, ?_, fun tid => ?_⟩
  · rw [scanLoop_eq]
    rfl
  · rw [PageScan.mem_all, passes_scanTest]

/-- A sequential scan returns no slot twice. -/
theorem nodup_seqScan (r : CatalogReader) (t : Table CatalogItem) :
    (npCatalogSeqScan r t).Nodup := by
  unfold npCatalogSeqScan
  rw [scanLoop_eq]
  refine (PageScan.nodup_all t (scanTest r fun _ => true)).filterMap fun a b slot ha hb => ?_
  rw [← slot_tid ha, ← slot_tid hb]

/-! ### Bitmap scans -/

/-- The slots a bitmap page leads to. -/
def CatalogReader.pageSlots (r : CatalogReader) (t : Table CatalogItem) (res : TBMIterateResult) :
    List TupleTableSlot :=
  ((res.candidates ((t.pages[res.blockno]?).getD Page.init)).map fun off =>
    (⟨res.blockno, off⟩ : ItemPointer)).filterMap (r.slot t)

/-- The slots a bitmap scan has still to return. -/
def BitmapScan.remaining (scan : BitmapScan) (r : CatalogReader) (t : Table CatalogItem) :
    List TupleTableSlot :=
  (scan.vistuples.map fun off => (⟨scan.cblock, off⟩ : ItemPointer)).filterMap (r.slot t) ++
    scan.iterator.flatMap (r.pageSlots t)

/-- The scan has kept only offsets of items the reader sees. -/
def BitmapScan.Kept (scan : BitmapScan) (r : CatalogReader) (t : Table CatalogItem) : Prop :=
  ∀ off ∈ scan.vistuples, t.passes (scanTest r fun _ => true) ⟨scan.cblock, off⟩ = true

theorem slot_isSome_page {res : TBMIterateResult} {page : Page CatalogItem}
    (hp : t.pages[res.blockno]? = some page) (off : Nat) :
    (r.slot t ⟨res.blockno, off⟩).isSome = (page.lp off).any r.sees := by
  unfold CatalogReader.slot Table.lp
  rw [hp, Option.bind_some]
  cases page.lp off with
  | none => rfl
  | some lp => cases hs : r.sees lp <;> simp [Option.filter, hs]

/-- The next page, with its visible offsets in front of what is left of the bitmap. -/
theorem bitmapNextBlock_spec (r : CatalogReader) (scan : BitmapScan) {res : TBMIterateResult}
    (rest : List TBMIterateResult) (hb : res.blockno < t.nblocks) :
    ∃ scan', npCatalogBitmapNextBlock r t scan res rest = .ok scan' ∧ scan'.iterator = rest ∧
      scan'.Kept r t ∧
      scan'.remaining r t = r.pageSlots t res ++ rest.flatMap (r.pageSlots t) := by
  obtain ⟨page, hp, hread⟩ := readBuffer_of_lt (t := t) hb
  unfold npCatalogBitmapNextBlock
  rw [hread]
  refine ⟨_, rfl, rfl, fun off hoff => ?_, ?_⟩
  · rw [passes_iff_slot, slot_isSome_page hp]
    exact (List.mem_filter.mp hoff).2
  · unfold BitmapScan.remaining CatalogReader.pageSlots
    dsimp only
    rw [hp, Option.getD_some, List.filterMap_map, List.filterMap_map, List.filterMap_filter]
    congr 2
    funext off
    show (if (page.lp off).any r.sees = true then r.slot t ⟨res.blockno, off⟩ else none) =
      r.slot t ⟨res.blockno, off⟩
    rw [← slot_isSome_page hp]
    cases r.slot t ⟨res.blockno, off⟩ <;> rfl

/-- A call that finds an offset left of the page it holds. -/
theorem bitmapNextTuple_held {scan : BitmapScan} {blocks : List TBMIterateResult}
    (hit : scan.iterator = blocks) (hb : ∀ res ∈ blocks, res.blockno < t.nblocks)
    (hk : scan.Kept r t) {off : Nat} {offs : List Nat} (hv : scan.vistuples = off :: offs) :
    ∃ scan', Except.ok (npCatalogStoreHeapTuple t ⟨scan.cblock, off⟩,
        { scan with vistuples := offs }) = (.ok ((scan.remaining r t).head?, scan') : Except Err _) ∧
      scan'.remaining r t = (scan.remaining r t).tail ∧
      (∀ res ∈ scan'.iterator, res.blockno < t.nblocks) ∧ scan'.Kept r t := by
  have hpass := hk off (by rw [hv]; exact List.mem_cons_self)
  obtain ⟨hstore, hsome⟩ := storeHeapTuple_of_passes hpass
  obtain ⟨slot, hslot⟩ := Option.isSome_iff_exists.mp hsome
  have hrem : scan.remaining r t =
      slot :: BitmapScan.remaining { scan with vistuples := offs } r t := by
    unfold BitmapScan.remaining
    rw [hv, List.map_cons, List.filterMap_cons, hslot]
    rfl
  refine ⟨{ scan with vistuples := offs }, ?_, ?_, ?_, fun off' h => ?_⟩
  · rw [hrem, hstore, hslot]
    rfl
  · rw [hrem]
    rfl
  · rw [← hit] at hb
    exact hb
  · exact hk off' (by rw [hv]; exact List.mem_cons_of_mem _ h)

/-- **A call of a bitmap scan returns the first of the remaining slots.** -/
theorem bitmapNextTuple_spec (blocks : List TBMIterateResult) {scan : BitmapScan}
    (hit : scan.iterator = blocks) (hb : ∀ res ∈ blocks, res.blockno < t.nblocks)
    (hk : scan.Kept r t) : ∃ scan', bitmapNextTupleLoop r t blocks scan =
        .ok ((scan.remaining r t).head?, scan') ∧ scan'.remaining r t = (scan.remaining r t).tail ∧
      (∀ res ∈ scan'.iterator, res.blockno < t.nblocks) ∧ scan'.Kept r t := by
  induction blocks generalizing scan with
  | nil =>
    unfold bitmapNextTupleLoop
    cases hv : scan.vistuples with
    | nil =>
      have hrem : scan.remaining r t = [] := by simp [BitmapScan.remaining, hv, hit]
      refine ⟨scan, ?_, by rw [hrem]; rfl, by rw [hit]; exact hb, hk⟩
      rw [hrem]
      rfl
    | cons off offs => exact bitmapNextTuple_held hit hb hk hv
  | cons res rest ih =>
    unfold bitmapNextTupleLoop
    cases hv : scan.vistuples with
    | nil =>
      obtain ⟨scan₁, hnext, hit₁, hk₁, hrem₁⟩ :=
        bitmapNextBlock_spec r scan rest (hb res List.mem_cons_self)
      have hrem : scan.remaining r t = scan₁.remaining r t := by
        rw [hrem₁]
        simp [BitmapScan.remaining, hv, hit]
      dsimp only
      rw [hnext, hrem]
      exact ih hit₁ (fun res' h => hb res' (List.mem_cons_of_mem _ h)) hk₁
    | cons off offs => exact bitmapNextTuple_held hit hb hk hv

theorem bitmapScanLoop_spec (fuel : Nat) {scan : BitmapScan}
    (hb : ∀ res ∈ scan.iterator, res.blockno < t.nblocks) (hk : scan.Kept r t)
    (hfuel : (scan.remaining r t).length < fuel) :
    bitmapScanLoop r t fuel scan = .ok (scan.remaining r t) := by
  induction fuel generalizing scan with
  | zero => omega
  | succ fuel ih =>
    obtain ⟨scan', hnext, hrem, hb', hk'⟩ := bitmapNextTuple_spec scan.iterator rfl hb hk
    unfold bitmapScanLoop npCatalogScanBitmapNextTuple
    rw [hnext]
    cases hr : scan.remaining r t with
    | nil => rfl
    | cons slot slots =>
      rw [hr, List.tail_cons] at hrem
      rw [hr, List.length_cons] at hfuel
      have hrest := ih hb' hk' (by rw [hrem]; omega)
      rw [hrem] at hrest
      dsimp only [List.head?_cons]
      show (do return slot :: (← bitmapScanLoop r t fuel scan') : Except Err _) = _
      rw [hrest]
      rfl

theorem length_pageSlots (res : TBMIterateResult) : (r.pageSlots t res).length ≤
    (res.candidates ((t.pages[res.blockno]?).getD Page.init)).length := by
  unfold CatalogReader.pageSlots
  refine (List.length_filterMap_le ..).trans ?_
  rw [List.length_map]

/-- **A bitmap scan returns the slots its pages lead to.** -/
theorem bitmapScan_eq {bitmap : List TBMIterateResult} (hb : ∀ res ∈ bitmap, res.blockno < t.nblocks) :
    npCatalogBitmapScan r t bitmap = .ok (bitmap.flatMap (r.pageSlots t)) := by
  unfold npCatalogBitmapScan
  refine bitmapScanLoop_spec _ hb (fun off h => by cases h) ?_
  show ([] ++ bitmap.flatMap (r.pageSlots t)).length < bitmapSize t bitmap + 1
  rw [List.nil_append, List.length_flatMap, Nat.lt_succ_iff]
  unfold bitmapSize
  exact List.sum_le_sum fun res _ => length_pageSlots res

/-- The slot of a tid on a bitmap page that covers it. -/
theorem slotAt_pageSlots {res : TBMIterateResult} (hb : res.blockno < t.nblocks)
    (hc : res.Covers tid) : slotAt (r.pageSlots t res) tid = r.slot t tid := by
  obtain ⟨page, hp, -⟩ := readBuffer_of_lt (t := t) hb
  obtain ⟨hblock, ho⟩ := hc
  have htid : (⟨res.blockno, tid.offset⟩ : ItemPointer) = tid := by rw [hblock]
  unfold CatalogReader.pageSlots
  rw [slotAt_filterMap, hp, Option.getD_some]
  cases hs : r.slot t tid with
  | none => exact ite_self _
  | some slot =>
    refine if_pos (List.mem_map.mpr ⟨tid.offset, ?_, htid⟩)
    unfold TBMIterateResult.candidates
    cases hl : res.lossy with
    | false => exact ho.resolve_left (by rw [hl]; decide)
    | true =>
      -- an item the reader sees is behind one of the line pointers of the page
      have hsome := slot_isSome_page (r := r) hp tid.offset
      rw [htid, hs] at hsome
      cases hlp : page.lp tid.offset with
      | none =>
        rw [hlp] at hsome
        cases hsome
      | some lp =>
        have hget : page.get tid.offset = some lp.2 := by
          unfold Page.get
          rw [hlp]
          rfl
        have hle := Page.le_maxOffset_of_get hget
        rw [if_pos rfl, List.mem_range'_1]
        omega

theorem slotAt_pageSlots_none (res : TBMIterateResult) (h : r.slot t tid = none) :
    slotAt (r.pageSlots t res) tid = none := by
  unfold CatalogReader.pageSlots
  rw [slotAt_filterMap, h]
  exact ite_self _

/-- The slot of a tid among those of a bitmap that covers it. -/
theorem slotAt_bitmap {bitmap : List TBMIterateResult}
    (hb : ∀ res ∈ bitmap, res.blockno < t.nblocks) (hc : ∃ res ∈ bitmap, res.Covers tid) :
    slotAt (bitmap.flatMap (r.pageSlots t)) tid = r.slot t tid := by
  induction bitmap with
  | nil =>
    obtain ⟨res, hm, -⟩ := hc
    cases hm
  | cons a bitmap ih =>
    rw [List.flatMap_cons]
    have hsplit : slotAt (r.pageSlots t a ++ bitmap.flatMap (r.pageSlots t)) tid =
        (slotAt (r.pageSlots t a) tid).or (slotAt (bitmap.flatMap (r.pageSlots t)) tid) :=
      List.find?_append
    rw [hsplit]
    by_cases ha : a.Covers tid
    · rw [slotAt_pageSlots (hb a List.mem_cons_self) ha]
      cases hs : r.slot t tid with
      | some slot => rfl
      | none =>
        rw [Option.none_or]
        exact List.find?_eq_none.mpr fun slot hslot he => by
          obtain ⟨res, -, hres⟩ := List.mem_flatMap.mp hslot
          exact List.find?_eq_none.mp (slotAt_pageSlots_none res hs) slot hres he
    · have hrest := ih (fun res h => hb res (List.mem_cons_of_mem _ h)) (by
        obtain ⟨res, hm, hcov⟩ := hc
        rcases List.mem_cons.mp hm with rfl | hm
        · exact absurd hcov ha
        · exact ⟨res, hm, hcov⟩)
      rw [hrest]
      cases hs : slotAt (r.pageSlots t a) tid with
      | none => rfl
      | some slot =>
        have hmem := List.mem_of_find?_eq_some hs
        have htid : slot.tid = tid := by simpa using List.find?_some hs
        obtain ⟨tid', -, hslot⟩ := List.mem_filterMap.mp hmem
        rw [← htid, slot_tid hslot, hslot]
        rfl

/-! ### Where the paths differ -/

/-- What the fetch without an index returns. -/
theorem fetchRowVersion_eq (htid : tid.block < t.nblocks) :
    npCatalogFetchRowVersion r t tid = .ok (r.slot t tid) := by
  obtain ⟨page, hp, hread⟩ := readBuffer_of_lt (t := t) htid
  have hlp : t.lp tid = page.lp tid.offset := by
    unfold Table.lp
    rw [hp]
    rfl
  unfold npCatalogFetchRowVersion CatalogReader.slot CatalogReader.sees
  rw [hread, hlp]
  cases hx : page.lp tid.offset with
  | none => simp [hx, bind, Except.bind, pure, Except.pure]
  | some lp =>
    cases hf : npCatalogItemIsFetchable lp <;>
      cases hv : npCatalogTupleVisible r.xacts r.own lp.2.toRecordHeader r.snapshot <;>
      simp [hx, Option.filter, hf, hv, bind, Except.bind, pure, Except.pure]

/-- What the fetch by an index returns: it drops an item that is not live now. -/
theorem indexFetchTuple_slot (htid : tid.block < t.nblocks) :
    (npCatalogIndexFetchTuple r t tid).map IndexFetch.slot =
      .ok (if ((t.lp tid).any fun lp =>
        npEntityTupleIsLive r.xacts r.own lp.2.toRecordHeader) = true then r.slot t tid else none) := by
  obtain ⟨page, hp, hread⟩ := readBuffer_of_lt (t := t) htid
  have hlp : t.lp tid = page.lp tid.offset := by
    unfold Table.lp
    rw [hp]
    rfl
  unfold npCatalogIndexFetchTuple CatalogReader.slot CatalogReader.sees
  rw [hread, hlp]
  cases hx : page.lp tid.offset with
  | none => simp [hx, bind, Except.bind, pure, Except.pure, Except.map]
  | some lp =>
    cases hf : npCatalogItemIsFetchable lp <;>
      cases hl : npEntityTupleIsLive r.xacts r.own lp.2.toRecordHeader <;>
      cases hv : npCatalogTupleVisible r.xacts r.own lp.2.toRecordHeader r.snapshot <;>
      simp [hx, Option.filter, hf, hl, hv, bind, Except.bind, pure, Except.pure, Except.map]

end

end NeoPostGraph
