import NeoPostGraph.Access.EntityScan

/-!
# What scans return, in which order

A scan of a table that stands still, by repeated calls, in a direction. `np_entity_store_scan_getnextslot`
and `np_catalog_scan_getnextslot` do not read the direction: their position only goes forward. The scan of a
range of tids does, and takes an item on the far side of the range for the end.

* `npEntityStoreScan`, `npCatalogScan`, `npCatalogTidrangeScan`: whole scans.
* `ScansAll`, `ScansRange`: what they are to return.

Results:
* `entityScan_sorted`, `catalogScan_sorted`: whole scans return what is visible in order of tids.
* `tidrangeScan_eq`: a range scan returns what is in the range, or ends at once.
* `scans_complete_iff`: so all is well but for backward scans of more than one item, and backward scans of a
  range behind a visible item in the block where it begins.
* `scans_complete_fails`: two rows, scanned backward.
-/

namespace NeoPostGraph

open SlottedPage

/-! ## Scans -/

/-- `ScanDirection`. -/
inductive ScanDirection where
  | backward
  | noMovement
  | forward
deriving DecidableEq, Repr

section

variable {μ : Type}

/-- `np_entity_store_scan_getnextslot` (`np_entity_store.c:140-203`). The direction is not read. -/
def npEntityStoreScanGetnextslot (x : XactState) (own : List Nat) (t : Table (EntityTuple μ))
    (_direction : ScanDirection) (scan : PageScan) : Option (EntitySlot μ) × PageScan :=
  ((scan.next t (entityScanTest x own)).1.bind fun tid => (t.get tid).map fun tuple => tuple.slot tid,
    (scan.next t (entityScanTest x own)).2)

/-- A scan of an entity table in this direction, until the function returns false. -/
def npEntityStoreScan (x : XactState) (own : List Nat) (t : Table (EntityTuple μ))
    (direction : ScanDirection) : List (EntitySlot μ) :=
  Cursor.calls (npEntityStoreScanGetnextslot x own t direction) (t.entries.length + 1)
    (npEntityStoreScanBegin t)

end

/-- A scan of a catalog. `np_catalog_scan_getnextslot` does not read the direction. -/
def npCatalogScan (r : CatalogReader) (t : Table CatalogItem) (key : List Nat → Bool)
    (_direction : ScanDirection) : List TupleTableSlot :=
  Cursor.calls (npCatalogScanGetnextslot r t) (t.entries.length + 1) (npCatalogScanBegin t key none)

/-- A scan with the range in `st.tidrange`. -/
structure TidRangeScan where
  scan : NPCatalogScanDesc
  mintid : ItemPointer
  maxtid : ItemPointer

/-- `np_catalog_scan_set_tidrange` (`np_catalog_heap.c:1074-1106`), on a new scan. -/
def npCatalogScanSetTidrange (scan : NPCatalogScanDesc) (mintid maxtid : ItemPointer) : TidRangeScan :=
  if scan.pos.nblocks = 0 then ⟨scan, ⟨0, 0⟩, ⟨0, 0⟩⟩
  else
    let highest : ItemPointer := ⟨scan.pos.nblocks - 1, maxOffsetNumber⟩
    let lowest : ItemPointer := ⟨0, 1⟩
    let highest := if maxtid.Before highest then maxtid else highest
    let lowest := if lowest.Before mintid then mintid else lowest
    if highest.Before lowest then
      ⟨{ scan with pos := { scan.pos with cblock := 0, nblocks := 0 } }, ⟨0, 0⟩, ⟨0, 0⟩⟩
    else
      ⟨{ scan with
        pos := { scan.pos with cblock := lowest.block, coffset := 1, nblocks := highest.block + 1 } },
        lowest, highest⟩

/-- The loop of `np_catalog_scan_getnextslot_tidrange`. -/
def tidrangeLoop (r : CatalogReader) (t : Table CatalogItem) (direction : ScanDirection)
    (mintid maxtid : ItemPointer) : Nat → NPCatalogScanDesc → Option TupleTableSlot × NPCatalogScanDesc
  | 0, scan => (none, scan)
  | fuel + 1, scan =>
    match npCatalogScanGetnextslot r t scan with
    | (none, scan') => (none, scan')
    | (some slot, scan') =>
      if slot.tid.Before mintid then
        if direction = .backward then (none, scan')
        else tidrangeLoop r t direction mintid maxtid fuel scan'
      else if maxtid.Before slot.tid then
        if direction = .forward then (none, scan')
        else tidrangeLoop r t direction mintid maxtid fuel scan'
      else (some slot, scan')

/-- `np_catalog_scan_getnextslot_tidrange` (`np_catalog_heap.c:1108-1132`). -/
def npCatalogScanGetnextslotTidrange (r : CatalogReader) (t : Table CatalogItem) (direction : ScanDirection)
    (range : TidRangeScan) : Option TupleTableSlot × TidRangeScan :=
  ((tidrangeLoop r t direction range.mintid range.maxtid (t.entries.length + 1) range.scan).1,
    { range with
      scan := (tidrangeLoop r t direction range.mintid range.maxtid (t.entries.length + 1) range.scan).2 })

/-- A scan of a range of tids in this direction, until the function returns false. -/
def npCatalogTidrangeScan (r : CatalogReader) (t : Table CatalogItem) (key : List Nat → Bool)
    (mintid maxtid : ItemPointer) (direction : ScanDirection) : List TupleTableSlot :=
  Cursor.calls (npCatalogScanGetnextslotTidrange r t direction) (t.entries.length + 1)
    (npCatalogScanSetTidrange (npCatalogScanBegin t key none) mintid maxtid)

/-! ## What they are to return -/

/-- The tids are in the order of the direction. -/
def ScanDirection.Ordered (direction : ScanDirection) (tids : List ItemPointer) : Prop :=
  match direction with
  | .forward => tids.Pairwise ItemPointer.Before
  | .backward => tids.Pairwise fun p q => q.Before p
  | .noMovement => tids.Nodup

/-- **The scan returned these slots, each once, in the order of its direction.** -/
structure ScansAll {σ : Type} (tid : σ → ItemPointer) (direction : ScanDirection) (visible : Set σ)
    (out : List σ) : Prop where
  mem : ∀ slot, slot ∈ out ↔ slot ∈ visible
  ordered : direction.Ordered (out.map tid)

/-- **The scan returned the slots in this range, each once.** -/
structure ScansRange (visible : Set TupleTableSlot) (mintid maxtid : ItemPointer)
    (out : List TupleTableSlot) : Prop where
  mem : ∀ slot, slot ∈ out ↔ slot ∈ visible ∧ ¬ slot.tid.Before mintid ∧ ¬ maxtid.Before slot.tid
  nodup : (out.map TupleTableSlot.tid).Nodup

/-- The slots of the live tuples. -/
def liveSlots {μ : Type} (x : XactState) (own : List Nat) (t : Table (EntityTuple μ)) :
    Set (EntitySlot μ) :=
  { slot | ∃ tuple, t.get slot.tid = some tuple ∧ slot = tuple.slot slot.tid ∧
    npEntityTupleIsLive x own tuple.hdr.toRecordHeader = true }

/-- The slots of the items the reader sees and the keys of the scan let pass. -/
def visibleSlots (r : CatalogReader) (t : Table CatalogItem) (key : List Nat → Bool) : Set TupleTableSlot :=
  { slot | r.slot t slot.tid = some slot ∧ key slot.heapTuple = true }

/-- A table on real pages: the line pointers end before the page does. -/
structure PhysicalTable (α : Type) extends Table α where
  lower_le : ∀ p ∈ pages, p.lower ≤ blcksz

/-! ## Forward scans -/

section

variable {μ : Type} {x : XactState} {own : List Nat} {te : Table (EntityTuple μ)} {r : CatalogReader}
  {t : Table CatalogItem} {key : List Nat → Bool} {direction : ScanDirection} {scan : NPCatalogScanDesc}
  {range : TidRangeScan} {tid mintid maxtid : ItemPointer} {slot : TupleTableSlot}

/-- Slots with the tids they were taken from are in the order of these. -/
theorem pairwise_tid {σ : Type} {f : ItemPointer → Option σ} {tidOf : σ → ItemPointer}
    (hf : ∀ tid slot, f tid = some slot → tidOf slot = tid) {tids : List ItemPointer}
    (h : tids.Pairwise ItemPointer.Before) : ((tids.filterMap f).map tidOf).Pairwise ItemPointer.Before := by
  rw [List.pairwise_map, List.pairwise_filterMap]
  refine h.imp fun hlt slot hslot slot' hslot' => ?_
  rw [hf _ _ hslot, hf _ _ hslot']
  exact hlt

/-- The slot of a tid of an entity table. -/
def entitySlotAt (t : Table (EntityTuple μ)) (tid : ItemPointer) : Option (EntitySlot μ) :=
  (t.get tid).map fun tuple => tuple.slot tid

theorem entitySlotAt_tid {slot : EntitySlot μ} (h : entitySlotAt te tid = some slot) : slot.tid = tid := by
  obtain ⟨tuple, -, rfl⟩ := Option.map_eq_some_iff.mp h
  rfl

/-- What a scan of a whole table has ahead. -/
theorem mem_ahead_start {α : Type} {t : Table α} {q : Nat × α → Bool} :
    tid ∈ PageScan.ahead t q (.start t.nblocks) ↔ t.passes q tid = true := by
  rw [PageScan.mem_ahead]
  refine ⟨fun h => h.1, fun h => ⟨h, ?_, PageScan.not_behind_start _ _⟩⟩
  obtain ⟨a, ha⟩ := exists_of_passes h
  obtain ⟨p, hp, -⟩ := Option.bind_eq_some_iff.mp ha
  exact (List.getElem?_eq_some_iff.mp hp).1

/-- **A scan of an entity table returns the live tuples in order of tids**, whatever the direction. -/
theorem entityScan_sorted (x : XactState) (own : List Nat) (te : Table (EntityTuple μ))
    (direction : ScanDirection) : ScansAll EntitySlot.tid .forward (liveSlots x own te)
      (npEntityStoreScan x own te direction) := by
  have hdeliver := (PageScan.delivers te (entityScanTest x own)).filterMap (entitySlotAt te)
    fun scan tid _ htid => by
      obtain ⟨tuple, htuple⟩ := exists_of_passes (PageScan.mem_ahead.mp htid).1
      exact ⟨tuple.slot tid, by unfold entitySlotAt; rw [htuple]; rfl⟩
  have heq : npEntityStoreScan x own te direction =
      (PageScan.ahead te (entityScanTest x own) (.start te.nblocks)).filterMap (entitySlotAt te) :=
    hdeliver.calls (Nat.lt_succ_of_le ((List.length_filterMap_le ..).trans (PageScan.length_ahead_le ..)))
      (PageScan.held_start _)
  rw [heq]
  refine ⟨fun slot => ?_, pairwise_tid (fun _ _ => entitySlotAt_tid) (PageScan.sorted_ahead ..)⟩
  rw [List.mem_filterMap]
  constructor
  · rintro ⟨tid, htid, hslot⟩
    obtain ⟨tuple, htuple, rfl⟩ := Option.map_eq_some_iff.mp hslot
    exact ⟨tuple, htuple, rfl, (passes_iff_live htuple).mp (mem_ahead_start.mp htid)⟩
  · rintro ⟨tuple, htuple, hslot, hlive⟩
    refine ⟨slot.tid, mem_ahead_start.mpr ((passes_iff_live htuple).mpr hlive), ?_⟩
    unfold entitySlotAt
    rw [htuple, Option.map_some, ← hslot]

/-- The slots a scan of a catalog has ahead. -/
def NPCatalogScanDesc.ahead (scan : NPCatalogScanDesc) (r : CatalogReader) (t : Table CatalogItem) :
    List TupleTableSlot :=
  (PageScan.ahead t (scanTest r scan.key) scan.pos).filterMap (npCatalogStoreHeapTuple t)

theorem storeHeapTuple_tid (h : npCatalogStoreHeapTuple t tid = some slot) : slot.tid = tid := by
  obtain ⟨item, -, rfl⟩ := Option.map_eq_some_iff.mp h
  rfl

theorem delivers_scan (r : CatalogReader) (t : Table CatalogItem) :
    Cursor.Delivers (npCatalogScanGetnextslot r t) (fun scan => scan.pos.Held) fun scan => scan.ahead r t := by
  intro scan hheld
  have hdeliver := (PageScan.delivers t (scanTest r scan.key)).filterMap (npCatalogStoreHeapTuple t)
    fun pos tid _ htid => by
      obtain ⟨hstore, hsome⟩ := storeHeapTuple_of_passes (PageScan.mem_ahead.mp htid).1
      rw [hstore]
      exact Option.isSome_iff_exists.mp hsome
  obtain ⟨pos, hnext, hheld', htail⟩ := hdeliver scan.pos hheld
  obtain ⟨hslot, rfl⟩ := Prod.mk.inj hnext
  refine ⟨{ scan with pos := (scan.pos.next t (scanTest r scan.key)).2 }, ?_, hheld', htail⟩
  exact Prod.ext hslot rfl

theorem sorted_scan (scan : NPCatalogScanDesc) :
    ((scan.ahead r t).map TupleTableSlot.tid).Pairwise ItemPointer.Before :=
  pairwise_tid (fun _ _ => storeHeapTuple_tid) (PageScan.sorted_ahead ..)

theorem length_scan_le (scan : NPCatalogScanDesc) : (scan.ahead r t).length < t.entries.length + 1 :=
  Nat.lt_succ_of_le ((List.length_filterMap_le ..).trans (PageScan.length_ahead_le ..))

theorem passes_iff_visible {key : List Nat → Bool} :
    t.passes (scanTest r key) tid = true ∧ npCatalogStoreHeapTuple t tid = some slot ↔
      slot.tid = tid ∧ slot ∈ visibleSlots r t key := by
  constructor
  · rintro ⟨hpass, hslot⟩
    obtain rfl := storeHeapTuple_tid hslot
    rw [(storeHeapTuple_of_passes hpass).1] at hslot
    refine ⟨rfl, hslot, ?_⟩
    obtain ⟨lp, hlp, he⟩ := Option.map_eq_some_iff.mp hslot
    unfold Table.passes at hpass
    rw [(Option.filter_eq_some_iff.mp hlp).1, Option.any_some] at hpass
    rw [← he]
    exact (Bool.and_eq_true_iff.mp hpass).2
  · rintro ⟨rfl, hslot, hkey⟩
    obtain ⟨lp, hlp, he⟩ := Option.map_eq_some_iff.mp hslot
    obtain ⟨hlp, hsees⟩ := Option.filter_eq_some_iff.mp hlp
    have hpass : t.passes (scanTest r key) slot.tid = true := by
      unfold Table.passes scanTest
      rw [hlp, Option.any_some, hsees, Bool.true_and]
      rw [← he] at hkey
      exact hkey
    exact ⟨hpass, (storeHeapTuple_of_passes hpass).1.trans hslot⟩

/-- **A scan of a catalog returns what is visible in order of tids**, whatever the direction. -/
theorem catalogScan_sorted (r : CatalogReader) (t : Table CatalogItem) (key : List Nat → Bool)
    (direction : ScanDirection) : ScansAll TupleTableSlot.tid .forward (visibleSlots r t key)
      (npCatalogScan r t key direction) := by
  have heq : npCatalogScan r t key direction = (npCatalogScanBegin t key none).ahead r t :=
    (delivers_scan r t).calls (length_scan_le _) (PageScan.held_start _)
  rw [heq]
  refine ⟨fun slot => ?_, sorted_scan _⟩
  unfold NPCatalogScanDesc.ahead
  rw [List.mem_filterMap]
  constructor
  · rintro ⟨tid, htid, hslot⟩
    exact (passes_iff_visible.mp ⟨mem_ahead_start.mp htid, hslot⟩).2
  · intro h
    obtain ⟨hpass, hslot⟩ := passes_iff_visible.mpr ⟨rfl, h⟩
    exact ⟨slot.tid, mem_ahead_start.mpr hpass, hslot⟩

/-! ## Scans of a range -/

/-- What becomes of a slot. -/
def tidJudge (direction : ScanDirection) (mintid maxtid : ItemPointer) (slot : TupleTableSlot) :
    Cursor.Verdict :=
  if slot.tid.Before mintid then if direction = .backward then .stop else .skip
  else if maxtid.Before slot.tid then if direction = .forward then .stop else .skip
  else .keep

theorem tidJudge_keep : tidJudge direction mintid maxtid slot = .keep ↔
    ¬ slot.tid.Before mintid ∧ ¬ maxtid.Before slot.tid := by
  unfold tidJudge
  split_ifs <;> simp [*]

theorem tidrangeLoop_eq (fuel : Nat) (scan : NPCatalogScanDesc) :
    tidrangeLoop r t direction mintid maxtid fuel scan =
      Cursor.sift (npCatalogScanGetnextslot r t) (tidJudge direction mintid maxtid) fuel scan := by
  induction fuel generalizing scan with
  | zero => rfl
  | succ fuel ih =>
    unfold tidrangeLoop Cursor.sift
    rcases npCatalogScanGetnextslot r t scan with ⟨_ | slot, scan'⟩
    · rfl
    · dsimp only
      rw [tidJudge]
      split_ifs
      · rfl
      · exact ih scan'
      · rfl
      · exact ih scan'
      · rfl

/-- What a range scan returns of what it has ahead. -/
theorem tidrangeScan_sifted (r : CatalogReader) (t : Table CatalogItem) (key : List Nat → Bool)
    (mintid maxtid : ItemPointer) (direction : ScanDirection) :
    let range := npCatalogScanSetTidrange (npCatalogScanBegin t key none) mintid maxtid
    npCatalogTidrangeScan r t key mintid maxtid direction =
      Cursor.sifted (tidJudge direction range.mintid range.maxtid) (range.scan.ahead r t) := by
  intro range
  have hdeliver : Cursor.Delivers (npCatalogScanGetnextslotTidrange r t direction)
      (fun range => range.scan.pos.Held) fun range =>
        Cursor.sifted (tidJudge direction range.mintid range.maxtid) (range.scan.ahead r t) := by
    intro range hheld
    obtain ⟨scan, hnext, hheld', htail⟩ := (delivers_scan r t).sift
      (tidJudge direction range.mintid range.maxtid) (fun _ _ => length_scan_le _) range.scan hheld
    rw [← tidrangeLoop_eq] at hnext
    refine ⟨{ range with scan := scan }, ?_, hheld', htail⟩
    unfold npCatalogScanGetnextslotTidrange
    rw [hnext]
  have hheld : range.scan.pos.Held := by
    show (npCatalogScanSetTidrange (npCatalogScanBegin t key none) mintid maxtid).scan.pos.Held
    unfold npCatalogScanSetTidrange
    dsimp only
    split_ifs <;> exact nofun
  exact hdeliver.calls (s := range)
    ((Cursor.length_sifted_le ..).trans_lt (length_scan_le range.scan)) hheld

/-- A range scan that does not end at once returns what it has ahead in the range. -/
theorem sifted_eq_inRange {slots : List TupleTableSlot}
    (hsorted : (slots.map TupleTableSlot.tid).Pairwise ItemPointer.Before)
    (h : direction = .backward → ∀ slot ∈ slots, ¬ slot.tid.Before mintid) :
    Cursor.sifted (tidJudge direction mintid maxtid) slots =
      slots.filter fun slot => tidJudge direction mintid maxtid slot = .keep := by
  refine Cursor.sifted_eq_filter ((List.pairwise_map.mp hsorted).imp_of_mem ?_)
  intro a b ha hb hlt hstop hkeep
  obtain ⟨-, hmax⟩ := tidJudge_keep.mp hkeep
  unfold tidJudge at hstop
  split_ifs at hstop with hmin hback hover
  · exact h hback a ha hmin
  · exact hmax (hover.trans hlt)

/-- A backward scan that meets a slot before the range ends at once. -/
theorem sifted_eq_nil {slots : List TupleTableSlot}
    (hsorted : (slots.map TupleTableSlot.tid).Pairwise ItemPointer.Before) {slot : TupleTableSlot}
    (hmem : slot ∈ slots) (hbefore : slot.tid.Before mintid) :
    Cursor.sifted (tidJudge .backward mintid maxtid) slots = [] := by
  cases slots with
  | nil => cases hmem
  | cons first slots =>
    have hfirst : first.tid.Before mintid := by
      rcases List.mem_cons.mp hmem with rfl | hmem
      · exact hbefore
      · exact ((List.pairwise_cons.mp (List.pairwise_map.mp hsorted)).1 slot hmem).trans hbefore
    rw [Cursor.sifted_cons]
    unfold tidJudge
    rw [if_pos hfirst, if_pos rfl]

/-- What a scan that holds no page has ahead. -/
theorem mem_scan_ahead {scan : NPCatalogScanDesc} (hbuf : scan.pos.cbuf = false) :
    slot ∈ scan.ahead r t ↔ slot ∈ visibleSlots r t scan.key ∧ scan.pos.cblock ≤ slot.tid.block ∧
      slot.tid.block < scan.pos.nblocks := by
  have hbehind : ∀ tid, scan.pos.Behind tid ↔ tid.block < scan.pos.cblock := by
    intro tid
    unfold PageScan.Behind
    rw [hbuf]
    simp
  unfold NPCatalogScanDesc.ahead
  rw [List.mem_filterMap]
  constructor
  · rintro ⟨tid, htid, hslot⟩
    obtain ⟨hpass, hblock, hnot⟩ := PageScan.mem_ahead.mp htid
    obtain ⟨rfl, hvisible⟩ := passes_iff_visible.mp ⟨hpass, hslot⟩
    exact ⟨hvisible, Nat.not_lt.mp fun hlt => hnot ((hbehind _).mpr hlt), hblock⟩
  · rintro ⟨hvisible, hle, hblock⟩
    obtain ⟨hpass, hslot⟩ := passes_iff_visible.mpr ⟨rfl, hvisible⟩
    exact ⟨slot.tid, PageScan.mem_ahead.mpr ⟨hpass, hblock, fun hb => Nat.not_lt.mpr hle ((hbehind _).mp hb)⟩,
      hslot⟩

/-- Where visible items can be. -/
theorem visible_bounds {t : PhysicalTable CatalogItem} (h : slot ∈ visibleSlots r t.toTable key) :
    0 < slot.tid.offset ∧ slot.tid.offset ≤ maxOffsetNumber ∧ slot.tid.block < t.nblocks := by
  obtain ⟨hpass, -⟩ := passes_iff_visible.mpr ⟨rfl, h⟩
  obtain ⟨item, hitem⟩ := exists_of_passes hpass
  obtain ⟨page, hpage, hget⟩ := Option.bind_eq_some_iff.mp hitem
  have hoff := Page.le_maxOffset_of_get hget
  have hlower := t.lower_le page (List.mem_of_getElem? hpage)
  refine ⟨by omega, ?_, (List.getElem?_eq_some_iff.mp hpage).1⟩
  unfold Page.lower sizeOfPageHeaderData sizeOfItemIdData blcksz at hlower
  unfold maxOffsetNumber blcksz sizeOfItemIdData
  omega

/-- **What `np_catalog_scan_set_tidrange` leaves to the scan**: all of the range, and in front of it the
visible items of the block where it begins. -/
theorem setTidrange_spec (r : CatalogReader) (t : PhysicalTable CatalogItem) (key : List Nat → Bool)
    (mintid maxtid : ItemPointer) :
    let range := npCatalogScanSetTidrange (npCatalogScanBegin t.toTable key none) mintid maxtid
    (∀ slot, slot ∈ range.scan.ahead r t.toTable ∧ ¬ slot.tid.Before range.mintid ∧
        ¬ range.maxtid.Before slot.tid ↔
      slot ∈ visibleSlots r t.toTable key ∧ ¬ slot.tid.Before mintid ∧ ¬ maxtid.Before slot.tid) ∧
    ∀ slot ∈ visibleSlots r t.toTable key, ¬ slot.tid.Before mintid → ¬ maxtid.Before slot.tid →
      ∀ other, other ∈ range.scan.ahead r t.toTable ∧ other.tid.Before range.mintid ↔
        other ∈ visibleSlots r t.toTable key ∧ other.tid.block = mintid.block ∧
          other.tid.offset < mintid.offset := by
  intro range
  have hscan : range.scan.key = key ∧ range.scan.pos.cbuf = false := by
    show (npCatalogScanSetTidrange (npCatalogScanBegin t.toTable key none) mintid maxtid).scan.key = key ∧
      (npCatalogScanSetTidrange (npCatalogScanBegin t.toTable key none) mintid maxtid).scan.pos.cbuf = false
    unfold npCatalogScanSetTidrange
    dsimp only
    split_ifs <;> exact ⟨rfl, rfl⟩
  have hahead : ∀ slot, slot ∈ range.scan.ahead r t.toTable ↔ slot ∈ visibleSlots r t.toTable key ∧
      range.scan.pos.cblock ≤ slot.tid.block ∧ slot.tid.block < range.scan.pos.nblocks := by
    intro slot
    rw [mem_scan_ahead hscan.2, hscan.1]
  have hrange : range = npCatalogScanSetTidrange (npCatalogScanBegin t.toTable key none) mintid maxtid := rfl
  have hn : (npCatalogScanBegin t.toTable key none).pos.nblocks = t.nblocks := rfl
  unfold npCatalogScanSetTidrange at hrange
  dsimp only at hrange
  rw [hn] at hrange
  refine ⟨fun slot => ?_, fun slot hslot hmin hmax other => ?_⟩
  · rw [hahead, and_assoc]
    refine and_congr_right fun hvisible => ?_
    obtain ⟨hoff, hoff', hblock⟩ := visible_bounds hvisible
    rw [hrange]
    split_ifs with h0 h1 h2 h3 h4 h5
    all_goals
      simp only [ItemPointer.Before] at *
      omega
  · rw [hahead, and_assoc]
    refine and_congr_right fun hvisible => ?_
    obtain ⟨hoff, hoff', hblock⟩ := visible_bounds hslot
    obtain ⟨hoff₂, hoff₂', hblock₂⟩ := visible_bounds hvisible
    rw [hrange]
    split_ifs with h0 h1 h2 h3 h4 h5
    all_goals
      simp only [ItemPointer.Before] at *
      omega

/-- **A range scan returns what is in the range, or ends at once**: backward, when a visible item lies in front
of the range in the block where it begins. -/
theorem tidrangeScan_eq (r : CatalogReader) (t : PhysicalTable CatalogItem) (key : List Nat → Bool)
    (mintid maxtid : ItemPointer) (direction : ScanDirection) :
    ScansRange (visibleSlots r t.toTable key) mintid maxtid
        (npCatalogTidrangeScan r t.toTable key mintid maxtid direction) ↔
      (direction = .backward →
        (∃ slot ∈ visibleSlots r t.toTable key, ¬ slot.tid.Before mintid ∧ ¬ maxtid.Before slot.tid) →
          ¬ ∃ slot ∈ visibleSlots r t.toTable key, slot.tid.block = mintid.block ∧
            slot.tid.offset < mintid.offset) := by
  have hsifted := tidrangeScan_sifted r t.toTable key mintid maxtid direction
  have hspec := setTidrange_spec r t key mintid maxtid
  dsimp only at hsifted hspec
  generalize npCatalogScanSetTidrange (npCatalogScanBegin t.toTable key none) mintid maxtid = range
    at hsifted hspec
  obtain ⟨hin, hfront⟩ := hspec
  have hsorted := sorted_scan (r := r) (t := t.toTable) range.scan
  rw [hsifted]
  constructor
  · rintro hexact rfl ⟨slot, hslot, hmin, hmax⟩ ⟨other, hother, hblock, hoff⟩
    obtain ⟨hahead, hbefore⟩ := (hfront slot hslot hmin hmax other).mpr ⟨hother, hblock, hoff⟩
    have hmem := (hexact.mem slot).mpr ⟨hslot, hmin, hmax⟩
    rw [sifted_eq_nil hsorted hahead hbefore] at hmem
    cases hmem
  · intro hcond
    by_cases hearly : direction = .backward ∧ ∃ other ∈ range.scan.ahead r t.toTable,
        other.tid.Before range.mintid
    · -- the scan ends at once, and there is nothing in the range
      obtain ⟨rfl, other, hother, hbefore⟩ := hearly
      rw [sifted_eq_nil hsorted hother hbefore]
      refine ⟨fun slot => iff_of_false List.not_mem_nil ?_, List.nodup_nil⟩
      rintro ⟨hslot, hmin, hmax⟩
      obtain ⟨hvisible, hblock⟩ := (hfront slot hslot hmin hmax other).mp ⟨hother, hbefore⟩
      exact hcond rfl ⟨slot, hslot, hmin, hmax⟩ ⟨other, hvisible, hblock⟩
    · have hnone : direction = .backward → ∀ slot ∈ range.scan.ahead r t.toTable,
          ¬ slot.tid.Before range.mintid :=
        fun hback slot hslot hbefore => hearly ⟨hback, slot, hslot, hbefore⟩
      rw [sifted_eq_inRange hsorted hnone]
      refine ⟨fun slot => ?_, ?_⟩
      · rw [List.mem_filter, decide_eq_true_eq, tidJudge_keep, ← hin]
      · refine List.Nodup.sublist (List.filter_sublist.map _) ?_
        exact hsorted.imp fun hlt he => by
          rw [he] at hlt
          exact ItemPointer.Before.irrefl _ hlt

/-- A scan in order of tids is in backward order too when it returns one item at most. -/
theorem scansAll_iff {σ : Type} {tidOf : σ → ItemPointer} {visible : Set σ} {out : List σ}
    (h : ScansAll tidOf .forward visible out) (direction : ScanDirection) :
    ScansAll tidOf direction visible out ↔ (direction = .backward → visible.Subsingleton) := by
  have hsorted : (out.map tidOf).Pairwise ItemPointer.Before := h.ordered
  constructor
  · rintro hback rfl a ha b hb
    have hback' : (out.map tidOf).Pairwise fun p q => q.Before p := hback.ordered
    have hone : ∀ c d l, out ≠ c :: d :: l := by
      rintro c d l rfl
      have hcd := (List.pairwise_cons.mp hsorted).1 (tidOf d) List.mem_cons_self
      have hdc := (List.pairwise_cons.mp hback').1 (tidOf d) List.mem_cons_self
      exact ItemPointer.Before.irrefl _ (hcd.trans hdc)
    have ha := (h.mem a).mpr ha
    have hb := (h.mem b).mpr hb
    match out, hone, ha, hb with
    | [], _, ha, _ => cases ha
    | [c], _, ha, hb => exact (List.mem_singleton.mp ha).trans (List.mem_singleton.mp hb).symm
    | c :: d :: l, hone, _, _ => exact absurd rfl (hone c d l)
  · intro hone
    refine ⟨h.mem, ?_⟩
    cases direction with
    | forward => exact hsorted
    | noMovement =>
      exact hsorted.imp fun hlt he => by
        rw [he] at hlt
        exact ItemPointer.Before.irrefl _ hlt
    | backward =>
      show (out.map tidOf).Pairwise fun p q => q.Before p
      have hsame := hone rfl
      match out, h, hsorted with
      | [], _, _ => exact List.Pairwise.nil
      | [c], _, _ => exact List.pairwise_singleton ..
      | c :: d :: l, h, hsorted =>
        have hcd : c = d := hsame ((h.mem c).mp List.mem_cons_self)
          ((h.mem d).mp (List.mem_cons_of_mem _ List.mem_cons_self))
        have hlt := (List.pairwise_cons.mp hsorted).1 (tidOf d) List.mem_cons_self
        rw [hcd] at hlt
        exact absurd hlt (ItemPointer.Before.irrefl _)

/-- **Which scans return what they are to return**: those of whole tables unless they go backward over more than
one visible item, and those of a range unless they go backward over a range that has one, with a visible item in
front of it in the block where it begins. -/
theorem scans_complete_iff (x : XactState) (own : List Nat) (te : Table (EntityTuple μ)) (r : CatalogReader)
    (t : PhysicalTable CatalogItem) (key : List Nat → Bool) (mintid maxtid : ItemPointer)
    (direction : ScanDirection) :
    (ScansAll EntitySlot.tid direction (liveSlots x own te) (npEntityStoreScan x own te direction) ↔
      (direction = .backward → (liveSlots x own te).Subsingleton)) ∧
    (ScansAll TupleTableSlot.tid direction (visibleSlots r t.toTable key)
        (npCatalogScan r t.toTable key direction) ↔
      (direction = .backward → (visibleSlots r t.toTable key).Subsingleton)) ∧
    (ScansRange (visibleSlots r t.toTable key) mintid maxtid
        (npCatalogTidrangeScan r t.toTable key mintid maxtid direction) ↔
      (direction = .backward →
        (∃ slot ∈ visibleSlots r t.toTable key, ¬ slot.tid.Before mintid ∧ ¬ maxtid.Before slot.tid) →
          ¬ ∃ slot ∈ visibleSlots r t.toTable key, slot.tid.block = mintid.block ∧
            slot.tid.offset < mintid.offset)) :=
  ⟨scansAll_iff (entityScan_sorted ..) direction, scansAll_iff (catalogScan_sorted ..) direction,
    tidrangeScan_eq ..⟩

end

/-! ## A backward scan of two rows -/

/-- Transaction 5 has committed, and nobody else has written. -/
def exampleLateReader : CatalogReader := ⟨⟨6, Function.update (fun _ => .aborted) 5 .committed⟩, [], none⟩

/-- It has inserted two rows. -/
def exampleTwoRows : PhysicalTable CatalogItem where
  pages := [⟨[some (55, ⟨⟨5, 0, 0, 0⟩, .invalid, 0, List.replicate 23 0⟩),
    some (55, ⟨⟨5, 0, 0, 0⟩, .invalid, 0, List.replicate 23 0⟩)]⟩]
  lower_le := by decide

/-- **Backward scans fail.** That of the whole catalog returns the rows in forward order; that of the range
of the second row takes the first one for the end, and returns nothing. -/
theorem scans_complete_fails :
    (¬ ScansAll TupleTableSlot.tid .backward
      (visibleSlots exampleLateReader exampleTwoRows.toTable fun _ => true)
      (npCatalogScan exampleLateReader exampleTwoRows.toTable (fun _ => true) .backward)) ∧
    ¬ ScansRange (visibleSlots exampleLateReader exampleTwoRows.toTable fun _ => true) ⟨0, 2⟩ ⟨0, 2⟩
      (npCatalogTidrangeScan exampleLateReader exampleTwoRows.toTable (fun _ => true) ⟨0, 2⟩ ⟨0, 2⟩
        .backward) := by
  constructor
  · intro h
    have hordered : List.Pairwise (fun p q => ItemPointer.Before q p)
        ((npCatalogScan exampleLateReader exampleTwoRows.toTable (fun _ => true) .backward).map
          TupleTableSlot.tid) := h.ordered
    exact absurd hordered (by decide +kernel)
  · intro h
    have hmem := (h.mem ⟨⟨0, 2⟩, List.replicate 23 0⟩).mpr
      ⟨⟨by decide +kernel, rfl⟩, by decide, by decide⟩
    have hnone : npCatalogTidrangeScan exampleLateReader exampleTwoRows.toTable (fun _ => true) ⟨0, 2⟩ ⟨0, 2⟩
        .backward = [] := by decide +kernel
    rw [hnone] at hmem
    cases hmem

end NeoPostGraph
