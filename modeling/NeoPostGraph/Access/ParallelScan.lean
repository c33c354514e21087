import NeoPostGraph.Access.CatalogReads

/-!
# Parallel scans of a catalog

The access method offers parallel scans: it fills in the descriptor that the participants of a scan
share, and each of them begins its scan with it. `np_catalog_scan_getnextslot` goes by the position of
its own scan alone.

* `ParallelScan`: the scans of `n` participants, what each was returned, and who was told that there
  is no more. `ParallelScan.run` is any order of their calls.
* `Partitions`: together they were returned what a serial scan returns, each row once.

Result: `partitions_iff`, when every participant has come to its end they have partitioned the table
exactly when there is one participant, or no row to return.
-/

namespace NeoPostGraph

open SlottedPage

/-- The scans of the participants, with what they were returned so far. -/
structure ParallelScan (n : Nat) where
  pscan : ParallelBlockTableScanDesc
  scans : Fin n → NPCatalogScanDesc
  returned : Fin n → List TupleTableSlot
  /-- The participants told that there is no more. -/
  ended : Fin n → Bool

namespace ParallelScan

variable {n : Nat}

/-- Each participant begins a scan without keys with the shared descriptor. -/
def start (n : Nat) (t : Table CatalogItem) : ParallelScan n where
  pscan := npCatalogParallelscanInitialize t
  scans _ := npCatalogScanBegin t (fun _ => true) (some (npCatalogParallelscanInitialize t))
  returned _ := []
  ended _ := false

/-- Participant `i` calls `np_catalog_scan_getnextslot`. -/
def call (r : CatalogReader) (t : Table CatalogItem) (st : ParallelScan n) (i : Fin n) :
    ParallelScan n :=
  let (slot, scan) := npCatalogScanGetnextslot r t (st.scans i)
  { st with
    scans := Function.update st.scans i scan
    returned := Function.update st.returned i (st.returned i ++ slot.toList)
    ended := Function.update st.ended i (st.ended i || slot.isNone) }

/-- The participants call in this order. -/
def run (r : CatalogReader) (t : Table CatalogItem) (calls : List (Fin n)) : ParallelScan n :=
  calls.foldl (call r t) (start n t)

/-- Every participant has come to its end. -/
def Finished (st : ParallelScan n) : Prop := ∀ i, st.ended i = true

instance (st : ParallelScan n) : Decidable st.Finished := inferInstanceAs (Decidable (∀ _, _))

/-- **The participants have partitioned the table**: what they were returned is, taken together, what
a serial scan returns, and each row once. -/
def Partitions (r : CatalogReader) (t : Table CatalogItem) (st : ParallelScan n) : Prop :=
  ((List.finRange n).flatMap st.returned).Perm (npCatalogSeqScan r t)

section

variable {r : CatalogReader} {t : Table CatalogItem} {st : ParallelScan n}

/-- Where a participant stands. -/
structure ScanInv (r : CatalogReader) (t : Table CatalogItem) (scan : NPCatalogScanDesc)
    (returned : List TupleTableSlot) (ended : Bool) : Prop where
  key : scan.key = fun _ => true
  nblocks : scan.pos.nblocks = t.nblocks
  /-- What it was returned are the slots of the tids its scan has gathered. -/
  gathered : ∃ tids, PageScan.Gathered t (scanTest r fun _ => true) scan.pos tids ∧
    returned = tids.filterMap (r.slot t)
  atEnd : ended = true → scan.pos.AtEnd

theorem scanInv_start (pscan : Option ParallelBlockTableScanDesc) :
    ScanInv r t (npCatalogScanBegin t (fun _ => true) pscan) [] false where
  key := rfl
  nblocks := rfl
  gathered := ⟨[], PageScan.gathered_start _ _ _, rfl⟩
  atEnd h := by cases h

/-- **A call takes a participant on in its own scan.** -/
theorem ScanInv.call {scan : NPCatalogScanDesc} {returned : List TupleTableSlot} {ended : Bool}
    (h : ScanInv r t scan returned ended) :
    ScanInv r t (npCatalogScanGetnextslot r t scan).2
      (returned ++ (npCatalogScanGetnextslot r t scan).1.toList)
      (ended || (npCatalogScanGetnextslot r t scan).1.isNone) := by
  obtain ⟨tids, hg, hret⟩ := h.gathered
  obtain ⟨tid, pos, hnext, hn, hg', hend⟩ := PageScan.next_spec hg
  have hstill : ended = true → tid = none ∧ pos = scan.pos := fun he => by
    rw [PageScan.next_atEnd (h.atEnd he)] at hnext
    obtain ⟨rfl, rfl⟩ := Prod.mk.inj hnext
    exact ⟨rfl, rfl⟩
  unfold npCatalogScanGetnextslot
  rw [h.key, hnext]
  refine ⟨rfl, hn.trans h.nblocks, ⟨_, hg', ?_⟩, fun he => ?_⟩
  · rw [hret, List.filterMap_append]
    congr 1
    cases tid with
    | none => rfl
    | some tid =>
      obtain ⟨hstore, hsome⟩ := storeHeapTuple_of_passes (PageScan.passes_of_nextLoop _ hnext)
      obtain ⟨slot, hslot⟩ := Option.isSome_iff_exists.mp hsome
      simp [hstore, hslot]
  · cases tid with
    | none => exact hend rfl
    | some tid =>
      rcases Bool.or_eq_true_iff.mp he with he | he
      · cases (hstill he).1
      · obtain ⟨hstore, hsome⟩ := storeHeapTuple_of_passes (PageScan.passes_of_nextLoop _ hnext)
        dsimp only at he
        rw [Option.bind_some, hstore] at he
        rw [Option.isNone_iff_eq_none.mp he] at hsome
        cases hsome

/-- Every participant stands so, after any calls. -/
def Inv (r : CatalogReader) (t : Table CatalogItem) (st : ParallelScan n) : Prop :=
  ∀ i, ScanInv r t (st.scans i) (st.returned i) (st.ended i)

/-- **A call keeps the participants where they stand**, but for the caller. -/
theorem Inv.call (h : st.Inv r t) (i : Fin n) : (st.call r t i).Inv r t := by
  intro j
  unfold ParallelScan.call
  dsimp only
  by_cases hj : j = i
  · subst hj
    rw [Function.update_self, Function.update_self, Function.update_self]
    exact (h j).call
  · rw [Function.update_of_ne hj, Function.update_of_ne hj, Function.update_of_ne hj]
    exact h j

theorem inv_run (r : CatalogReader) (t : Table CatalogItem) (calls : List (Fin n)) :
    (run r t calls).Inv r t := by
  unfold run
  have hstart : (start n t).Inv r t := fun _ => scanInv_start _
  generalize start n t = st at hstart
  induction calls generalizing st with
  | nil => exact hstart
  | cons i calls ih => exact ih _ (hstart.call i)

/-- A participant at its end has been returned what a serial scan returns. -/
theorem ScanInv.perm {scan : NPCatalogScanDesc} {returned : List TupleTableSlot}
    (h : ScanInv r t scan returned true) : returned.Perm (npCatalogSeqScan r t) := by
  obtain ⟨tids, hg, rfl⟩ := h.gathered
  have hnodup : (tids.filterMap (r.slot t)).Nodup := hg.nodup.filterMap fun a b slot ha hb => by
    rw [← slot_tid ha, ← slot_tid hb]
  refine (List.perm_ext_iff_of_nodup hnodup (nodup_seqScan r t)).mpr fun slot => ?_
  rw [mem_seqScan, List.mem_filterMap]
  constructor
  · rintro ⟨tid, -, hs⟩
    rwa [slot_tid hs]
  · intro hs
    refine ⟨slot.tid, (hg.mem_atEnd (h.atEnd rfl) h.nblocks).mpr (passes_iff_slot.mpr ?_), hs⟩
    rw [hs]
    rfl

/-- What participants at their ends were returned, taken together, is as many serial scans. -/
theorem length_returned (h : st.Inv r t) (hend : st.Finished) :
    ((List.finRange n).flatMap st.returned).length = n * (npCatalogSeqScan r t).length := by
  have hlen : ∀ i, (st.returned i).length = (npCatalogSeqScan r t).length := fun i => by
    have hi := h i
    rw [hend i] at hi
    exact hi.perm.length_eq
  rw [List.length_flatMap]
  simp [hlen]

/-- **The participants of a parallel scan, at their ends, have partitioned the table exactly when
there is one participant, or no row that the snapshot sees.** -/
theorem partitions_iff (n : Nat) (r : CatalogReader) (t : Table CatalogItem) (calls : List (Fin n))
    (hend : (run r t calls).Finished) :
    (run r t calls).Partitions r t ↔ n = 1 ∨ npCatalogSeqScan r t = [] := by
  have hinv := inv_run r t calls
  have hlen := length_returned hinv hend
  constructor
  · intro hp
    have heq := hp.length_eq
    rw [hlen] at heq
    rcases Nat.eq_zero_or_pos (npCatalogSeqScan r t).length with h0 | hpos
    · exact Or.inr (List.eq_nil_of_length_eq_zero h0)
    · exact Or.inl (Nat.eq_of_mul_eq_mul_right hpos (by rw [heq, Nat.one_mul]))
  · rintro (rfl | hnil)
    · have h0 := hinv 0
      rw [hend 0] at h0
      show ((List.finRange 1).flatMap (run r t calls).returned).Perm _
      simpa [List.finRange_succ] using h0.perm
    · unfold Partitions
      rw [hnil] at hlen ⊢
      rw [List.eq_nil_of_length_eq_zero hlen]

end

/-! ## Two participants and one row -/

/-- A reader that sees every item that is live. -/
def exampleAnyReader : CatalogReader := ⟨⟨10, fun _ => .committed⟩, [], some (.mvcc, ⟨10, 10, [], 0⟩)⟩

/-- A catalog of one item. -/
def exampleOneItem : Table CatalogItem :=
  ⟨[⟨[some (55, ⟨⟨5, 0, 0, 0⟩, .invalid, 0, List.replicate 23 0⟩)]⟩]⟩

theorem partitions_iff_example :
    (run (n := 2) exampleAnyReader exampleOneItem [0, 1, 0, 1]).Partitions exampleAnyReader
      exampleOneItem ↔ 2 = 1 ∨ npCatalogSeqScan exampleAnyReader exampleOneItem = [] :=
  partitions_iff 2 exampleAnyReader exampleOneItem [0, 1, 0, 1] (by decide)

/-- Both participants are returned the one row. -/
theorem partitions_fails : ∃ calls : List (Fin 2),
    (run exampleAnyReader exampleOneItem calls).Finished ∧
      ¬ (run exampleAnyReader exampleOneItem calls).Partitions exampleAnyReader exampleOneItem :=
  ⟨[0, 1, 0, 1], by decide, fun h => absurd h.length_eq (by decide)⟩

end ParallelScan

end NeoPostGraph
