import NeoPostGraph.Access.ScanOrder

/-!
# Validation of an index

The second scan of a catalog when an index is created concurrently (`np_catalog_heap.c:971-1053`). The tids
the index has are in a sort, in order; the scan of the catalog is merged with it, and what the index lacks is
inserted.

* `advanceCursor`: the inner loop, which takes tids from the sort until one is not behind.
* `validateSlot`: the body of the outer loop. `npCatalogIndexValidateScan`: the whole scan.
* `IndexComplete`: what the scan is for.

Results:
* `advanceCursor_pending`: the inner loop drops the tids behind the heap cursor.
* `validateSlot_spec`: the body inserts the slot exactly when its tid is not among the tids pending.
* `indexValidateScan_complete`: the scan inserts what is missing, once each.
-/

namespace NeoPostGraph

open SlottedPage

/-- `ValidateIndexState`, the local variables of the scan and the calls of `index_insert` it has made. -/
structure ValidateIndexState where
  /-- What `tuplesort_getdatum` has still to return, decoded. -/
  tuplesort : List ItemPointer
  htups : Nat
  tupsInserted : Nat
  indexcursor : Option ItemPointer
  tuplesortEmpty : Bool
  inserts : List TupleTableSlot

/-- The inner loop, as long as the sort is not empty. -/
def advanceCursor (heapcursor : ItemPointer) (s : ValidateIndexState) :
    List ItemPointer → Option ItemPointer → ValidateIndexState
  | [], indexcursor =>
    if indexcursor.all fun tid => decide (tid.Before heapcursor) then
      { s with tuplesort := [], indexcursor := none, tuplesortEmpty := true }
    else { s with tuplesort := [], indexcursor := indexcursor }
  | tid :: tids, indexcursor =>
    if indexcursor.all fun tid => decide (tid.Before heapcursor) then
      advanceCursor heapcursor s tids (some tid)
    else { s with tuplesort := tid :: tids, indexcursor := indexcursor }

/-- The body of the outer loop. -/
def validateSlot (predicate : Option (TupleTableSlot → Bool)) (s : ValidateIndexState) (slot : TupleTableSlot) :
    ValidateIndexState :=
  let s := { s with htups := s.htups + 1 }
  let s := if s.tuplesortEmpty then s else advanceCursor slot.tid s s.tuplesort s.indexcursor
  if s.tuplesortEmpty || s.indexcursor.any fun tid => decide (slot.tid.Before tid) then
    if predicate.any fun p => !p slot then s
    else { s with inserts := s.inserts ++ [slot], tupsInserted := s.tupsInserted + 1 }
  else s

/-- `np_catalog_index_validate_scan` (`np_catalog_heap.c:971-1053`), when the index has these tids. -/
def npCatalogIndexValidateScan (r : CatalogReader) (t : Table CatalogItem)
    (predicate : Option (TupleTableSlot → Bool)) (tuplesort : List ItemPointer) : ValidateIndexState :=
  Cursor.loop (npCatalogScanGetnextslot r t) (validateSlot predicate) (t.entries.length + 1)
    (npCatalogScanBegin t (fun _ => true) none) ⟨tuplesort, 0, 0, none, false, []⟩

/-- The tuples that belong in the index: visible, and let through by the predicate. -/
def indexedSlots (r : CatalogReader) (t : Table CatalogItem) (predicate : Option (TupleTableSlot → Bool)) :
    Set TupleTableSlot :=
  { slot | slot ∈ visibleSlots r t (fun _ => true) ∧ predicate.all (· slot) = true }

/-- **The index is complete after these insertions, and each was needed.** -/
structure IndexComplete (slots : Set TupleTableSlot) (tids : List ItemPointer)
    (inserts : List TupleTableSlot) : Prop where
  entry : ∀ slot ∈ slots, slot.tid ∈ tids ++ inserts.map TupleTableSlot.tid
  missing : ∀ slot, slot ∈ inserts ↔ slot ∈ slots ∧ slot.tid ∉ tids
  once : (inserts.map TupleTableSlot.tid).Nodup

/-! ## One slot -/

/-- The tids the scan has not passed. -/
def ValidateIndexState.pending (s : ValidateIndexState) : List ItemPointer :=
  s.indexcursor.toList ++ s.tuplesort

/-- The flag says that there are none. -/
def ValidateIndexState.Flagged (s : ValidateIndexState) : Prop := s.tuplesortEmpty = true → s.pending = []

section

variable {r : CatalogReader} {t : Table CatalogItem} {predicate : Option (TupleTableSlot → Bool)}
  {s : ValidateIndexState} {slot : TupleTableSlot} {heapcursor tid : ItemPointer}
  {tids : List ItemPointer} {slots : List TupleTableSlot}

/-- **The inner loop drops the tids behind the heap cursor**, and stops with the first other one. -/
theorem advanceCursor_pending (hempty : s.tuplesortEmpty = false) (tids : List ItemPointer)
    (indexcursor : Option ItemPointer) :
    let s' := advanceCursor heapcursor s tids indexcursor
    s'.pending = (indexcursor.toList ++ tids).dropWhile (fun tid => decide (tid.Before heapcursor)) ∧
      s'.indexcursor = s'.pending.head? ∧ (s'.tuplesortEmpty = true ↔ s'.pending = []) ∧
      s'.inserts = s.inserts ∧ s'.htups = s.htups ∧ s'.tupsInserted = s.tupsInserted := by
  induction tids generalizing indexcursor with
  | nil =>
    unfold advanceCursor
    cases indexcursor with
    | none => simp [ValidateIndexState.pending]
    | some tid =>
      by_cases hb : tid.Before heapcursor
      · simp [ValidateIndexState.pending, hb]
      · simp [ValidateIndexState.pending, hb, hempty]
  | cons next tids ih =>
    unfold advanceCursor
    cases indexcursor with
    | none => simpa using ih (some next)
    | some tid =>
      by_cases hb : tid.Before heapcursor
      · simpa [hb] using ih (some next)
      · simp [ValidateIndexState.pending, hb, hempty]

/-- Only tids behind are dropped. -/
theorem mem_dropWhile_iff (h : ¬ tid.Before heapcursor) :
    tid ∈ tids.dropWhile (fun tid => decide (tid.Before heapcursor)) ↔ tid ∈ tids := by
  induction tids with
  | nil => exact Iff.rfl
  | cons next tids ih =>
    rw [List.dropWhile_cons]
    split_ifs with hnext
    · rw [ih, List.mem_cons]
      refine ⟨Or.inr, fun hmem => hmem.resolve_left ?_⟩
      rintro rfl
      exact h (of_decide_eq_true hnext)
    · exact Iff.rfl

/-- Where the first tid that is not behind stands to the heap cursor. -/
theorem mem_iff_head (hsorted : tids.Pairwise fun p q => ¬ q.Before p) {first : ItemPointer}
    {rest : List ItemPointer}
    (h : tids.dropWhile (fun tid => decide (tid.Before heapcursor)) = first :: rest) :
    heapcursor ∈ tids ↔ ¬ heapcursor.Before first := by
  have hfirst : ¬ first.Before heapcursor := by
    have hnot := List.head?_dropWhile_not (fun tid => decide (ItemPointer.Before tid heapcursor)) tids
    rw [h] at hnot
    simpa using hnot
  rw [← mem_dropWhile_iff (ItemPointer.Before.irrefl heapcursor), h, List.mem_cons]
  have hrest := List.pairwise_cons.mp (h ▸ hsorted.sublist (List.dropWhile_sublist _))
  constructor
  · rintro (rfl | hmem)
    · exact ItemPointer.Before.irrefl _
    · exact hrest.1 heapcursor hmem
  · intro hnot
    rcases heapcursor.before_trichotomy first with hlt | heq | hgt
    · exact absurd hlt hnot
    · exact Or.inl heq
    · exact absurd hgt hfirst

/-- **The body inserts the slot exactly when its tid is not pending** and the predicate lets it through. -/
theorem validateSlot_spec (predicate : Option (TupleTableSlot → Bool)) (hflag : s.Flagged)
    (hsorted : s.pending.Pairwise fun p q => ¬ q.Before p) (slot : TupleTableSlot) :
    let s' := validateSlot predicate s slot
    s'.pending = s.pending.dropWhile (fun tid => decide (tid.Before slot.tid)) ∧ s'.Flagged ∧
      s'.inserts = s.inserts ++ [slot].filter (fun slot => slot.tid ∉ s.pending ∧ predicate.all (· slot)) := by
  -- the state behind the inner loop
  obtain ⟨s₁, hs₁, hpending, hcursor, hempty, hinserts⟩ : ∃ s₁ : ValidateIndexState,
      (if s.tuplesortEmpty then { s with htups := s.htups + 1 }
        else advanceCursor slot.tid { s with htups := s.htups + 1 } s.tuplesort s.indexcursor) = s₁ ∧
      s₁.pending = s.pending.dropWhile (fun tid => decide (tid.Before slot.tid)) ∧
      (s₁.tuplesortEmpty = false → s₁.indexcursor = s₁.pending.head?) ∧
      (s₁.tuplesortEmpty = true ↔ s₁.pending = []) ∧ s₁.inserts = s.inserts := by
    refine ⟨_, rfl, ?_⟩
    split_ifs with he
    · have hnil := hflag he
      refine ⟨?_, fun hf => ?_, iff_of_true he hnil, rfl⟩
      · rw [hnil]
        exact hnil
      · rw [show s.tuplesortEmpty = false from hf] at he
        cases he
    · have hadv := @advanceCursor_pending { s with htups := s.htups + 1 } slot.tid
        (Bool.not_eq_true _ ▸ he) s.tuplesort s.indexcursor
      exact ⟨hadv.1, fun _ => hadv.2.1, hadv.2.2.1, hadv.2.2.2.1⟩
  have hneeded : (s₁.tuplesortEmpty || s₁.indexcursor.any fun tid => decide (slot.tid.Before tid)) = true ↔
      slot.tid ∉ s.pending := by
    cases hp : s₁.pending with
    | nil =>
      rw [hempty.mpr hp, Bool.true_or, ← mem_dropWhile_iff (ItemPointer.Before.irrefl slot.tid), ← hpending, hp]
      exact iff_of_true rfl List.not_mem_nil
    | cons first rest =>
      have hne : s₁.tuplesortEmpty = false := by
        rw [← Bool.not_eq_true, hempty, hp]
        exact List.cons_ne_nil first rest
      rw [hne, Bool.false_or, hcursor hne, hp, List.head?_cons, Option.any_some, decide_eq_true_eq,
        mem_iff_head hsorted (hpending.symm.trans hp), not_not]
  have hbody : validateSlot predicate s slot =
      if s₁.tuplesortEmpty || s₁.indexcursor.any fun tid => decide (slot.tid.Before tid) then
        if predicate.any fun p => !p slot then s₁
        else { s₁ with inserts := s₁.inserts ++ [slot], tupsInserted := s₁.tupsInserted + 1 }
      else s₁ := by
    rw [← hs₁]
    rfl
  have hall : (predicate.any fun p => !p slot) = true ↔ ¬ predicate.all (· slot) = true := by
    cases predicate <;> simp
  dsimp only
  rw [hbody]
  have hflag₁ : s₁.Flagged := hempty.mp
  split_ifs with hins hpred
  · refine ⟨hpending, hflag₁, ?_⟩
    rw [hinserts, List.filter_cons_of_neg (by simp [hall.mp hpred]), List.filter_nil, List.append_nil]
  · refine ⟨hpending, hflag₁, ?_⟩
    have hpred : predicate.all (· slot) = true := not_not.mp (mt hall.mpr hpred)
    show s₁.inserts ++ [slot] = _
    rw [hinserts, List.filter_cons_of_pos (by simp [hneeded.mp hins, hpred]), List.filter_nil]
  · refine ⟨hpending, hflag₁, ?_⟩
    rw [hinserts, List.filter_cons_of_neg (by simp [not_not.mp (mt hneeded.mpr hins)]), List.filter_nil,
      List.append_nil]

/-! ## The whole scan -/

/-- **What is inserted while the slots come in order of tids**: those that are not pending at the beginning. -/
theorem foldl_validateSlot (hflag : s.Flagged) (hsorted : s.pending.Pairwise fun p q => ¬ q.Before p)
    (hslots : (slots.map TupleTableSlot.tid).Pairwise ItemPointer.Before) :
    (slots.foldl (validateSlot predicate) s).inserts =
      s.inserts ++ slots.filter fun slot => slot.tid ∉ s.pending ∧ predicate.all (· slot) := by
  induction slots generalizing s with
  | nil => exact (List.append_nil _).symm
  | cons slot slots ih =>
    obtain ⟨hpending, hflag', hinserts⟩ := validateSlot_spec predicate hflag hsorted slot
    obtain ⟨hfirst, hslots⟩ := List.pairwise_cons.mp hslots
    have hsorted' := hsorted.sublist (List.dropWhile_sublist fun tid => decide (tid.Before slot.tid))
    rw [← hpending] at hsorted'
    rw [List.foldl_cons, ih hflag' hsorted' hslots, hinserts, List.append_assoc]
    congr 1
    rw [show slot :: slots = [slot] ++ slots from rfl, List.filter_append]
    congr 1
    refine List.filter_congr fun later hlater => ?_
    -- what has been dropped comes before the slot, and so before the later ones
    have hbefore := hfirst later.tid (List.mem_map_of_mem hlater)
    have hkeep : ¬ later.tid.Before slot.tid := fun h => ItemPointer.Before.irrefl _ (h.trans hbefore)
    rw [hpending]
    exact decide_eq_decide.mpr (and_congr_left fun _ => not_congr (mem_dropWhile_iff hkeep))

/-- **After the scan every visible tuple that satisfies the predicate has an entry; `index_insert` was called
for those without one, and once each.** -/
theorem indexValidateScan_complete (r : CatalogReader) (t : Table CatalogItem)
    (predicate : Option (TupleTableSlot → Bool)) (hsorted : tids.Pairwise fun p q => ¬ q.Before p) :
    IndexComplete (indexedSlots r t predicate) tids (npCatalogIndexValidateScan r t predicate tids).inserts := by
  have hscan := catalogScan_sorted r t (fun _ => true) .forward
  have hinserts : (npCatalogIndexValidateScan r t predicate tids).inserts =
      (npCatalogScan r t (fun _ => true) .forward).filter
        fun slot => slot.tid ∉ tids ∧ predicate.all (· slot) := by
    unfold npCatalogIndexValidateScan
    rw [Cursor.loop_eq]
    exact foldl_validateSlot (s := ⟨tids, 0, 0, none, false, []⟩) nofun hsorted hscan.ordered
  have hmem : ∀ slot, slot ∈ (npCatalogIndexValidateScan r t predicate tids).inserts ↔
      slot ∈ indexedSlots r t predicate ∧ slot.tid ∉ tids := by
    intro slot
    rw [hinserts, List.mem_filter, hscan.mem, decide_eq_true_eq]
    exact ⟨fun h => ⟨⟨h.1, h.2.2⟩, h.2.1⟩, fun h => ⟨h.1.1, h.2, h.1.2⟩⟩
  refine ⟨fun slot hslot => ?_, hmem, ?_⟩
  · by_cases htid : slot.tid ∈ tids
    · exact List.mem_append_left _ htid
    · exact List.mem_append_right _ (List.mem_map_of_mem ((hmem slot).mpr ⟨hslot, htid⟩))
  · rw [hinserts]
    refine List.Nodup.sublist (List.filter_sublist.map _) ?_
    have hordered : ((npCatalogScan r t (fun _ => true) .forward).map TupleTableSlot.tid).Pairwise
      ItemPointer.Before := hscan.ordered
    exact hordered.imp fun hlt he => by
      rw [he] at hlt
      exact ItemPointer.Before.irrefl _ hlt

end

/-- The index has the first of two rows, and a dead entry behind both. -/
theorem indexValidateScan_complete_example :
    IndexComplete (indexedSlots exampleLateReader exampleTwoRows.toTable none) [⟨0, 1⟩, ⟨0, 3⟩]
      (npCatalogIndexValidateScan exampleLateReader exampleTwoRows.toTable none [⟨0, 1⟩, ⟨0, 3⟩]).inserts :=
  indexValidateScan_complete exampleLateReader exampleTwoRows.toTable none (by decide)

end NeoPostGraph
