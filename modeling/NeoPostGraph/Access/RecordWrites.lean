import NeoPostGraph.Graph.State

/-!
# Sequences of record writes

`np_write_record_to_page` (`np_entity_store.c:322-376`) with what it leaves behind when it fails. A relation
is extended by a page of zeros, which becomes a page with the first record that is added to it; a record
that is too long leaves the page as it is.

* `RecordRel`: a relation whose records are bytes, with its new pages.
* `writeRecord`: the function. `writeRecords`: one call after the other.

Results:
* `writeRecord_spec`: a call does what `npWriteRecordToPage` says, which knows no new pages.
* `writeRecords_spec`: after any calls each id reads the bytes written for it, and a call fails only for a
  record that fits on no page.
-/

namespace NeoPostGraph

open SlottedPage

/-! ## The function -/

/-- The pages of a relation: `none` is one that `PageIsNew`. -/
structure RecordRel where
  pages : List (Option (Page (List UInt8)))
deriving DecidableEq, Repr

namespace RecordRel

/-- `RelationGetNumberOfBlocks`. -/
def nblocks (rel : RecordRel) : Nat := rel.pages.length

/-- `ReadBuffer(rel, P_NEW)`. -/
def extend (rel : RecordRel) : RecordRel := ⟨rel.pages ++ [none]⟩

/-- What a reader sees: a new page has no line pointers. -/
def table (rel : RecordRel) : Table (List UInt8) := ⟨rel.pages.map fun page => page.getD Page.init⟩

/-- The bytes of the item at an id. -/
def read (rel : RecordRel) (tid : ItemPointer) : Option (List UInt8) := rel.table.get tid

end RecordRel

/-- The block that `np_write_record_to_page` comes to hold, and the relation then. -/
def recordTarget (rel : RecordRel) (dataSize : Nat) : RecordRel × Nat :=
  let blockNum := rel.nblocks
  let (rel, block) := if blockNum = 0 then (rel.extend, 0) else (rel, blockNum - 1)
  let spaceNeeded := maxAlign dataSize + sizeOfItemIdData
  match (rel.pages[block]?).join with
  | some page => if page.freeSpace < spaceNeeded then (rel.extend, rel.nblocks) else (rel, block)
  | none => (rel, block)

/-- `np_write_record_to_page`. -/
def writeRecord (rel : RecordRel) (data : List UInt8) : Except Err ItemPointer × RecordRel :=
  let (rel, block) := recordTarget rel data.length
  let page := ((rel.pages[block]?).join).getD Page.init
  match page.addItem data.length data with
  | none => (.error .addTupleFailed, rel)
  | some (page', offnum) => (.ok ⟨block, offnum⟩, ⟨rel.pages.set block (some page')⟩)

/-- One call after the other, with what each has returned. -/
def writeRecords (rel : RecordRel) : List (List UInt8) → List (Except Err ItemPointer) × RecordRel
  | [] => ([], rel)
  | data :: rest =>
    let (result, rel) := writeRecord rel data
    let (results, rel) := writeRecords rel rest
    (result :: results, rel)

/-! ## One call -/

variable {rel rel' : RecordRel} {data : List UInt8} {tid : ItemPointer}

theorem table_extend (rel : RecordRel) : rel.extend.table = ⟨rel.table.pages ++ [Page.init]⟩ := by
  simp [RecordRel.extend, RecordRel.table]

/-- A page of zeros has no item. -/
theorem read_extend (rel : RecordRel) (tid : ItemPointer) : rel.extend.read tid = rel.read tid := by
  unfold RecordRel.read
  rw [table_extend, Table.get_concat]
  split_ifs with hblock
  · rw [Page.get_init]
    unfold Table.get
    rw [hblock, List.getElem?_eq_none (Nat.le_refl _)]
    rfl
  · rfl

/-- A page without items has room for whatever fits on an empty page. -/
theorem freeSpace_init_lt {len : Nat} (h : (Page.init : Page (List UInt8)).freeSpace < maxAlign len + sizeOfItemIdData) :
    ¬ Fits len := by
  unfold Fits
  have hinit : (Page.init : Page (List UInt8)).freeSpace = 8164 := by decide
  rw [hinit] at h
  unfold sizeOfItemIdData at h
  unfold sizeOfPageHeaderData sizeOfItemIdData blcksz maxAlign at *
  omega

/-- The call holds the last page, or a new one behind it, and has changed no item. -/
theorem recordTarget_last (rel : RecordRel) (len : Nat) :
    ∃ front last, recordTarget rel len = (⟨front ++ [last]⟩, front.length) ∧
      ∀ tid, (RecordRel.mk (front ++ [last])).read tid = rel.read tid := by
  obtain ⟨pages⟩ := rel
  unfold recordTarget RecordRel.nblocks
  rcases List.eq_nil_or_concat pages with rfl | ⟨front, last, hpages⟩
  · exact ⟨[], none, rfl, read_extend ⟨[]⟩⟩
  · rw [List.concat_eq_append] at hpages
    subst hpages
    have hne : (front ++ [last]).length ≠ 0 := by simp
    have hlast : (front ++ [last])[(front ++ [last]).length - 1]?.join = last := by simp
    simp only [hne, if_false, hlast]
    cases last with
    | none => exact ⟨front, none, by simp, fun _ => rfl⟩
    | some page =>
      dsimp only
      split_ifs
      · exact ⟨front ++ [some page], none, rfl, read_extend ⟨front ++ [some page]⟩⟩
      · exact ⟨front, some page, by simp, fun _ => rfl⟩

/-- **The page the call holds is the one `Table.write` writes to**, if the record fits on an empty one. -/
theorem writeTarget_of_recordTarget {len : Nat} {front : List (Option (Page (List UInt8)))}
    {last : Option (Page (List UInt8))} (hfits : Fits len)
    (h : recordTarget rel len = (⟨front ++ [last]⟩, front.length)) :
    rel.table.writeTarget len = ((RecordRel.mk front).table.pages, last.getD Page.init) := by
  obtain ⟨pages⟩ := rel
  unfold recordTarget RecordRel.nblocks at h
  rcases List.eq_nil_or_concat pages with rfl | ⟨front', last', hpages⟩
  · obtain ⟨rfl, rfl⟩ : front = [] ∧ last = none := by
      have hpages : [] ++ [none] = front ++ [last] := congrArg (fun x => x.1.pages) h
      obtain ⟨hfront, hlast⟩ := List.append_inj' hpages rfl
      exact ⟨hfront.symm, (List.cons.inj hlast).1.symm⟩
    rfl
  · rw [List.concat_eq_append] at hpages
    subst hpages
    have hne : (front' ++ [last']).length ≠ 0 := by simp
    have hlast : (front' ++ [last'])[(front' ++ [last']).length - 1]?.join = last' := by simp
    simp only [hne, if_false, hlast] at h
    have hget : (RecordRel.mk (front' ++ [last'])).table.pages.getLast? = some (last'.getD Page.init) := by
      simp [RecordRel.table]
    have hdrop : (RecordRel.mk (front' ++ [last'])).table.pages.dropLast = (RecordRel.mk front').table.pages := by
      simp [RecordRel.table]
    have hsame : ∀ {x y : Option (Page (List UInt8))} {xs ys : List (Option (Page (List UInt8)))} {n : Nat},
        ((RecordRel.mk (xs ++ [x]), n) : RecordRel × Nat) = (⟨ys ++ [y]⟩, ys.length) → xs = ys ∧ x = y := by
      intro x y xs ys n he
      have hpages : xs ++ [x] = ys ++ [y] := congrArg (fun z => z.1.pages) he
      simpa using List.append_inj' hpages rfl
    unfold Table.writeTarget
    rw [hget]
    dsimp only
    cases last' with
    | none =>
      obtain ⟨rfl, rfl⟩ := hsame h
      rw [Option.getD_none, if_neg fun hfull => freeSpace_init_lt hfull hfits, hdrop]
    | some page =>
      dsimp only at h
      simp only [Option.getD_some]
      split_ifs at h ⊢ with hfull
      · obtain ⟨rfl, rfl⟩ := hsame h
        rfl
      · obtain ⟨rfl, rfl⟩ := hsame h
        rw [hdrop]
        rfl

theorem fits_of_addItem {p p' : Page (List UInt8)} {len off : Nat} {a : List UInt8}
    (h : p.addItem len a = some (p', off)) : Fits len := by
  unfold Page.addItem at h
  split_ifs at h with hroom
  unfold Fits
  unfold Page.lower Page.upper at hroom
  omega

/-- **One call**: it does what `npWriteRecordToPage` says, and leaves every item alone when it fails, which
it does exactly for a record that does not fit on an empty page. -/
theorem writeRecord_spec (rel : RecordRel) (data : List UInt8) :
    (∃ tid rel', writeRecord rel data = (.ok tid, rel') ∧ Fits data.length ∧
        npWriteRecordToPage rel.table data data.length = .ok (rel'.table, tid)) ∨
      ∃ rel', writeRecord rel data = (.error .addTupleFailed, rel') ∧ ¬ Fits data.length ∧
        ∀ tid, rel'.read tid = rel.read tid := by
  obtain ⟨front, last, htarget, hread⟩ := recordTarget_last rel data.length
  have hpage : (front ++ [last])[front.length]?.join = last := by simp
  unfold writeRecord
  rw [htarget]
  dsimp only
  rw [hpage]
  cases hadd : (last.getD Page.init).addItem data.length data with
  | none =>
    refine Or.inr ⟨_, rfl, fun hfits => ?_, hread⟩
    -- the table it stands for takes every record that fits
    have hwrite := (Table.write_isSome rel.table data.length data).mpr hfits
    unfold Table.write at hwrite
    rw [writeTarget_of_recordTarget hfits htarget, hadd] at hwrite
    cases hwrite
  | some added =>
    obtain ⟨page', offnum⟩ := added
    have hfits := fits_of_addItem hadd
    refine Or.inl ⟨_, _, rfl, hfits, ?_⟩
    have hset : (RecordRel.mk ((front ++ [last]).set front.length (some page'))).table =
        ⟨(RecordRel.mk front).table.pages ++ [page']⟩ := by
      simp [RecordRel.table]
    unfold npWriteRecordToPage Table.write
    rw [writeTarget_of_recordTarget hfits htarget, hadd, hset]
    simp [RecordRel.table]

/-! ## Any number of calls -/

/-- The ids of the calls that have returned one, in the order of the calls. -/
def returnedIds (results : List (Except Err ItemPointer)) : List ItemPointer :=
  results.filterMap Except.toOption

/-- What a call has done to a relation: an id that reads the record now and read nothing before, behind
everything that could be read, or an error for a record that fits on no page. -/
structure Written (rel : RecordRel) (data : List UInt8) (result : Except Err ItemPointer) (rel' : RecordRel) :
    Prop where
  kept : ∀ tid bytes, rel.read tid = some bytes → rel'.read tid = some bytes
  stored : ∀ tid, result = .ok tid → rel'.read tid = some data
  behind : ∀ tid, result = .ok tid → ∀ tid' bytes, rel.read tid' = some bytes → tid'.Before tid
  failed : (∃ e, result = .error e) ↔ ¬ Fits data.length

/-- **A call keeps every record and stores its own**, whether the last page is new, full or has room. -/
theorem writeRecord_written (rel : RecordRel) (data : List UInt8) :
    Written rel data (writeRecord rel data).1 (writeRecord rel data).2 := by
  rcases writeRecord_spec rel data with ⟨tid, rel', hcall, hfits, hwrite⟩ | ⟨rel', hcall, hfits, hread⟩
  · rw [hcall]
    unfold npWriteRecordToPage at hwrite
    split at hwrite
    · cases hwrite
    · next written hwritten =>
      cases hwrite
      refine ⟨fun tid' bytes hbytes => ?_, ?_, ?_, ?_⟩
      · have hbefore := Table.before_write hwritten hbytes
        have hne : tid' ≠ tid := by
          rintro rfl
          exact ItemPointer.Before.irrefl _ hbefore
        exact (Table.write_ne hwritten hne).trans hbytes
      · rintro tid' heq
        cases heq
        exact Table.write_get hwritten
      · rintro tid' heq tid'' bytes hbytes
        cases heq
        exact Table.before_write hwritten hbytes
      · constructor
        · rintro ⟨e, he⟩
          cases he
        · intro hnot
          exact absurd hfits hnot
  · rw [hcall]
    refine ⟨fun tid bytes hbytes => (hread tid).trans hbytes, ?_, ?_, ?_⟩
    · rintro tid heq
      cases heq
    · rintro tid heq
      cases heq
    · exact ⟨fun _ => hfits, fun _ => ⟨_, rfl⟩⟩

theorem writeRecords_cons (rel : RecordRel) (data : List UInt8) (rest : List (List UInt8)) :
    writeRecords rel (data :: rest) =
      ((writeRecord rel data).1 :: (writeRecords (writeRecord rel data).2 rest).1,
        (writeRecords (writeRecord rel data).2 rest).2) := rfl

theorem returnedIds_ok (tid : ItemPointer) (results : List (Except Err ItemPointer)) :
    returnedIds (.ok tid :: results) = tid :: returnedIds results := rfl

theorem returnedIds_error (e : Err) (results : List (Except Err ItemPointer)) :
    returnedIds (.error e :: results) = returnedIds results := rfl

/-- What could be read before the calls can be read after them. -/
theorem writeRecords_kept (records : List (List UInt8)) (rel : RecordRel) {bytes : List UInt8}
    (h : rel.read tid = some bytes) : (writeRecords rel records).2.read tid = some bytes := by
  induction records generalizing rel with
  | nil => exact h
  | cons data rest ih =>
    rw [writeRecords_cons]
    exact ih _ ((writeRecord_written rel data).kept tid bytes h)

/-- Every id the calls return is behind what could be read before them. -/
theorem writeRecords_behind (records : List (List UInt8)) (rel : RecordRel) {tid' : ItemPointer}
    {bytes : List UInt8} (h : rel.read tid' = some bytes) :
    ∀ tid ∈ returnedIds (writeRecords rel records).1, tid'.Before tid := by
  induction records generalizing rel with
  | nil =>
    intro tid hmem
    cases hmem
  | cons data rest ih =>
    intro tid hmem
    have hwritten := writeRecord_written rel data
    have hrest := ih _ (hwritten.kept tid' bytes h)
    rw [writeRecords_cons] at hmem
    dsimp only at hmem
    cases hcall : (writeRecord rel data).1 with
    | error e =>
      rw [hcall, returnedIds_error] at hmem
      exact hrest tid hmem
    | ok tid₀ =>
      rw [hcall, returnedIds_ok] at hmem
      rcases List.mem_cons.mp hmem with rfl | hmem
      · exact hwritten.behind tid hcall tid' bytes h
      · exact hrest tid hmem

/-- The ids of any calls ascend. -/
theorem writeRecords_ascend (records : List (List UInt8)) (rel : RecordRel) :
    (returnedIds (writeRecords rel records).1).Pairwise ItemPointer.Before := by
  induction records generalizing rel with
  | nil => exact List.Pairwise.nil
  | cons data rest ih =>
    have hwritten := writeRecord_written rel data
    rw [writeRecords_cons]
    dsimp only
    cases hcall : (writeRecord rel data).1 with
    | error e => exact ih _
    | ok tid₀ =>
      rw [returnedIds_ok]
      exact List.Pairwise.cons (writeRecords_behind rest _ (hwritten.stored tid₀ hcall)) (ih _)

/-- Each call has stored its record for good, or has refused one that fits on no page. -/
theorem writeRecords_stored (records : List (List UInt8)) (rel : RecordRel) :
    List.Forall₂ (fun data result =>
        (∃ tid, result = .ok tid ∧ (writeRecords rel records).2.read tid = some data ∧ Fits data.length) ∨
          (∃ e, result = .error e) ∧ ¬ Fits data.length)
      records (writeRecords rel records).1 := by
  induction records generalizing rel with
  | nil => exact List.Forall₂.nil
  | cons data rest ih =>
    have hwritten := writeRecord_written rel data
    rw [writeRecords_cons]
    refine List.Forall₂.cons ?_ (ih _)
    cases hcall : (writeRecord rel data).1 with
    | error e => exact Or.inr ⟨⟨e, rfl⟩, hwritten.failed.mp ⟨e, hcall⟩⟩
    | ok tid₀ =>
      refine Or.inl ⟨tid₀, rfl, writeRecords_kept rest _ (hwritten.stored tid₀ hcall), ?_⟩
      by_contra hnot
      obtain ⟨e, he⟩ := hwritten.failed.mpr hnot
      rw [hcall] at he
      cases he

/-- **Any sequence of writes loses nothing**, in a relation that is empty or not, whatever its last page is,
and for records of any sizes. Each call returns an id that reads in the end the bytes written for it, or
fails because the record fits on no page; the ids are different from each other and from every id that could
be read before, which still reads what it did. -/
theorem writeRecords_spec (rel : RecordRel) (records : List (List UInt8)) :
    let results := (writeRecords rel records).1
    let rel' := (writeRecords rel records).2
    List.Forall₂ (fun data result =>
        (∃ tid, result = .ok tid ∧ rel'.read tid = some data ∧ Fits data.length) ∨
          (∃ e, result = .error e) ∧ ¬ Fits data.length) records results ∧
      (returnedIds results).Nodup ∧
      ∀ tid bytes, rel.read tid = some bytes →
        rel'.read tid = some bytes ∧ tid ∉ returnedIds results := by
  refine ⟨writeRecords_stored records rel, ?_, ?_⟩
  · refine (writeRecords_ascend records rel).imp fun {tid tid'} hbefore heq => ?_
    rw [heq] at hbefore
    exact ItemPointer.Before.irrefl _ hbefore
  · intro tid bytes hread
    refine ⟨writeRecords_kept records rel hread, fun hmem => ?_⟩
    exact ItemPointer.Before.irrefl tid (writeRecords_behind records rel hread tid hmem)

end NeoPostGraph
