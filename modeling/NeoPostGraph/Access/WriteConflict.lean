import NeoPostGraph.Access.DeadMarking
import NeoPostGraph.Graph.TwoUpdates

/-!
# Two writers of one catalog item

`np_catalog_tuple_update` tests the old item in one section, appends the new item in another and stamps
the old one in a third; `np_catalog_tuple_delete` tests and stamps in one. The test is not made again
under the lock of the stamp. An item that a committed transaction has deleted is not live, and the
answer for it is `TM_Invisible`.

Here two calls of two transactions on one tid take their sections in some order, and each transaction
commits some time after its call.

* `CatalogWrite`: a call, and `CatalogWrite.sections`: how many sections it has when it succeeds.
* `WriteTurn`, `TwoWrites`: a turn of a call, and an order of turns.
* `ConflictDetected`: when one call has returned `TM_Ok`, the other has returned `TM_Updated` and the
  header is as the first one stamped it.

Results:
* `CatalogWrite.prog`: the sections, taken alone, are the functions.
* `conflictDetected_iff`: the conflict is detected exactly when neither call passes its test at the
  beginning, or both do and one takes all its sections before the other begins, and the other begins
  before the first commits.
-/

namespace NeoPostGraph

open SlottedPage

/-! ## Calls and turns -/

/-- A call of `np_catalog_tuple_update` or `np_catalog_tuple_delete`. -/
inductive CatalogWrite where
  | update (s : Session) (tuple : List Nat)
  | delete (s : Session)

namespace CatalogWrite

/-- The session that calls. -/
def s : CatalogWrite → Session
  | update s _ => s
  | delete s => s

/-- The call. -/
def prog (rel : Oid) (tid : ItemPointer) : CatalogWrite → Prog Instance Err TmResult
  | update s tuple => npCatalogTupleUpdate s rel tid tuple
  | delete s => npCatalogTupleDelete s rel tid

/-- The sections of a call that succeeds. -/
def sections : CatalogWrite → Nat
  | update .. => 3
  | delete _ => 1

end CatalogWrite

/-- Where a call stands. -/
inductive WriteAt where
  | start
  | checked
  | appended
  | returned (r : TmResult)
  | committed (r : TmResult)
deriving DecidableEq

/-- What the call returns, once it is settled. -/
def WriteAt.result : WriteAt → Option TmResult
  | start => none
  | checked | appended => some .ok
  | returned r | committed r => some r

/-- The transaction commits. -/
def Instance.commit (i : Instance) (fxid : Nat) : Instance := { i with db := i.db.commit fxid }

/-- One turn of a call: its next section, or the commit of its transaction. -/
inductive WriteTurn (rel : Oid) (tid : ItemPointer) :
    CatalogWrite → WriteAt → Instance → WriteAt → Instance → Prop
  | check {s : Session} {tuple : List Nat} {i i' : Instance}
      (h : (checkCatalogItem s rel tid).Runs i .ok i') :
      WriteTurn rel tid (.update s tuple) .start i .checked i'
  | refuse {s : Session} {tuple : List Nat} {i i' : Instance} {r : TmResult}
      (h : (checkCatalogItem s rel tid).Runs i r i') (hr : r ≠ .ok) :
      WriteTurn rel tid (.update s tuple) .start i (.returned r) i'
  | append {s : Session} {tuple : List Nat} {i i' : Instance} {newTid : ItemPointer}
      (h : (writeCatalogItem rel (npCatalogPackItem s tid tuple)).Runs i newTid i') :
      WriteTurn rel tid (.update s tuple) .checked i .appended i'
  | stamp {s : Session} {tuple : List Nat} {i i' : Instance}
      (h : (stampCatalogItem s rel tid).Runs i () i') :
      WriteTurn rel tid (.update s tuple) .appended i (.returned .ok) i'
  | delete {s : Session} {i i' : Instance} {r : TmResult}
      (h : (npCatalogTupleDelete s rel tid).Runs i r i') :
      WriteTurn rel tid (.delete s) .start i (.returned r) i'
  | commit {c : CatalogWrite} {i : Instance} {r : TmResult} :
      WriteTurn rel tid c (.returned r) i (.committed r) (i.commit c.s.fxid)

/-- The calls `c false` and `c true` take turns in this order. -/
inductive TwoWrites (rel : Oid) (tid : ItemPointer) (c : Bool → CatalogWrite) :
    List Bool → (Bool → WriteAt) → Instance → (Bool → WriteAt) → Instance → Prop
  | done (p : Bool → WriteAt) (i : Instance) : TwoWrites rel tid c [] p i p i
  | turn {w : Bool} {ws : List Bool} {p p' : Bool → WriteAt} {a : WriteAt} {i i₁ i' : Instance}
      (ht : WriteTurn rel tid (c w) (p w) i a i₁)
      (h : TwoWrites rel tid c ws (Function.update p w a) i₁ p' i') :
      TwoWrites rel tid c (w :: ws) p i p' i'

/-- The item at a tid of a catalog. -/
def Instance.item (i : Instance) (rel : Oid) (tid : ItemPointer) : Option CatalogItem :=
  (i.catalogs rel).bind fun t => t.get tid

/-- **When one call has returned `TM_Ok`, the other has returned `TM_Updated`, and the item is as the
first one stamped it.** -/
def ConflictDetected (c : Bool → CatalogWrite) (r : Bool → TmResult) (item : CatalogItem)
    (after : Option CatalogItem) : Prop :=
  ∀ w, r w = .ok → r (!w) = .updated ∧ after = some (stampItem (c w).s item)

/-- The call would pass its test. -/
def CatalogWrite.Takes (c : CatalogWrite) (x : XactState) (item : CatalogItem) : Prop :=
  checkItem x c.s.own item = .ok

/-! ## What a turn does -/

section

variable {rel : Oid} {tid : ItemPointer} {c : CatalogWrite} {s : Session} {i i' : Instance}
  {item : CatalogItem} {a b : WriteAt} {r : TmResult}

theorem checkCatalogItem_item (h : (checkCatalogItem s rel tid).Runs i r i') :
    ∃ item, i.item rel tid = some item ∧ r = checkItem i.db.xacts s.own item ∧
      i'.item rel tid = some item ∧ i'.db = i.db := by
  obtain ⟨t, t', ht, hf, rfl⟩ := runs_onCatalog.mp h
  obtain ⟨item, hitem, hf⟩ := bind_ok hf
  obtain ⟨rfl, rfl⟩ := Prod.mk.inj (Except.ok.inj hf)
  have hget := readItem_ok hitem
  refine ⟨item, ?_, rfl, ?_, rfl⟩
  · unfold Instance.item
    rw [ht]
    exact hget
  · unfold Instance.item
    dsimp only
    rw [Function.update_self]
    exact hget

theorem writeCatalogItem_item {new : CatalogItem} {newTid : ItemPointer}
    (h : (writeCatalogItem rel new).Runs i newTid i') (hitem : i.item rel tid = some item) :
    i'.item rel tid = some item ∧ i'.db = i.db := by
  obtain ⟨t, t', ht, hf, rfl⟩ := runs_onCatalog.mp h
  obtain ⟨⟨t₁, tid₁⟩, hw, hf⟩ := bind_ok hf
  obtain ⟨rfl, rfl⟩ := Prod.mk.inj (Except.ok.inj hf)
  have hw := npWriteRecordToPage_ok hw
  refine ⟨?_, rfl⟩
  unfold Instance.item at hitem ⊢
  rw [ht] at hitem
  have hne : tid ≠ tid₁ := by
    rintro rfl
    have hfresh : t.get tid = none := Table.write_fresh hw
    rw [show (some t).bind (fun t => t.get tid) = t.get tid from rfl, hfresh] at hitem
    cases hitem
  dsimp only
  rw [Function.update_self]
  show t₁.get tid = some item
  rw [Table.get_write hw, if_neg hne]
  exact hitem

theorem stampCatalogItem_item (h : (stampCatalogItem s rel tid).Runs i () i')
    (hitem : i.item rel tid = some item) :
    i'.item rel tid = some (stampItem s item) ∧ i'.db = i.db := by
  obtain ⟨t, t', ht, hf, rfl⟩ := runs_onCatalog.mp h
  obtain ⟨old, hold, hf⟩ := bind_ok hf
  obtain ⟨-, rfl⟩ := Prod.mk.inj (Except.ok.inj hf)
  refine ⟨?_, rfl⟩
  unfold Instance.item at hitem ⊢
  rw [ht] at hitem
  dsimp only
  rw [Function.update_self]
  exact Table.get_modify_self _ hitem

theorem npCatalogTupleDelete_item (h : (npCatalogTupleDelete s rel tid).Runs i r i') :
    ∃ item, i.item rel tid = some item ∧ r = checkItem i.db.xacts s.own item ∧
      i'.item rel tid = some (if r = .ok then stampItem s item else item) ∧ i'.db = i.db := by
  obtain ⟨t, t', ht, hf, rfl⟩ := runs_onCatalog.mp h
  obtain ⟨item, hitem, hf⟩ := bind_ok hf
  have hget := readItem_ok hitem
  have hbefore : i.item rel tid = some item := by
    unfold Instance.item
    rw [ht]
    exact hget
  refine ⟨item, hbefore, ?_⟩
  unfold Instance.item
  dsimp only
  rw [Function.update_self]
  cases hr : checkItem i.db.xacts s.own item with
  | ok =>
    rw [hr] at hf
    obtain ⟨rfl, rfl⟩ := Prod.mk.inj (Except.ok.inj hf)
    exact ⟨rfl, Table.get_modify_self _ hget, rfl⟩
  | invisible | updated =>
    rw [hr] at hf
    obtain ⟨rfl, rfl⟩ := Prod.mk.inj (Except.ok.inj hf)
    exact ⟨rfl, hget, rfl⟩

end

/-! ## The test, by what a session knows of the two ids -/

/-- The test on an item, from the answers to its lookups. -/
def testItem (validMin curMin progMin commMin validMax curMax progMax commMax : Bool) : TmResult :=
  let live :=
    if !validMin then false
    else if curMin then !(validMax && curMax)
    else if progMin || !commMin then false
    else if !validMax then true
    else if curMax then false
    else progMax || !commMax
  if !live then .invisible
  else if validMax && !curMax && progMax then .updated
  else .ok

theorem checkItem_eq (x : XactState) (own : List Nat) (item : CatalogItem) :
    checkItem x own item = testItem (fullXidIsValid item.xmin)
      (transactionIdIsCurrent own (xidFromFull item.xmin))
      (transactionIdIsInProgress x (xidFromFull item.xmin))
      (transactionIdDidCommit x (xidFromFull item.xmin)) (fullXidIsValid item.xmax)
      (transactionIdIsCurrent own (xidFromFull item.xmax))
      (transactionIdIsInProgress x (xidFromFull item.xmax))
      (transactionIdDidCommit x (xidFromFull item.xmax)) := by
  have hlive : npEntityTupleXmaxOther x own item.toRecordHeader =
      (fullXidIsValid item.xmax && !transactionIdIsCurrent own (xidFromFull item.xmax) &&
        transactionIdIsInProgress x (xidFromFull item.xmax)) := by
    unfold npEntityTupleXmaxOther
    dsimp only
    cases fullXidIsValid item.xmax <;>
      cases transactionIdIsCurrent own (xidFromFull item.xmax) <;> simp
  unfold checkItem testItem
  rw [hlive]
  rfl

/-- What two running transactions can be told of one id: whether it is theirs, runs, has committed. -/
def idFacts (mine other prog comm : Bool) : Bool :=
  (!mine || prog) && (!other || prog) && !(mine && other) && (!prog || !comm)

section

variable {vm mm om pm cm vx mx ox px cx : Bool}

/-- The second call before the first one has stamped: it is refused only when it would have been. -/
theorem testItem_unstamped (hm : idFacts mm om pm cm = true) (hx : idFacts mx ox px cx = true)
    (hmine : testItem vm mm pm cm vx mx px cx = .ok) :
    testItem vm om pm cm vx ox px cx ≠ .updated := by
  revert vm mm om pm cm vx mx ox px cx
  decide +kernel

/-- After the first one has stamped, before it commits. -/
theorem testItem_stamped (hm : idFacts mm om pm cm = true) (hx : idFacts mx ox px cx = true)
    (hmine : testItem vm mm pm cm vx mx px cx = .ok) :
    testItem vm om pm cm true false true false = .updated ↔
      testItem vm om pm cm vx ox px cx = .ok := by
  revert vm mm om pm cm vx mx ox px cx
  decide +kernel

/-- After the first one has stamped and committed. -/
theorem testItem_committed (hm : idFacts mm om pm cm = true) :
    testItem vm om (pm && !mm) (cm || mm) true false false true ≠ .updated := by
  revert vm mm om pm cm
  decide +kernel

/-- After the first one was refused and has committed: the second one passes as it would have. A
deleter has seen the item: it is the creator, or the creator had committed. -/
theorem testItem_refused (hm : idFacts mm om pm cm = true) (hx : idFacts mx ox px cx = true)
    (hsettled : vx = true → cm = true ∨ mx = mm ∧ ox = om)
    (hmine : testItem true mm pm cm vx mx px cx ≠ .ok) :
    testItem true om (pm && !mm) (cm || mm) vx ox (px && !mx) (cx || mx) = .ok ↔
      testItem true om pm cm vx ox px cx = .ok := by
  revert mm om pm cm vx mx ox px cx
  decide +kernel

end

/-- The test on a header, by full ids. -/
def testHeader (x : XactState) (t : Nat) (hdr : RecordHeader) : TmResult :=
  testItem true (decide (hdr.xmin = t)) (decide (x.status hdr.xmin = .inProgress))
    (decide (x.status hdr.xmin = .committed)) hdr.deleter.isSome (decide (hdr.deleter = some t))
    (hdr.deleter.any fun d => decide (x.status d = .inProgress))
    (hdr.deleter.any fun d => decide (x.status d = .committed))

section

variable {base t u : Nat} {x : XactState} {item : CatalogItem}

variable (item) in
theorem checkItem_testHeader (hroom : x.nextFxid ≤ base + 2 ^ 32) (ht : x.Begun base t)
    (hmin : x.Begun base item.xmin) (hmax : ∀ d, item.deleter = some d → x.Begun base d) (cid : Nat) :
    checkItem x (Session.own ⟨t, cid⟩) item = testHeader x t item.toRecordHeader := by
  have hown : ∀ o ∈ Session.own ⟨t, cid⟩, x.Begun base o := fun o ho => by
    rw [List.mem_singleton.mp ho]
    exact ht
  have hcur : ∀ y, x.Begun base y →
      transactionIdIsCurrent (Session.own ⟨t, cid⟩) (xidFromFull y) = decide (y = t) := fun y hy => by
    rw [XactState.transactionIdIsCurrent_eq hroom hown hy]
    simp [Session.own]
  rw [checkItem_eq, hmin.valid, hcur _ hmin, XactState.transactionIdIsInProgress_eq hroom hmin,
    XactState.transactionIdDidCommit_eq hroom hmin]
  unfold testHeader
  cases hd : item.deleter with
  | none =>
    have hv : fullXidIsValid item.xmax = false := by
      unfold RecordHeader.deleter at hd
      split at hd
      · cases hd
      · next h => exact Bool.eq_false_iff.mpr h
    rw [hv]
    unfold testItem
    simp
  | some d =>
    obtain ⟨hv, rfl⟩ := deleter_eq_some.mp hd
    have hb := hmax _ hd
    rw [hv, hcur _ hb, XactState.transactionIdIsInProgress_eq hroom hb,
      XactState.transactionIdDidCommit_eq hroom hb]
    simp

/-- What two running transactions are told of the creator. -/
theorem idFacts_creator {y : Nat} (ht : x.status t = .inProgress) (hu : x.status u = .inProgress)
    (hne : t ≠ u) : idFacts (decide (y = t)) (decide (y = u)) (decide (x.status y = .inProgress))
      (decide (x.status y = .committed)) = true := by
  unfold idFacts
  by_cases h₁ : y = t
  · subst h₁
    simp [ht, hne]
  · by_cases h₂ : y = u
    · subst h₂
      simp [hu, h₁]
    · cases hs : x.status y <;> simp [h₁, h₂]

/-- And of the deleter. -/
theorem idFacts_deleter {d : Option Nat} (ht : x.status t = .inProgress)
    (hu : x.status u = .inProgress) (hne : t ≠ u) :
    idFacts (decide (d = some t)) (decide (d = some u))
      (d.any fun d => decide (x.status d = .inProgress))
      (d.any fun d => decide (x.status d = .committed)) = true := by
  cases d with
  | none => rfl
  | some y => simpa using idFacts_creator (y := y) ht hu hne

theorem deleter_stampItem (s : Session) (hv : fullXidIsValid s.fxid = true) :
    (stampItem s item).deleter = some s.fxid := by
  unfold RecordHeader.deleter stampItem
  rw [if_pos hv]

/-- The test after the first call has stamped the item. -/
theorem testHeader_stamped {s : Session} (hv : fullXidIsValid s.fxid = true)
    (hs : x.status s.fxid = .inProgress) (hne : s.fxid ≠ u) :
    testHeader x u (stampItem s item).toRecordHeader = testItem true (decide (item.xmin = u))
      (decide (x.status item.xmin = .inProgress)) (decide (x.status item.xmin = .committed)) true false
      true false := by
  unfold testHeader
  rw [deleter_stampItem s hv]
  simp [hs, hne, stampItem]
  rfl

theorem status_commit_inProgress (y : Nat) :
    decide ((x.commit t).status y = .inProgress) =
      (decide (x.status y = .inProgress) && !decide (y = t)) := by
  unfold XactState.commit
  by_cases h : y = t
  · simp [h]
  · simp [h]

theorem status_commit_committed (y : Nat) :
    decide ((x.commit t).status y = .committed) =
      (decide (x.status y = .committed) || decide (y = t)) := by
  unfold XactState.commit
  by_cases h : y = t
  · simp [h]
  · simp [h]

/-- The test after the first call was refused and has committed. -/
theorem testHeader_commit :
    testHeader (x.commit t) u item.toRecordHeader = testItem true (decide (item.xmin = u))
      (decide (x.status item.xmin = .inProgress) && !decide (item.xmin = t))
      (decide (x.status item.xmin = .committed) || decide (item.xmin = t)) item.deleter.isSome
      (decide (item.deleter = some u))
      ((item.deleter.any fun d => decide (x.status d = .inProgress)) && !decide (item.deleter = some t))
      ((item.deleter.any fun d => decide (x.status d = .committed)) || decide (item.deleter = some t)) := by
  unfold testHeader
  rw [status_commit_inProgress, status_commit_committed]
  cases hd : item.deleter with
  | none => rfl
  | some d =>
    simp only [Option.any_some, status_commit_inProgress, status_commit_committed, Option.some.injEq]

/-- The test after the first call has stamped the item and committed. -/
theorem testHeader_stamped_commit {s : Session} (hv : fullXidIsValid s.fxid = true)
    (hs : x.status s.fxid = .inProgress) (hne : s.fxid ≠ u) :
    testHeader (x.commit s.fxid) u (stampItem s item).toRecordHeader =
      testItem true (decide (item.xmin = u))
        (decide (x.status item.xmin = .inProgress) && !decide (item.xmin = s.fxid))
        (decide (x.status item.xmin = .committed) || decide (item.xmin = s.fxid)) true false false
        true := by
  rw [testHeader_commit, deleter_stampItem s hv]
  simp [hs, hne, stampItem]
  rfl

end

/-! ## The first to begin -/

/-- Where a call stands that began on an item, while the other one has not begun. -/
def WriteLeads (rel : Oid) (tid : ItemPointer) (c : CatalogWrite) (x : XactState) (item : CatalogItem)
    (i : Instance) : WriteAt → Prop
  | .start => False
  | .checked | .appended => c.Takes x item ∧ i.item rel tid = some item ∧ i.db.xacts = x
  | .returned r => r = checkItem x c.s.own item ∧ i.db.xacts = x ∧
      i.item rel tid = some (if r = .ok then stampItem c.s item else item)
  | .committed r => r = checkItem x c.s.own item ∧ i.db.xacts = x.commit c.s.fxid ∧
      i.item rel tid = some (if r = .ok then stampItem c.s item else item)

/-- The call takes its remaining sections, then the other one begins. -/
def FinishesFirst (w : Bool) (ws : List Bool) : WriteAt → Prop
  | .start | .committed _ => False
  | .checked => List.replicate 2 w ++ [!w] <+: ws
  | .appended => List.replicate 1 w ++ [!w] <+: ws
  | .returned _ => [!w] <+: ws

section

variable {rel : Oid} {tid : ItemPointer} {c : Bool → CatalogWrite} {x : XactState} {item : CatalogItem}
  {i i' : Instance} {a b : WriteAt} {p p' : Bool → WriteAt} {w : Bool} {ws : List Bool} {r r' : TmResult}

/-- A result once settled stays. -/
theorem WriteTurn.result {c : CatalogWrite} (h : WriteTurn rel tid c a i b i') (ha : a.result = some r) :
    b.result = some r := by
  cases h with
  | check h => cases ha
  | refuse h hr => cases ha
  | delete h => cases ha
  | _ => exact ha

theorem TwoWrites.result (h : TwoWrites rel tid c ws p i p' i') (hr : (p w).result = some r) :
    (p' w).result = some r := by
  induction h with
  | done p i => exact hr
  | @turn w' ws p p' a i i₁ i' ht h ih =>
    refine ih ?_
    by_cases hw : w = w'
    · subst hw
      rw [Function.update_self]
      exact ht.result hr
    · rw [Function.update_of_ne hw]
      exact hr

/-- The first turn on an item. -/
theorem WriteTurn.leads {c : CatalogWrite} (h : WriteTurn rel tid c .start i b i')
    (hitem : i.item rel tid = some item) :
    WriteLeads rel tid c i.db.xacts item i' b ∧ b.result = some (checkItem i.db.xacts c.s.own item) := by
  cases h with
  | check h =>
    obtain ⟨old, hold, hr, hafter, hdb⟩ := checkCatalogItem_item h
    obtain rfl := Option.some.inj (hitem.symm.trans hold)
    exact ⟨⟨hr.symm, hafter, by rw [hdb]⟩, congrArg some hr⟩
  | refuse h hne =>
    obtain ⟨old, hold, hr, hafter, hdb⟩ := checkCatalogItem_item h
    obtain rfl := Option.some.inj (hitem.symm.trans hold)
    exact ⟨⟨hr, by rw [hdb], by rw [if_neg hne]; exact hafter⟩, congrArg some hr⟩
  | delete h =>
    obtain ⟨old, hold, hr, hafter, hdb⟩ := npCatalogTupleDelete_item h
    obtain rfl := Option.some.inj (hitem.symm.trans hold)
    exact ⟨⟨hr, by rw [hdb], hafter⟩, congrArg some hr⟩

/-- A call does not commit before it returns. -/
theorem WriteTurn.ne_committed {c : CatalogWrite} (h : WriteTurn rel tid c .start i b i')
    (r : TmResult) : b ≠ .committed r := by
  cases h <;> exact WriteAt.noConfusion

/-- A turn of the first call. -/
theorem WriteLeads.turn {c : CatalogWrite} (h : WriteLeads rel tid c x item i a)
    (ht : WriteTurn rel tid c a i b i') : WriteLeads rel tid c x item i' b := by
  cases ht with
  | check _ | refuse _ _ | delete _ => exact h.elim
  | append hr =>
    obtain ⟨htakes, hitem, hx⟩ := h
    obtain ⟨hafter, hdb⟩ := writeCatalogItem_item hr hitem
    exact ⟨htakes, hafter, by rw [hdb, hx]⟩
  | stamp hr =>
    obtain ⟨htakes, hitem, hx⟩ := h
    obtain ⟨hafter, hdb⟩ := stampCatalogItem_item hr hitem
    exact ⟨htakes.symm, by rw [hdb, hx], by rw [if_pos rfl]; exact hafter⟩
  | commit =>
    obtain ⟨hr, hx, hitem⟩ := h
    refine ⟨hr, ?_, hitem⟩
    show i.db.xacts.commit c.s.fxid = _
    rw [hx]

/-- The item the other call begins on, and the state of the transactions then. -/
theorem WriteLeads.item_some {c : CatalogWrite} (h : WriteLeads rel tid c x item i a) :
    ∃ now, i.item rel tid = some now := by
  cases a with
  | start => exact h.elim
  | checked | appended => exact ⟨_, h.2.1⟩
  | returned r | committed r => exact ⟨_, h.2.2⟩

theorem WriteTurn.finishes {c : CatalogWrite} (h : WriteTurn rel tid c a i b i') (ha : a ≠ .start) :
    FinishesFirst w (w :: ws) a ↔ FinishesFirst w ws b := by
  cases h with
  | check _ | refuse _ _ | delete _ => exact absurd rfl ha
  | append _ | stamp _ =>
    unfold FinishesFirst
    rw [List.replicate_succ, List.cons_append, List.cons_prefix_cons]
    simp
  | commit =>
    unfold FinishesFirst
    rw [List.cons_prefix_cons]
    simp

/-- After its return a call only commits. -/
theorem WriteTurn.returned {c : CatalogWrite} (h : WriteTurn rel tid c a i b i')
    (ha : a = .returned r ∨ a = .committed r) : b = .committed r ∧ i'.item rel tid = i.item rel tid := by
  rcases ha with rfl | rfl
  · cases h
    exact ⟨rfl, rfl⟩
  · cases h

/-- **Where the first call stands when the other one begins**, and what the other one finds. -/
theorem TwoWrites.second_begins (h : TwoWrites rel tid c ws p i p' i')
    (hlead : WriteLeads rel tid (c w) x item i (p w)) (hstart : p (!w) = .start)
    (hend : p' (!w) = .committed r') :
    ∃ a i₁ now b i₂ ws' p₁, WriteLeads rel tid (c w) x item i₁ a ∧
      (p w).result = a.result ∧ i₁.item rel tid = some now ∧
      r' = checkItem i₁.db.xacts (c (!w)).s.own now ∧ WriteTurn rel tid (c (!w)) .start i₁ b i₂ ∧
      (FinishesFirst w ws (p w) ↔ ∃ r, a = .returned r) ∧ p₁ w = a ∧
      TwoWrites rel tid c ws' (Function.update p₁ (!w) b) i₂ p' i' := by
  induction h with
  | done p i =>
    rw [hstart] at hend
    cases hend
  | @turn w' ws p p' a i i₁ i' ht h ih =>
    by_cases hw : w' = w
    · subst hw
      have hne : (!w') ≠ w' := by simp
      have hturn := hlead.turn ht
      obtain ⟨a', i₂, now, b, i₃, ws', p₁, hl, hres, hnow, hr, hb, hfin, hp₁, hrest⟩ :=
        ih (by rw [Function.update_self]; exact hturn) ((Function.update_of_ne hne ..).trans hstart) hend
      rw [Function.update_self] at hres hfin
      have hkeep : (p w').result = a.result := by
        cases hpr : (p w').result with
        | none =>
          exfalso
          generalize hq : p w' = q at hpr hlead
          cases q with
          | start => exact hlead
          | _ => cases hpr
        | some r => exact (ht.result hpr).symm
      refine ⟨a', i₂, now, b, i₃, ws', p₁, hl, hkeep.trans hres, hnow, hr, hb, ?_, hp₁, hrest⟩
      rw [← hfin]
      refine ht.finishes fun hs => ?_
      rw [hs] at hlead
      exact hlead
    · -- the other call begins
      obtain rfl : w' = !w := by cases w <;> cases w' <;> simp_all
      rw [hstart] at ht
      obtain ⟨now, hnow⟩ := hlead.item_some
      have hres := h.result (w := !w) (by rw [Function.update_self]; exact (ht.leads hnow).2)
      rw [hend] at hres
      refine ⟨p w, i, now, a, i₁, ws, p, hlead, rfl, hnow, Option.some.inj hres, ht, ?_, rfl, h⟩
      cases hq : p w with
      | start =>
        rw [hq] at hlead
        exact hlead.elim
      | checked | appended =>
        unfold FinishesFirst
        rw [List.replicate_succ, List.cons_append, List.cons_prefix_cons]
        simp
      | returned r =>
        unfold FinishesFirst
        simp
      | committed r =>
        unfold FinishesFirst
        simp

/-- Once both calls have returned, the item stays. -/
theorem TwoWrites.item_settled (h : TwoWrites rel tid c ws p i p' i')
    (hdone : ∀ w, ∃ r, p w = .returned r ∨ p w = .committed r) :
    i'.item rel tid = i.item rel tid := by
  induction h with
  | done p i => rfl
  | @turn w' ws p p' a i i₁ i' ht h ih =>
    obtain ⟨r, hr⟩ := hdone w'
    obtain ⟨ha, hitem⟩ := ht.returned hr
    refine (ih fun w => ?_).trans hitem
    by_cases hw : w = w'
    · subst hw
      exact ⟨r, Or.inr ((Function.update_self ..).trans ha)⟩
    · rw [Function.update_of_ne hw]
      exact hdone w

end

/-! ## Both calls -/

section

variable {base : Nat} {σ : CatalogSystem} {rel : Oid} {tid : ItemPointer} {c : Bool → CatalogWrite}
  {item : CatalogItem} {k : Bool → Nat} {i' : Instance} {p : Bool → WriteAt} {r : Bool → TmResult}
  {turns : List Bool}

/-- Two running sessions and an item of a reachable state. -/
structure TwoWriters (base : Nat) (σ : CatalogSystem) (rel : Oid) (tid : ItemPointer)
    (c : Bool → CatalogWrite) (item : CatalogItem) : Prop where
  room : σ.xacts.nextFxid ≤ base + 2 ^ 32
  running : ∀ w, σ.xacts.Open base (c w).s.fxid
  apart : ∀ w, (c w).s.fxid ≠ (c (!w)).s.fxid
  header : HeaderInv base σ.xacts item.toRecordHeader

theorem twoWriters (hσ : CatalogRun base σ) (hne : k false ≠ k true)
    (hs : ∀ w, σ.session (k w) = some (c w).s.fxid) (hitem : σ.inst.item rel tid = some item) :
    TwoWriters base σ rel tid c item where
  room := hσ.inv.room
  running w := hσ.inv.sessions.running _ _ (hs w)
  apart w he := by
    have hone := hσ.inv.sessions.one (k w) (k (!w)) _ (hs w) (by rw [he]; exact hs (!w))
    cases w with
    | false => exact hne hone
    | true => exact hne hone.symm
  header := by
    obtain ⟨t, ht, hget⟩ := Option.bind_eq_some_iff.mp hitem
    exact (hσ.inv.item rel t tid item ht hget).header

namespace TwoWriters

variable (h : TwoWriters base σ rel tid c item) (w : Bool)

include h

theorem check_eq : checkItem σ.xacts (c w).s.own item =
    testHeader σ.xacts (c w).s.fxid item.toRecordHeader :=
  checkItem_testHeader _ h.room (h.running w).1 h.header.xmin h.header.xmax _

theorem takes_iff : (c w).Takes σ.xacts item ↔
    testHeader σ.xacts (c w).s.fxid item.toRecordHeader = .ok := by
  unfold CatalogWrite.Takes
  rw [h.check_eq]

/-- The test of the other call, before the first one has stamped the item. -/
theorem unstamped (htakes : (c w).Takes σ.xacts item) :
    checkItem σ.xacts (c (!w)).s.own item ≠ .updated := by
  rw [h.check_eq]
  exact testItem_unstamped (idFacts_creator (h.running w).2 (h.running !w).2 (h.apart w))
    (idFacts_deleter (h.running w).2 (h.running !w).2 (h.apart w)) ((h.takes_iff w).mp htakes)

theorem stamped_header : ∀ d, (stampItem (c w).s item).deleter = some d → σ.xacts.Begun base d := by
  intro d hd
  rw [deleter_stampItem _ (h.running w).1.valid] at hd
  rw [← Option.some.inj hd]
  exact (h.running w).1

/-- After it has. -/
theorem stamped (htakes : (c w).Takes σ.xacts item) :
    checkItem σ.xacts (c (!w)).s.own (stampItem (c w).s item) = .updated ↔
      (c (!w)).Takes σ.xacts item := by
  have hcheck := checkItem_testHeader (stampItem (c w).s item) h.room (h.running !w).1
    h.header.xmin (h.stamped_header w) (c (!w)).s.cid
  rw [show (c (!w)).s.own = Session.own ⟨(c (!w)).s.fxid, (c (!w)).s.cid⟩ from rfl, hcheck,
    testHeader_stamped (h.running w).1.valid (h.running w).2 (h.apart w), h.takes_iff]
  exact testItem_stamped (idFacts_creator (h.running w).2 (h.running !w).2 (h.apart w))
    (idFacts_deleter (h.running w).2 (h.running !w).2 (h.apart w)) ((h.takes_iff w).mp htakes)

/-- After it has, and has committed. -/
theorem committed :
    checkItem (σ.xacts.commit (c w).s.fxid) (c (!w)).s.own (stampItem (c w).s item) ≠ .updated := by
  have hcheck := checkItem_testHeader (x := σ.xacts.commit (c w).s.fxid)
    (stampItem (c w).s item) h.room (h.running !w).1 h.header.xmin (h.stamped_header w)
    (c (!w)).s.cid
  rw [show (c (!w)).s.own = Session.own ⟨(c (!w)).s.fxid, (c (!w)).s.cid⟩ from rfl, hcheck,
    testHeader_stamped_commit (h.running w).1.valid (h.running w).2 (h.apart w)]
  exact testItem_committed (idFacts_creator (h.running w).2 (h.running !w).2 (h.apart w))

/-- After the first call was refused and has committed. -/
theorem refused (htakes : ¬ (c w).Takes σ.xacts item) :
    checkItem (σ.xacts.commit (c w).s.fxid) (c (!w)).s.own item = .ok ↔
      (c (!w)).Takes σ.xacts item := by
  have hcheck := checkItem_testHeader (x := σ.xacts.commit (c w).s.fxid) item h.room (h.running !w).1
    h.header.xmin h.header.xmax (c (!w)).s.cid
  rw [show (c (!w)).s.own = Session.own ⟨(c (!w)).s.fxid, (c (!w)).s.cid⟩ from rfl, hcheck,
    testHeader_commit, h.takes_iff]
  refine testItem_refused (idFacts_creator (h.running w).2 (h.running !w).2 (h.apart w))
    (idFacts_deleter (h.running w).2 (h.running !w).2 (h.apart w)) ?_
    fun hok => htakes ((h.takes_iff w).mpr hok)
  intro hsome
  obtain ⟨d, hd⟩ := Option.isSome_iff_exists.mp hsome
  rw [hd]
  rcases h.header.settled d hd with he | hcom
  · obtain rfl : d = item.xmin := he
    exact Or.inr ⟨by simp, by simp⟩
  · exact Or.inl (decide_eq_true hcom)

end TwoWriters

/-- A call that is refused leaves the item. -/
theorem refused_item {c : CatalogWrite} {x : XactState} {i : Instance} {b : WriteAt}
    (h : WriteLeads rel tid c x item i b) (hb : b.result = some .updated) (hstart : ∀ r, b ≠ .committed r) :
    b = .returned .updated ∧ i.item rel tid = some item := by
  cases b with
  | start => exact h.elim
  | checked | appended => cases hb
  | returned r =>
    obtain rfl := Option.some.inj hb
    exact ⟨rfl, h.2.2⟩
  | committed r => exact absurd rfl (hstart r)

/-- The turns of a first call that takes the item. -/
theorem replicate_sections {w : Bool} {ws : List Bool} {i : Instance} {a : WriteAt}
    {c : CatalogWrite} (ht : WriteTurn rel tid c .start i a i') (ha : a.result = some .ok) :
    List.replicate c.sections w ++ [!w] <+: w :: ws ↔ FinishesFirst w ws a := by
  cases ht with
  | check h =>
    unfold FinishesFirst CatalogWrite.sections
    rw [List.replicate_succ, List.cons_append, List.cons_prefix_cons]
    simp
  | refuse h hr => exact absurd (Option.some.inj ha) hr
  | delete h =>
    unfold FinishesFirst CatalogWrite.sections
    rw [List.replicate_succ, List.cons_append, List.cons_prefix_cons]
    simp

theorem sections_pos (c : CatalogWrite) : ∃ n, c.sections = n + 1 := by
  cases c with
  | update s tuple => exact ⟨2, rfl⟩
  | delete s => exact ⟨0, rfl⟩

/-- **A write conflict is detected** exactly when neither call passes its test on the item as it is at
the beginning, or both do and one of them takes all its sections before the other begins, and the other
begins before the first one commits. -/
theorem conflictDetected_iff (hσ : CatalogRun base σ) (hne : k false ≠ k true)
    (hs : ∀ w, σ.session (k w) = some (c w).s.fxid) (hitem : σ.inst.item rel tid = some item)
    (h : TwoWrites rel tid c turns (fun _ => .start) σ.inst p i')
    (hend : ∀ w, p w = .committed (r w)) :
    ConflictDetected c r item (i'.item rel tid) ↔
      (∀ w, ¬ (c w).Takes σ.xacts item) ∨
        (∀ w, (c w).Takes σ.xacts item) ∧
          ∃ w, List.replicate (c w).sections w ++ [!w] <+: turns := by
  have hw := twoWriters hσ hne hs hitem
  cases h with
  | done => cases hend false
  | @turn w ws _ _ a _ i₁ _ ht h =>
    have hother : (!w) ≠ w := by simp
    obtain ⟨hlead, hresult⟩ := ht.leads hitem
    have hr : r w = checkItem σ.xacts (c w).s.own item := by
      have hp := h.result (w := w) (by rw [Function.update_self]; exact hresult)
      rw [hend w] at hp
      exact Option.some.inj hp
    obtain ⟨a', i₂, now, b, i₃, ws', p₁, hl, hres, hnow, hr', hb, hfin, hp₁, hrest⟩ :=
      h.second_begins (w := w) (by rw [Function.update_self]; exact hlead)
        (Function.update_of_ne hother ..) (hend !w)
    rw [Function.update_self] at hres hfin
    have htakes : (c w).Takes σ.xacts item ↔ r w = .ok := by
      rw [hr]
      exact Iff.rfl
    have horder : r w = .ok → ((∃ w', List.replicate (c w').sections w' ++ [!w'] <+: w :: ws) ↔
        ∃ r, a' = .returned r) := by
      intro hok
      rw [← hfin, ← replicate_sections ht (hresult.trans (congrArg some (hr.symm.trans hok)))]
      refine ⟨fun ⟨w', hpre⟩ => ?_, fun hpre => ⟨w, hpre⟩⟩
      obtain ⟨n, hn⟩ := sections_pos (c w')
      have hhead := hpre
      rw [hn, List.replicate_succ, List.cons_append, List.cons_prefix_cons] at hhead
      obtain rfl := hhead.1
      exact hpre
    have hboth : ∀ {q : Bool → Prop}, (∀ w', q w') ↔ q w ∧ q (!w) := fun {q} =>
      ⟨fun hq => ⟨hq w, hq (!w)⟩, fun hq w' => by
        rcases Bool.eq_or_eq_not w' w with rfl | rfl
        · exact hq.1
        · exact hq.2⟩
    rw [hboth, hboth (q := fun w' => (c w').Takes σ.xacts item)]
    by_cases hok : r w = .ok
    · -- the first call takes the item
      have htw := htakes.mpr hok
      rw [horder hok]
      have hleft : ConflictDetected c r item (i'.item rel tid) → (r !w) = .updated :=
        fun hc => (hc w hok).1
      cases a' with
      | start => exact hl.elim
      | checked | appended =>
        obtain ⟨-, hitem', hx⟩ := hl
        obtain rfl := Option.some.inj (hnow.symm.trans hitem')
        refine iff_of_false (fun hc => ?_) ?_
        · rw [hx] at hr'
          exact hw.unstamped w htw (hr'.symm.trans (hleft hc))
        · rintro (hnot | ⟨-, r₀, hr₀⟩)
          · exact hnot.1 htw
          · cases hr₀
      | returned r₀ =>
        obtain ⟨hr₀, hx, hitem'⟩ := hl
        rw [if_pos (hr₀.trans (hr.symm.trans hok))] at hitem'
        obtain rfl := Option.some.inj (hnow.symm.trans hitem')
        rw [hx] at hr'
        have hupdated : (r !w) = .updated ↔ (c (!w)).Takes σ.xacts item := by
          rw [hr']
          exact hw.stamped w htw
        constructor
        · intro hc
          exact Or.inr ⟨⟨htw, hupdated.mp (hleft hc)⟩, r₀, rfl⟩
        · rintro (hnot | ⟨⟨-, htakes'⟩, -⟩)
          · exact absurd htw hnot.1
          · have hsecond := hupdated.mpr htakes'
            obtain ⟨hbl, hbres⟩ := hb.leads hnow
            have hupd := hr'.symm.trans hsecond
            rw [hx, hupd] at hbres
            intro w' hw'
            rcases Bool.eq_or_eq_not w' w with rfl | rfl
            · refine ⟨hsecond, ?_⟩
              obtain ⟨rfl, hafter⟩ := refused_item hbl hbres hb.ne_committed
              rw [hrest.item_settled fun w₂ => ?_, hafter]
              rcases Bool.eq_or_eq_not w₂ w' with rfl | rfl
              · exact ⟨r₀, Or.inl ((Function.update_of_ne hother.symm ..).trans hp₁)⟩
              · exact ⟨.updated, Or.inl (Function.update_self ..)⟩
            · rw [hsecond] at hw'
              cases hw'
      | committed r₀ =>
        obtain ⟨hr₀, hx, hitem'⟩ := hl
        rw [if_pos (hr₀.trans (hr.symm.trans hok))] at hitem'
        obtain rfl := Option.some.inj (hnow.symm.trans hitem')
        rw [hx] at hr'
        refine iff_of_false (fun hc => hw.committed w (hr'.symm.trans (hleft hc))) ?_
        rintro (hnot | ⟨-, r₁, hr₁⟩)
        · exact hnot.1 htw
        · cases hr₁
    · -- the first call is refused
      have hntw : ¬ (c w).Takes σ.xacts item := fun ht => hok (htakes.mp ht)
      have hsecond : (r !w) = .ok ↔ (c (!w)).Takes σ.xacts item := by
        cases a' with
        | start => exact hl.elim
        | checked | appended => exact absurd hl.1 hntw
        | returned r₀ =>
          obtain ⟨hr₀, hx, hitem'⟩ := hl
          rw [if_neg fun h₀ => hok (hr.trans (hr₀.symm.trans h₀))] at hitem'
          obtain rfl := Option.some.inj (hnow.symm.trans hitem')
          rw [hr', hx]
          exact Iff.rfl
        | committed r₀ =>
          obtain ⟨hr₀, hx, hitem'⟩ := hl
          rw [if_neg fun h₀ => hok (hr.trans (hr₀.symm.trans h₀))] at hitem'
          obtain rfl := Option.some.inj (hnow.symm.trans hitem')
          rw [hr', hx]
          exact hw.refused w hntw
      constructor
      · intro hc
        refine Or.inl ⟨hntw, fun ht' => ?_⟩
        have hback := (hc (!w) (hsecond.mpr ht')).1
        rw [Bool.not_not, hr] at hback
        have hno := hw.unstamped (!w) ht'
        rw [Bool.not_not] at hno
        exact hno hback
      · rintro (⟨-, hnot⟩ | ⟨⟨htw, -⟩, -⟩)
        · intro w' hw'
          rcases Bool.eq_or_eq_not w' w with rfl | rfl
          · exact absurd hw' hok
          · exact absurd (hsecond.mp hw') hnot
        · exact absurd htw hntw

end

/-! ## Both calls succeed -/

/-- Transaction 5 has written a row and committed, and transactions 6 and 7 run. -/
def exampleWriters : CatalogSystem :=
  let σ := exampleInserting.endXact 0 (exampleInserting.inst.db.commit 5)
  let σ := { σ with
    inst := { σ.inst with db := σ.inst.db.begin }
    session := Function.update σ.session 0 (some 6) }
  { σ with
    inst := { σ.inst with db := σ.inst.db.begin }
    session := Function.update σ.session 1 (some 7) }

theorem exampleWriters_run : CatalogRun 5 exampleWriters :=
  ((exampleInserting_run.step (.commit (k := 0) rfl rfl)).step (.begin 0 rfl (by decide))).step
    (.begin 1 rfl (by decide))

/-- One transaction updates the row, the other deletes it. -/
def exampleWrites : Bool → CatalogWrite
  | false => .update ⟨6, 0⟩ (List.replicate 23 1)
  | true => .delete ⟨7, 0⟩

/-- The deletion stands between the test and the stamp of the update, and commits there. -/
def exampleWriteTurns : List Bool := [false, true, true, false, false, false]

/-- Both calls return `TM_Ok`. -/
theorem exampleWriteTurns_run : ∃ p i', TwoWrites 1 ⟨0, 1⟩ exampleWrites exampleWriteTurns
    (fun _ => .start) exampleWriters.inst p i' ∧ ∀ w, p w = .committed .ok := by
  refine ⟨_, _, .turn (.check rfl) (.turn (.delete (r := .ok) rfl) (.turn .commit (.turn (.append rfl)
    (.turn (.stamp rfl) (.turn .commit (.done _ _)))))), ?_⟩
  intro w
  cases w <;> rfl

/-- The row, before either call. -/
theorem exampleWriters_item : exampleWriters.inst.item 1 ⟨0, 1⟩ =
    some ⟨⟨5, 0, 0, invalidCommandId⟩, .invalid, 0, List.replicate 23 0⟩ := rfl

theorem exampleWriters_sessions (w : Bool) :
    exampleWriters.session (if w then 1 else 0) = some (exampleWrites w).s.fxid := by
  cases w <;> rfl

/-- The order of the example. -/
theorem conflictDetected_iff_example : ∃ after,
    ConflictDetected exampleWrites (fun _ => .ok)
        ⟨⟨5, 0, 0, invalidCommandId⟩, .invalid, 0, List.replicate 23 0⟩ after ↔
      (∀ w, ¬ (exampleWrites w).Takes exampleWriters.xacts
          ⟨⟨5, 0, 0, invalidCommandId⟩, .invalid, 0, List.replicate 23 0⟩) ∨
        (∀ w, (exampleWrites w).Takes exampleWriters.xacts
          ⟨⟨5, 0, 0, invalidCommandId⟩, .invalid, 0, List.replicate 23 0⟩) ∧
          ∃ w, List.replicate (exampleWrites w).sections w ++ [!w] <+: exampleWriteTurns := by
  obtain ⟨p, i', hrun, hend⟩ := exampleWriteTurns_run
  exact ⟨_, conflictDetected_iff exampleWriters_run (k := fun w => if w then 1 else 0) (by decide)
    exampleWriters_sessions exampleWriters_item hrun hend⟩

/-- **A conflict is not detected.** An update tests the row, another transaction deletes it and commits,
and the update still stamps it: both calls return `TM_Ok`. -/
theorem conflictDetected_fails : CatalogRun 5 exampleWriters ∧
    ∃ p i', TwoWrites 1 ⟨0, 1⟩ exampleWrites exampleWriteTurns (fun _ => .start) exampleWriters.inst
        p i' ∧ (∀ w, p w = .committed .ok) ∧
      ¬ ConflictDetected exampleWrites (fun _ => .ok)
        ⟨⟨5, 0, 0, invalidCommandId⟩, .invalid, 0, List.replicate 23 0⟩ (i'.item 1 ⟨0, 1⟩) := by
  obtain ⟨p, i', hrun, hend⟩ := exampleWriteTurns_run
  refine ⟨exampleWriters_run, p, i', hrun, hend, fun hc => ?_⟩
  cases (hc false rfl).1

end NeoPostGraph
