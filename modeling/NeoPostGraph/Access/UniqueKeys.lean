import NeoPostGraph.Access.WriteConflict

/-!
# Unique indexes of catalogs

`np_catalog_insert` (`np_catalog.c:83-123`) appends a row and then calls `index_insert` with
`UNIQUE_CHECK_YES`; `np_catalog_update` (`np_label.c:3103-3174`) updates the row and then calls
`index_insert` with `UNIQUE_CHECK_NO`. The check of the btree asks `np_catalog_index_fetch_tuple` with
a dirty snapshot about each entry of the key, and marks the entries it is told are dead. To that
question a row of a transaction that still runs is as dead as one of a transaction that has aborted.

The btree is what is assumed of it: from the first look at an entry of a key to the insertion of the
new one the page of the key is locked, so a check is one step; a check that finds a row waits or fails,
and then the step is not taken.

* `UniqueSystem`, `UniqueStep`: catalogs with their unique indexes, sessions, and one step.
* `CarefulRun`: the runs whose steps all meet `Careful`.
* `UniqueKeys`: at most one committed live row has a key.

Results:
* `UniqueInv.step`: the rows of a key exclude each other, once they are checked.
* `uniqueKeys_of_careful`: keys are unique in every state of a run whose steps are careful.
-/

namespace NeoPostGraph

open SlottedPage

/-! ## The check of the btree -/

/-- An entry of a unique index, with `LP_DEAD`. -/
structure IndexEntry (κ : Type) where
  key : κ
  tid : ItemPointer
  dead : Bool
deriving DecidableEq, Repr

section

variable {κ : Type} [DecidableEq κ]

/-- `_bt_check_unique`: the row that is in the way, if there is one, and the entries as the check
leaves them. -/
def btCheckUnique (r : CatalogReader) (t : Table CatalogItem) (key : κ) :
    List (IndexEntry κ) → Except Err (Option ItemPointer × List (IndexEntry κ))
  | [] => .ok (none, [])
  | e :: es =>
    if e.dead || decide (e.key ≠ key) then do
      let (conflict, es') ← btCheckUnique r t key es
      return (conflict, e :: es')
    else do
      let fetch ← npCatalogIndexFetchTuple r t e.tid
      if fetch.slot.isSome then return (some e.tid, e :: es)
      else
        let (conflict, es') ← btCheckUnique r t key es
        return (conflict, { e with dead := fetch.allDead } :: es')

end

/-! ## Catalogs with unique indexes -/

/-- A row that has been appended and that the index has no entry of yet: `index_insert` is still to be
called, with `UNIQUE_CHECK_YES` or `UNIQUE_CHECK_NO`. -/
structure IndexInsert where
  rel : Oid
  tid : ItemPointer
  checkUnique : Bool
deriving DecidableEq, Repr

/-- Catalogs with their unique indexes, and sessions. -/
structure UniqueSystem (κ : Type) where
  sys : CatalogSystem
  index : Oid → List (IndexEntry κ)
  inserting : Nat → Option IndexInsert

/-- The line pointer and the item at a tid of a catalog. -/
def Instance.lp (i : Instance) (rel : Oid) (tid : ItemPointer) : Option (Nat × CatalogItem) :=
  (i.catalogs rel).bind fun t => t.lp tid

namespace UniqueSystem

variable {κ : Type}

/-- The row at a tid. -/
def row (σ : UniqueSystem κ) (rel : Oid) (tid : ItemPointer) : Option CatalogItem :=
  σ.sys.inst.item rel tid

/-- The state of the transactions. -/
def xacts (σ : UniqueSystem κ) : XactState := σ.sys.xacts

/-- The row is appended and not checked yet, or its update has not stamped the old row yet. -/
def Unchecked (σ : UniqueSystem κ) (rel : Oid) (tid : ItemPointer) : Prop :=
  ∃ k check, σ.inserting k = some ⟨rel, tid, check⟩ ∧
    (check = true ∨ ∃ c, σ.sys.updating k = some c)

/-- No session, no catalog. -/
def empty (base : Nat) (status : Nat → XidStatus) : UniqueSystem κ where
  sys := .empty base status
  index _ := []
  inserting _ := none

end UniqueSystem

/-- A step that writes no row, and not one of a session that has still to call `index_insert`. -/
structure Quiet {κ : Type} (σ : UniqueSystem κ) (s' : CatalogSystem) : Prop where
  lp : ∀ rel tid, s'.inst.lp rel tid = σ.sys.inst.lp rel tid
  written : ∀ k c, s'.updating k = some c → c.written = true → σ.sys.updating k = some c
  inserting : ∀ k p, σ.inserting k = some p →
    s'.session k = σ.sys.session k ∧ s'.updating k = σ.sys.updating k

/-- The steps that are asked to be careful, and the session that takes them. -/
inductive UniqueAction where
  | check (k : Nat)
  | stampUpdate (k : Nat)
  | other

/-- One step of one session; `key` is the key of a row of a catalog. -/
inductive UniqueStep {κ : Type} [DecidableEq κ] (base : Nat) (key : Oid → List Nat → κ) :
    UniqueAction → UniqueSystem κ → UniqueSystem κ → Prop
  | quiet {σ : UniqueSystem κ} {s' : CatalogSystem} (h : CatalogStep base σ.sys s') (hq : Quiet σ s') :
      UniqueStep base key .other σ { σ with sys := s' }
  /-- `np_catalog_insert` appends its row. -/
  | insert {σ : UniqueSystem κ} {k t : Nat} {i : Instance} {rel : Oid} {tuple : List Nat}
      {tid : ItemPointer} (hk : σ.sys.session k = some t) (hu : σ.sys.updating k = none)
      (hp : σ.inserting k = none) (htuple : sizeofHeapTupleHeader ≤ tuple.length)
      (h : (npCatalogTupleInsert ⟨t, σ.sys.cid k⟩ rel tuple).Runs σ.sys.inst tid i) :
      UniqueStep base key .other σ { σ with
        sys := { σ.sys with inst := i }
        inserting := Function.update σ.inserting k (some ⟨rel, tid, true⟩) }
  /-- Its `index_insert` finds no row in the way. -/
  | check {σ : UniqueSystem κ} {k t : Nat} {p : IndexInsert} {tbl : Table CatalogItem}
      {item : CatalogItem} {snapshot : Snapshot} {entries : List (IndexEntry κ)}
      (hk : σ.sys.session k = some t) (hp : σ.inserting k = some p) (hc : p.checkUnique = true)
      (htbl : σ.sys.inst.catalogs p.rel = some tbl) (hrow : tbl.get p.tid = some item)
      (h : btCheckUnique ⟨σ.xacts, σ.sys.own k, some (.dirty, snapshot)⟩ tbl
        (key p.rel item.heapTuple) (σ.index p.rel) = .ok (none, entries)) :
      UniqueStep base key (.check k) σ { σ with
        index := Function.update σ.index p.rel
          (⟨key p.rel item.heapTuple, p.tid, false⟩ :: entries)
        inserting := Function.update σ.inserting k none }
  | delete {σ : UniqueSystem κ} {k t : Nat} {i : Instance} {rel : Oid} {tid : ItemPointer}
      {r : TmResult} (hk : σ.sys.session k = some t) (hu : σ.sys.updating k = none)
      (hp : σ.inserting k = none)
      (h : (npCatalogTupleDelete ⟨t, σ.sys.cid k⟩ rel tid).Runs σ.sys.inst r i) :
      UniqueStep base key .other σ { σ with sys := { σ.sys with inst := i } }
  /-- `np_catalog_update` appends the new row. -/
  | writeUpdate {σ : UniqueSystem κ} {k t : Nat} {i : Instance} {c : UpdateCall} {tid : ItemPointer}
      (hk : σ.sys.session k = some t) (hu : σ.sys.updating k = some c) (hw : c.written = false)
      (hp : σ.inserting k = none) (htuple : sizeofHeapTupleHeader ≤ c.tuple.length)
      (h : (writeCatalogItem c.rel (npCatalogPackItem ⟨t, σ.sys.cid k⟩ c.otid c.tuple)).Runs
        σ.sys.inst tid i) :
      UniqueStep base key .other σ { σ with
        sys := { σ.sys with
          inst := i
          updating := Function.update σ.sys.updating k (some { c with written := true }) }
        inserting := Function.update σ.inserting k (some ⟨c.rel, tid, false⟩) }
  | stampUpdate {σ : UniqueSystem κ} {k t : Nat} {i : Instance} {c : UpdateCall}
      (hk : σ.sys.session k = some t) (hu : σ.sys.updating k = some c) (hw : c.written = true)
      (h : (stampCatalogItem ⟨t, σ.sys.cid k⟩ c.rel c.otid).Runs σ.sys.inst () i) :
      UniqueStep base key (.stampUpdate k) σ { σ with
        sys := { σ.sys with inst := i, updating := Function.update σ.sys.updating k none } }
  /-- Its `index_insert`, without a check. -/
  | enter {σ : UniqueSystem κ} {k : Nat} {p : IndexInsert} {item : CatalogItem}
      (hp : σ.inserting k = some p) (hc : p.checkUnique = false) (hu : σ.sys.updating k = none)
      (hrow : σ.row p.rel p.tid = some item) :
      UniqueStep base key .other σ { σ with
        index := Function.update σ.index p.rel
          (⟨key p.rel item.heapTuple, p.tid, false⟩ :: σ.index p.rel)
        inserting := Function.update σ.inserting k none }
  /-- A reader that comes by the index marks an entry: `kill_prior_tuple`. -/
  | kill {σ : UniqueSystem κ} {rel : Oid} {tid : ItemPointer} {tbl : Table CatalogItem}
      {fetch : IndexFetch} (k : Nat) (snapshot : Option (SnapshotType × Snapshot))
      (htbl : σ.sys.inst.catalogs rel = some tbl)
      (h : npCatalogIndexFetchTuple ⟨σ.xacts, σ.sys.own k, snapshot⟩ tbl tid = .ok fetch)
      (hdead : fetch.allDead = true) :
      UniqueStep base key .other σ { σ with
        index := Function.update σ.index rel ((σ.index rel).map fun e =>
          if e.tid = tid then { e with dead := true } else e) }
  /-- A transaction aborts, wherever it stands. -/
  | abort {σ : UniqueSystem κ} {k t : Nat} (hk : σ.sys.session k = some t) :
      UniqueStep base key .other σ { σ with
        sys := σ.sys.endXact k (σ.sys.inst.db.abort t)
        inserting := Function.update σ.inserting k none }

/-! ## Unique keys, and what keeps them so -/

/-- The row is there for everyone: its creator has committed and its deleter has not. -/
def CommittedLive (x : XactState) (item : CatalogItem) : Prop :=
  x.status item.xmin = .committed ∧ ∀ d, item.deleter = some d → x.status d ≠ .committed

/-- **At most one committed live row of a catalog has a key.** -/
def UniqueKeys {κ : Type} (key : Oid → List Nat → κ) (σ : UniqueSystem κ) : Prop :=
  ∀ rel tid tid' a b, σ.row rel tid = some a → σ.row rel tid' = some b →
    key rel a.heapTuple = key rel b.heapTuple → CommittedLive σ.xacts a → CommittedLive σ.xacts b →
    tid = tid'

/-- The row leaves room for one of the transaction: nobody sees it any more, or the transaction has
deleted it. -/
def LeavesRoom (x : XactState) (t : Nat) (item : CatalogItem) : Prop := x.Vacant t item.toRecordHeader

/-- **What keeps keys unique.** When a session checks a row, every other checked row of the key was
created by the session or by a transaction that has ended, and those whose entries are marked dead
leave room. When a session stamps the row it has updated, that row still passes the test the update
began with, and every other checked row that has the key of the new one leaves room. -/
def Careful {κ : Type} (key : Oid → List Nat → κ) (σ : UniqueSystem κ) : UniqueAction → Prop
  | .other => True
  | .check k => ∀ t p row, σ.sys.session k = some t → σ.inserting k = some p →
      σ.row p.rel p.tid = some row → ∀ tid item, σ.row p.rel tid = some item → tid ≠ p.tid →
      key p.rel item.heapTuple = key p.rel row.heapTuple → ¬ σ.Unchecked p.rel tid →
      (item.xmin = t ∨ σ.xacts.status item.xmin ≠ .inProgress) ∧
        ((∃ e ∈ σ.index p.rel, e.tid = tid ∧ e.dead = true) → LeavesRoom σ.xacts t item)
  | .stampUpdate k => ∀ t c p row, σ.sys.session k = some t → σ.sys.updating k = some c →
      σ.inserting k = some p → σ.row c.rel p.tid = some row →
      (∀ old, σ.row c.rel c.otid = some old →
        checkItem σ.xacts (Session.own ⟨t, σ.sys.cid k⟩) old = .ok) ∧
      ∀ tid item, σ.row c.rel tid = some item → tid ≠ p.tid → tid ≠ c.otid →
        key c.rel item.heapTuple = key c.rel row.heapTuple → ¬ σ.Unchecked c.rel tid →
        LeavesRoom σ.xacts t item

/-- The states of the runs whose steps are all `ok`. -/
inductive UniqueRun {κ : Type} [DecidableEq κ] (base : Nat) (key : Oid → List Nat → κ)
    (ok : UniqueSystem κ → UniqueAction → Prop) : UniqueSystem κ → Prop
  | empty (status : Nat → XidStatus) (hbase : firstNormalTransactionId ≤ xidFromFull base)
      (h64 : base + 2 ^ 32 ≤ 2 ^ 64) (hpast : ∀ y, status y ≠ .inProgress) :
      UniqueRun base key ok (.empty base status)
  | step {σ σ' : UniqueSystem κ} {a : UniqueAction} (h : UniqueRun base key ok σ)
      (hs : UniqueStep base key a σ σ') (hok : ok σ a) : UniqueRun base key ok σ'

/-- The runs of careful sessions. -/
def CarefulRun {κ : Type} [DecidableEq κ] (base : Nat) (key : Oid → List Nat → κ)
    (σ : UniqueSystem κ) : Prop := UniqueRun base key (Careful key) σ

/-! ## What the writers do to line pointers -/

/-- An item has been appended. -/
structure LpAppended (i i' : Instance) (rel : Oid) (tid : ItemPointer) (item : CatalogItem) : Prop where
  db : i'.db = i.db
  fresh : i.lp rel tid = none
  lp : ∀ rel' tid', i'.lp rel' tid' = if rel' = rel ∧ tid' = tid then
    some (npCatalogPackSize item.heapTuple, item) else i.lp rel' tid'

/-- An item has been stamped deleted. -/
structure LpStamped (i i' : Instance) (s : Session) (rel : Oid) (tid : ItemPointer)
    (lp₀ : Nat × CatalogItem) : Prop where
  db : i'.db = i.db
  old : i.lp rel tid = some lp₀
  lp : ∀ rel' tid', i'.lp rel' tid' = if rel' = rel ∧ tid' = tid then
    some (lp₀.1, stampItem s lp₀.2) else i.lp rel' tid'

section

variable {i i' : Instance} {rel : Oid} {tid : ItemPointer} {item : CatalogItem} {s : Session}
  {t : Table CatalogItem}

theorem item_eq_lp (i : Instance) (rel : Oid) (tid : ItemPointer) :
    i.item rel tid = (i.lp rel tid).map Prod.snd := by
  unfold Instance.item Instance.lp
  cases i.catalogs rel with
  | none => rfl
  | some t => exact Table.get_eq_lp t tid

theorem lp_eq_none_iff : t.lp tid = none ↔ t.get tid = none := by
  rw [Table.get_eq_lp, Option.map_eq_none_iff]

theorem lp_update (i : Instance) (rel : Oid) (t' : Table CatalogItem) (rel' : Oid)
    (tid' : ItemPointer) :
    Instance.lp { i with catalogs := Function.update i.catalogs rel (some t') } rel' tid' =
      if rel' = rel then t'.lp tid' else i.lp rel' tid' := by
  unfold Instance.lp
  by_cases hr : rel' = rel
  · subst hr
    rw [if_pos rfl]
    dsimp only
    rw [Function.update_self, Option.bind_some]
  · rw [if_neg hr]
    dsimp only
    rw [Function.update_of_ne hr]

theorem lp_catalog (h : i.catalogs rel = some t) : i.lp rel tid = t.lp tid := by
  unfold Instance.lp
  rw [h, Option.bind_some]

theorem lpAppended_of_runs (h : (writeCatalogItem rel item).Runs i tid i') :
    LpAppended i i' rel tid item := by
  obtain ⟨t, t', ht, hf, rfl⟩ := runs_onCatalog.mp h
  obtain ⟨⟨t₁, tid₁⟩, hw, hf⟩ := bind_ok hf
  obtain ⟨rfl, rfl⟩ := Prod.mk.inj (Except.ok.inj hf)
  have hw := npWriteRecordToPage_ok hw
  refine ⟨rfl, ?_, fun rel' tid' => ?_⟩
  · rw [lp_catalog ht]
    exact lp_eq_none_iff.mpr (Table.write_fresh hw)
  · rw [lp_update]
    by_cases hr : rel' = rel
    · subst hr
      rw [if_pos rfl, lp_catalog ht]
      by_cases htid : tid' = tid₁
      · subst htid
        rw [if_pos ⟨rfl, rfl⟩]
        exact Table.lp_write_self hw
      · rw [if_neg fun hc => htid hc.2]
        cases hlp : t.lp tid' with
        | some lp => exact Table.lp_write hw hlp
        | none =>
          rw [lp_eq_none_iff] at hlp ⊢
          rw [Table.get_write hw, if_neg htid]
          exact hlp
    · rw [if_neg hr, if_neg fun hc => hr hc.1]

theorem lpStamped_of_modify {lp₀ : Nat × CatalogItem} (ht : i.catalogs rel = some t)
    (hlp : t.lp tid = some lp₀) : LpStamped i
      { i with catalogs := Function.update i.catalogs rel (some (t.modify tid (stampItem s))) }
      s rel tid lp₀ := by
  refine ⟨rfl, (lp_catalog ht).trans hlp, fun rel' tid' => ?_⟩
  rw [lp_update]
  by_cases hr : rel' = rel
  · subst hr
    rw [if_pos rfl, lp_catalog ht]
    cases hlp' : t.lp tid' with
    | some lp =>
      rw [Table.lp_modify _ hlp']
      by_cases htid : tid' = tid
      · subst htid
        obtain rfl := Option.some.inj (hlp.symm.trans hlp')
        rw [if_pos rfl, if_pos ⟨rfl, rfl⟩]
      · rw [if_neg htid, if_neg fun hc => htid hc.2]
    | none =>
      have htid : tid' ≠ tid := by
        rintro rfl
        rw [hlp] at hlp'
        cases hlp'
      rw [if_neg fun hc => htid hc.2, lp_eq_none_iff, Table.get_modify, if_neg htid]
      exact lp_eq_none_iff.mp hlp'
  · rw [if_neg hr, if_neg fun hc => hr hc.1]

theorem lpStamped_of_runs (h : (stampCatalogItem s rel tid).Runs i () i') :
    ∃ lp, LpStamped i i' s rel tid lp := by
  obtain ⟨t, t', ht, hf, rfl⟩ := runs_onCatalog.mp h
  obtain ⟨old, hold, hf⟩ := bind_ok hf
  obtain ⟨-, rfl⟩ := Prod.mk.inj (Except.ok.inj hf)
  obtain ⟨len, hlp⟩ := exists_lp (readItem_ok hold)
  exact ⟨_, lpStamped_of_modify ht hlp⟩

/-- A delete stamps an item that passes its test, or leaves everything alone. -/
theorem delete_lp {r : TmResult} (h : (npCatalogTupleDelete s rel tid).Runs i r i') : i' = i ∨
    ∃ lp, checkItem i.db.xacts s.own lp.2 = .ok ∧ LpStamped i i' s rel tid lp := by
  obtain ⟨t, t', ht, hf, rfl⟩ := runs_onCatalog.mp h
  obtain ⟨item, hitem, hf⟩ := bind_ok hf
  obtain ⟨len, hlp⟩ := exists_lp (readItem_ok hitem)
  have hsame : ({ i with catalogs := Function.update i.catalogs rel (some t) } : Instance) = i := by
    rw [Function.update_eq_self_iff.mpr ht.symm]
  cases hc : checkItem i.db.xacts s.own item with
  | ok =>
    rw [hc] at hf
    obtain ⟨-, rfl⟩ := Prod.mk.inj (Except.ok.inj hf)
    exact Or.inr ⟨_, hc, lpStamped_of_modify ht hlp⟩
  | invisible | updated =>
    rw [hc] at hf
    obtain ⟨-, rfl⟩ := Prod.mk.inj (Except.ok.inj hf)
    exact Or.inl hsame

end

/-! ## The transactions of a step -/

section

variable {base : Nat} {σ σ' : CatalogSystem} {rel : Oid} {tid : ItemPointer} {item : CatalogItem}

theorem SystemInv.header (h : SystemInv base σ) (hitem : σ.inst.item rel tid = some item) :
    HeaderInv base σ.xacts item.toRecordHeader := by
  obtain ⟨t, ht, hget⟩ := Option.bind_eq_some_iff.mp hitem
  exact (h.item rel t tid item ht hget).header

/-- Transactions that have ended stay as they ended. -/
theorem CatalogStep.settles (h : SystemInv base σ) (hs : CatalogStep base σ σ') :
    XactState.Settles base σ.xacts σ'.xacts := by
  have hsame : ∀ {i : Instance}, i.db = σ.inst.db → XactState.Settles base σ.xacts i.db.xacts :=
    fun hdb t _ _ => by
      rw [hdb]
      rfl
  cases hs with
  | catalog rel hr => exact hsame rfl
  | begin k hk hroom => exact XactState.settles_begin base _
  | command k hk => exact hsame rfl
  | snapshot k s ht hcid => exact hsame rfl
  | unregister p => exact hsame rfl
  | insert hk hu hr => exact hsame (lpAppended_of_runs hr).db
  | delete hk hu hr =>
    rcases delete_lp hr with rfl | ⟨lp, -, hst⟩
    · exact hsame rfl
    · exact hsame hst.db
  | checkUpdate tuple hk hu hr =>
    obtain ⟨t, t', ht, hf, rfl⟩ := runs_onCatalog.mp hr
    exact hsame rfl
  | writeUpdate hk hu hw hr => exact hsame (lpAppended_of_runs hr).db
  | stampUpdate hk hu hw hr =>
    obtain ⟨lp, hst⟩ := lpStamped_of_runs hr
    exact hsame hst.db
  | failUpdate k => exact hsame rfl
  | commit hk hu => exact XactState.settles_commit (h.sessions.running _ _ hk)
  | abort hk => exact XactState.settles_abort (h.sessions.running _ _ hk)
  | finish hk hu => exact hsame rfl

end

/-! ## The invariant -/

section

variable {κ : Type} {key : Oid → List Nat → κ} {base k t : Nat} {σ : UniqueSystem κ}
  {s' : CatalogSystem} {rel : Oid} {tid : ItemPointer} {item : CatalogItem} {p : IndexInsert}

/-- The rows of a catalog: their keys, and who created and who deleted them. -/
def UniqueSystem.keyed (key : Oid → List Nat → κ) (σ : UniqueSystem κ) (rel : Oid)
    (tid : ItemPointer) : Option (κ × Exclusive.Stamps Nat) :=
  (σ.row rel tid).map fun item => (key rel item.heapTuple, item.stamps)

/-- What holds in the states of careful runs. -/
structure UniqueInv (base : Nat) (key : Oid → List Nat → κ) (σ : UniqueSystem κ) : Prop where
  sys : SystemInv base σ.sys
  fetchable : ∀ rel tid lp, σ.sys.inst.lp rel tid = some lp → npCatalogItemIsFetchable lp = true
  /-- A row the index has no entry of yet is one of a session that runs. -/
  inserting : ∀ k p, σ.inserting k = some p → ∃ t item, σ.sys.session k = some t ∧
    σ.row p.rel p.tid = some item ∧ item.xmin = t ∧ item.deleter = none
  written : ∀ k c, σ.sys.updating k = some c → c.written = true →
    ∃ tid, σ.inserting k = some ⟨c.rel, tid, false⟩ ∧ tid ≠ c.otid
  entered : ∀ rel tid item, σ.row rel tid = some item →
    (∃ k check, σ.inserting k = some ⟨rel, tid, check⟩) ∨ σ.xacts.Aborted item.xmin ∨
      ∃ dead, (⟨key rel item.heapTuple, tid, dead⟩ : IndexEntry κ) ∈ σ.index rel
  apart : ∀ rel, Exclusive.Apart σ.xacts.Committed σ.xacts.Aborted (σ.keyed key rel)
    (σ.Unchecked rel)

theorem keyed_of_row (key : Oid → List Nat → κ) (h : σ.row rel tid = some item) :
    σ.keyed key rel tid = some (key rel item.heapTuple, item.stamps) := by
  unfold UniqueSystem.keyed
  rw [h, Option.map_some]

theorem row_of_keyed {c : κ} {v : Exclusive.Stamps Nat} (h : σ.keyed key rel tid = some (c, v)) :
    ∃ item, σ.row rel tid = some item ∧ key rel item.heapTuple = c ∧ item.stamps = v := by
  obtain ⟨item, hrow, he⟩ := Option.map_eq_some_iff.mp h
  exact ⟨item, hrow, congrArg Prod.fst he, congrArg Prod.snd he⟩

theorem row_eq_lp (σ : UniqueSystem κ) (rel : Oid) (tid : ItemPointer) :
    σ.row rel tid = (σ.sys.inst.lp rel tid).map Prod.snd := item_eq_lp ..

/-- **Keys are unique when rows exclude each other.** -/
theorem UniqueInv.uniqueKeys (h : UniqueInv base key σ) : UniqueKeys key σ := by
  intro rel tid tid' a b ha hb hkey hla hlb
  -- a committed row is checked: the session that has it still runs
  have hchecked : ∀ tid item, σ.row rel tid = some item → CommittedLive σ.xacts item →
      ¬ σ.Unchecked rel tid := by
    rintro tid item hrow hlive ⟨k, check, hp, -⟩
    obtain ⟨t, item', hk, hrow', hx, -⟩ := h.inserting k _ hp
    obtain rfl := Option.some.inj (hrow.symm.trans hrow')
    have hopen := h.sys.sessions.running k t hk
    rw [← hx] at hopen
    cases hopen.2.symm.trans hlive.1
  have hseen : ∀ item, CommittedLive σ.xacts item →
      Exclusive.Seen σ.xacts.Committed (fun _ => False) item.stamps := fun item hlive =>
    Or.inr ⟨id, hlive.1, fun d hd => ⟨id, hlive.2 d hd⟩⟩
  have hka := keyed_of_row key ha
  rw [hkey] at hka
  exact (h.apart rel).one_seen XactState.not_aborted_of_committed (fun _ hf => hf.elim) hka
    (keyed_of_row key hb) (hchecked _ _ ha hla) (hchecked _ _ hb hlb) (h.sys.header ha).settled
    (h.sys.header hb).settled (hseen a hla) (hseen b hlb)

/-! ### Steps that write no row -/

/-- Transactions begin and end, and rows stay. -/
theorem UniqueInv.apart_later (h : UniqueInv base key σ)
    (hs : XactState.Settles base σ.xacts s'.xacts) (rel : Oid) :
    Exclusive.Apart s'.xacts.Committed s'.xacts.Aborted (σ.keyed key rel) (σ.Unchecked rel) := by
  refine (h.apart rel).later fun p k v q w hp hq hex => ?_
  obtain ⟨a, ha, -, rfl⟩ := row_of_keyed hp
  obtain ⟨b, hb, -, rfl⟩ := row_of_keyed hq
  exact Excludes.later (h.sys.header ha) (h.sys.header hb) hs hex

theorem aborted_later (h : UniqueInv base key σ) (hs : XactState.Settles base σ.xacts s'.xacts)
    (hrow : σ.row rel tid = some item) (ha : σ.xacts.Aborted item.xmin) :
    s'.xacts.Aborted item.xmin := by
  have hne : σ.xacts.status item.xmin ≠ .inProgress := by
    rw [show σ.xacts.status item.xmin = .aborted from ha]
    decide
  exact (hs _ (h.sys.header hrow).xmin hne).trans ha

theorem UniqueInv.quiet (h : UniqueInv base key σ) (hs : CatalogStep base σ.sys s') (hq : Quiet σ s') :
    UniqueInv base key { σ with sys := s' } := by
  have hset := hs.settles h.sys
  have hrow : ∀ rel tid, UniqueSystem.row { σ with sys := s' } rel tid = σ.row rel tid :=
    fun rel tid => by
      rw [row_eq_lp, row_eq_lp, hq.lp]
  have hkeyed : ∀ rel, UniqueSystem.keyed key { σ with sys := s' } rel = σ.keyed key rel := fun rel => by
    funext tid
    unfold UniqueSystem.keyed
    rw [hrow]
  have hunchecked : ∀ rel tid, σ.Unchecked rel tid →
      UniqueSystem.Unchecked { σ with sys := s' } rel tid := by
    rintro rel tid ⟨k, check, hp, hc⟩
    refine ⟨k, check, hp, ?_⟩
    rw [show ({ σ with sys := s' } : UniqueSystem κ).sys.updating k = σ.sys.updating k from
      (hq.inserting k _ hp).2]
    exact hc
  refine ⟨h.sys.step hs, fun rel tid lp hlp => ?_, fun k p hp => ?_, fun k c hc hw => ?_,
    fun rel tid item hi => ?_, fun rel => ?_⟩
  · exact h.fetchable rel tid lp ((hq.lp rel tid).symm.trans hlp)
  · obtain ⟨t, item, hk, hi, hx⟩ := h.inserting k p hp
    exact ⟨t, item, (hq.inserting k p hp).1.trans hk, (hrow ..).trans hi, hx⟩
  · exact h.written k c (hq.written k c hc hw) hw
  · rw [hrow] at hi
    rcases h.entered rel tid item hi with hp | ha | he
    · exact Or.inl hp
    · exact Or.inr (Or.inl (aborted_later h hset hi ha))
    · exact Or.inr (Or.inr he)
  · rw [hkeyed]
    refine (h.apart_later hset rel).drop fun tid c v hr hu => Or.inl (hunchecked rel tid hu)

/-- Other entries are marked dead. -/
theorem UniqueInv.kill (h : UniqueInv base key σ) (rel : Oid) (tid : ItemPointer) :
    UniqueInv base key { σ with
      index := Function.update σ.index rel ((σ.index rel).map fun e =>
        if e.tid = tid then { e with dead := true } else e) } := by
  refine ⟨h.sys, h.fetchable, h.inserting, h.written, fun rel' tid' item hi => ?_, h.apart⟩
  rcases h.entered rel' tid' item hi with hp | ha | ⟨dead, he⟩
  · exact Or.inl hp
  · exact Or.inr (Or.inl ha)
  · right
    right
    by_cases hr : rel' = rel
    · subst hr
      dsimp only
      rw [Function.update_self]
      by_cases htid : tid' = tid
      · exact ⟨true, List.mem_map.mpr ⟨_, he, if_pos htid⟩⟩
      · exact ⟨dead, List.mem_map.mpr ⟨_, he, if_neg htid⟩⟩
    · dsimp only
      rw [Function.update_of_ne hr]
      exact ⟨dead, he⟩

/-! ### Steps that append a row -/

theorem fetchable_pack {tuple : List Nat} (h : sizeofHeapTupleHeader ≤ tuple.length) (item : CatalogItem) :
    npCatalogItemIsFetchable (npCatalogPackSize tuple, item) = true := by
  unfold npCatalogItemIsFetchable npCatalogPackSize
  rw [decide_eq_true_eq]
  omega

/-- **Appending a row**: the row is not checked yet. -/
theorem UniqueInv.append (h : UniqueInv base key σ) (hs : CatalogStep base σ.sys s')
    (hsession : s'.session = σ.sys.session) (hk : σ.sys.session k = some t)
    (hp : σ.inserting k = none) {cid : Nat} {prev : ItemPointer} {tuple : List Nat}
    (ha : LpAppended σ.sys.inst s'.inst p.rel p.tid (npCatalogPackItem ⟨t, cid⟩ prev tuple))
    (htuple : sizeofHeapTupleHeader ≤ tuple.length)
    (hothers : ∀ k', k' ≠ k → s'.updating k' = σ.sys.updating k')
    (hunchecked : p.checkUnique = true ∨ ∃ c, s'.updating k = some c)
    (hwritten : ∀ c, s'.updating k = some c → c.written = true →
      p.checkUnique = false ∧ c.rel = p.rel ∧ p.tid ≠ c.otid) :
    UniqueInv base key { σ with sys := s', inserting := Function.update σ.inserting k (some p) } := by
  have hx : s'.xacts = σ.xacts := congrArg Db.xacts ha.db
  -- the row is new, and every other one is as it was
  have hnew : UniqueSystem.row
      { σ with sys := s', inserting := Function.update σ.inserting k (some p) } p.rel p.tid =
      some (npCatalogPackItem ⟨t, cid⟩ prev tuple) := by
    rw [row_eq_lp, ha.lp, if_pos ⟨rfl, rfl⟩]
    rfl
  have hold : ∀ rel tid, ¬ (rel = p.rel ∧ tid = p.tid) → UniqueSystem.row
      { σ with sys := s', inserting := Function.update σ.inserting k (some p) } rel tid =
      σ.row rel tid := by
    intro rel tid hne
    rw [row_eq_lp, row_eq_lp, ha.lp, if_neg hne]
  have hfresh : σ.row p.rel p.tid = none := by
    rw [row_eq_lp, ha.fresh]
    rfl
  have hkeep : ∀ k' q, σ.inserting k' = some q → Function.update σ.inserting k (some p) k' = some q ∧
      k' ≠ k := by
    intro k' q hq
    have hne : k' ≠ k := by
      rintro rfl
      rw [hp] at hq
      cases hq
    exact ⟨(Function.update_of_ne hne ..).trans hq, hne⟩
  refine ⟨h.sys.step hs, fun rel tid lp hlp => ?_, fun k' q hq => ?_, fun k' c hc hw => ?_,
    fun rel tid item hi => ?_, fun rel => ?_⟩
  · rw [show UniqueSystem.sys { σ with sys := s', inserting := Function.update σ.inserting k (some p) } =
      s' from rfl, ha.lp] at hlp
    split at hlp
    · obtain rfl := Option.some.inj hlp
      exact fetchable_pack htuple _
    · exact h.fetchable rel tid lp hlp
  · have hq : Function.update σ.inserting k (some p) k' = some q := hq
    by_cases hk' : k' = k
    · rw [hk', Function.update_self] at hq
      obtain rfl := Option.some.inj hq
      exact ⟨t, _, by rw [hk', hsession]; exact hk, hnew, rfl, rfl⟩
    · rw [Function.update_of_ne hk'] at hq
      obtain ⟨t', item, hk₁, hi, hx⟩ := h.inserting k' q hq
      have hne : ¬ (q.rel = p.rel ∧ q.tid = p.tid) := fun he => by
        rw [he.1, he.2, hfresh] at hi
        cases hi
      exact ⟨t', item, by rw [hsession]; exact hk₁, (hold _ _ hne).trans hi, hx⟩
  · by_cases hk' : k' = k
    · subst hk'
      obtain ⟨hcheck, hrel, htid⟩ := hwritten c hc hw
      refine ⟨p.tid, (Function.update_self ..).trans ?_, htid⟩
      rw [hrel, ← hcheck]
    · have hc : s'.updating k' = some c := hc
      rw [hothers k' hk'] at hc
      obtain ⟨tid, hq, hne⟩ := h.written k' c hc hw
      exact ⟨tid, (hkeep k' _ hq).1, hne⟩
  · by_cases he : rel = p.rel ∧ tid = p.tid
    · rw [he.1, he.2]
      exact Or.inl ⟨k, p.checkUnique, Function.update_self ..⟩
    · rw [hold rel tid he] at hi
      rcases h.entered rel tid item hi with ⟨k', check, hq⟩ | hab | hin
      · exact Or.inl ⟨k', check, (hkeep k' _ hq).1⟩
      · refine Or.inr (Or.inl ?_)
        show s'.xacts.Aborted item.xmin
        rw [hx]
        exact hab
      · exact Or.inr (Or.inr hin)
  · have hsub : ∀ q, σ.Unchecked rel q → UniqueSystem.Unchecked
        { σ with sys := s', inserting := Function.update σ.inserting k (some p) } rel q := by
      rintro q ⟨k', check, hq, hc⟩
      obtain ⟨hq', hne⟩ := hkeep k' _ hq
      refine ⟨k', check, hq', ?_⟩
      rw [show UniqueSystem.sys { σ with
        sys := s', inserting := Function.update σ.inserting k (some p) } = s' from rfl, hothers k' hne]
      exact hc
    show Exclusive.Apart s'.xacts.Committed s'.xacts.Aborted _ _
    rw [hx]
    by_cases hr : rel = p.rel
    · subst hr
      refine (h.apart p.rel).write (p := p.tid) (fun q hne => ?_)
        ⟨k, p.checkUnique, Function.update_self .., hunchecked⟩ hsub
      unfold UniqueSystem.keyed
      rw [hold _ _ fun he => hne he.2]
    · have hkeyed : UniqueSystem.keyed key
          { σ with sys := s', inserting := Function.update σ.inserting k (some p) } rel =
          σ.keyed key rel := by
        funext q
        unfold UniqueSystem.keyed
        rw [hold _ _ fun he => hr he.1]
      rw [hkeyed]
      exact (h.apart rel).drop fun q c v _ hu => Or.inl (hsub q hu)

/-! ### Steps that stamp a row -/

/-- What passes the test of the writers may be deleted. -/
theorem deletable_of_check {x : XactState} (hroom : x.nextFxid ≤ base + 2 ^ 32) {s : Session}
    (hs : x.Open base s.fxid) (h : HeaderInv base x item.toRecordHeader)
    (hc : checkItem x s.own item = .ok) :
    Exclusive.Deletable x.Committed x.Aborted s.fxid item.stamps := by
  have hst : (Row.catalog item).Stampable x [s.fxid] := stampable_of_checkItem hc
  obtain ⟨hmin, hmax⟩ := hst.full hroom hs (h.row rfl) fun m he => by cases he
  refine ⟨hmin, fun d hd => ?_⟩
  obtain ⟨hv, rfl⟩ := deleter_eq_some.mp hd
  exact hmax hv

section

variable {cid : Nat} {lp : Nat × CatalogItem}

theorem row_stamped (hst : LpStamped σ.sys.inst s'.inst ⟨t, cid⟩ rel tid lp) (rel' : Oid)
    (tid' : ItemPointer) : UniqueSystem.row { σ with sys := s' } rel' tid' =
      if rel' = rel ∧ tid' = tid then some (stampItem ⟨t, cid⟩ lp.2) else σ.row rel' tid' := by
  rw [row_eq_lp, row_eq_lp, hst.lp]
  split <;> rfl

/-- **Stamping a row keeps the rows of a key apart.** -/
theorem UniqueInv.apart_stamp (h : UniqueInv base key σ) (hk : σ.sys.session k = some t)
    (hst : LpStamped σ.sys.inst s'.inst ⟨t, cid⟩ rel tid lp)
    (hdel : Exclusive.Deletable σ.xacts.Committed σ.xacts.Aborted t lp.2.stamps) (rel' : Oid) :
    Exclusive.Apart s'.xacts.Committed s'.xacts.Aborted
      (UniqueSystem.keyed key { σ with sys := s' } rel') (σ.Unchecked rel') := by
  have hopen := h.sys.sessions.running k t hk
  have hx : s'.xacts = σ.xacts := congrArg Db.xacts hst.db
  rw [hx]
  by_cases hr : rel' = rel
  · subst hr
    have hrow : σ.row rel' tid = some lp.2 := by
      rw [row_eq_lp, hst.old, Option.map_some]
    refine (h.apart rel').mark XactState.not_aborted_of_committed hopen.not_aborted
      (fun q hne => ?_) (keyed_of_row key hrow) ?_ hdel
    · unfold UniqueSystem.keyed
      rw [row_stamped hst, if_neg fun he => hne he.2]
    · refine (keyed_of_row key ((row_stamped hst rel' tid).trans (if_pos ⟨rfl, rfl⟩))).trans ?_
      unfold RecordHeader.stamps
      rw [deleter_stampItem _ hopen.1.valid]
      rfl
  · have hkeyed : UniqueSystem.keyed key { σ with sys := s' } rel' = σ.keyed key rel' := by
      funext q
      unfold UniqueSystem.keyed
      rw [row_stamped hst, if_neg fun he => hr he.1]
    rw [hkeyed]
    exact h.apart rel'

/-- **Stamping a row**, once the rows of a key are known to be apart. -/
theorem UniqueInv.stamp (h : UniqueInv base key σ) (hs : CatalogStep base σ.sys s')
    (hsession : s'.session = σ.sys.session) (hk : σ.sys.session k = some t)
    (hst : LpStamped σ.sys.inst s'.inst ⟨t, cid⟩ rel tid lp)
    (hdel : Exclusive.Deletable σ.xacts.Committed σ.xacts.Aborted t lp.2.stamps)
    (hown : ∀ check, σ.inserting k ≠ some ⟨rel, tid, check⟩)
    (hupdating : ∀ k' c, s'.updating k' = some c → σ.sys.updating k' = some c)
    (hapart : ∀ rel', Exclusive.Apart s'.xacts.Committed s'.xacts.Aborted
      (UniqueSystem.keyed key { σ with sys := s' } rel')
      (UniqueSystem.Unchecked { σ with sys := s' } rel')) :
    UniqueInv base key { σ with sys := s' } := by
  have hopen := h.sys.sessions.running k t hk
  have hx : s'.xacts = σ.xacts := congrArg Db.xacts hst.db
  have hrow : σ.row rel tid = some lp.2 := by
    rw [row_eq_lp, hst.old, Option.map_some]
  refine ⟨h.sys.step hs, fun rel' tid' lp' hlp => ?_, fun k' q hq => ?_, fun k' c hc hw => ?_,
    fun rel' tid' item hi => ?_, hapart⟩
  · rw [show UniqueSystem.sys { σ with sys := s' } = s' from rfl, hst.lp] at hlp
    split at hlp
    · obtain rfl := Option.some.inj hlp
      exact h.fetchable rel tid lp hst.old
    · exact h.fetchable rel' tid' lp' hlp
  · obtain ⟨t', item, hk', hi, hx', hd⟩ := h.inserting k' q hq
    -- a row of another running transaction cannot be deleted
    have hne : ¬ (q.rel = rel ∧ q.tid = tid) := by
      rintro ⟨rfl, rfl⟩
      obtain rfl := Option.some.inj (hrow.symm.trans hi)
      have hopen' := h.sys.sessions.running k' t' hk'
      rcases hdel.1 with he | hc
      · have ht : t' = t := hx'.symm.trans he
        rw [ht] at hk'
        obtain rfl := h.sys.sessions.one k' k t hk' hk
        exact hown q.checkUnique hq
      · have hcom : σ.xacts.Committed t' := by
          rw [← hx']
          exact hc
        exact hopen'.not_committed hcom
    exact ⟨t', item, by rw [hsession]; exact hk', by rw [row_stamped hst, if_neg hne]; exact hi, hx', hd⟩
  · exact h.written k' c (hupdating k' c hc) hw
  · rw [row_stamped hst] at hi
    have hold : ∃ item₀, σ.row rel' tid' = some item₀ ∧ item.heapTuple = item₀.heapTuple ∧
        item.xmin = item₀.xmin := by
      split at hi
      · next he =>
        obtain rfl := Option.some.inj hi
        exact ⟨lp.2, by rw [he.1, he.2]; exact hrow, rfl, rfl⟩
      · exact ⟨item, hi, rfl, rfl⟩
    obtain ⟨item₀, hi₀, htuple, hxmin⟩ := hold
    rcases h.entered rel' tid' item₀ hi₀ with hp | ha | he
    · exact Or.inl hp
    · refine Or.inr (Or.inl ?_)
      show s'.xacts.Aborted item.xmin
      rw [hx, hxmin]
      exact ha
    · refine Or.inr (Or.inr ?_)
      rw [htuple]
      exact he

end

/-! ### Steps that call `index_insert` -/

/-- What the transaction does not find live leaves room, if its creator is the transaction or has
ended. -/
theorem leavesRoom_of_not_live (h : SystemInv base σ.sys) (hk : σ.sys.session k = some t)
    (hrow : σ.row rel tid = some item)
    (hmin : item.xmin = t ∨ σ.xacts.status item.xmin ≠ .inProgress)
    (hlive : npEntityTupleIsLive σ.xacts [t] item.toRecordHeader = false) :
    LeavesRoom σ.xacts t item := by
  have hopen := h.sessions.running k t hk
  have hown : ∀ o ∈ [t], σ.xacts.Begun base o := fun o ho => by
    rw [List.mem_singleton.mp ho]
    exact hopen.1
  refine Exclusive.vacant_of_not_seen ?_ fun hseen => ?_
  · rcases hmin with he | hne
    · exact Or.inl he
    · cases hst : σ.xacts.status item.xmin with
      | inProgress => exact absurd hst hne
      | committed => exact Or.inr (Or.inl hst)
      | aborted => exact Or.inr (Or.inr hst)
  · have hseen' : Exclusive.Seen σ.xacts.Committed (fun o => o ∈ [t]) item.stamps := by
      simpa only [List.mem_singleton] using hseen
    have hl := (npEntityTupleIsLive_iff_seen h.room hown (h.header hrow)).mpr hseen'
    have hl' : npEntityTupleIsLive σ.xacts [t] item.toRecordHeader = true := hl
    rw [hlive] at hl'
    cases hl'

/-- The index gets the entry of a row. -/
theorem UniqueInv.entry (h : UniqueInv base key σ) (hp : σ.inserting k = some p)
    (hrow : σ.row p.rel p.tid = some item) (hu : ∀ c, σ.sys.updating k = some c → c.written = false)
    {entries : List (IndexEntry κ)}
    (hkeep : ∀ e ∈ σ.index p.rel, ∃ dead, (⟨e.key, e.tid, dead⟩ : IndexEntry κ) ∈ entries)
    (hapart : ∀ rel, Exclusive.Apart σ.xacts.Committed σ.xacts.Aborted (σ.keyed key rel)
      (UniqueSystem.Unchecked { σ with
        index := Function.update σ.index p.rel (⟨key p.rel item.heapTuple, p.tid, false⟩ :: entries)
        inserting := Function.update σ.inserting k none } rel)) :
    UniqueInv base key { σ with
      index := Function.update σ.index p.rel (⟨key p.rel item.heapTuple, p.tid, false⟩ :: entries)
      inserting := Function.update σ.inserting k none } := by
  refine ⟨h.sys, h.fetchable, fun k' q hq => ?_, fun k' c hc hw => ?_, fun rel tid b hb => ?_, hapart⟩
  · have hq : Function.update σ.inserting k none k' = some q := hq
    by_cases hk' : k' = k
    · rw [hk', Function.update_self] at hq
      cases hq
    · rw [Function.update_of_ne hk'] at hq
      exact h.inserting k' q hq
  · have hne : k' ≠ k := by
      rintro rfl
      rw [hu c hc] at hw
      cases hw
    obtain ⟨tid, hq, htid⟩ := h.written k' c hc hw
    exact ⟨tid, (Function.update_of_ne hne ..).trans hq, htid⟩
  · dsimp only
    rcases h.entered rel tid b hb with ⟨k', check, hq⟩ | ha | ⟨dead, he⟩
    · by_cases hk' : k' = k
      · -- the row the entry is of
        subst hk'
        obtain rfl := Option.some.inj (hp.symm.trans hq)
        obtain rfl := Option.some.inj (hrow.symm.trans hb)
        refine Or.inr (Or.inr ⟨false, ?_⟩)
        rw [Function.update_self]
        exact List.mem_cons_self
      · exact Or.inl ⟨k', check, (Function.update_of_ne hk' ..).trans hq⟩
    · exact Or.inr (Or.inl ha)
    · right
      right
      by_cases hr : rel = p.rel
      · subst hr
        obtain ⟨dead', he'⟩ := hkeep _ he
        rw [Function.update_self]
        exact ⟨dead', List.mem_cons_of_mem _ he'⟩
      · rw [Function.update_of_ne hr]
        exact ⟨dead, he⟩

/-- Once the entry of one row is in, the others are as they were. -/
theorem unchecked_entry {index : Oid → List (IndexEntry κ)} (hp : σ.inserting k = some p)
    (hne : ¬ (rel = p.rel ∧ tid = p.tid)) (h : σ.Unchecked rel tid) : UniqueSystem.Unchecked
      { σ with index := index, inserting := Function.update σ.inserting k none } rel tid := by
  obtain ⟨k', check, hq, hc⟩ := h
  refine ⟨k', check, (Function.update_of_ne ?_ ..).trans hq, hc⟩
  rintro rfl
  obtain rfl := Option.some.inj (hp.symm.trans hq)
  exact hne ⟨rfl, rfl⟩

/-- **A row is admitted** when the other rows of its key leave room for it. -/
theorem apart_lift {unchecked exempt : Oid → ItemPointer → Prop}
    {rows : Oid → ItemPointer → Option (κ × Exclusive.Stamps Nat)} {x : XactState} (rel : Oid)
    (tid : ItemPointer) (t : Nat) (c : κ)
    (hold : ∀ rel, Exclusive.Apart x.Committed x.Aborted (rows rel) (unchecked rel))
    (hrow : rows rel tid = some (c, ⟨t, none⟩))
    (hroom : ∀ tid' v, tid' ≠ tid → rows rel tid' = some (c, v) → ¬ unchecked rel tid' →
      Exclusive.Vacant x.Committed x.Aborted t v)
    (hsub : ∀ rel' tid', ¬ (rel' = rel ∧ tid' = tid) → unchecked rel' tid' → exempt rel' tid')
    (rel' : Oid) : Exclusive.Apart x.Committed x.Aborted (rows rel') (exempt rel') := by
  by_cases hr : rel' = rel
  · subst hr
    exact (hold rel').lift hrow (fun q v hne hq hu => hroom q v hne hq hu)
      fun q hne hu => hsub rel' q (fun he => hne he.2) hu
  · exact (hold rel').drop fun q _ _ _ hu => Or.inl (hsub rel' q (fun he => hr he.1) hu)

end

section

variable {κ : Type} [DecidableEq κ] {key : Oid → List Nat → κ} {base k t : Nat} {σ σ' : UniqueSystem κ}
  {a : UniqueAction} {r : CatalogReader} {tbl : Table CatalogItem} {tid : ItemPointer}

/-- What a check that lets the row in has asked about. -/
theorem btCheckUnique_none {c : κ} {entries entries' : List (IndexEntry κ)}
    (h : btCheckUnique r tbl c entries = .ok (none, entries')) :
    (∀ e ∈ entries, e.key = c → e.dead = false →
      ∃ fetch, npCatalogIndexFetchTuple r tbl e.tid = .ok fetch ∧ fetch.slot = none) ∧
    ∀ e ∈ entries, ∃ dead, (⟨e.key, e.tid, dead⟩ : IndexEntry κ) ∈ entries' := by
  induction entries generalizing entries' with
  | nil => exact ⟨nofun, nofun⟩
  | cons e es ih =>
    unfold btCheckUnique at h
    split at h
    · next hskip =>
      obtain ⟨⟨conflict, es'⟩, hes, h⟩ := bind_ok h
      obtain ⟨rfl, rfl⟩ := Prod.mk.inj (Except.ok.inj h)
      obtain ⟨hask, hkeep⟩ := ih hes
      refine ⟨fun e' he' hkey hdead => ?_, fun e' he' => ?_⟩
      · rcases List.mem_cons.mp he' with rfl | he'
        · simp [hkey, hdead] at hskip
        · exact hask e' he' hkey hdead
      · rcases List.mem_cons.mp he' with rfl | he'
        · exact ⟨e'.dead, List.mem_cons_self⟩
        · obtain ⟨dead, hd⟩ := hkeep e' he'
          exact ⟨dead, List.mem_cons_of_mem _ hd⟩
    · obtain ⟨fetch, hf, h⟩ := bind_ok h
      split at h
      · cases Except.ok.inj h
      · next hslot =>
        obtain ⟨⟨conflict, es'⟩, hes, h⟩ := bind_ok h
        obtain ⟨rfl, rfl⟩ := Prod.mk.inj (Except.ok.inj h)
        obtain ⟨hask, hkeep⟩ := ih hes
        refine ⟨fun e' he' hkey hdead => ?_, fun e' he' => ?_⟩
        · rcases List.mem_cons.mp he' with rfl | he'
          · refine ⟨fetch, hf, ?_⟩
            rwa [Bool.not_eq_true, Option.isSome_eq_false_iff, Option.isNone_iff_eq_none] at hslot
          · exact hask e' he' hkey hdead
        · rcases List.mem_cons.mp he' with rfl | he'
          · exact ⟨fetch.allDead, List.mem_cons_self⟩
          · obtain ⟨dead, hd⟩ := hkeep e' he'
            exact ⟨dead, List.mem_cons_of_mem _ hd⟩

/-- With a dirty snapshot, only what is not live is not found. -/
theorem not_live_of_fetch {x : XactState} {own : List Nat} {snapshot : Snapshot}
    {lp : Nat × CatalogItem} {fetch : IndexFetch} (hlp : tbl.lp tid = some lp)
    (hf : npCatalogItemIsFetchable lp = true)
    (h : npCatalogIndexFetchTuple ⟨x, own, some (.dirty, snapshot)⟩ tbl tid = .ok fetch)
    (hslot : fetch.slot = none) : npEntityTupleIsLive x own lp.2.toRecordHeader = false := by
  obtain ⟨page, hp, hx⟩ := Option.bind_eq_some_iff.mp hlp
  unfold npCatalogIndexFetchTuple readBuffer at h
  rw [hp] at h
  dsimp only [bind, Except.bind] at h
  rw [hx, Option.filter_some, if_pos hf] at h
  by_contra hlive
  rw [Bool.not_eq_false] at hlive
  have hvisible : npCatalogTupleVisible x own lp.2.toRecordHeader (some (.dirty, snapshot)) = true :=
    hlive
  dsimp only at h
  rw [hlive, hvisible] at h
  obtain rfl := Except.ok.inj h
  cases hslot

/-- **A check admits its row.** -/
theorem UniqueInv.check (h : UniqueInv base key σ) {p : IndexInsert} {item : CatalogItem}
    {snapshot : Snapshot} {entries : List (IndexEntry κ)}
    (hk : σ.sys.session k = some t) (hp : σ.inserting k = some p) (hc : p.checkUnique = true)
    (htbl : σ.sys.inst.catalogs p.rel = some tbl) (hget : tbl.get p.tid = some item)
    (hcheck : btCheckUnique ⟨σ.xacts, σ.sys.own k, some (.dirty, snapshot)⟩ tbl
      (key p.rel item.heapTuple) (σ.index p.rel) = .ok (none, entries))
    (hcare : Careful key σ (.check k)) : UniqueInv base key { σ with
      index := Function.update σ.index p.rel (⟨key p.rel item.heapTuple, p.tid, false⟩ :: entries)
      inserting := Function.update σ.inserting k none } := by
  have hrow : σ.row p.rel p.tid = some item := by
    unfold UniqueSystem.row Instance.item
    rw [htbl]
    exact hget
  have hown : σ.sys.own k = [t] := by
    unfold CatalogSystem.own
    rw [hk]
    rfl
  rw [hown] at hcheck
  obtain ⟨hask, hkeep⟩ := btCheckUnique_none hcheck
  obtain ⟨t', item', hk', hrow', hmin, hdel⟩ := h.inserting k p hp
  obtain rfl := Option.some.inj (hk.symm.trans hk')
  obtain rfl := Option.some.inj (hrow.symm.trans hrow')
  have hstamps : item.stamps = ⟨t, none⟩ := by
    unfold RecordHeader.stamps
    rw [hmin, hdel]
  refine h.entry hp hrow (fun c hu => ?_) hkeep (apart_lift _ _ _ _ h.apart
    ((keyed_of_row key hrow).trans (by rw [hstamps])) (fun tid v hne hr hu => ?_)
    fun rel tid hne hu => unchecked_entry hp hne hu)
  · -- a session that is about to check is not updating
    cases hw : c.written with
    | false => rfl
    | true =>
      obtain ⟨tid, hq, -⟩ := h.written k c hu hw
      obtain rfl := Option.some.inj (hp.symm.trans hq)
      cases hc
  · obtain ⟨b, hb, hkey, rfl⟩ := row_of_keyed hr
    obtain ⟨hcreator, hmarked⟩ := hcare t p item hk hp hrow tid b hb hne hkey hu
    rcases h.entered p.rel tid b hb with ⟨k', check, hq⟩ | ha | ⟨dead, he⟩
    · -- a row without an entry is one of another running transaction
      obtain ⟨t', b', hk₁, hb', hx, -⟩ := h.inserting k' _ hq
      obtain rfl := Option.some.inj (hb.symm.trans hb')
      have hopen := h.sys.sessions.running k' t' hk₁
      rcases hcreator with he | hne'
      · rw [← hx, he] at hk₁
        obtain rfl := h.sys.sessions.one k' k t hk₁ hk
        exact absurd (congrArg IndexInsert.tid (Option.some.inj (hp.symm.trans hq))).symm hne
      · rw [hx] at hne'
        exact absurd hopen.2 hne'
    · exact Or.inl (Or.inl ha)
    · cases dead with
      | true => exact hmarked ⟨_, he, rfl, rfl⟩
      | false =>
        obtain ⟨fetch, hf, hslot⟩ := hask _ he hkey rfl
        obtain ⟨lp, hlp, rfl⟩ := Option.map_eq_some_iff.mp ((row_eq_lp ..).symm.trans hb)
        have hlp' : tbl.lp tid = some lp := (lp_catalog htbl).symm.trans hlp
        exact leavesRoom_of_not_live h.sys hk hb hcreator
          (not_live_of_fetch hlp' (h.fetchable _ _ _ hlp) hf hslot)

/-! ### Every careful step keeps the invariant -/

omit [DecidableEq κ] in
/-- **The stamp of an update admits the new row.** -/
theorem UniqueInv.stampUpdate (h : UniqueInv base key σ) {i : Instance} {c : UpdateCall}
    (hk : σ.sys.session k = some t) (hu : σ.sys.updating k = some c) (hw : c.written = true)
    (hr : (stampCatalogItem ⟨t, σ.sys.cid k⟩ c.rel c.otid).Runs σ.sys.inst () i)
    (hcare : Careful key σ (.stampUpdate k)) : UniqueInv base key { σ with
      sys := { σ.sys with inst := i, updating := Function.update σ.sys.updating k none } } := by
  obtain ⟨lp, hst⟩ := lpStamped_of_runs hr
  obtain ⟨tid, hp, hne⟩ := h.written k c hu hw
  obtain ⟨t', row, hk', hrow, hmin, hdeleter⟩ := h.inserting k _ hp
  obtain rfl := Option.some.inj (hk.symm.trans hk')
  obtain ⟨hold, hroom⟩ := hcare t c _ row hk hu hp hrow
  have hopen := h.sys.sessions.running k t hk
  have hrow₀ : σ.row c.rel c.otid = some lp.2 := by
    rw [row_eq_lp, hst.old, Option.map_some]
  have hdel := deletable_of_check h.sys.room hopen (h.sys.header hrow₀) (hold _ hrow₀)
  have hupdating : ∀ k' c', Function.update σ.sys.updating k none k' = some c' →
      k' ≠ k ∧ σ.sys.updating k' = some c' := by
    intro k' c' hc'
    by_cases hk' : k' = k
    · rw [hk', Function.update_self] at hc'
      cases hc'
    · rw [Function.update_of_ne hk'] at hc'
      exact ⟨hk', hc'⟩
  have hst' : LpStamped σ.sys.inst
      ({ σ.sys with inst := i, updating := Function.update σ.sys.updating k none } : CatalogSystem).inst
      ⟨t, σ.sys.cid k⟩ c.rel c.otid lp := hst
  refine h.stamp (CatalogStep.stampUpdate hk hu hw hr) rfl hk hst' hdel (fun check he => ?_)
    (fun k' c' hc' => (hupdating k' c' hc').2)
    (apart_lift c.rel tid t (key c.rel row.heapTuple) (h.apart_stamp hk hst' hdel) ?_ (fun q v hq hv hunch => ?_) fun rel' q hne' hunch => ?_)
  · exact hne (congrArg IndexInsert.tid (Option.some.inj (hp.symm.trans he)))
  · refine (keyed_of_row key ((row_stamped hst' c.rel tid).trans ((if_neg fun he => hne he.2).trans
      hrow))).trans ?_
    unfold RecordHeader.stamps
    rw [hmin, hdeleter]
  · have hx : i.db.xacts = σ.xacts := congrArg Db.xacts hst.db
    show Exclusive.Vacant i.db.xacts.Committed i.db.xacts.Aborted t v
    rw [hx]
    obtain ⟨b, hb, hkey, rfl⟩ := row_of_keyed hv
    rw [row_stamped hst'] at hb
    split at hb
    · -- the old row, which the transaction has just deleted
      obtain rfl := Option.some.inj hb
      exact Or.inr (deleter_stampItem _ hopen.1.valid)
    · next hother =>
      exact hroom q b hb hq (fun he => hother ⟨rfl, he⟩) hkey hunch
  · obtain ⟨k', check, hq, hc⟩ := hunch
    refine ⟨k', check, hq, hc.imp id fun ⟨c', hc'⟩ => ⟨c', ?_⟩⟩
    have hk' : k' ≠ k := by
      rintro rfl
      obtain ⟨rfl, rfl⟩ : rel' = c.rel ∧ q = tid := by
        have he := Option.some.inj (hq.symm.trans hp)
        exact ⟨congrArg IndexInsert.rel he, congrArg IndexInsert.tid he⟩
      exact hne' ⟨rfl, rfl⟩
    exact (Function.update_of_ne hk' ..).trans hc'

omit [DecidableEq κ] in
/-- An aborted transaction leaves no row to check. -/
theorem UniqueInv.abort (h : UniqueInv base key σ) (hk : σ.sys.session k = some t) :
    UniqueInv base key { σ with
      sys := σ.sys.endXact k (σ.sys.inst.db.abort t)
      inserting := Function.update σ.inserting k none } := by
  have hs : CatalogStep base σ.sys (σ.sys.endXact k (σ.sys.inst.db.abort t)) := .abort hk
  have hset := hs.settles h.sys
  have hkeep : ∀ k' q, Function.update σ.inserting k none k' = some q →
      k' ≠ k ∧ σ.inserting k' = some q := by
    intro k' q hq
    by_cases hk' : k' = k
    · rw [hk', Function.update_self] at hq
      cases hq
    · rw [Function.update_of_ne hk'] at hq
      exact ⟨hk', hq⟩
  have habort : (σ.sys.endXact k (σ.sys.inst.db.abort t)).xacts.Aborted t := Function.update_self ..
  -- a row of the session that ends is gone
  have hmine : ∀ rel tid item check, σ.row rel tid = some item → σ.inserting k = some ⟨rel, tid, check⟩ →
      (σ.sys.endXact k (σ.sys.inst.db.abort t)).xacts.Aborted item.xmin := by
    intro rel tid item check hrow hp
    obtain ⟨t', item', hk', hrow', hx, -⟩ := h.inserting k _ hp
    obtain rfl := Option.some.inj (hk.symm.trans hk')
    obtain rfl := Option.some.inj (hrow.symm.trans hrow')
    rw [hx]
    exact habort
  refine ⟨h.sys.step hs, h.fetchable, fun k' q hq => ?_, fun k' c hc hw => ?_,
    fun rel tid item hi => ?_, fun rel => ?_⟩
  · obtain ⟨hne, hq⟩ := hkeep k' q hq
    obtain ⟨t', item, hk', hi, hx⟩ := h.inserting k' q hq
    exact ⟨t', item, (Function.update_of_ne hne ..).trans hk', hi, hx⟩
  · have hc : Function.update σ.sys.updating k none k' = some c := hc
    by_cases hk' : k' = k
    · rw [hk', Function.update_self] at hc
      cases hc
    · rw [Function.update_of_ne hk'] at hc
      obtain ⟨tid, hq, hne⟩ := h.written k' c hc hw
      exact ⟨tid, (Function.update_of_ne hk' ..).trans hq, hne⟩
  · rcases h.entered rel tid item hi with ⟨k', check, hq⟩ | ha | he
    · by_cases hk' : k' = k
      · subst hk'
        exact Or.inr (Or.inl (hmine rel tid item check hi hq))
      · exact Or.inl ⟨k', check, (Function.update_of_ne hk' ..).trans hq⟩
    · exact Or.inr (Or.inl (aborted_later h hset hi ha))
    · exact Or.inr (Or.inr he)
  · refine (h.apart_later hset rel).drop fun tid c v hr hu => ?_
    obtain ⟨item, hi, -, rfl⟩ := row_of_keyed hr
    obtain ⟨k', check, hq, hc⟩ := hu
    by_cases hk' : k' = k
    · subst hk'
      exact Or.inr (Or.inl (hmine rel tid item check hi hq))
    · refine Or.inl ⟨k', check, (Function.update_of_ne hk' ..).trans hq, hc.imp id fun ⟨c', hc'⟩ => ?_⟩
      exact ⟨c', (Function.update_of_ne hk' ..).trans hc'⟩

/-- **Every careful step keeps the invariant.** -/
theorem UniqueInv.step (h : UniqueInv base key σ) (hs : UniqueStep base key a σ σ')
    (hcare : Careful key σ a) : UniqueInv base key σ' := by
  cases hs with
  | quiet hs hq => exact h.quiet hs hq
  | @insert _ k t i rel tuple tid hk hu hp htuple hr =>
    refine h.append (CatalogStep.insert hk hu hr) rfl hk hp (lpAppended_of_runs hr) htuple (fun _ _ => rfl)
      (Or.inl rfl) fun c hc => ?_
    have hc : σ.sys.updating k = some c := hc
    rw [hu] at hc
    cases hc
  | check hk hp hc htbl hget hcheck => exact h.check hk hp hc htbl hget hcheck hcare
  | @delete _ k t i rel tid r hk hu hp hr =>
    have hdb : i.db = σ.sys.inst.db := by
      rcases delete_lp hr with rfl | ⟨lp, -, hst⟩
      · rfl
      · exact hst.db
    rcases delete_lp hr with rfl | ⟨lp, hc, hst⟩
    · exact h
    · have hopen := h.sys.sessions.running k t hk
      have hrow : σ.row rel tid = some lp.2 := by
        rw [row_eq_lp, hst.old, Option.map_some]
      have hdel := deletable_of_check h.sys.room hopen (h.sys.header hrow) hc
      have hst' : LpStamped σ.sys.inst ({ σ.sys with inst := i } : CatalogSystem).inst
        ⟨t, σ.sys.cid k⟩ rel tid lp := hst
      refine h.stamp (CatalogStep.delete hk hu hr) rfl hk hst' hdel (fun check he => ?_) (fun _ _ hc => hc)
        (h.apart_stamp hk hst' hdel)
      rw [hp] at he
      cases he
  | @writeUpdate _ k t i c tid hk hu hw hp htuple hr =>
    obtain ⟨τ, hτ, tbl, old, htbl, hget, -⟩ := h.sys.updating k c hu
    have ha := lpAppended_of_runs hr
    refine h.append (CatalogStep.writeUpdate hk hu hw hr) rfl hk hp ha htuple
      (fun k' hne => Function.update_of_ne hne ..) (Or.inr ⟨_, Function.update_self ..⟩) fun c' hc _ => ?_
    have hc : Function.update σ.sys.updating k (some { c with written := true }) k = some c' := hc
    rw [Function.update_self] at hc
    obtain rfl := Option.some.inj hc
    refine ⟨rfl, rfl, ?_⟩
    -- there was an item at the old tid already
    rintro rfl
    have hfresh := ha.fresh
    rw [lp_catalog htbl, lp_eq_none_iff, hget] at hfresh
    cases hfresh
  | stampUpdate hk hu hw hr => exact h.stampUpdate hk hu hw hr hcare
  | @enter _ k p item hp hc hu hrow =>
    refine h.entry hp hrow (fun c hu' => ?_) (fun e he => ⟨e.dead, he⟩) fun rel => ?_
    · rw [hu] at hu'
      cases hu'
    · refine (h.apart rel).drop fun tid c v _ hunch => Or.inl (unchecked_entry hp (fun he => ?_) hunch)
      -- the row has no check to come, and its session is not updating any more
      obtain ⟨rfl, rfl⟩ := he
      obtain ⟨k', check, hq, hc'⟩ := hunch
      obtain ⟨t, b, hk, hb, hx, -⟩ := h.inserting k p hp
      obtain ⟨t', b', hk', hb', hx', -⟩ := h.inserting k' _ hq
      obtain rfl := Option.some.inj (hb.symm.trans hb')
      rw [← hx'] at hk'
      rw [← hx] at hk
      obtain rfl := h.sys.sessions.one k k' _ hk hk'
      have hcheck := congrArg IndexInsert.checkUnique (Option.some.inj (hp.symm.trans hq))
      rcases hc' with rfl | ⟨c, hc'⟩
      · rw [hc] at hcheck
        cases hcheck
      · rw [hu] at hc'
        cases hc'
  | kill k snapshot htbl hf hdead => exact h.kill ..
  | abort hk => exact h.abort hk

/-- **The invariant holds in every state a careful run comes to.** -/
theorem CarefulRun.inv (h : CarefulRun base key σ) : UniqueInv base key σ := by
  unfold CarefulRun at h
  induction h with
  | empty status hbase h64 hpast =>
    have hlp : ∀ rel tid, (UniqueSystem.empty (κ := κ) base status).sys.inst.lp rel tid = none :=
      fun _ _ => rfl
    refine ⟨(CatalogRun.empty status hbase h64 hpast).inv, nofun, nofun, nofun, nofun, ?_⟩
    intro rel p q c v w hp
    cases hp
  | step _ hs hcare ih => exact ih.step hs hcare

/-- **Keys are unique in every state of a careful run.** -/
theorem uniqueKeys_of_careful (h : CarefulRun base key σ) : UniqueKeys key σ := h.inv.uniqueKeys

end

/-! ## Two sessions and one key -/

/-- Every row of the example has this key. -/
def exampleKey : Oid → List Nat → Nat := fun _ _ => 0

/-- A catalog, and two sessions that run. -/
def exampleTwoBegun : UniqueSystem Nat where
  sys :=
    let σ := CatalogSystem.empty 5 fun _ => .aborted
    let σ := { σ with inst := { σ.inst with
      catalogs := Function.update σ.inst.catalogs 1 (some Table.empty) } }
    let σ := { σ with
      inst := { σ.inst with db := σ.inst.db.begin }
      session := Function.update σ.session 0 (some 5) }
    { σ with
      inst := { σ.inst with db := σ.inst.db.begin }
      session := Function.update σ.session 1 (some 6) }
  index _ := []
  inserting _ := none

/-- A session inserts a row, and the row comes to this tid. -/
def UniqueSystem.appends (σ : UniqueSystem Nat) (k t : Nat) (tid : ItemPointer) : UniqueSystem Nat :=
  { σ with
    sys := { σ.sys with
      inst := ((npCatalogTupleInsert ⟨t, σ.sys.cid k⟩ 1 (List.replicate 23 0)).exec σ.sys.inst).2 }
    inserting := Function.update σ.inserting k (some ⟨1, tid, true⟩) }

/-- Its check, which leaves these entries. -/
def UniqueSystem.checks (σ : UniqueSystem Nat) (k : Nat) (entries : List (IndexEntry Nat)) :
    UniqueSystem Nat :=
  { σ with
    index := Function.update σ.index 1 entries
    inserting := Function.update σ.inserting k none }

/-- A session deletes the row at a tid. -/
def UniqueSystem.deletes (σ : UniqueSystem Nat) (k t : Nat) (tid : ItemPointer) : UniqueSystem Nat :=
  { σ with sys := { σ.sys with
      inst := ((npCatalogTupleDelete ⟨t, σ.sys.cid k⟩ 1 tid).exec σ.sys.inst).2 } }

/-- Its transaction commits. -/
def UniqueSystem.commits (σ : UniqueSystem Nat) (k t : Nat) : UniqueSystem Nat :=
  { σ with sys := σ.sys.endXact k (σ.sys.inst.db.commit t) }

section

variable {ok : UniqueSystem Nat → UniqueAction → Prop}

/-- The commit of a session that has called `index_insert` for its rows. -/
theorem quiet_commit {σ : UniqueSystem Nat} {k : Nat} (hp : σ.inserting k = none) (t : Nat) :
    Quiet σ (σ.commits k t).sys where
  lp _ _ := rfl
  written k' c hc _ := by
    have hc : Function.update σ.sys.updating k none k' = some c := hc
    by_cases hk' : k' = k
    · rw [hk', Function.update_self] at hc
      cases hc
    · rwa [Function.update_of_ne hk'] at hc
  inserting k' q hq := by
    have hne : k' ≠ k := by
      rintro rfl
      rw [hp] at hq
      cases hq
    exact ⟨Function.update_of_ne hne .., Function.update_of_ne hne ..⟩

theorem exampleTwoBegun_run (hok : ∀ σ, ok σ .other) : UniqueRun 5 exampleKey ok exampleTwoBegun := by
  have hempty : UniqueRun 5 exampleKey ok (.empty 5 fun _ => .aborted) :=
    .empty _ (by decide) (by decide) nofun
  have hcatalog := hempty.step (.quiet (.catalog 1 rfl) ⟨fun rel tid => by
      rw [lp_update]
      split
      · exact lp_eq_none_iff.mpr (Table.get_empty tid)
      · rfl, nofun, nofun⟩) (hok _)
  have hone := hcatalog.step (.quiet (.begin 0 rfl (by decide)) ⟨fun _ _ => rfl, nofun, nofun⟩) (hok _)
  exact hone.step (.quiet (.begin 1 rfl (by decide)) ⟨fun _ _ => rfl, nofun, nofun⟩) (hok _)

end

/-- One session has inserted a row and committed. -/
def exampleFirstRow : UniqueSystem Nat :=
  ((exampleTwoBegun.appends 0 5 ⟨0, 1⟩).checks 0 [⟨0, ⟨0, 1⟩, false⟩]).commits 0 5

/-- The other has deleted it and appended a row of the same key. -/
def exampleReplaced : UniqueSystem Nat := (exampleFirstRow.deletes 1 6 ⟨0, 1⟩).appends 1 6 ⟨0, 2⟩

theorem exampleTwoBegun_lp (tid : ItemPointer) : exampleTwoBegun.sys.inst.lp 1 tid = none :=
  lp_eq_none_iff.mpr (Table.get_empty tid)

theorem exampleFirstRow_lp {tid : ItemPointer} (htid : tid ≠ ⟨0, 1⟩) :
    exampleFirstRow.sys.inst.lp 1 tid = none := by
  have happ : LpAppended exampleTwoBegun.sys.inst (exampleTwoBegun.appends 0 5 ⟨0, 1⟩).sys.inst 1 ⟨0, 1⟩
    (npCatalogPackItem ⟨5, 0⟩ .invalid (List.replicate 23 0)) := lpAppended_of_runs rfl
  change (exampleTwoBegun.appends 0 5 ⟨0, 1⟩).sys.inst.lp 1 tid = none
  rw [happ.lp, if_neg fun he => htid he.2, exampleTwoBegun_lp]

/-- There are two rows: the new one, and the one that was there. -/
theorem exampleReplaced_row {tid : ItemPointer} {item : CatalogItem}
    (h : exampleReplaced.row 1 tid = some item) (hne : tid ≠ ⟨0, 2⟩) : tid = ⟨0, 1⟩ := by
  by_contra htid
  have hdel : (npCatalogTupleDelete ⟨6, 0⟩ 1 ⟨0, 1⟩).Runs exampleFirstRow.sys.inst .ok
    (exampleFirstRow.deletes 1 6 ⟨0, 1⟩).sys.inst := rfl
  have happ : LpAppended (exampleFirstRow.deletes 1 6 ⟨0, 1⟩).sys.inst exampleReplaced.sys.inst 1 ⟨0, 2⟩
    (npCatalogPackItem ⟨6, 0⟩ .invalid (List.replicate 23 0)) := lpAppended_of_runs rfl
  rw [row_eq_lp, happ.lp, if_neg fun he => hne he.2] at h
  rcases delete_lp hdel with he | ⟨lp, -, hst⟩
  · rw [he, exampleFirstRow_lp htid] at h
    cases h
  · rw [hst.lp, if_neg fun he => htid he.2, exampleFirstRow_lp htid] at h
    cases h

/-- Both sessions are careful: at each check the other row of the key is of a transaction that has
ended. -/
theorem exampleReplaced_run : CarefulRun 5 exampleKey
    ((exampleReplaced.checks 1 [⟨0, ⟨0, 2⟩, false⟩, ⟨0, ⟨0, 1⟩, true⟩]).commits 1 6) := by
  have hinsert : CarefulRun 5 exampleKey (exampleTwoBegun.appends 0 5 ⟨0, 1⟩) :=
    (exampleTwoBegun_run fun _ => trivial).step (@UniqueStep.insert Nat _ 5 exampleKey _ 0 5 _ 1
      (List.replicate 23 0) ⟨0, 1⟩ rfl rfl rfl (by decide) rfl) trivial
  have hfirst : Careful exampleKey (exampleTwoBegun.appends 0 5 ⟨0, 1⟩) (.check 0) := by
    intro t p row hk hp hrow tid item hi hne
    obtain rfl : p = ⟨1, ⟨0, 1⟩, true⟩ := (Option.some.inj hp).symm
    have hi : exampleFirstRow.row 1 tid = some item := hi
    rw [row_eq_lp, exampleFirstRow_lp hne] at hi
    cases hi
  have hone : CarefulRun 5 exampleKey exampleFirstRow :=
    (hinsert.step (@UniqueStep.check Nat _ 5 exampleKey _ 0 5 ⟨1, ⟨0, 1⟩, true⟩ _ _ ⟨0, 0, [], 0⟩ _ rfl
      rfl rfl rfl rfl rfl) hfirst).step (.quiet (.commit (k := 0) rfl rfl) (quiet_commit rfl 5)) trivial
  have hdelete : CarefulRun 5 exampleKey (exampleFirstRow.deletes 1 6 ⟨0, 1⟩) :=
    hone.step (@UniqueStep.delete Nat _ 5 exampleKey _ 1 6 _ 1 ⟨0, 1⟩ .ok rfl rfl rfl rfl) trivial
  have hreplaced : CarefulRun 5 exampleKey exampleReplaced :=
    hdelete.step (@UniqueStep.insert Nat _ 5 exampleKey _ 1 6 _ 1 (List.replicate 23 0) ⟨0, 2⟩ rfl rfl
      rfl (by decide) rfl) trivial
  have hsecond : Careful exampleKey exampleReplaced (.check 1) := by
    intro t p row hk hp hrow tid item hi hne _ _
    obtain rfl : p = ⟨1, ⟨0, 2⟩, true⟩ := (Option.some.inj hp).symm
    obtain rfl := exampleReplaced_row hi hne
    obtain rfl := Option.some.inj (rfl.symm.trans hi)
    refine ⟨Or.inr (by decide), ?_⟩
    rintro ⟨e, he, -, hdead⟩
    -- the entry of the old row is not marked before the check
    obtain rfl : e = ⟨0, ⟨0, 1⟩, false⟩ := List.mem_singleton.mp he
    cases hdead
  exact (hreplaced.step (@UniqueStep.check Nat _ 5 exampleKey _ 1 6 ⟨1, ⟨0, 2⟩, true⟩ _ _ ⟨0, 0, [], 0⟩ _
    rfl rfl rfl rfl rfl rfl) hsecond).step (.quiet (.commit (k := 1) rfl rfl) (quiet_commit rfl 6)) trivial

/-- Two rows have one key, of two sessions: the second has replaced the first. -/
theorem uniqueKeys_of_careful_example : ∃ σ a b, σ.row 1 ⟨0, 1⟩ = some a ∧ σ.row 1 ⟨0, 2⟩ = some b ∧
    a.xmin = 5 ∧ b.xmin = 6 ∧ CommittedLive σ.xacts b ∧ UniqueKeys exampleKey σ :=
  ⟨_, _, _, rfl, rfl, rfl, rfl, ⟨rfl, fun _ hd => by cases hd⟩, uniqueKeys_of_careful exampleReplaced_run⟩

/-- **Two committed live rows have one key.** Both sessions append their rows before either checks;
to each check the row of the other session is dead. -/
theorem uniqueKeys_fails : ∃ σ, UniqueRun 5 exampleKey (fun _ _ => True) σ ∧ ¬ UniqueKeys exampleKey σ := by
  have hbegun : UniqueRun 5 exampleKey (fun _ _ => True) exampleTwoBegun :=
    exampleTwoBegun_run fun _ => trivial
  have hfirst := hbegun.step (@UniqueStep.insert Nat _ 5 exampleKey _ 0 5 _
    1 (List.replicate 23 0) ⟨0, 1⟩ rfl rfl rfl (by decide) rfl) trivial
  have hboth := hfirst.step (@UniqueStep.insert Nat _ 5 exampleKey _ 1 6 _ 1 (List.replicate 23 0)
    ⟨0, 2⟩ rfl rfl rfl (by decide) rfl) trivial
  have hone := hboth.step (@UniqueStep.check Nat _ 5 exampleKey _ 0 5 ⟨1, ⟨0, 1⟩, true⟩ _ _
    ⟨0, 0, [], 0⟩ _ rfl rfl rfl rfl rfl rfl) trivial
  have htwo := hone.step (@UniqueStep.check Nat _ 5 exampleKey _ 1 6 ⟨1, ⟨0, 2⟩, true⟩ _ _
    ⟨0, 0, [], 0⟩ _ rfl rfl rfl rfl rfl rfl) trivial
  have hcommit := htwo.step (.quiet (.commit (k := 0) rfl rfl) (quiet_commit rfl 5)) trivial
  have hend := hcommit.step (.quiet (.commit (k := 1) rfl rfl) (quiet_commit rfl 6)) trivial
  refine ⟨_, hend, fun hunique => ?_⟩
  have hsame := hunique 1 ⟨0, 1⟩ ⟨0, 2⟩ _ _ rfl rfl rfl ⟨rfl, nofun⟩ ⟨rfl, nofun⟩
  cases hsame

end NeoPostGraph
