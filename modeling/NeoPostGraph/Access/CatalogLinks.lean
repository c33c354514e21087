import NeoPostGraph.Access.UniqueKeys
import NeoPostGraph.Lib.LinkWalk

/-!
# Version links in a catalog

`np_catalog_get_latest_tid` (`np_catalog_heap.c:675-713`) follows the `t_ctid` of heap tuples. A tuple from
`heap_form_tuple` has none; `heap_modify_tuple` copies that of the tuple it starts from, whenever that was
read; and an update sets that of the old version (`np_catalog_heap.c:490`). Nothing takes a link back.

* `LinkedCatalogs`, `LinkedStep`: catalogs with these links, sessions, and one step. A session reads heap
  tuples, and what it updates a version with was made from nothing or from a copy of that version.
* `LinkedRun base ok σ`: a state that some run comes to whose steps are all `ok`.
* `npCatalogGetLatestTid`: the function.

Results:
* `LinkInv.step`, `LinkedRun.inv`: the links are ranked, in every state of every run.
* `getLatestTid_walk`: the function is a walk along them, so it ends.
-/

namespace NeoPostGraph

open SlottedPage

/-! ## Catalogs with links -/

/-- Catalogs with the `t_ctid` of their heap tuples, and sessions. -/
structure LinkedCatalogs where
  sys : CatalogSystem
  /-- The `t_ctid` of the heap tuple of each item. -/
  ctid : Oid → ItemPointer → ItemPointer
  /-- The heap tuples that have been read: where they were, and the `t_ctid` of the copy. -/
  copies : List (Oid × ItemPointer × ItemPointer)
  /-- The `t_ctid` of the tuple a session updates with. -/
  given : Nat → ItemPointer
  /-- Where it has appended the new version. -/
  newTid : Nat → ItemPointer

namespace LinkedCatalogs

/-- The row at a tid. -/
def row (σ : LinkedCatalogs) (rel : Oid) (tid : ItemPointer) : Option CatalogItem := σ.sys.inst.item rel tid

/-- The state of the transactions. -/
def xacts (σ : LinkedCatalogs) : XactState := σ.sys.xacts

/-- No session, no catalog. -/
def empty (base : Nat) (status : Nat → XidStatus) : LinkedCatalogs where
  sys := .empty base status
  ctid _ _ := .invalid
  copies := []
  given _ := .invalid
  newTid _ := .invalid

end LinkedCatalogs

/-- Set the `t_ctid` of one heap tuple. -/
def setCtid (ctid : Oid → ItemPointer → ItemPointer) (rel : Oid) (tid link : ItemPointer) :
    Oid → ItemPointer → ItemPointer :=
  fun rel' tid' => if rel' = rel ∧ tid' = tid then link else ctid rel' tid'

/-- A step that writes no item, begins no update, and ends none but by the abort of its transaction. -/
structure LinksQuiet (s s' : CatalogSystem) : Prop where
  lp : ∀ rel tid, s'.inst.lp rel tid = s.inst.lp rel tid
  updating : ∀ k c, s'.updating k = some c → s.updating k = some c
  kept : ∀ k c, s.updating k = some c →
    s'.updating k = some c ∨ ∀ t, s.session k = some t → s'.xacts.Aborted t

/-- The steps of updates that later conditions ask about, and the session that takes them. -/
inductive LinkedAction where
  | stampUpdate (k : Nat)
  | failUpdate (k : Nat)
  | other

/-- One step of one session. -/
inductive LinkedStep (base : Nat) : LinkedAction → LinkedCatalogs → LinkedCatalogs → Prop
  | quiet {σ : LinkedCatalogs} {s' : CatalogSystem} (h : CatalogStep base σ.sys s')
      (hq : LinksQuiet σ.sys s') : LinkedStep base .other σ { σ with sys := s' }
  /-- `np_catalog_store_heap_tuple` copies a heap tuple. -/
  | read {σ : LinkedCatalogs} {rel : Oid} {tid : ItemPointer} {item : CatalogItem}
      (h : σ.row rel tid = some item) :
      LinkedStep base .other σ { σ with copies := (rel, tid, σ.ctid rel tid) :: σ.copies }
  /-- `np_catalog_insert` of a tuple from `heap_form_tuple`. -/
  | insert {σ : LinkedCatalogs} {k t : Nat} {i : Instance} {rel : Oid} {tuple : List Nat}
      {tid : ItemPointer} (hk : σ.sys.session k = some t) (hu : σ.sys.updating k = none)
      (htuple : sizeofHeapTupleHeader ≤ tuple.length)
      (h : (npCatalogTupleInsert ⟨t, σ.sys.cid k⟩ rel tuple).Runs σ.sys.inst tid i) :
      LinkedStep base .other σ { σ with
        sys := { σ.sys with inst := i }
        ctid := setCtid σ.ctid rel tid .invalid }
  | delete {σ : LinkedCatalogs} {k t : Nat} {i : Instance} {rel : Oid} {tid : ItemPointer}
      {r : TmResult} (hk : σ.sys.session k = some t) (hu : σ.sys.updating k = none)
      (h : (npCatalogTupleDelete ⟨t, σ.sys.cid k⟩ rel tid).Runs σ.sys.inst r i) :
      LinkedStep base .other σ { σ with sys := { σ.sys with inst := i } }
  /-- An update begins, with a tuple from `heap_form_tuple`, or from `heap_modify_tuple` and a copy of the
  version it updates. -/
  | checkUpdate {σ : LinkedCatalogs} {k t : Nat} {i : Instance} {rel : Oid} {otid link : ItemPointer}
      (tuple : List Nat) (hk : σ.sys.session k = some t) (hu : σ.sys.updating k = none)
      (hlink : link = .invalid ∨ (rel, otid, link) ∈ σ.copies)
      (h : (checkCatalogItem ⟨t, σ.sys.cid k⟩ rel otid).Runs σ.sys.inst .ok i) :
      LinkedStep base .other σ { σ with
        sys := { σ.sys with
          inst := i
          updating := Function.update σ.sys.updating k (some ⟨rel, otid, tuple, false⟩) }
        given := Function.update σ.given k link }
  | writeUpdate {σ : LinkedCatalogs} {k t : Nat} {i : Instance} {c : UpdateCall} {tid : ItemPointer}
      (hk : σ.sys.session k = some t) (hu : σ.sys.updating k = some c) (hw : c.written = false)
      (htuple : sizeofHeapTupleHeader ≤ c.tuple.length)
      (h : (writeCatalogItem c.rel (npCatalogPackItem ⟨t, σ.sys.cid k⟩ c.otid c.tuple)).Runs
        σ.sys.inst tid i) :
      LinkedStep base .other σ { σ with
        sys := { σ.sys with
          inst := i
          updating := Function.update σ.sys.updating k (some { c with written := true }) }
        ctid := setCtid σ.ctid c.rel tid (σ.given k)
        newTid := Function.update σ.newTid k tid }
  /-- The last section of an update sets `xmax`, `cmax` and `t_ctid`. -/
  | stampUpdate {σ : LinkedCatalogs} {k t : Nat} {i : Instance} {c : UpdateCall}
      (hk : σ.sys.session k = some t) (hu : σ.sys.updating k = some c) (hw : c.written = true)
      (h : (stampCatalogItem ⟨t, σ.sys.cid k⟩ c.rel c.otid).Runs σ.sys.inst () i) :
      LinkedStep base (.stampUpdate k) σ { σ with
        sys := { σ.sys with inst := i, updating := Function.update σ.sys.updating k none }
        ctid := setCtid σ.ctid c.rel c.otid (σ.newTid k) }
  /-- An update fails, and its transaction goes on from a savepoint. -/
  | failUpdate {σ : LinkedCatalogs} (k : Nat) :
      LinkedStep base (.failUpdate k) σ { σ with
        sys := { σ.sys with updating := Function.update σ.sys.updating k none } }

/-- The states of the runs whose steps are all `ok`. -/
inductive LinkedRun (base : Nat) (ok : LinkedCatalogs → LinkedAction → Prop) : LinkedCatalogs → Prop
  | empty (status : Nat → XidStatus) (hbase : firstNormalTransactionId ≤ xidFromFull base)
      (h64 : base + 2 ^ 32 ≤ 2 ^ 64) (hpast : ∀ y, status y ≠ .inProgress) :
      LinkedRun base ok (.empty base status)
  | step {σ σ' : LinkedCatalogs} {a : LinkedAction} (h : LinkedRun base ok σ)
      (hs : LinkedStep base a σ σ') (hok : ok σ a) : LinkedRun base ok σ'

/-! ## The function -/

/-- The loop of `np_catalog_get_latest_tid`; nothing when the fuel is used up. -/
def getLatestTidLoop (r : CatalogReader) (t : Table CatalogItem) (ctids : ItemPointer → ItemPointer) :
    Nat → ItemPointer → ItemPointer → Option (Except Err ItemPointer)
  | 0, _, _ => none
  | fuel + 1, ctid, tid =>
    match readBuffer t ctid.block with
    | .error e => some (.error e)
    | .ok page =>
      match (page.lp ctid.offset).filter npCatalogItemIsFetchable with
      | none => some (.ok tid)
      | some lp =>
        let tid := if npCatalogTupleVisible r.xacts r.own lp.2.toRecordHeader r.snapshot then ctid else tid
        let next := ctids ctid
        if !next.isValid || decide (ctid = next) then some (.ok tid)
        else getLatestTidLoop r t ctids fuel next tid

/-- `np_catalog_get_latest_tid` (`np_catalog_heap.c:675-713`). -/
def npCatalogGetLatestTid (r : CatalogReader) (t : Table CatalogItem) (ctids : ItemPointer → ItemPointer)
    (fuel : Nat) (tid : ItemPointer) : Option (Except Err ItemPointer) :=
  getLatestTidLoop r t ctids fuel tid tid

/-! ## The invariant of the links -/

/-- Edges from a version to where its heap tuple, or a copy of it, links or is about to link. -/
def LinkedCatalogs.Edge (σ : LinkedCatalogs) (rel : Oid) (a b : ItemPointer) : Prop :=
  b.isValid = true ∧ (σ.ctid rel a = b ∨ (rel, a, b) ∈ σ.copies ∨
    ∃ k c, σ.sys.updating k = some c ∧ c.written = true ∧ c.rel = rel ∧ c.otid = a ∧ σ.newTid k = b)

/-- There is an item at the tid. -/
def LinkedCatalogs.Stored (σ : LinkedCatalogs) (rel : Oid) (tid : ItemPointer) : Prop :=
  ∃ item, σ.row rel tid = some item

/-- What holds in every run. -/
structure LinkInv (base : Nat) (σ : LinkedCatalogs) : Prop where
  sys : SystemInv base σ.sys
  fetchable : ∀ rel tid lp, σ.sys.inst.lp rel tid = some lp → npCatalogItemIsFetchable lp = true
  stored : ∀ rel a b, σ.Edge rel a b → σ.Stored rel a ∧ σ.Stored rel b
  /-- A version comes behind the one it was made from. -/
  prev : ∀ rel tid item, σ.row rel tid = some item → item.prevItemptr.isValid = true →
    σ.Stored rel item.prevItemptr ∧ item.prevItemptr.Before tid
  given : ∀ k c, σ.sys.updating k = some c → (σ.given k).isValid = true →
    (c.rel, c.otid, σ.given k) ∈ σ.copies
  written : ∀ k c, σ.sys.updating k = some c → c.written = true → ∃ t item,
    σ.sys.session k = some t ∧ σ.row c.rel (σ.newTid k) = some item ∧ item.xmin = t ∧
      item.prevItemptr = c.otid
  ranked : ∀ rel, LinkWalk.Ranked (σ.Edge rel)

/-! ### What steps do to rows -/

section

variable {i i' : Instance} {rel : Oid} {tid : ItemPointer} {item : CatalogItem} {s : Session}
  {lp : Nat × CatalogItem}

theorem item_appended (ha : LpAppended i i' rel tid item) (rel' : Oid) (tid' : ItemPointer) :
    i'.item rel' tid' = if rel' = rel ∧ tid' = tid then some item else i.item rel' tid' := by
  rw [item_eq_lp, item_eq_lp, ha.lp]
  split
  · rfl
  · rfl

theorem item_stamped (hst : LpStamped i i' s rel tid lp) (rel' : Oid) (tid' : ItemPointer) :
    i'.item rel' tid' = if rel' = rel ∧ tid' = tid then some (stampItem s lp.2) else i.item rel' tid' := by
  rw [item_eq_lp, item_eq_lp, hst.lp]
  split
  · rfl
  · rfl

/-- An append goes behind everything in its catalog. -/
theorem behind_of_runs (h : (writeCatalogItem rel item).Runs i tid i') {tid' : ItemPointer}
    {item' : CatalogItem} (hitem : i.item rel tid' = some item') : tid'.Before tid := by
  obtain ⟨t, t', ht, hf, rfl⟩ := runs_onCatalog.mp h
  obtain ⟨⟨t₁, tid₁⟩, hw, hf⟩ := bind_ok hf
  obtain ⟨rfl, rfl⟩ := Prod.mk.inj (Except.ok.inj hf)
  unfold Instance.item at hitem
  rw [ht] at hitem
  exact Table.before_write (npWriteRecordToPage_ok hw) hitem

/-- The same items, but for who deleted them. -/
def Alike (i i' : Instance) : Prop :=
  ∀ rel tid, (i'.lp rel tid).map (fun lp => (lp.1, lp.2.xmin, lp.2.prevItemptr)) =
    (i.lp rel tid).map fun lp => (lp.1, lp.2.xmin, lp.2.prevItemptr)

theorem LpStamped.alike (hst : LpStamped i i' s rel tid lp) : Alike i i' := by
  intro rel' tid'
  rw [hst.lp]
  split_ifs with he
  · rw [he.1, he.2, hst.old]
    rfl
  · rfl

theorem Alike.refl (i : Instance) : Alike i i := fun _ _ => rfl

theorem Alike.symm (h : Alike i i') : Alike i' i := fun rel tid => (h rel tid).symm

theorem Alike.row (h : Alike i i') (hitem : i.item rel tid = some item) :
    ∃ item', i'.item rel tid = some item' ∧ item'.xmin = item.xmin ∧
      item'.prevItemptr = item.prevItemptr := by
  rw [item_eq_lp] at hitem
  obtain ⟨lp, hlp, rfl⟩ := Option.map_eq_some_iff.mp hitem
  have hsame := h rel tid
  rw [hlp, Option.map_some] at hsame
  obtain ⟨lp', hlp', he⟩ := Option.map_eq_some_iff.mp hsame
  simp only [Prod.mk.injEq] at he
  refine ⟨lp'.2, ?_, he.2.1, he.2.2⟩
  rw [item_eq_lp, hlp', Option.map_some]

theorem alike_of_delete {r : TmResult} (h : (npCatalogTupleDelete s rel tid).Runs i r i') : Alike i i' := by
  rcases delete_lp h with rfl | ⟨lp, -, hst⟩
  · exact .refl _
  · exact hst.alike

theorem check_same {r : TmResult} (h : (checkCatalogItem s rel tid).Runs i r i') : i' = i := by
  obtain ⟨t, t', ht, hf, rfl⟩ := runs_onCatalog.mp h
  obtain ⟨item, hitem, hf⟩ := bind_ok hf
  obtain ⟨-, rfl⟩ := Prod.mk.inj (Except.ok.inj hf)
  rw [Function.update_eq_self_iff.mpr ht.symm]

/-- A session in an update keeps its transaction. -/
theorem CatalogStep.session_kept {base k t : Nat} {σ σ' : CatalogSystem} {c : UpdateCall}
    (hs : CatalogStep base σ σ') (hk : σ.session k = some t) (hu : σ'.updating k = some c) :
    σ'.session k = some t := by
  have hend : ∀ k' db, (σ.endXact k' db).updating k = some c → (σ.endXact k' db).session k = some t := by
    intro k' db hu
    have hu : Function.update σ.updating k' none k = some c := hu
    by_cases hk' : k = k'
    · rw [hk', Function.update_self] at hu
      cases hu
    · exact (Function.update_of_ne hk' ..).trans hk
  cases hs with
  | begin k' hk' hroom =>
    have hne : k ≠ k' := by
      rintro rfl
      rw [hk] at hk'
      cases hk'
    exact (Function.update_of_ne hne ..).trans hk
  | commit hk' hu' => exact hend _ _ hu
  | abort hk' => exact hend _ _ hu
  | finish hk' hu' => exact hend _ _ hu
  | _ => exact hk

end

/-! ### Every step keeps the invariant -/

section

variable {base : Nat} {σ σ' : LinkedCatalogs} {rel : Oid} {tid : ItemPointer} {item : CatalogItem}
  {a : LinkedAction}

/-- A step on links is a step on catalogs, or the copy of a heap tuple. -/
theorem LinkedStep.sys (hs : LinkedStep base a σ σ') :
    σ'.sys = σ.sys ∨ CatalogStep base σ.sys σ'.sys := by
  cases hs with
  | quiet h hq => exact Or.inr h
  | read h => exact Or.inl rfl
  | insert hk hu htuple h => exact Or.inr (.insert hk hu h)
  | delete hk hu h => exact Or.inr (.delete hk hu h)
  | checkUpdate tuple hk hu hlink h => exact Or.inr (.checkUpdate tuple hk hu h)
  | writeUpdate hk hu hw htuple h => exact Or.inr (.writeUpdate hk hu hw h)
  | stampUpdate hk hu hw h => exact Or.inr (.stampUpdate hk hu hw h)
  | failUpdate k => exact Or.inr (.failUpdate k)

theorem SystemInv.linkedStep (h : SystemInv base σ.sys) (hs : LinkedStep base a σ σ') :
    SystemInv base σ'.sys := by
  rcases hs.sys with he | hs
  · rw [he]
    exact h
  · exact h.step hs

/-- A step that stamps items at most, and makes no edge that there was not. -/
theorem LinkInv.alike (h : LinkInv base σ) (hsys : SystemInv base σ'.sys)
    (ha : Alike σ.sys.inst σ'.sys.inst) (hedge : ∀ rel a b, σ'.Edge rel a b → σ.Edge rel a b)
    (hgiven : ∀ k c, σ'.sys.updating k = some c → (σ'.given k).isValid = true →
      (c.rel, c.otid, σ'.given k) ∈ σ'.copies)
    (hwritten : ∀ k c, σ'.sys.updating k = some c → c.written = true →
      σ.sys.updating k = some c ∧ σ'.newTid k = σ.newTid k ∧
        ∀ t, σ.sys.session k = some t → σ'.sys.session k = some t) : LinkInv base σ' := by
  have hstored : ∀ rel tid, σ.Stored rel tid → σ'.Stored rel tid := by
    rintro rel tid ⟨item, hitem⟩
    obtain ⟨item', hitem', -⟩ := ha.row hitem
    exact ⟨item', hitem'⟩
  refine ⟨hsys, fun rel tid lp hlp => ?_, fun rel a b hab => ?_, fun rel tid item hitem hprev => ?_, hgiven,
    fun k c hc hw => ?_, fun rel => (h.ranked rel).mono (hedge rel)⟩
  · have hsame := ha rel tid
    rw [hlp, Option.map_some] at hsame
    obtain ⟨lp₀, hlp₀, he⟩ := Option.map_eq_some_iff.mp hsame.symm
    have hfetch := h.fetchable rel tid lp₀ hlp₀
    unfold npCatalogItemIsFetchable at hfetch ⊢
    rwa [(Prod.mk.inj he).1] at hfetch
  · obtain ⟨hsa, hsb⟩ := h.stored rel a b (hedge rel a b hab)
    exact ⟨hstored rel a hsa, hstored rel b hsb⟩
  · obtain ⟨item₀, hitem₀, -, hp⟩ := ha.symm.row hitem
    rw [← hp] at hprev ⊢
    obtain ⟨hsp, hbefore⟩ := h.prev rel tid item₀ hitem₀ hprev
    exact ⟨hstored rel _ hsp, hbefore⟩
  · obtain ⟨hc₀, hnew, hsession⟩ := hwritten k c hc hw
    obtain ⟨t, item, hk, hitem, hmin, hprev⟩ := h.written k c hc₀ hw
    obtain ⟨item', hitem', hmin', hprev'⟩ := ha.row hitem
    rw [hnew]
    exact ⟨t, item', hsession t hk, hitem', hmin'.trans hmin, hprev'.trans hprev⟩

/-- **An append**: the new version takes its place right below the one it was made from. -/
theorem LinkInv.append (h : LinkInv base σ) (hsys : SystemInv base σ'.sys)
    (ha : LpAppended σ.sys.inst σ'.sys.inst rel tid item)
    (htuple : sizeofHeapTupleHeader ≤ item.heapTuple.length)
    (hbehind : ∀ tid', σ.Stored rel tid' → tid'.Before tid)
    (hprev : item.prevItemptr.isValid = true → σ.Stored rel item.prevItemptr)
    (hedge : ∀ rel' a b, σ'.Edge rel' a b → σ.Edge rel' a b ∨ rel' = rel ∧ σ.Stored rel item.prevItemptr ∧
      (a = item.prevItemptr ∧ b = tid ∨ a = tid ∧ σ.Edge rel item.prevItemptr b))
    (hgiven : ∀ k c, σ'.sys.updating k = some c → (σ'.given k).isValid = true →
      (c.rel, c.otid, σ'.given k) ∈ σ'.copies)
    (hwritten : ∀ k c, σ'.sys.updating k = some c → c.written = true → ∃ t item',
      σ'.sys.session k = some t ∧ σ'.row c.rel (σ'.newTid k) = some item' ∧ item'.xmin = t ∧
        item'.prevItemptr = c.otid) : LinkInv base σ' := by
  have hrow := item_appended ha
  have hfresh : ¬ σ.Stored rel tid := by
    rintro ⟨item', hitem'⟩
    have hnone : σ.row rel tid = none := by
      unfold LinkedCatalogs.row
      rw [item_eq_lp, ha.fresh]
      rfl
    rw [hnone] at hitem'
    cases hitem'
  have hnew : σ'.Stored rel tid := ⟨item, (hrow rel tid).trans (if_pos ⟨rfl, rfl⟩)⟩
  have hstored : ∀ rel' tid', σ.Stored rel' tid' → σ'.Stored rel' tid' := by
    rintro rel' tid' ⟨item', hitem'⟩
    by_cases he : rel' = rel ∧ tid' = tid
    · rw [he.1, he.2]
      exact hnew
    · exact ⟨item', (hrow rel' tid').trans ((if_neg he).trans hitem')⟩
  refine ⟨hsys, fun rel' tid' lp hlp => ?_, fun rel' a b hab => ?_, fun rel' tid' item' hitem' hp => ?_,
    hgiven, hwritten, fun rel' => ?_⟩
  · rw [ha.lp] at hlp
    split at hlp
    · obtain rfl := Option.some.inj hlp
      exact fetchable_pack htuple item
    · exact h.fetchable rel' tid' lp hlp
  · rcases hedge rel' a b hab with hab | ⟨rfl, hprev, ⟨rfl, rfl⟩ | ⟨rfl, hab⟩⟩
    · obtain ⟨hsa, hsb⟩ := h.stored rel' a b hab
      exact ⟨hstored rel' a hsa, hstored rel' b hsb⟩
    · exact ⟨hstored rel' _ hprev, hnew⟩
    · exact ⟨hnew, hstored rel' b (h.stored rel' _ b hab).2⟩
  · have hitem' : σ'.sys.inst.item rel' tid' = some item' := hitem'
    rw [hrow] at hitem'
    split at hitem'
    · next he =>
      obtain rfl := Option.some.inj hitem'
      obtain ⟨rfl, rfl⟩ := he
      exact ⟨hstored rel' _ (hprev hp), hbehind _ (hprev hp)⟩
    · obtain ⟨hsp, hbefore⟩ := h.prev rel' tid' item' hitem' hp
      exact ⟨hstored rel' _ hsp, hbefore⟩
  · by_cases hr : rel' = rel ∧ σ.Stored rel item.prevItemptr
    · obtain ⟨rfl, hsp⟩ := hr
      have hgrow := (h.ranked rel').grow (o := item.prevItemptr) (n := tid)
        (fun a b hab => by
          obtain ⟨hsa, hsb⟩ := h.stored rel' a b hab
          constructor
          · rintro rfl
            exact hfresh hsa
          · rintro rfl
            exact hfresh hsb)
        (by
          intro he
          rw [he] at hsp
          exact hfresh hsp)
      refine hgrow.mono fun a b hab => ?_
      rcases hedge rel' a b hab with hab | ⟨-, -, hab⟩
      · exact Or.inl hab
      · exact Or.inr hab
    · refine (h.ranked rel').mono fun a b hab => ?_
      rcases hedge rel' a b hab with hab | ⟨hrel, hsp, -⟩
      · exact hab
      · exact absurd ⟨hrel, hsp⟩ hr

/-- Steps that leave the links and the updates alone. -/
theorem edge_of_updating {s' : CatalogSystem} (hu : ∀ k c, s'.updating k = some c → σ.sys.updating k = some c)
    {a b : ItemPointer} (hab : LinkedCatalogs.Edge { σ with sys := s' } rel a b) : σ.Edge rel a b := by
  obtain ⟨hb, hlink | hcopy | ⟨k, c, hc, hw, hrel, hotid, hnew⟩⟩ := hab
  · exact ⟨hb, Or.inl hlink⟩
  · exact ⟨hb, Or.inr (Or.inl hcopy)⟩
  · exact ⟨hb, Or.inr (Or.inr ⟨k, c, hu k c hc, hw, hrel, hotid, hnew⟩)⟩

/-- The other updates go on when one ends. -/
theorem of_update_none {updating : Nat → Option UpdateCall} {k k' : Nat} {c : UpdateCall}
    (h : Function.update updating k none k' = some c) : k' ≠ k ∧ updating k' = some c := by
  by_cases hk : k' = k
  · rw [hk, Function.update_self] at h
    cases h
  · rw [Function.update_of_ne hk] at h
    exact ⟨hk, h⟩

theorem LinkInv.read (h : LinkInv base σ) :
    LinkInv base { σ with copies := (rel, tid, σ.ctid rel tid) :: σ.copies } := by
  refine h.alike h.sys (.refl _) (fun rel' a b hab => ?_)
    (fun k c hc hvalid => List.mem_cons_of_mem _ (h.given k c hc hvalid)) fun k c hc _ => ⟨hc, rfl, fun _ hk => hk⟩
  obtain ⟨hb, hlink | hcopy | hpending⟩ := hab
  · exact ⟨hb, Or.inl hlink⟩
  · rcases List.mem_cons.mp hcopy with he | hcopy
    · cases he
      exact ⟨hb, Or.inl rfl⟩
    · exact ⟨hb, Or.inr (Or.inl hcopy)⟩
  · exact ⟨hb, Or.inr (Or.inr hpending)⟩

theorem LinkInv.checkUpdate (h : LinkInv base σ) {k : Nat} {otid link : ItemPointer} (tuple : List Nat)
    (hsys : SystemInv base
      { σ.sys with updating := Function.update σ.sys.updating k (some ⟨rel, otid, tuple, false⟩) })
    (hlink : link = .invalid ∨ (rel, otid, link) ∈ σ.copies) :
    LinkInv base { σ with
      sys := { σ.sys with
        updating := Function.update σ.sys.updating k (some ⟨rel, otid, tuple, false⟩) }
      given := Function.update σ.given k link } := by
  have hcall : ∀ k' c, Function.update σ.sys.updating k (some ⟨rel, otid, tuple, false⟩) k' = some c →
      k' = k ∧ c = ⟨rel, otid, tuple, false⟩ ∨ k' ≠ k ∧ σ.sys.updating k' = some c := by
    intro k' c hc
    by_cases hk : k' = k
    · rw [hk, Function.update_self] at hc
      exact Or.inl ⟨hk, (Option.some.inj hc).symm⟩
    · rw [Function.update_of_ne hk] at hc
      exact Or.inr ⟨hk, hc⟩
  refine h.alike hsys (.refl _) (fun rel' a b hab => ?_) (fun k' c hc hvalid => ?_) fun k' c hc hw => ?_
  · obtain ⟨hb, hlink | hcopy | ⟨k', c, hc, hw, hrel, hotid, hnew⟩⟩ := hab
    · exact ⟨hb, Or.inl hlink⟩
    · exact ⟨hb, Or.inr (Or.inl hcopy)⟩
    · rcases hcall k' c hc with ⟨-, rfl⟩ | ⟨-, hc⟩
      · cases hw
      · exact ⟨hb, Or.inr (Or.inr ⟨k', c, hc, hw, hrel, hotid, hnew⟩)⟩
  · have hvalid : (Function.update σ.given k link k').isValid = true := hvalid
    show (c.rel, c.otid, Function.update σ.given k link k') ∈ σ.copies
    rcases hcall k' c hc with ⟨rfl, rfl⟩ | ⟨hne, hc⟩
    · rw [Function.update_self] at hvalid ⊢
      rcases hlink with rfl | hcopy
      · cases hvalid
      · exact hcopy
    · rw [Function.update_of_ne hne] at hvalid ⊢
      exact h.given k' c hc hvalid
  · rcases hcall k' c hc with ⟨-, rfl⟩ | ⟨-, hc⟩
    · cases hw
    · exact ⟨hc, rfl, fun _ hk => hk⟩

/-- **Every step keeps the links ranked.** -/
theorem LinkInv.step (h : LinkInv base σ) (hs : LinkedStep base a σ σ') : LinkInv base σ' := by
  have hsys := h.sys.linkedStep hs
  cases hs with
  | quiet hstep hq =>
    refine h.alike hsys (fun rel tid => by rw [hq.lp]) (fun rel a b => edge_of_updating hq.updating)
      (fun k c hc => h.given k c (hq.updating k c hc)) fun k c hc _ => ?_
    exact ⟨hq.updating k c hc, rfl, fun t hk => hstep.session_kept hk hc⟩
  | read hitem => exact h.read
  | @insert _ k t i rel tuple tid hk hu htuple hr =>
    have hrun : (writeCatalogItem rel (npCatalogPackItem ⟨t, σ.sys.cid k⟩ .invalid tuple)).Runs σ.sys.inst
      tid i := hr
    have ha := lpAppended_of_runs hrun
    refine h.append hsys ha htuple (fun tid' ⟨item', hitem'⟩ => behind_of_runs hrun hitem') (fun hvalid => by cases hvalid)
      (fun rel' a b hab => Or.inl ?_) h.given fun k' c hc hw => ?_
    · obtain ⟨hb, hlink | hold⟩ := hab
      · have hlink : setCtid σ.ctid rel tid .invalid rel' a = b := hlink
        unfold setCtid at hlink
        split at hlink
        · subst hlink
          cases hb
        · exact ⟨hb, Or.inl hlink⟩
      · exact ⟨hb, Or.inr hold⟩
    · obtain ⟨t', item', hk', hitem', hrest⟩ := h.written k' c hc hw
      have hne : ¬ (c.rel = rel ∧ σ.newTid k' = tid) := by
        rintro ⟨he, he'⟩
        have hitem' : σ.sys.inst.item c.rel (σ.newTid k') = some item' := hitem'
        rw [item_eq_lp, he, he', ha.fresh] at hitem'
        cases hitem'
      exact ⟨t', item', hk', (item_appended ha _ _).trans ((if_neg hne).trans hitem'), hrest⟩
  | delete hk hu hr =>
    exact h.alike hsys (alike_of_delete hr) (fun rel a b => edge_of_updating fun _ _ hc => hc) h.given
      fun k c hc _ => ⟨hc, rfl, fun _ hk => hk⟩
  | checkUpdate tuple hk hu hlink hr =>
    obtain rfl := check_same hr
    exact h.checkUpdate tuple hsys hlink
  | @writeUpdate _ k t i c tid hk hu hw htuple hr =>
    have ha := lpAppended_of_runs hr
    have hnotStored : ∀ item', σ.row c.rel tid ≠ some item' := by
      intro item' hitem'
      have hitem' : σ.sys.inst.item c.rel tid = some item' := hitem'
      rw [item_eq_lp, ha.fresh] at hitem'
      cases hitem'
    have hold : σ.Stored c.rel c.otid := by
      obtain ⟨τ, -, tbl, item₀, htbl, hget, -⟩ := h.sys.updating k c hu
      refine ⟨item₀, ?_⟩
      show σ.sys.inst.item c.rel c.otid = some item₀
      unfold Instance.item
      rw [htbl]
      exact hget
    have hcall : ∀ k' c', Function.update σ.sys.updating k (some { c with written := true }) k' = some c' →
        k' = k ∧ c' = { c with written := true } ∨ k' ≠ k ∧ σ.sys.updating k' = some c' := by
      intro k' c' hc
      by_cases hk' : k' = k
      · rw [hk', Function.update_self] at hc
        exact Or.inl ⟨hk', (Option.some.inj hc).symm⟩
      · rw [Function.update_of_ne hk'] at hc
        exact Or.inr ⟨hk', hc⟩
    refine h.append hsys ha htuple (fun tid' ⟨item', hitem'⟩ => behind_of_runs hr hitem') (fun _ => hold)
      (fun rel' a b hab => ?_) (fun k' c' hc hvalid => ?_) fun k' c' hc hw' => ?_
    · obtain ⟨hb, hlink | hcopy | ⟨k', c', hc, hw', hrel, hotid, hnew⟩⟩ := hab
      · have hlink : setCtid σ.ctid c.rel tid (σ.given k) rel' a = b := hlink
        unfold setCtid at hlink
        split at hlink
        · next he =>
          subst hlink
          exact Or.inr ⟨he.1, hold, Or.inr ⟨he.2, hb, Or.inr (Or.inl (h.given k c hu hb))⟩⟩
        · exact Or.inl ⟨hb, Or.inl hlink⟩
      · exact Or.inl ⟨hb, Or.inr (Or.inl hcopy)⟩
      · have hnew : Function.update σ.newTid k tid k' = b := hnew
        rcases hcall k' c' hc with ⟨rfl, rfl⟩ | ⟨hne, hc⟩
        · rw [Function.update_self] at hnew
          exact Or.inr ⟨hrel.symm, hold, Or.inl ⟨hotid.symm, hnew.symm⟩⟩
        · rw [Function.update_of_ne hne] at hnew
          exact Or.inl ⟨hb, Or.inr (Or.inr ⟨k', c', hc, hw', hrel, hotid, hnew⟩)⟩
    · rcases hcall k' c' hc with ⟨rfl, rfl⟩ | ⟨-, hc⟩
      · exact h.given k' c hu hvalid
      · exact h.given k' c' hc hvalid
    · show ∃ t' item', _ ∧ LinkedCatalogs.row _ c'.rel (Function.update σ.newTid k tid k') = some item' ∧ _
      rcases hcall k' c' hc with ⟨rfl, rfl⟩ | ⟨hne, hc⟩
      · rw [Function.update_self]
        exact ⟨t, _, hk, (item_appended ha _ _).trans (if_pos ⟨rfl, rfl⟩), rfl, rfl⟩
      · rw [Function.update_of_ne hne]
        obtain ⟨t', item', hk', hitem', hrest⟩ := h.written k' c' hc hw'
        have hnot : ¬ (c'.rel = c.rel ∧ σ.newTid k' = tid) := by
          rintro ⟨he, he'⟩
          rw [he, he'] at hitem'
          exact hnotStored item' hitem'
        exact ⟨t', item', hk', (item_appended ha _ _).trans ((if_neg hnot).trans hitem'), hrest⟩
  | @stampUpdate _ k t i c hk hu hw hr =>
    obtain ⟨lp, hst⟩ := lpStamped_of_runs hr
    refine h.alike hsys hst.alike (fun rel a b hab => ?_)
      (fun k' c' hc => h.given k' c' (of_update_none hc).2) fun k' c' hc _ => ⟨(of_update_none hc).2, rfl, fun _ hk => hk⟩
    obtain ⟨hb, hlink | hcopy | ⟨k', c', hc, hw', hrel, hotid, hnew⟩⟩ := hab
    · have hlink : setCtid σ.ctid c.rel c.otid (σ.newTid k) rel a = b := hlink
      unfold setCtid at hlink
      split at hlink
      · next he => exact ⟨hb, Or.inr (Or.inr ⟨k, c, hu, hw, he.1.symm, he.2.symm, hlink⟩)⟩
      · exact ⟨hb, Or.inl hlink⟩
    · exact ⟨hb, Or.inr (Or.inl hcopy)⟩
    · exact ⟨hb, Or.inr (Or.inr ⟨k', c', (of_update_none hc).2, hw', hrel, hotid, hnew⟩)⟩
  | failUpdate k =>
    exact h.alike hsys (.refl _) (fun rel a b => edge_of_updating fun k' c hc => (of_update_none hc).2)
      (fun k' c hc => h.given k' c (of_update_none hc).2)
      fun k' c hc _ => ⟨(of_update_none hc).2, rfl, fun _ hk => hk⟩

/-- **The links are ranked in every state of every run.** -/
theorem LinkedRun.inv {ok : LinkedCatalogs → LinkedAction → Prop} (h : LinkedRun base ok σ) :
    LinkInv base σ := by
  induction h with
  | empty status hbase h64 hpast =>
    have hnone : ∀ rel a b, ¬ LinkedCatalogs.Edge (.empty base status) rel a b := by
      rintro rel a b ⟨hb, rfl | hcopy | ⟨k, c, hc, -⟩⟩
      · cases hb
      · cases hcopy
      · cases hc
    exact ⟨(CatalogRun.empty status hbase h64 hpast).inv, nofun, fun rel a b hab => (hnone rel a b hab).elim,
      nofun, nofun, nofun, fun rel => LinkWalk.ranked_empty (hnone rel)⟩
  | step _ hs _ ih => exact ih.step hs

end

/-! ## The function is a walk -/

/-- Where the loop goes on, if it does. -/
def nextTid (ctids : ItemPointer → ItemPointer) (ctid : ItemPointer) : Option ItemPointer :=
  if !(ctids ctid).isValid || decide (ctid = ctids ctid) then none else some (ctids ctid)

/-- There is an item at the tid that the reader sees. -/
def CatalogReader.seesTid (r : CatalogReader) (t : Table CatalogItem) (tid : ItemPointer) : Bool :=
  (t.lp tid).any r.sees

section

variable {base fuel : Nat} {σ : LinkedCatalogs} {rel : Oid} {t : Table CatalogItem} {r : CatalogReader}
  {ctids : ItemPointer → ItemPointer} {a b tid last : ItemPointer}

theorem nextTid_eq_some (h : nextTid ctids a = some b) : b.isValid = true ∧ ctids a = b := by
  unfold nextTid at h
  split_ifs at h with hstop
  cases h
  rw [Bool.or_eq_true, not_or, Bool.not_eq_true', Bool.not_eq_false] at hstop
  exact ⟨hstop.1, rfl⟩

/-- **The loop is a walk along the links**, between items that can be fetched. -/
theorem getLatestTid_walk {P : ItemPointer → Prop}
    (hlp : ∀ a, P a → ∃ lp, t.lp a = some lp ∧ npCatalogItemIsFetchable lp = true)
    (hnext : ∀ a b, P a → nextTid ctids a = some b → P b) (ha : P a) :
    getLatestTidLoop r t ctids fuel a last =
      (LinkWalk.walk (nextTid ctids) (r.seesTid t) fuel a last).map Except.ok := by
  induction fuel generalizing a last with
  | zero => rfl
  | succ fuel ih =>
    obtain ⟨lp, hget, hfetch⟩ := hlp a ha
    have hget' := hget
    obtain ⟨page, hpage, hoff⟩ := Option.bind_eq_some_iff.mp hget'
    have hread : readBuffer t a.block = .ok page := by
      unfold readBuffer
      rw [hpage]
    have hsees : r.seesTid t a = npCatalogTupleVisible r.xacts r.own lp.2.toRecordHeader r.snapshot := by
      unfold CatalogReader.seesTid CatalogReader.sees
      rw [hget, Option.any_some, hfetch, Bool.true_and]
    have hstep := hnext a (ctids a) ha
    unfold getLatestTidLoop LinkWalk.walk
    rw [hread, hsees]
    dsimp only
    rw [hoff, Option.filter_some, if_pos hfetch]
    dsimp only
    unfold nextTid at hstep ⊢
    split_ifs at hstep ⊢ with hstop
    · rfl
    · rfl
    · exact ih (hstep rfl)
    · exact ih (hstep rfl)

theorem stored_lp (htbl : σ.sys.inst.catalogs rel = some t) :
    σ.Stored rel tid ↔ ∃ lp, t.lp tid = some lp := by
  unfold LinkedCatalogs.Stored LinkedCatalogs.row
  rw [item_eq_lp, lp_catalog htbl]
  constructor
  · rintro ⟨item, hitem⟩
    obtain ⟨lp, hlp, -⟩ := Option.map_eq_some_iff.mp hitem
    exact ⟨lp, hlp⟩
  · rintro ⟨lp, hlp⟩
    exact ⟨lp.2, by rw [hlp, Option.map_some]⟩

/-- Links lead from items to items. -/
theorem LinkInv.next_edge (h : nextTid (σ.ctid rel) a = some b) : σ.Edge rel a b := by
  obtain ⟨hvalid, hlink⟩ := nextTid_eq_some h
  exact ⟨hvalid, Or.inl hlink⟩

/-- **From an item, the function returns what a walk along the links remembers.** -/
theorem LinkInv.getLatestTid (h : LinkInv base σ) (htbl : σ.sys.inst.catalogs rel = some t)
    (r : CatalogReader) (hstored : σ.Stored rel tid) : ∃ fuel result,
      npCatalogGetLatestTid r t (σ.ctid rel) fuel tid = some (.ok result) ∧
        LinkWalk.Remembers (nextTid (σ.ctid rel)) (r.seesTid t) tid tid result := by
  have hranked := (h.ranked rel).mono fun a b hab => LinkInv.next_edge (σ := σ) hab
  obtain ⟨fuel, result, hwalk, hresult⟩ := LinkWalk.walk_spec hranked (r.seesTid t) tid tid
  refine ⟨fuel, result, ?_, hresult⟩
  unfold npCatalogGetLatestTid
  rw [getLatestTid_walk (P := σ.Stored rel) (fun a ha => ?_) (fun a b _ hab => ?_) hstored, hwalk,
    Option.map_some]
  · obtain ⟨lp, hlp⟩ := (stored_lp htbl).mp ha
    exact ⟨lp, hlp, h.fetchable rel a lp ((lp_catalog htbl).trans hlp)⟩
  · exact (h.stored rel a b (LinkInv.next_edge hab)).2

/-- Where there is no item the function returns at once. -/
theorem getLatestTid_of_not_stored (htbl : σ.sys.inst.catalogs rel = some t) (r : CatalogReader)
    (hstored : ¬ σ.Stored rel tid) : npCatalogGetLatestTid r t ctids 1 tid =
      some (if tid.block < t.nblocks then .ok tid else .error (.couldNotReadBlock tid.block)) := by
  unfold npCatalogGetLatestTid getLatestTidLoop readBuffer Table.nblocks
  cases hpage : t.pages[tid.block]? with
  | none =>
    have hge := List.getElem?_eq_none_iff.mp hpage
    rw [if_neg (Nat.not_lt.mpr hge)]
  | some page =>
    have hlt := (List.getElem?_eq_some_iff.mp hpage).1
    have hlp : page.lp tid.offset = none := by
      rw [Option.eq_none_iff_forall_ne_some]
      intro lp hlp
      refine hstored ((stored_lp htbl).mpr ⟨lp, ?_⟩)
      unfold Table.lp
      rw [hpage]
      exact hlp
    dsimp only
    rw [hlp, if_pos hlt]
    rfl

end

end NeoPostGraph
