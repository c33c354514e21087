import NeoPostGraph.Access.CatalogReads
import NeoPostGraph.Graph.EntityTable

/-!
# Sessions on catalogs

Any number of sessions read and write catalogs at once. A session gets a transaction id when it first
writes, counts its commands, registers the snapshots it takes, and ends its transaction. The steps of
the writers are the buffer-locked sections of `np_catalog_heap.c`: an insert and a delete are one, an
update is a check, an append and a stamp, with steps of other sessions in between.

* `CatalogSystem`, `CatalogStep`: the state of the catalogs and of the sessions, and one step.
* `Taken x own s`: the snapshot a session with the ids `own` gets in the transaction state `x`.
* `CatalogRun base σ`: a state that some run from empty catalogs comes to.

Results:
* `SystemInv.step`, `CatalogRun.inv`: what holds of items and sessions in every such state.
* `exists_taken`: a session can always take a snapshot.
-/

namespace NeoPostGraph

open SlottedPage

/-- An update in progress: the check has passed. -/
structure UpdateCall where
  rel : Oid
  otid : ItemPointer
  tuple : List Nat
  /-- The new version has been appended. -/
  written : Bool

/-- Catalogs and sessions. -/
structure CatalogSystem where
  inst : Instance
  /-- The transaction id of a session, once it has one. -/
  session : Nat → Option Nat
  /-- The current command of a session. -/
  cid : Nat → Nat
  updating : Nat → Option UpdateCall
  /-- The registered snapshots, each with its session. -/
  registered : List (Nat × FullSnapshot)

/-- The snapshot `GetSnapshotData` returns to a session with these transaction ids: it counts the
other transactions that run now as running. -/
structure Taken (x : XactState) (own : List Nat) (s : FullSnapshot) : Prop where
  consistent : Consistent x own s
  running : ∀ y, x.Assigned y → y ∉ own → (s.Running y ↔ x.status y = .inProgress)

namespace CatalogSystem

/-- The state of the transactions. -/
def xacts (σ : CatalogSystem) : XactState := σ.inst.db.xacts

/-- The transaction ids of a session. -/
def own (σ : CatalogSystem) (k : Nat) : List Nat := (σ.session k).toList

/-- No session, and no catalog. -/
def empty (base : Nat) (status : Nat → XidStatus) : CatalogSystem where
  inst := ⟨Db.empty ⟨base, status⟩, fun _ => none⟩
  session _ := none
  cid _ := 0
  updating _ := none
  registered := []

/-- The transaction of a session is over: it has no id and no snapshot any more. -/
def endXact (σ : CatalogSystem) (k : Nat) (db : Db) : CatalogSystem where
  inst := { σ.inst with db := db }
  session := Function.update σ.session k none
  cid := Function.update σ.cid k 0
  updating := Function.update σ.updating k none
  registered := σ.registered.filter fun p => p.1 ≠ k

end CatalogSystem

/-- One step of one session. -/
inductive CatalogStep (base : Nat) : CatalogSystem → CatalogSystem → Prop
  | catalog {σ : CatalogSystem} (rel : Oid) (h : σ.inst.catalogs rel = none) :
      CatalogStep base σ { σ with inst := { σ.inst with
        catalogs := Function.update σ.inst.catalogs rel (some Table.empty) } }
  | begin {σ : CatalogSystem} (k : Nat) (h : σ.session k = none)
      (hroom : σ.xacts.begin.nextFxid < base + 2 ^ 31) :
      CatalogStep base σ { σ with
        inst := { σ.inst with db := σ.inst.db.begin }
        session := Function.update σ.session k (some σ.xacts.nextFxid) }
  | command {σ : CatalogSystem} (k : Nat) (h : σ.updating k = none) :
      CatalogStep base σ { σ with cid := Function.update σ.cid k (σ.cid k + 1) }
  | snapshot {σ : CatalogSystem} (k : Nat) (s : FullSnapshot) (h : Taken σ.xacts (σ.own k) s)
      (hcid : s.curcid = σ.cid k) :
      CatalogStep base σ { σ with registered := (k, s) :: σ.registered }
  | unregister {σ : CatalogSystem} (p : Nat × FullSnapshot) :
      CatalogStep base σ { σ with registered := σ.registered.erase p }
  | insert {σ : CatalogSystem} {k t : Nat} {i : Instance} {rel : Oid} {tuple : List Nat}
      {tid : ItemPointer} (hk : σ.session k = some t) (hu : σ.updating k = none)
      (h : (npCatalogTupleInsert ⟨t, σ.cid k⟩ rel tuple).Runs σ.inst tid i) :
      CatalogStep base σ { σ with inst := i }
  | delete {σ : CatalogSystem} {k t : Nat} {i : Instance} {rel : Oid} {tid : ItemPointer}
      {r : TmResult} (hk : σ.session k = some t) (hu : σ.updating k = none)
      (h : (npCatalogTupleDelete ⟨t, σ.cid k⟩ rel tid).Runs σ.inst r i) :
      CatalogStep base σ { σ with inst := i }
  | checkUpdate {σ : CatalogSystem} {k t : Nat} {i : Instance} {rel : Oid} {otid : ItemPointer}
      (tuple : List Nat) (hk : σ.session k = some t) (hu : σ.updating k = none)
      (h : (checkCatalogItem ⟨t, σ.cid k⟩ rel otid).Runs σ.inst .ok i) :
      CatalogStep base σ { σ with
        inst := i
        updating := Function.update σ.updating k (some ⟨rel, otid, tuple, false⟩) }
  | writeUpdate {σ : CatalogSystem} {k t : Nat} {i : Instance} {c : UpdateCall} {tid : ItemPointer}
      (hk : σ.session k = some t) (hu : σ.updating k = some c) (hw : c.written = false)
      (h : (writeCatalogItem c.rel (npCatalogPackItem ⟨t, σ.cid k⟩ c.otid c.tuple)).Runs σ.inst
        tid i) :
      CatalogStep base σ { σ with
        inst := i
        updating := Function.update σ.updating k (some { c with written := true }) }
  | stampUpdate {σ : CatalogSystem} {k t : Nat} {i : Instance} {c : UpdateCall}
      (hk : σ.session k = some t) (hu : σ.updating k = some c) (hw : c.written = true)
      (h : (stampCatalogItem ⟨t, σ.cid k⟩ c.rel c.otid).Runs σ.inst () i) :
      CatalogStep base σ { σ with
        inst := i
        updating := Function.update σ.updating k none }
  /-- An update fails, and its transaction goes on from a savepoint. -/
  | failUpdate {σ : CatalogSystem} (k : Nat) :
      CatalogStep base σ { σ with updating := Function.update σ.updating k none }
  | commit {σ : CatalogSystem} {k t : Nat} (hk : σ.session k = some t) (hu : σ.updating k = none) :
      CatalogStep base σ (σ.endXact k (σ.inst.db.commit t))
  | abort {σ : CatalogSystem} {k t : Nat} (hk : σ.session k = some t) :
      CatalogStep base σ (σ.endXact k (σ.inst.db.abort t))
  /-- A transaction that has written nothing ends. -/
  | finish {σ : CatalogSystem} {k : Nat} (hk : σ.session k = none) (hu : σ.updating k = none) :
      CatalogStep base σ (σ.endXact k σ.inst.db)

/-- The states runs come to. Ids are assigned from `base` on, fewer than 2^31 of them, and the
transactions before have ended. -/
inductive CatalogRun (base : Nat) : CatalogSystem → Prop
  | empty (status : Nat → XidStatus) (hbase : firstNormalTransactionId ≤ xidFromFull base)
      (h64 : base + 2 ^ 32 ≤ 2 ^ 64) (hpast : ∀ y, status y ≠ .inProgress) :
      CatalogRun base (.empty base status)
  | step {σ σ' : CatalogSystem} (h : CatalogRun base σ) (hs : CatalogStep base σ σ') :
      CatalogRun base σ'

/-! ## The invariant -/

/-- What holds of the ids. -/
structure XidInv (base : Nat) (x : XactState) : Prop where
  base_le : base ≤ x.nextFxid
  room : x.nextFxid < base + 2 ^ 31
  normal : firstNormalTransactionId ≤ xidFromFull x.nextFxid
  base_normal : firstNormalTransactionId ≤ xidFromFull base
  lt : base + 2 ^ 32 ≤ 2 ^ 64
  past : ∀ y, y < base → x.status y ≠ .inProgress

/-- What holds of the sessions. -/
structure SessionInv (base : Nat) (σ : CatalogSystem) : Prop where
  running : ∀ k t, σ.session k = some t → σ.xacts.Open base t
  one : ∀ k k' t, σ.session k = some t → σ.session k' = some t → k = k'
  all : ∀ t, σ.xacts.Open base t → ∃ k, σ.session k = some t
  /-- Only finitely many sessions have written. -/
  idle : ∃ n, ∀ k, n ≤ k → σ.session k = none

/-- What holds of an item. -/
structure ItemInv (base : Nat) (σ : CatalogSystem) (item : CatalogItem) : Prop where
  header : HeaderInv base σ.xacts item.toRecordHeader
  /-- A running deleter has not gone back behind the command it deleted the item in. -/
  cmax_le : ∀ k d, item.deleter = some d → σ.session k = some d → item.cmax ≤ σ.cid k

/-- Where a session stands in an update: the item is its own and undeleted, or its creator had
committed when it was checked. -/
def UpdatingOk (i : Instance) (τ : Nat) (c : UpdateCall) : Prop :=
  ∃ t item, i.catalogs c.rel = some t ∧ t.get c.otid = some item ∧
    (item.xmin = τ ∧ item.deleter = none ∨ i.db.xacts.status item.xmin = .committed)

/-- The invariant of a run. -/
structure SystemInv (base : Nat) (σ : CatalogSystem) : Prop where
  xids : XidInv base σ.xacts
  sessions : SessionInv base σ
  item : ∀ rel t tid item, σ.inst.catalogs rel = some t → t.get tid = some item →
    ItemInv base σ item
  updating : ∀ k c, σ.updating k = some c → ∃ τ, σ.session k = some τ ∧ UpdatingOk σ.inst τ c

section

variable {base k t d : Nat} {x : XactState} {σ σ' : CatalogSystem} {i : Instance} {rel : Oid}
  {tid : ItemPointer} {item : CatalogItem} {tbl tbl' : Table CatalogItem}

theorem SystemInv.room (h : SystemInv base σ) : σ.xacts.nextFxid ≤ base + 2 ^ 32 := by
  have := h.xids.room
  omega

theorem SystemInv.own_open (h : SystemInv base σ) {o : Nat} (ho : o ∈ σ.own k) :
    σ.xacts.Open base o := by
  unfold CatalogSystem.own at ho
  exact h.sessions.running k o (Option.mem_toList.mp ho)

/-- **What a writer finds that has checked an item**: it is its own and undeleted, or its creator has
committed and its deleter has not. -/
theorem checked (h : SystemInv base σ) (ht : σ.xacts.Open base t) (hi : ItemInv base σ item)
    {cid : Nat} (hc : checkItem σ.xacts (Session.own ⟨t, cid⟩) item = .ok) :
    item.xmin = t ∧ item.deleter = none ∨ σ.xacts.status item.xmin = .committed ∧
      ∀ d, item.deleter = some d → σ.xacts.status d ≠ .committed := by
  have hlive : npEntityTupleIsLive σ.xacts [t] item.toRecordHeader = true := by
    unfold checkItem at hc
    by_contra hl
    rw [Bool.not_eq_true] at hl
    have hl' : npEntityTupleIsLive σ.xacts (Session.own ⟨t, cid⟩) item.toRecordHeader = false := hl
    rw [hl'] at hc
    cases hc
  have hown : ∀ o ∈ [t], σ.xacts.Begun base o := fun o ho => by
    rw [List.mem_singleton.mp ho]
    exact ht.1
  rw [npEntityTupleIsLive_full h.room hown hi.header.xmin fun hv =>
    hi.header.xmax _ (deleter_eq_some.mpr ⟨hv, rfl⟩)] at hlive
  by_cases hm : item.xmin ∈ [t]
  · rw [if_pos hm] at hlive
    have heq := List.mem_singleton.mp hm
    refine Or.inl ⟨heq, ?_⟩
    cases hd : item.deleter with
    | none => rfl
    | some d =>
      obtain ⟨hv, rfl⟩ := deleter_eq_some.mp hd
      rcases hi.header.settled _ hd with he | hcom
      · exact absurd (by rw [he]; exact hm) (hlive hv)
      · have hprog := ht.2
        rw [← heq] at hprog
        cases hprog.symm.trans hcom
  · rw [if_neg hm] at hlive
    refine Or.inr ⟨hlive.1, fun d hd => ?_⟩
    obtain ⟨hv, rfl⟩ := deleter_eq_some.mp hd
    exact (hlive.2 hv).2

/-! ## Steps that write -/

/-- Steps that leave the transactions and the sessions alone. -/
structure SameSessions (σ σ' : CatalogSystem) : Prop where
  xacts : σ'.xacts = σ.xacts
  session : σ'.session = σ.session
  cid : ∀ k t, σ.session k = some t → σ.cid k ≤ σ'.cid k

theorem SameSessions.itemInv (hs : SameSessions σ σ') (h : ItemInv base σ item) :
    ItemInv base σ' item where
  header := by
    rw [hs.xacts]
    exact h.header
  cmax_le k d hd hk := by
    rw [hs.session] at hk
    exact (h.cmax_le k d hd hk).trans (hs.cid k d hk)

theorem SystemInv.sameSessions (h : SystemInv base σ) (hs : SameSessions σ σ')
    (hitem : ∀ rel t tid item, σ'.inst.catalogs rel = some t → t.get tid = some item →
      ItemInv base σ' item)
    (hu : ∀ k c, σ'.updating k = some c → ∃ τ, σ.session k = some τ ∧ UpdatingOk σ'.inst τ c) :
    SystemInv base σ' where
  xids := by
    rw [hs.xacts]
    exact h.xids
  sessions := by
    obtain ⟨h₁, h₂, h₃, h₄⟩ := h.sessions
    constructor
    · rw [hs.session, hs.xacts]
      exact h₁
    · rw [hs.session]
      exact h₂
    · rw [hs.session, hs.xacts]
      exact h₃
    · rw [hs.session]
      exact h₄
  item := hitem
  updating k c hc := by
    rw [hs.session]
    exact hu k c hc

/-- A step that leaves the catalogs alone as well. -/
theorem SystemInv.sameInst (h : SystemInv base σ) (hs : SameSessions σ σ') (hi : σ'.inst = σ.inst)
    (hu : ∀ k c, σ'.updating k = some c → ∃ τ, σ.session k = some τ ∧ UpdatingOk σ.inst τ c) :
    SystemInv base σ' := by
  refine h.sameSessions hs (fun rel t tid item ht hg => ?_) ?_
  · rw [hi] at ht
    exact hs.itemInv (h.item rel t tid item ht hg)
  · rw [hi]
    exact hu

/-- A catalog after an item was appended to one of them. -/
structure Appended (i i' : Instance) (item : CatalogItem) : Prop where
  db : i'.db = i.db
  keeps : ∀ rel t tid a, i.catalogs rel = some t → t.lp tid = some a →
    ∃ t', i'.catalogs rel = some t' ∧ t'.lp tid = some a
  only : ∀ rel t' tid a, i'.catalogs rel = some t' → t'.get tid = some a →
    a = item ∨ ∃ t, i.catalogs rel = some t ∧ t.get tid = some a

theorem appended_of_runs (h : (writeCatalogItem rel item).Runs σ.inst tid i) :
    Appended σ.inst i item := by
  obtain ⟨t, t', ht, hg, rfl⟩ := runs_onCatalog.mp h
  obtain ⟨⟨t₁, tid₁⟩, hw, hg⟩ := bind_ok hg
  obtain ⟨rfl, rfl⟩ := Prod.mk.inj (Except.ok.inj hg)
  have hw := npWriteRecordToPage_ok hw
  refine ⟨rfl, fun rel' t₂ tid' a ht₂ ha => ?_, fun rel' t₂ tid' a ht₂ ha => ?_⟩
  · by_cases hr : rel' = rel
    · subst hr
      obtain rfl := Option.some.inj (ht.symm.trans ht₂)
      exact ⟨t₁, Function.update_self .., Table.lp_write hw ha⟩
    · exact ⟨t₂, (Function.update_of_ne hr ..).trans ht₂, ha⟩
  · by_cases hr : rel' = rel
    · subst hr
      have hcat : Function.update σ.inst.catalogs rel' (some t₁) rel' = some t₂ := ht₂
      rw [Function.update_self] at hcat
      obtain rfl := Option.some.inj hcat
      rw [Table.get_write hw] at ha
      split at ha
      · exact Or.inl (Option.some.inj ha).symm
      · exact Or.inr ⟨t, ht, ha⟩
    · have hcat : Function.update σ.inst.catalogs rel (some t₁) rel' = some t₂ := ht₂
      rw [Function.update_of_ne hr] at hcat
      exact Or.inr ⟨t₂, hcat, ha⟩

/-- What an item found by its line pointer is. -/
theorem get_of_lp {a : Nat × CatalogItem} (h : tbl.lp tid = some a) : tbl.get tid = some a.2 := by
  rw [Table.get_eq_lp, h]
  rfl

theorem exists_lp (h : tbl.get tid = some item) : ∃ len, tbl.lp tid = some (len, item) := by
  rw [Table.get_eq_lp] at h
  obtain ⟨⟨len, a⟩, ha, rfl⟩ := Option.map_eq_some_iff.mp h
  exact ⟨len, ha⟩

theorem Appended.updatingOk {i i' : Instance} {τ : Nat} {c : UpdateCall} (ha : Appended i i' item)
    (h : UpdatingOk i τ c) : UpdatingOk i' τ c := by
  obtain ⟨t, old, ht, hg, hst⟩ := h
  obtain ⟨len, hlp⟩ := exists_lp hg
  obtain ⟨t', ht', hlp'⟩ := ha.keeps _ _ _ _ ht hlp
  refine ⟨t', old, ht', get_of_lp hlp', ?_⟩
  rw [ha.db]
  exact hst

theorem SystemInv.append (h : SystemInv base σ) (hs : SameSessions σ σ')
    (hk : σ.xacts.Open base t) {cid : Nat} {prev : ItemPointer} {tuple : List Nat}
    (ha : Appended σ.inst σ'.inst (npCatalogPackItem ⟨t, cid⟩ prev tuple))
    (hu : ∀ k c, σ'.updating k = some c → ∃ τ, σ.session k = some τ ∧ UpdatingOk σ'.inst τ c) :
    SystemInv base σ' := by
  refine h.sameSessions hs (fun rel t' tid a ht' hg => ?_) hu
  rcases ha.only rel t' tid a ht' hg with rfl | ⟨t₀, ht₀, hg₀⟩
  · refine ⟨⟨?_, nofun, nofun⟩, nofun⟩
    rw [hs.xacts]
    exact hk.1
  · exact hs.itemInv (h.item rel t₀ tid a ht₀ hg₀)

/-- A catalog after an item in it was stamped. -/
structure StampedAt (i i' : Instance) (s : Session) (rel : Oid) (tid : ItemPointer)
    (item : CatalogItem) : Prop where
  db : i'.db = i.db
  old : ∃ t, i.catalogs rel = some t ∧ t.get tid = some item
  keeps : ∀ rel' t tid' a, i.catalogs rel' = some t → t.lp tid' = some a →
    ∃ t', i'.catalogs rel' = some t' ∧
      t'.lp tid' = some (if rel' = rel ∧ tid' = tid then (a.1, stampItem s a.2) else a)
  only : ∀ rel' t' tid' a, i'.catalogs rel' = some t' → t'.get tid' = some a →
    a = stampItem s item ∨ ∃ t, i.catalogs rel' = some t ∧ t.get tid' = some a

theorem stampedAt_of_modify {s : Session} (ht : i.catalogs rel = some tbl)
    (hg : tbl.get tid = some item) : StampedAt i
      { i with catalogs := Function.update i.catalogs rel (some (tbl.modify tid (stampItem s))) }
      s rel tid item := by
  refine ⟨rfl, ⟨tbl, ht, hg⟩, fun rel' t₂ tid' a ht₂ ha => ?_, fun rel' t₂ tid' a ht₂ ha => ?_⟩
  · by_cases hr : rel' = rel
    · subst hr
      obtain rfl := Option.some.inj (ht.symm.trans ht₂)
      refine ⟨_, Function.update_self .., ?_⟩
      rw [Table.lp_modify _ ha]
      simp
    · exact ⟨t₂, (Function.update_of_ne hr ..).trans ht₂, by rw [if_neg fun h => hr h.1]; exact ha⟩
  · by_cases hr : rel' = rel
    · subst hr
      have hcat : Function.update i.catalogs rel' (some (tbl.modify tid (stampItem s))) rel' =
        some t₂ := ht₂
      rw [Function.update_self] at hcat
      obtain rfl := Option.some.inj hcat
      rw [Table.get_modify] at ha
      split at ha
      · next he =>
        rw [he, hg] at ha
        exact Or.inl (Option.some.inj ha).symm
      · exact Or.inr ⟨tbl, ht, ha⟩
    · have hcat : Function.update i.catalogs rel (some (tbl.modify tid (stampItem s))) rel' =
        some t₂ := ht₂
      rw [Function.update_of_ne hr] at hcat
      exact Or.inr ⟨t₂, hcat, ha⟩

theorem stampedAt_of_runs {s : Session} (h : (stampCatalogItem s rel tid).Runs σ.inst () i) :
    ∃ item, StampedAt σ.inst i s rel tid item := by
  obtain ⟨t, t', ht, hg, rfl⟩ := runs_onCatalog.mp h
  obtain ⟨item, hi, hg⟩ := bind_ok hg
  obtain ⟨-, rfl⟩ := Prod.mk.inj (Except.ok.inj hg)
  exact ⟨item, stampedAt_of_modify ht (readItem_ok hi)⟩

/-- A delete stamps an item that passes its check, or leaves everything alone. -/
theorem delete_cases {s : Session} {r : TmResult}
    (h : (npCatalogTupleDelete s rel tid).Runs σ.inst r i) : i = σ.inst ∨
      ∃ item, checkItem σ.xacts s.own item = .ok ∧ StampedAt σ.inst i s rel tid item := by
  obtain ⟨t, t', ht, hg, rfl⟩ := runs_onCatalog.mp h
  obtain ⟨item, hi, hg⟩ := bind_ok hg
  have hsame : ({ σ.inst with catalogs := Function.update σ.inst.catalogs rel (some t) } : Instance) =
      σ.inst := by rw [Function.update_eq_self_iff.mpr ht.symm]
  cases hc : checkItem σ.inst.db.xacts s.own item with
  | ok =>
    rw [hc] at hg
    obtain ⟨-, rfl⟩ := Prod.mk.inj (Except.ok.inj hg)
    exact Or.inr ⟨item, hc, stampedAt_of_modify ht (readItem_ok hi)⟩
  | invisible =>
    rw [hc] at hg
    obtain ⟨-, rfl⟩ := Prod.mk.inj (Except.ok.inj hg)
    exact Or.inl hsame
  | updated =>
    rw [hc] at hg
    obtain ⟨-, rfl⟩ := Prod.mk.inj (Except.ok.inj hg)
    exact Or.inl hsame

/-- The stamp of a session leaves alone what another session is updating. -/
theorem StampedAt.updatingOk {i i' : Instance} {s : Session} {τ : Nat} {c : UpdateCall}
    (hst : StampedAt i i' s rel tid item) (h : UpdatingOk i τ c) (hne : s.fxid ≠ τ)
    (hok : item.xmin = s.fxid ∨ i.db.xacts.status item.xmin = .committed)
    (hτ : i.db.xacts.status τ = .inProgress) : UpdatingOk i' τ c := by
  obtain ⟨t, old, ht, hg, hold⟩ := h
  obtain ⟨len, hlp⟩ := exists_lp hg
  obtain ⟨t', ht', hlp'⟩ := hst.keeps _ _ _ _ ht hlp
  refine ⟨t', _, ht', get_of_lp hlp', ?_⟩
  rw [hst.db]
  by_cases he : c.rel = rel ∧ c.otid = tid
  · rw [if_pos he]
    obtain ⟨t₀, ht₀, hg₀⟩ := hst.old
    obtain ⟨h₁, h₂⟩ := he
    rw [h₁] at ht
    obtain rfl := Option.some.inj (ht.symm.trans ht₀)
    rw [h₂] at hg
    obtain rfl := Option.some.inj (hg.symm.trans hg₀)
    right
    rcases hold with ⟨hx, -⟩ | hc
    · rcases hok with ho | ho
      · exact absurd (ho.symm.trans hx) hne
      · rw [hx] at ho
        cases hτ.symm.trans ho
    · exact hc
  · rw [if_neg he]
    exact hold

theorem SystemInv.stamp (h : SystemInv base σ) (hs : SameSessions σ σ') (hcid : σ'.cid = σ.cid)
    (hk : σ.session k = some t) (hst : StampedAt σ.inst σ'.inst ⟨t, σ.cid k⟩ rel tid item)
    (hok : item.xmin = t ∨ σ.xacts.status item.xmin = .committed)
    (hu : ∀ k' c, σ'.updating k' = some c → k' ≠ k ∧ σ.updating k' = some c) :
    SystemInv base σ' := by
  have hopen := h.sessions.running k t hk
  refine h.sameSessions hs (fun rel' t' tid' a ht' hg => ?_) fun k' c hc => ?_
  · rcases hst.only rel' t' tid' a ht' hg with rfl | ⟨t₀, ht₀, hg₀⟩
    · obtain ⟨t₀, ht₀, hg₀⟩ := hst.old
      have hitem := h.item rel t₀ tid item ht₀ hg₀
      have hdel : (stampItem ⟨t, σ.cid k⟩ item).deleter = some t := deleter_eq_some.mpr ⟨hopen.1.valid, rfl⟩
      refine ⟨⟨?_, fun d hd => ?_, fun d hd => ?_⟩, fun k' d hd hk' => ?_⟩
      · rw [hs.xacts]
        exact hitem.header.xmin
      · obtain rfl := Option.some.inj (hdel.symm.trans hd)
        rw [hs.xacts]
        exact hopen.1
      · obtain rfl := Option.some.inj (hdel.symm.trans hd)
        rw [hs.xacts]
        exact hok.imp_left Eq.symm
      · obtain rfl := Option.some.inj (hdel.symm.trans hd)
        rw [hs.session] at hk'
        obtain rfl := h.sessions.one k k' t hk hk'
        rw [hcid]
        exact Nat.le_refl _
    · exact hs.itemInv (h.item rel' t₀ tid' a ht₀ hg₀)
  · obtain ⟨hne, hc⟩ := hu k' c hc
    obtain ⟨τ, hτ, hok'⟩ := h.updating k' c hc
    exact ⟨τ, hτ, hst.updatingOk hok' (fun he => hne (h.sessions.one k' k τ hτ (by
      rw [hk]
      exact congrArg some he))) hok (h.sessions.running k' τ hτ).2⟩

/-! ## Transactions begin and end -/

/-- An item stays as it is when transactions go on. -/
theorem ItemInv.later {x : XactState} (h : ItemInv base σ item) (hx : σ'.xacts = x)
    (hl : XactState.Later base σ.xacts x)
    (hk : ∀ k d, σ'.session k = some d → σ.xacts.Begun base d → σ.session k = some d ∧
      σ.cid k ≤ σ'.cid k) : ItemInv base σ' item where
  header := by
    rw [hx]
    exact h.header.later hl
  cmax_le k d hd hs := by
    obtain ⟨hs', hc⟩ := hk k d hs (h.header.xmax d hd)
    exact (h.cmax_le k d hd hs').trans hc

theorem UpdatingOk.later {i i' : Instance} {τ : Nat} {c : UpdateCall} (h : UpdatingOk i τ c)
    (hcat : i'.catalogs = i.catalogs)
    (hl : ∀ rel t tid item, i.catalogs rel = some t → t.get tid = some item →
      i.db.xacts.status item.xmin = .committed → i'.db.xacts.status item.xmin = .committed) :
    UpdatingOk i' τ c := by
  obtain ⟨t, item, ht, hg, hst⟩ := h
  refine ⟨t, item, by rw [hcat]; exact ht, hg, hst.imp_right fun hc => hl _ _ _ _ ht hg hc⟩

/-- The committed stay so, for the items of the catalogs. -/
theorem SystemInv.committed_later (h : SystemInv base σ) {x : XactState}
    (hl : XactState.Later base σ.xacts x) (rel : Oid) (t : Table CatalogItem) (tid : ItemPointer)
    (item : CatalogItem) (ht : σ.inst.catalogs rel = some t) (hg : t.get tid = some item)
    (hc : σ.inst.db.xacts.status item.xmin = .committed) : x.status item.xmin = .committed :=
  hl.committed _ ⟨(h.item rel t tid item ht hg).header.xmin, hc⟩

/-- No id is assigned between the next and the one after. -/
theorem le_of_lt_advance {y : Nat} (hy : firstNormalTransactionId ≤ xidFromFull y)
    (hlt : y < fullTransactionIdAdvance d) : y ≤ d := by
  unfold fullTransactionIdAdvance firstNormalTransactionId xidFromFull at hlt
  unfold firstNormalTransactionId xidFromFull at hy
  omega

theorem XidInv.begin (h : XidInv base x) (hroom : x.begin.nextFxid < base + 2 ^ 31) :
    XidInv base x.begin where
  base_le := h.base_le.trans (Nat.le_of_lt (lt_fullTransactionIdAdvance _))
  room := hroom
  normal := fullTransactionIdAdvance_normal _
  base_normal := h.base_normal
  lt := h.lt
  past y hy := by
    have hne : y ≠ x.nextFxid := by
      have := h.base_le
      omega
    show Function.update x.status x.nextFxid _ y ≠ _
    rw [Function.update_of_ne hne]
    exact h.past y hy

theorem SystemInv.begin (h : SystemInv base σ) (hk : σ.session k = none)
    (hroom : σ.xacts.begin.nextFxid < base + 2 ^ 31) :
    SystemInv base { σ with
      inst := { σ.inst with db := σ.inst.db.begin }
      session := Function.update σ.session k (some σ.xacts.nextFxid) } := by
  have hold : ∀ k' d, Function.update σ.session k (some σ.xacts.nextFxid) k' = some d →
      σ.xacts.Begun base d → σ.session k' = some d := fun k' d hd hb => by
    by_cases hk' : k' = k
    · subst hk'
      rw [Function.update_self] at hd
      obtain rfl := Option.some.inj hd
      exact absurd hb.2.1 (Nat.lt_irrefl _)
    · rwa [Function.update_of_ne hk'] at hd
  have hstatus : ∀ t, t ≠ σ.xacts.nextFxid → σ.xacts.begin.status t = σ.xacts.status t :=
    fun t ht => Function.update_of_ne ht ..
  refine ⟨h.xids.begin hroom, ⟨fun k' t ht => ?_, fun k' k'' t h₁ h₂ => ?_, fun t ht => ?_, ?_⟩,
    fun rel t tid item ht hg => ?_, fun k' c hc => ?_⟩
  · by_cases hk' : k' = k
    · subst hk'
      have ht : Function.update σ.session k' (some σ.xacts.nextFxid) k' = some t := ht
      rw [Function.update_self] at ht
      obtain rfl := Option.some.inj ht
      exact XactState.open_begin h.xids.base_le h.xids.normal
    · have ht : Function.update σ.session k (some σ.xacts.nextFxid) k' = some t := ht
      rw [Function.update_of_ne hk'] at ht
      have ho := h.sessions.running k' t ht
      exact ⟨ho.1.later (XactState.later_begin base _),
        (hstatus t (Nat.ne_of_lt ho.1.2.1)).trans ho.2⟩
  · have h₁ : Function.update σ.session k (some σ.xacts.nextFxid) k' = some t := h₁
    have h₂ : Function.update σ.session k (some σ.xacts.nextFxid) k'' = some t := h₂
    -- the new id is nobody else's
    have hnew : ∀ k₀, k₀ ≠ k → σ.session k₀ ≠ some σ.xacts.nextFxid := fun k₀ _ he =>
      Nat.lt_irrefl _ (h.sessions.running k₀ _ he).1.2.1
    by_cases hk' : k' = k
    · by_cases hk'' : k'' = k
      · rw [hk', hk'']
      · rw [hk', Function.update_self] at h₁
        rw [Function.update_of_ne hk'', ← h₁] at h₂
        exact absurd h₂ (hnew k'' hk'')
    · rw [Function.update_of_ne hk'] at h₁
      by_cases hk'' : k'' = k
      · rw [hk'', Function.update_self] at h₂
        rw [← h₂] at h₁
        exact absurd h₁ (hnew k' hk')
      · rw [Function.update_of_ne hk''] at h₂
        exact h.sessions.one k' k'' t h₁ h₂
  · by_cases he : t = σ.xacts.nextFxid
    · exact ⟨k, by rw [he]; exact Function.update_self ..⟩
    · have hst : σ.xacts.begin.status t = .inProgress := ht.2
      rw [hstatus t he] at hst
      have hle := le_of_lt_advance ht.1.2.2 ht.1.2.1
      obtain ⟨k', hk'⟩ := h.sessions.all t ⟨⟨ht.1.1, Nat.lt_of_le_of_ne hle he, ht.1.2.2⟩, hst⟩
      have hne : k' ≠ k := fun heq => by
        rw [heq, hk] at hk'
        cases hk'
      exact ⟨k', (Function.update_of_ne hne ..).trans hk'⟩
  · obtain ⟨n, hn⟩ := h.sessions.idle
    refine ⟨max n (k + 1), fun k' hk' => ?_⟩
    have hne : k' ≠ k := by omega
    exact (Function.update_of_ne hne ..).trans (hn k' (by omega))
  · exact (h.item rel t tid item ht hg).later rfl (XactState.later_begin base _)
      fun k' d hd hb => ⟨hold k' d hd hb, Nat.le_refl _⟩
  · obtain ⟨τ, hτ, hok⟩ := h.updating k' c hc
    have hne : k' ≠ k := fun heq => by
      rw [heq, hk] at hτ
      cases hτ
    exact ⟨τ, (Function.update_of_ne hne ..).trans hτ,
      hok.later rfl (h.committed_later (XactState.later_begin base _))⟩

/-- What ending a session's transaction does to the transactions. -/
structure Ends (base : Nat) (σ : CatalogSystem) (k : Nat) (x : XactState) : Prop where
  next : x.nextFxid = σ.xacts.nextFxid
  later : XactState.Later base σ.xacts x
  ended : ∀ t, σ.session k = some t → x.status t ≠ .inProgress
  others : ∀ t, σ.session k ≠ some t → x.status t = σ.xacts.status t

theorem SystemInv.endXact (h : SystemInv base σ) {db : Db} (he : Ends base σ k db.xacts) :
    SystemInv base (σ.endXact k db) := by
  have hsession : ∀ k' t, (σ.endXact k db).session k' = some t → k' ≠ k ∧ σ.session k' = some t :=
    fun k' t ht => by
      by_cases hk' : k' = k
      · rw [hk'] at ht
        have ht : Function.update σ.session k none k = some t := ht
        rw [Function.update_self] at ht
        cases ht
      · exact ⟨hk', (Function.update_of_ne hk' ..).symm.trans ht⟩
  have hx : (σ.endXact k db).xacts = db.xacts := rfl
  refine ⟨⟨?_, ?_, ?_, h.xids.base_normal, h.xids.lt, fun y hy => ?_⟩,
    ⟨fun k' t ht => ?_, fun k' k'' t h₁ h₂ => ?_, fun t ht => ?_, ?_⟩,
    fun rel t tid item ht hg => ?_, fun k' c hc => ?_⟩
  · rw [hx, he.next]
    exact h.xids.base_le
  · rw [hx, he.next]
    exact h.xids.room
  · rw [hx, he.next]
    exact h.xids.normal
  · by_cases hs : σ.session k = some y
    · exact he.ended y hs
    · rw [hx, he.others y hs]
      exact h.xids.past y hy
  · obtain ⟨hk', hs⟩ := hsession k' t ht
    have ho := h.sessions.running k' t hs
    refine ⟨ho.1.later he.later, ?_⟩
    rw [hx, he.others t fun heq => hk' (h.sessions.one k' k t hs heq)]
    exact ho.2
  · exact h.sessions.one k' k'' t (hsession k' t h₁).2 (hsession k'' t h₂).2
  · have hk' : σ.session k ≠ some t := fun heq => he.ended t heq ht.2
    have hst := ht.2
    rw [hx, he.others t hk'] at hst
    obtain ⟨k', hs⟩ := h.sessions.all t ⟨⟨ht.1.1, by rw [← he.next]; exact ht.1.2.1, ht.1.2.2⟩, hst⟩
    have hne : k' ≠ k := fun heq => hk' (by rw [← heq]; exact hs)
    exact ⟨k', (Function.update_of_ne hne ..).trans hs⟩
  · obtain ⟨n, hn⟩ := h.sessions.idle
    refine ⟨n, fun k' hk' => ?_⟩
    by_cases hne : k' = k
    · rw [hne]
      exact Function.update_self ..
    · exact (Function.update_of_ne hne ..).trans (hn k' hk')
  · refine (h.item rel t tid item ht hg).later hx he.later fun k' d hd _ => ?_
    obtain ⟨hk', hs⟩ := hsession k' d hd
    exact ⟨hs, Nat.le_of_eq (Function.update_of_ne hk' ..).symm⟩
  · have hne : k' ≠ k := fun heq => by
      rw [heq] at hc
      have hc : Function.update σ.updating k none k = some c := hc
      rw [Function.update_self] at hc
      cases hc
    obtain ⟨τ, hτ, hok⟩ := h.updating k' c ((Function.update_of_ne hne ..).symm.trans hc)
    exact ⟨τ, (Function.update_of_ne hne ..).trans hτ, hok.later rfl (h.committed_later he.later)⟩

theorem ends_commit (hk : σ.session k = some t) :
    Ends base σ k (σ.inst.db.commit t).xacts where
  next := rfl
  later := XactState.later_commit base t _
  ended u hu := by
    obtain rfl := Option.some.inj (hk.symm.trans hu)
    have hst : (σ.inst.db.commit t).xacts.status t = .committed := Function.update_self ..
    rw [hst]
    decide
  others u hu := Function.update_of_ne (fun he => hu (by rw [hk, he])) ..

theorem ends_abort (h : SystemInv base σ) (hk : σ.session k = some t) :
    Ends base σ k (σ.inst.db.abort t).xacts where
  next := rfl
  later := XactState.later_abort (h.sessions.running k t hk)
  ended u hu := by
    obtain rfl := Option.some.inj (hk.symm.trans hu)
    have hst : (σ.inst.db.abort t).xacts.status t = .aborted := Function.update_self ..
    rw [hst]
    decide
  others u hu := Function.update_of_ne (fun he => hu (by rw [hk, he])) ..

theorem ends_finish (hk : σ.session k = none) : Ends base σ k σ.inst.db.xacts where
  next := rfl
  later := ⟨Nat.le_refl _, fun _ ht => ht.2⟩
  ended u hu := by
    rw [hk] at hu
    cases hu
  others _ _ := rfl

/-! ## Every step keeps the invariant -/

theorem SameSessions.of_inst {u : Nat → Option UpdateCall} {r : List (Nat × FullSnapshot)}
    (h : i.db = σ.inst.db) : SameSessions σ { σ with inst := i, updating := u, registered := r } where
  xacts := congrArg Db.xacts h
  session := rfl
  cid _ _ _ := Nat.le_refl _

/-- What the sessions update when one of them goes on to something else. -/
theorem SystemInv.updating_update (h : SystemInv base σ) {o : Option UpdateCall}
    (ho : ∀ c, o = some c → ∃ τ, σ.session k = some τ ∧ UpdatingOk σ.inst τ c) (k' : Nat)
    (c : UpdateCall) (hc : Function.update σ.updating k o k' = some c) :
    ∃ τ, σ.session k' = some τ ∧ UpdatingOk σ.inst τ c := by
  by_cases hk' : k' = k
  · rw [hk', Function.update_self] at hc
    rw [hk']
    exact ho c hc
  · rw [Function.update_of_ne hk'] at hc
    exact h.updating k' c hc

/-- **Every step keeps the invariant.** -/
theorem SystemInv.step (h : SystemInv base σ) (hs : CatalogStep base σ σ') : SystemInv base σ' := by
  cases hs with
  | catalog rel hr =>
    refine h.sameSessions (.of_inst rfl) (fun rel' t tid item ht hg => ?_) fun k c hc => ?_
    · by_cases he : rel' = rel
      · rw [he] at ht
        have ht : Function.update σ.inst.catalogs rel (some Table.empty) rel = some t := ht
        rw [Function.update_self] at ht
        obtain rfl := Option.some.inj ht
        rw [Table.get_empty] at hg
        cases hg
      · have hold := h.item rel' t tid item ((Function.update_of_ne he ..).symm.trans ht) hg
        exact ⟨hold.header, hold.cmax_le⟩
    · obtain ⟨τ, hτ, t, item, ht, hg, hst⟩ := h.updating k c hc
      have hne : c.rel ≠ rel := fun he => by
        rw [he, hr] at ht
        cases ht
      exact ⟨τ, hτ, t, item, (Function.update_of_ne hne ..).trans ht, hg, hst⟩
  | begin k hk hroom => exact h.begin hk hroom
  | command k hk =>
    refine h.sameInst ⟨rfl, rfl, fun k' t _ => ?_⟩ rfl h.updating
    show σ.cid k' ≤ Function.update σ.cid k (σ.cid k + 1) k'
    rw [Function.update_apply]
    split
    · next he =>
      rw [he]
      exact Nat.le_succ _
    · exact Nat.le_refl _
  | snapshot k s ht hcid => exact h.sameInst (.of_inst rfl) rfl h.updating
  | unregister p => exact h.sameInst (.of_inst rfl) rfl h.updating
  | insert hk hu hr =>
    have ha := appended_of_runs hr
    refine h.append (.of_inst ha.db) (h.sessions.running _ _ hk) ha fun k' c hc => ?_
    obtain ⟨τ, hτ, hok⟩ := h.updating k' c hc
    exact ⟨τ, hτ, ha.updatingOk hok⟩
  | @delete k t i rel tid r hk hu hr =>
    rcases delete_cases hr with rfl | ⟨item, hc, hst⟩
    · exact h.sameInst (.of_inst rfl) rfl h.updating
    · obtain ⟨t₀, ht₀, hg₀⟩ := hst.old
      have hitem := h.item rel t₀ tid item ht₀ hg₀
      refine h.stamp (.of_inst hst.db) rfl hk hst
        ((checked h (h.sessions.running _ _ hk) hitem hc).imp And.left And.left)
        fun k' c hc => ⟨fun he => ?_, hc⟩
      rw [he, hu] at hc
      cases hc
  | @checkUpdate k t i rel otid tuple hk hu hr =>
    obtain ⟨tbl, tbl', htbl, hg, rfl⟩ := runs_onCatalog.mp hr
    obtain ⟨item, hi, hg⟩ := bind_ok hg
    obtain ⟨hcheck, rfl⟩ := Prod.mk.inj (Except.ok.inj hg)
    have hget := readItem_ok hi
    rw [Function.update_eq_self_iff.mpr htbl.symm]
    refine h.sameInst (.of_inst rfl) rfl (h.updating_update fun c hc => ?_)
    obtain rfl := Option.some.inj hc
    exact ⟨t, hk, tbl, item, htbl, hget, (checked h (h.sessions.running _ _ hk)
      (h.item rel tbl otid item htbl hget) hcheck).imp id And.left⟩
  | @writeUpdate k t i c tid hk hu hw hr =>
    have ha := appended_of_runs hr
    refine h.append (.of_inst ha.db) (h.sessions.running _ _ hk) ha fun k' c' hc => ?_
    obtain ⟨τ, hτ, hok⟩ := h.updating_update (k := k) (o := some { c with written := true })
      (fun c₀ hc₀ => by
        obtain rfl := Option.some.inj hc₀
        exact h.updating k c hu) k' c' hc
    exact ⟨τ, hτ, ha.updatingOk hok⟩
  | @stampUpdate k t i c hk hu hw hr =>
    obtain ⟨item, hst⟩ := stampedAt_of_runs hr
    obtain ⟨τ, hτ, t₀, item₀, ht₀, hg₀, hok⟩ := h.updating k c hu
    obtain rfl := Option.some.inj (hk.symm.trans hτ)
    obtain ⟨t₁, ht₁, hg₁⟩ := hst.old
    obtain rfl := Option.some.inj (ht₀.symm.trans ht₁)
    obtain rfl := Option.some.inj (hg₀.symm.trans hg₁)
    refine h.stamp (.of_inst hst.db) rfl hk hst (hok.imp_left And.left) fun k' c' hc => ?_
    have hc : Function.update σ.updating k none k' = some c' := hc
    by_cases hk' : k' = k
    · rw [hk', Function.update_self] at hc
      cases hc
    · rw [Function.update_of_ne hk'] at hc
      exact ⟨hk', hc⟩
  | failUpdate k =>
    exact h.sameInst (.of_inst rfl) rfl (h.updating_update fun c hc => by cases hc)
  | commit hk hu => exact h.endXact (ends_commit hk)
  | abort hk => exact h.endXact (ends_abort h hk)
  | finish hk hu => exact h.endXact (ends_finish hk)

end

/-- **The invariant holds in every state a run comes to.** -/
theorem CatalogRun.inv {base : Nat} {σ : CatalogSystem} (h : CatalogRun base σ) :
    SystemInv base σ := by
  induction h with
  | empty status hbase h64 hpast =>
    refine ⟨⟨Nat.le_refl _, by show base < base + 2 ^ 31; omega, hbase, hbase, h64,
        fun y _ => hpast y⟩, ⟨nofun, nofun, fun t ht => absurd ht.2 (hpast t), ⟨0, fun _ _ => rfl⟩⟩,
      nofun, nofun⟩
  | step _ hs ih => exact ih.step hs

/-! ## Taking a snapshot -/

section

variable {base k : Nat} {σ : CatalogSystem}

/-- The snapshot that counts every transaction of the run that runs now as running. -/
def takeSnapshot (base : Nat) (x : XactState) (curcid : Nat) : FullSnapshot where
  xmin := base
  xmax := x.nextFxid
  xip := (List.range x.nextFxid).filter fun y => decide (base ≤ y) && decide (x.status y = .inProgress)
  curcid := curcid

theorem running_takeSnapshot (h : XidInv base σ.xacts) (cid : Nat) {y : Nat}
    (hy : y < σ.xacts.nextFxid) :
    (takeSnapshot base σ.xacts cid).Running y ↔ σ.xacts.status y = .inProgress := by
  unfold FullSnapshot.Running takeSnapshot
  simp only [List.mem_filter, List.mem_range, Bool.and_eq_true, decide_eq_true_eq]
  constructor
  · rintro ⟨-, hle | ⟨-, -, hst⟩⟩
    · omega
    · exact hst
  · intro hst
    have hle : base ≤ y := by
      by_contra hlt
      exact h.past y (Nat.not_le.mp hlt) hst
    exact ⟨hle, Or.inr ⟨hy, hle, hst⟩⟩

/-- **A session can always take a snapshot.** -/
theorem exists_taken (h : SystemInv base σ) (k : Nat) :
    Taken σ.xacts (σ.own k) (takeSnapshot base σ.xacts (σ.cid k)) where
  consistent := {
    next_lt := by
      have h₁ := h.xids.room
      have h₂ := h.xids.lt
      omega
    xmin_normal := h.xids.base_normal
    xmax_normal := h.xids.normal
    xmin_le := h.xids.base_le
    xmax_le := Nat.le_refl _
    window := h.xids.room
    xip_mem := fun y hy => by
      unfold takeSnapshot at hy ⊢
      simp only [List.mem_filter, List.mem_range, Bool.and_eq_true, decide_eq_true_eq] at hy
      exact ⟨hy.2.1, hy.1⟩
    own_mem := fun y hy => by
      have ho := h.own_open hy
      exact ⟨ho.1.1, ho.1.2.1, ho.2⟩
    finished := fun y hy hr _ hst => hr ((running_takeSnapshot h.xids _ hy.1).mpr hst) }
  running y hy _ := running_takeSnapshot h.xids _ hy.1

/-- There is a session that has written nothing. -/
theorem exists_idle (h : SystemInv base σ) : ∃ k, σ.session k = none := by
  obtain ⟨n, hn⟩ := h.sessions.idle
  exact ⟨n, hn n (Nat.le_refl _)⟩

end

end NeoPostGraph
