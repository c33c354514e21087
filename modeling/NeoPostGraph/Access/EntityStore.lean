import NeoPostGraph.Access.CatalogRun

/-!
# Sessions on an entity table

`np_entity_store.c`, the access method behind the tables of vertices and edges, and the writers of
`dml_insert.c`, `dml_update.c` and `dml_delete.c` as far as they touch such a table. Any number of
sessions take their buffer-locked sections in any order.

`np_entity_store_tuple_update` stamps the old tuple first and keeps its page locked while the new
version is appended; `update_vertex` and `update_edge` check the old tuple, append, and stamp it in
three sections. A page that is locked is not looked at or written by anyone, the session that locked
it included: an update of a tuple on the last page waits for itself.

* `npEntityStoreScanTurn`, `npEntityStoreStampOld`: the scan and the update of the access method.
* `EntitySystem`, `EntityStep`: a table, the sessions, and one step.
* `EntityHistory base σ`: a state that some run from the empty table comes to.
* `TableEffect σ σ'`: what a step does to the tuples.

Results:
* `EntityStoreInv.step`, `EntityHistory.inv`: what holds of tuples and sessions in every such state.
* `EntityStep.tableEffect`: a step appends one tuple, stamps one, or leaves the table alone.
-/

namespace NeoPostGraph

open SlottedPage

variable {μ : Type}

/-! ## The access method -/

/-- What a scan puts in its slot: `tts_tid` and the values of the three columns. -/
structure EntitySlot (μ : Type) where
  tid : ItemPointer
  id : Nat
  entity : μ
  props : Gtype
deriving DecidableEq, Repr

/-- The slot of a tuple. -/
def EntityTuple.slot (tuple : EntityTuple μ) (tid : ItemPointer) : EntitySlot μ :=
  ⟨tid, tuple.hdr.id, tuple.entity, tuple.props⟩

/-- `np_entity_store_scan_begin` and `np_entity_store_scan_rescan` (`np_entity_store.c:94-138`). -/
def npEntityStoreScanBegin (t : Table (EntityTuple μ)) : PageScan := .start t.nblocks

/-- The test of the scan. The snapshot of the scan is not asked. -/
def entityScanTest (x : XactState) (own : List Nat) (lp : Nat × EntityTuple μ) : Bool :=
  npEntityTupleIsLive x own lp.2.hdr.toRecordHeader

/-- One turn of the loop of `np_entity_store_scan_getnextslot` (`np_entity_store.c:140-203`): a look
at one page, under its lock. -/
def npEntityStoreScanTurn (x : XactState) (own : List Nat) (t : Table (EntityTuple μ))
    (scan : PageScan) : Visit × PageScan :=
  scan.visit t (entityScanTest x own)

/-- The first section of `np_entity_store_tuple_update` (`np_entity_store.c:378-446`): the old tuple
is checked and stamped. -/
def npEntityStoreStampOld (x : XactState) (s : Session) (t : Table (EntityTuple μ))
    (otid : ItemPointer) : Except Err (TmResult × Table (EntityTuple μ)) :=
  if t.nblocks ≤ otid.block then .error (.couldNotReadBlock otid.block)
  else match t.get otid with
    | none => .ok (.invisible, t)
    | some old =>
      if !npEntityTupleIsLive x s.own old.hdr.toRecordHeader then .ok (.invisible, t)
      else if npEntityTupleXmaxOther x s.own old.hdr.toRecordHeader then .ok (.updated, t)
      else .ok (.ok, t.modify otid (stampTuple s))

/-! ## Sessions -/

/-- How far an update has come. -/
inductive UpdateStage where
  /-- `update_vertex`, `update_edge`: the old tuple has been checked. -/
  | checked
  /-- `update_vertex`, `update_edge`: the new version has been appended. -/
  | written
  /-- `np_entity_store_tuple_update`: the old tuple has been stamped, and its page is locked. -/
  | stamped
deriving DecidableEq, Repr

/-- An update in progress, with the values of the new version. -/
structure EntityUpdate (μ : Type) where
  otid : ItemPointer
  id : Nat
  entity : μ
  metaSize : Nat
  props : Gtype
  stage : UpdateStage

/-- The new version. -/
def EntityUpdate.newTuple (c : EntityUpdate μ) (s : Session) : EntityTuple μ :=
  newEntityTuple s c.id c.otid c.entity c.props

/-- An entity table and the sessions on it. -/
structure EntitySystem (μ : Type) where
  xacts : XactState
  table : Table (EntityTuple μ)
  /-- The transaction id of a session, once it has one. -/
  session : Nat → Option Nat
  /-- The current command of a session. -/
  cid : Nat → Nat
  updating : Nat → Option (EntityUpdate μ)

namespace EntitySystem

/-- The transaction ids of a session. -/
def own (σ : EntitySystem μ) (k : Nat) : List Nat := (σ.session k).toList

/-- Some update keeps the page locked. -/
def Locked (σ : EntitySystem μ) (block : Nat) : Prop :=
  ∃ k c, σ.updating k = some c ∧ c.stage = .stamped ∧ c.otid.block = block

/-- The page `np_write_record_to_page` locks first, the last one, is not locked. -/
def LastFree (σ : EntitySystem μ) : Prop := ¬ σ.Locked (σ.table.nblocks - 1)

/-- No session, and no tuple. -/
def empty (base : Nat) (status : Nat → XidStatus) : EntitySystem μ :=
  ⟨⟨base, status⟩, Table.empty, fun _ => none, fun _ => 0, fun _ => none⟩

/-- The transaction of a session is over. -/
def endXact (σ : EntitySystem μ) (k : Nat) (x : XactState) : EntitySystem μ where
  xacts := x
  table := σ.table
  session := Function.update σ.session k none
  cid := Function.update σ.cid k 0
  updating := Function.update σ.updating k none

end EntitySystem

/-- One step of one session. -/
inductive EntityStep (base : Nat) : EntitySystem μ → EntitySystem μ → Prop
  | begin {σ : EntitySystem μ} (k : Nat) (h : σ.session k = none)
      (hroom : σ.xacts.begin.nextFxid < base + 2 ^ 31) :
      EntityStep base σ { σ with
        xacts := σ.xacts.begin
        session := Function.update σ.session k (some σ.xacts.nextFxid) }
  | command {σ : EntitySystem μ} (k : Nat) (h : σ.updating k = none) :
      EntityStep base σ { σ with cid := Function.update σ.cid k (σ.cid k + 1) }
  | insert {σ : EntitySystem μ} {k t : Nat} {tbl : Table (EntityTuple μ)} {tid : ItemPointer}
      (id : Nat) (entity : μ) (metaSize : Nat) (props : Gtype) (hk : σ.session k = some t)
      (hu : σ.updating k = none) (hfree : σ.LastFree)
      (h : npWriteRecordToPage σ.table (newEntityTuple ⟨t, σ.cid k⟩ id .invalid entity props)
        (totalTupleSize metaSize props) = .ok (tbl, tid)) :
      EntityStep base σ { σ with table := tbl }
  /-- `np_internal_delete_edge` and `delete_vertex` check a tuple and stamp it in one section. -/
  | delete {σ : EntitySystem μ} {k t : Nat} {tid : ItemPointer} {tuple : EntityTuple μ}
      {corrupted updated : Err} (hk : σ.session k = some t) (hu : σ.updating k = none)
      (hfree : ¬ σ.Locked tid.block)
      (h : checkTuple σ.xacts (Session.own ⟨t, σ.cid k⟩) σ.table tid corrupted updated = .ok tuple) :
      EntityStep base σ { σ with table := σ.table.modify tid (stampTuple ⟨t, σ.cid k⟩) }
  | checkUpdate {σ : EntitySystem μ} {k t : Nat} {tuple : EntityTuple μ} {corrupted updated : Err}
      (c : EntityUpdate μ) (hk : σ.session k = some t) (hu : σ.updating k = none)
      (hfree : ¬ σ.Locked c.otid.block)
      (h : checkTuple σ.xacts (Session.own ⟨t, σ.cid k⟩) σ.table c.otid corrupted updated = .ok tuple) :
      EntityStep base σ { σ with
        updating := Function.update σ.updating k (some { c with stage := .checked }) }
  | writeUpdate {σ : EntitySystem μ} {k t : Nat} {c : EntityUpdate μ} {tbl : Table (EntityTuple μ)}
      {tid : ItemPointer} (hk : σ.session k = some t) (hu : σ.updating k = some c)
      (hc : c.stage = .checked) (hfree : σ.LastFree)
      (h : npWriteRecordToPage σ.table (c.newTuple ⟨t, σ.cid k⟩)
        (totalTupleSize c.metaSize c.props) = .ok (tbl, tid)) :
      EntityStep base σ { σ with
        table := tbl
        updating := Function.update σ.updating k (some { c with stage := .written }) }
  | stampUpdate {σ : EntitySystem μ} {k t : Nat} {c : EntityUpdate μ} (hk : σ.session k = some t)
      (hu : σ.updating k = some c) (hc : c.stage = .written) (hfree : ¬ σ.Locked c.otid.block) :
      EntityStep base σ { σ with
        table := σ.table.modify c.otid (stampTuple ⟨t, σ.cid k⟩)
        updating := Function.update σ.updating k none }
  | storeStamp {σ : EntitySystem μ} {k t : Nat} {tbl : Table (EntityTuple μ)} (c : EntityUpdate μ)
      (hk : σ.session k = some t) (hu : σ.updating k = none) (hfree : ¬ σ.Locked c.otid.block)
      (h : npEntityStoreStampOld σ.xacts ⟨t, σ.cid k⟩ σ.table c.otid = .ok (.ok, tbl)) :
      EntityStep base σ { σ with
        table := tbl
        updating := Function.update σ.updating k (some { c with stage := .stamped }) }
  | storeWrite {σ : EntitySystem μ} {k t : Nat} {c : EntityUpdate μ} {tbl : Table (EntityTuple μ)}
      {tid : ItemPointer} (hk : σ.session k = some t) (hu : σ.updating k = some c)
      (hc : c.stage = .stamped) (hfree : σ.LastFree)
      (h : npWriteRecordToPage σ.table (c.newTuple ⟨t, σ.cid k⟩)
        (totalTupleSize c.metaSize c.props) = .ok (tbl, tid)) :
      EntityStep base σ { σ with
        table := tbl
        updating := Function.update σ.updating k none }
  /-- An update fails, and its transaction goes on from a savepoint. -/
  | failUpdate {σ : EntitySystem μ} (k : Nat) :
      EntityStep base σ { σ with updating := Function.update σ.updating k none }
  | commit {σ : EntitySystem μ} {k t : Nat} (hk : σ.session k = some t)
      (hu : σ.updating k = none) : EntityStep base σ (σ.endXact k (σ.xacts.commit t))
  | abort {σ : EntitySystem μ} {k t : Nat} (hk : σ.session k = some t) :
      EntityStep base σ (σ.endXact k (σ.xacts.abort t))
  /-- A transaction that has written nothing ends. -/
  | finish {σ : EntitySystem μ} {k : Nat} (hk : σ.session k = none) (hu : σ.updating k = none) :
      EntityStep base σ (σ.endXact k σ.xacts)

/-- The states runs come to. Ids are assigned from `base` on, fewer than 2^31 of them: the table is
never vacuumed, so its `relfrozenxid` stands still, and no id is assigned that far past it. The
transactions before have ended. -/
inductive EntityHistory (base : Nat) : EntitySystem μ → Prop
  | empty (status : Nat → XidStatus) (hbase : firstNormalTransactionId ≤ xidFromFull base)
      (h64 : base + 2 ^ 32 ≤ 2 ^ 64) (hpast : ∀ y, status y ≠ .inProgress) :
      EntityHistory base (.empty base status)
  | step {σ σ' : EntitySystem μ} (h : EntityHistory base σ) (hs : EntityStep base σ σ') :
      EntityHistory base σ'

/-! ## The invariant -/

/-- A session may stamp the tuple: it is its own, or its creator has committed. -/
def MayStamp (x : XactState) (t : Nat) (tuple : EntityTuple μ) : Prop :=
  tuple.hdr.xmin = t ∨ x.status tuple.hdr.xmin = .committed

/-- The invariant of a run. -/
structure EntityStoreInv (base : Nat) (σ : EntitySystem μ) : Prop where
  xids : XidInv base σ.xacts
  running : ∀ k t, σ.session k = some t → σ.xacts.Open base t
  one : ∀ k k' t, σ.session k = some t → σ.session k' = some t → k = k'
  header : ∀ tid tuple, σ.table.get tid = some tuple → HeaderInv base σ.xacts tuple.hdr.toRecordHeader
  updating : ∀ k c, σ.updating k = some c → ∃ t tuple, σ.session k = some t ∧
    σ.table.get c.otid = some tuple ∧ MayStamp σ.xacts t tuple

/-- What a step does to the tuples. -/
inductive TableEffect (σ σ' : EntitySystem μ) : Prop
  | same (h : σ'.table = σ.table)
  /-- A session appends a tuple. -/
  | append {k t : Nat} {tuple : EntityTuple μ} {len : Nat} {tid : ItemPointer}
      (hk : σ.session k = some t) (hx : σ'.xacts = σ.xacts) (hxmin : tuple.hdr.xmin = t)
      (hcmin : tuple.hdr.cmin = σ.cid k) (hxmax : tuple.hdr.xmax = invalidFullTransactionId)
      (h : σ.table.write len tuple = some (σ'.table, tid))
  /-- A session stamps a tuple. -/
  | stamp {k t : Nat} {tuple : EntityTuple μ} {tid : ItemPointer} (hk : σ.session k = some t)
      (hx : σ'.xacts = σ.xacts) (hold : σ.table.get tid = some tuple)
      (hmay : MayStamp σ.xacts t tuple)
      (h : σ'.table = σ.table.modify tid (stampTuple ⟨t, σ.cid k⟩))

/-- What a step does to the transactions. -/
inductive XactEffect (base : Nat) (σ σ' : EntitySystem μ) : Prop
  | same (hx : σ'.xacts = σ.xacts) (hs : σ'.session = σ.session)
  | begin (k : Nat) (hk : σ.session k = none) (hroom : σ.xacts.begin.nextFxid < base + 2 ^ 31)
      (hx : σ'.xacts = σ.xacts.begin)
      (hs : σ'.session = Function.update σ.session k (some σ.xacts.nextFxid))
  | ends (k : Nat) (hs : σ'.session = Function.update σ.session k none)
      (hnext : σ'.xacts.nextFxid = σ.xacts.nextFxid)
      (hended : ∀ t, σ.session k = some t → σ'.xacts.status t ≠ .inProgress)
      (hothers : ∀ t, σ.session k ≠ some t → σ'.xacts.status t = σ.xacts.status t)

section

variable {base k t : Nat} {σ σ' : EntitySystem μ} {tuple : EntityTuple μ} {tid : ItemPointer}
  {hdr : RecordHeader}

theorem EntityStoreInv.room (h : EntityStoreInv base σ) : σ.xacts.nextFxid ≤ base + 2 ^ 32 := by
  have := h.xids.room
  omega

theorem EntityStoreInv.own_open (h : EntityStoreInv base σ) {o : Nat} (ho : o ∈ σ.own k) :
    σ.xacts.Open base o := by
  unfold EntitySystem.own at ho
  exact h.running k o (Option.mem_toList.mp ho)

/-- **What a session finds live it may stamp.** -/
theorem mayStamp_of_live (h : EntityStoreInv base σ) (ht : σ.xacts.Open base t)
    (hh : HeaderInv base σ.xacts tuple.hdr.toRecordHeader)
    (hlive : npEntityTupleIsLive σ.xacts [t] tuple.hdr.toRecordHeader = true) :
    MayStamp σ.xacts t tuple := by
  have hown : ∀ o ∈ [t], σ.xacts.Begun base o := fun o ho => by
    rw [List.mem_singleton.mp ho]
    exact ht.1
  rw [npEntityTupleIsLive_full h.room hown hh.xmin fun hv =>
    hh.xmax _ (deleter_eq_some.mpr ⟨hv, rfl⟩)] at hlive
  by_cases hm : tuple.hdr.xmin ∈ [t]
  · exact Or.inl (List.mem_singleton.mp hm)
  · rw [if_neg hm] at hlive
    exact Or.inr hlive.1

theorem mayStamp_of_check (h : EntityStoreInv base σ) (hk : σ.session k = some t) {cid : Nat}
    {corrupted updated : Err}
    (hc : checkTuple σ.xacts (Session.own ⟨t, cid⟩) σ.table tid corrupted updated = .ok tuple) :
    σ.table.get tid = some tuple ∧ MayStamp σ.xacts t tuple := by
  obtain ⟨old, hread, hc⟩ := bind_ok hc
  have hg := readItem_ok hread
  split at hc
  · cases hc
  · next hlive =>
    obtain rfl := Except.ok.inj hc
    rw [Bool.or_eq_true, not_or, Bool.not_eq_true', Bool.not_eq_false] at hlive
    exact ⟨hg, mayStamp_of_live h (h.running k t hk) (h.header tid old hg) hlive.1⟩

/-- The first section of an update stamps a tuple its session may stamp. -/
theorem stampOld_ok (h : EntityStoreInv base σ) (hk : σ.session k = some t) {cid : Nat}
    {tbl : Table (EntityTuple μ)}
    (hs : npEntityStoreStampOld σ.xacts ⟨t, cid⟩ σ.table tid = .ok (.ok, tbl)) :
    ∃ old, σ.table.get tid = some old ∧ MayStamp σ.xacts t old ∧
      tbl = σ.table.modify tid (stampTuple ⟨t, cid⟩) := by
  unfold npEntityStoreStampOld at hs
  split at hs
  · cases hs
  cases hg : σ.table.get tid with
  | none =>
    rw [hg] at hs
    cases (Prod.mk.inj (Except.ok.inj hs)).1
  | some old =>
    rw [hg] at hs
    dsimp only at hs
    split at hs
    · cases (Prod.mk.inj (Except.ok.inj hs)).1
    · next hlive =>
      split at hs
      · cases (Prod.mk.inj (Except.ok.inj hs)).1
      · rw [Bool.not_eq_true', Bool.not_eq_false] at hlive
        exact ⟨old, rfl, mayStamp_of_live h (h.running k t hk) (h.header tid old hg) hlive,
          (Prod.mk.inj (Except.ok.inj hs)).2.symm⟩

/-! ## Steps -/

theorem header_stampTuple (hh : HeaderInv base σ.xacts tuple.hdr.toRecordHeader)
    (ht : σ.xacts.Begun base t) (hmay : MayStamp σ.xacts t tuple) {cid : Nat} :
    HeaderInv base σ.xacts (stampTuple ⟨t, cid⟩ tuple).hdr.toRecordHeader := by
  have hdel : (stampTuple ⟨t, cid⟩ tuple).hdr.deleter = some t :=
    deleter_eq_some.mpr ⟨ht.valid, rfl⟩
  refine ⟨hh.xmin, fun d hd => ?_, fun d hd => ?_⟩
  · obtain rfl := Option.some.inj (hdel.symm.trans hd)
    exact ht
  · obtain rfl := Option.some.inj (hdel.symm.trans hd)
    exact hmay.imp_left Eq.symm

/-- **A step appends one tuple, stamps one, or leaves the table alone.** -/
theorem EntityStep.tableEffect (h : EntityStoreInv base σ) (hs : EntityStep base σ σ') :
    TableEffect σ σ' := by
  cases hs with
  | begin k hk hroom => exact .same rfl
  | command k hu => exact .same rfl
  | insert id entity metaSize props hk hu hfree hw =>
    exact .append hk rfl rfl rfl rfl (npWriteRecordToPage_ok hw)
  | delete hk hu hfree hc =>
    obtain ⟨hg, hmay⟩ := mayStamp_of_check h hk hc
    exact .stamp hk rfl hg hmay rfl
  | checkUpdate c hk hu hfree hc => exact .same rfl
  | writeUpdate hk hu hc hfree hw => exact .append hk rfl rfl rfl rfl (npWriteRecordToPage_ok hw)
  | stampUpdate hk hu hc hfree =>
    obtain ⟨τ, tuple, hτ, hg, hmay⟩ := h.updating _ _ hu
    obtain rfl := Option.some.inj (hk.symm.trans hτ)
    exact .stamp hk rfl hg hmay rfl
  | storeStamp c hk hu hfree hc =>
    obtain ⟨old, hg, hmay, rfl⟩ := stampOld_ok h hk hc
    exact .stamp hk rfl hg hmay rfl
  | storeWrite hk hu hc hfree hw => exact .append hk rfl rfl rfl rfl (npWriteRecordToPage_ok hw)
  | failUpdate k => exact .same rfl
  | commit hk hu => exact .same rfl
  | abort hk => exact .same rfl
  | finish hk hu => exact .same rfl

/-- The tuple at a tid after a step that writes: the one there was, perhaps stamped, or a new one. -/
theorem TableEffect.get_cases (he : TableEffect σ σ') {tuple' : EntityTuple μ}
    (hg : σ'.table.get tid = some tuple') :
    σ.table.get tid = some tuple' ∨
    (∃ k t, σ.session k = some t ∧ σ'.xacts = σ.xacts ∧ σ.table.get tid = none ∧
      tuple'.hdr.xmin = t ∧ tuple'.hdr.cmin = σ.cid k ∧
      tuple'.hdr.xmax = invalidFullTransactionId) ∨
    ∃ k t tuple, σ.session k = some t ∧ σ'.xacts = σ.xacts ∧ σ.table.get tid = some tuple ∧
      MayStamp σ.xacts t tuple ∧ tuple' = stampTuple ⟨t, σ.cid k⟩ tuple := by
  cases he with
  | same h =>
    rw [h] at hg
    exact Or.inl hg
  | append hk hx hxmin hcmin hxmax h =>
    rw [Table.get_write h] at hg
    split at hg
    · next he =>
      obtain rfl := Option.some.inj hg
      rw [he]
      exact Or.inr (Or.inl ⟨_, _, hk, hx, Table.write_fresh h, hxmin, hcmin, hxmax⟩)
    · exact Or.inl hg
  | stamp hk hx hold hmay h =>
    rw [h, Table.get_modify] at hg
    split at hg
    · next he =>
      rw [he, hold] at hg
      rw [he]
      exact Or.inr (Or.inr ⟨_, _, _, hk, hx, hold, hmay, (Option.some.inj hg).symm⟩)
    · exact Or.inl hg

/-- A tuple stays where it is, with its creator. -/
theorem TableEffect.keeps (he : TableEffect σ σ') (hg : σ.table.get tid = some tuple) :
    ∃ tuple', σ'.table.get tid = some tuple' ∧ tuple'.hdr.xmin = tuple.hdr.xmin ∧
      tuple'.hdr.cmin = tuple.hdr.cmin ∧ tuple'.slot tid = tuple.slot tid := by
  cases he with
  | same h => exact ⟨tuple, by rw [h]; exact hg, rfl, rfl, rfl⟩
  | append hk hx hxmin hcmin hxmax h =>
    refine ⟨tuple, ?_, rfl, rfl, rfl⟩
    rw [Table.get_write h, if_neg fun heq => ?_]
    · exact hg
    · cases (Table.write_fresh h).symm.trans (heq ▸ hg)
  | stamp hk hx hold hmay h =>
    rw [h, Table.get_modify]
    split
    · rw [hg]
      exact ⟨_, rfl, rfl, rfl, rfl⟩
    · exact ⟨tuple, hg, rfl, rfl, rfl⟩

theorem EntityStep.xactEffect (hs : EntityStep base σ σ') : XactEffect base σ σ' := by
  have hone : ∀ {k t} (st : XidStatus), σ.session k = some t → st ≠ .inProgress →
      (∀ t', σ.session k = some t' → Function.update σ.xacts.status t st t' ≠ .inProgress) ∧
      ∀ t', σ.session k ≠ some t' → Function.update σ.xacts.status t st t' = σ.xacts.status t' := by
    intro k t st hk hst
    refine ⟨fun t' ht' => ?_, fun t' ht' => ?_⟩
    · obtain rfl := Option.some.inj (hk.symm.trans ht')
      rw [Function.update_self]
      exact hst
    · have hne : t' ≠ t := fun he => ht' (by rw [he]; exact hk)
      exact Function.update_of_ne hne ..
  cases hs with
  | begin k hk hroom => exact .begin k hk hroom rfl rfl
  | commit hk hu =>
    obtain ⟨hended, hothers⟩ := hone .committed hk nofun
    exact .ends _ rfl rfl hended hothers
  | abort hk =>
    obtain ⟨hended, hothers⟩ := hone .aborted hk nofun
    exact .ends _ rfl rfl hended hothers
  | finish hk hu =>
    refine .ends _ rfl rfl (fun t ht => ?_) fun t ht => rfl
    cases hk.symm.trans ht
  | _ => exact .same rfl rfl

/-- What has begun or committed stays so. -/
theorem XactEffect.later (h : EntityStoreInv base σ) (he : XactEffect base σ σ') :
    XactState.Later base σ.xacts σ'.xacts := by
  cases he with
  | same hx hs =>
    rw [hx]
    exact ⟨Nat.le_refl _, fun t ht => ht.2⟩
  | begin k hk hroom hx hs =>
    rw [hx]
    exact XactState.later_begin base _
  | ends k hs hnext hended hothers =>
    refine ⟨Nat.le_of_eq hnext.symm, fun t ht => ?_⟩
    have hne : σ.session k ≠ some t := fun hk => by
      cases (h.running k t hk).2.symm.trans ht.2
    rw [hothers t hne]
    exact ht.2

/-- The sessions and their transactions after a step. -/
theorem XactEffect.inv (h : EntityStoreInv base σ) (he : XactEffect base σ σ') :
    XidInv base σ'.xacts ∧ (∀ k t, σ'.session k = some t → σ'.xacts.Open base t) ∧
      ∀ k k' t, σ'.session k = some t → σ'.session k' = some t → k = k' := by
  have hlater := he.later h
  cases he with
  | same hx hs =>
    rw [hx, hs]
    exact ⟨h.xids, h.running, h.one⟩
  | begin k hk hroom hx hs =>
    -- the new id is nobody else's
    have hold : ∀ k' t, σ'.session k' = some t → k' = k ∧ t = σ.xacts.nextFxid ∨
        k' ≠ k ∧ σ.session k' = some t ∧ t ≠ σ.xacts.nextFxid := by
      intro k' t ht
      rw [hs, Function.update_apply] at ht
      split at ht
      · next hk' => exact Or.inl ⟨hk', (Option.some.inj ht).symm⟩
      · next hk' =>
        have hlt := (h.running k' t ht).1.2.1
        exact Or.inr ⟨hk', ht, Nat.ne_of_lt hlt⟩
    refine ⟨by rw [hx]; exact h.xids.begin hroom, fun k' t ht => ?_, fun k' k'' t h₁ h₂ => ?_⟩
    · rcases hold k' t ht with ⟨-, rfl⟩ | ⟨-, hk', hne⟩
      · rw [hx]
        exact XactState.open_begin h.xids.base_le h.xids.normal
      · have ho := h.running k' t hk'
        refine ⟨ho.1.later hlater, ?_⟩
        rw [hx]
        exact (Function.update_of_ne hne ..).trans ho.2
    · rcases hold k' t h₁ with ⟨hk₁, he₁⟩ | ⟨-, hk₁, hne₁⟩ <;>
        rcases hold k'' t h₂ with ⟨hk₂, he₂⟩ | ⟨-, hk₂, hne₂⟩
      · rw [hk₁, hk₂]
      · exact absurd he₁ hne₂
      · exact absurd he₂ hne₁
      · exact h.one k' k'' t hk₁ hk₂
  | ends k hs hnext hended hothers =>
    have hold : ∀ k' t, σ'.session k' = some t → k' ≠ k ∧ σ.session k' = some t := by
      intro k' t ht
      rw [hs, Function.update_apply] at ht
      split at ht
      · cases ht
      · next hk' => exact ⟨hk', ht⟩
    refine ⟨⟨?_, ?_, ?_, h.xids.base_normal, h.xids.lt, fun y hy => ?_⟩, fun k' t ht => ?_,
      fun k' k'' t h₁ h₂ => h.one k' k'' t (hold k' t h₁).2 (hold k'' t h₂).2⟩
    · rw [hnext]
      exact h.xids.base_le
    · rw [hnext]
      exact h.xids.room
    · rw [hnext]
      exact h.xids.normal
    · by_cases hk : σ.session k = some y
      · exact hended y hk
      · rw [hothers y hk]
        exact h.xids.past y hy
    · obtain ⟨hk', ht⟩ := hold k' t ht
      have ho := h.running k' t ht
      refine ⟨ho.1.later hlater, ?_⟩
      rw [hothers t fun hk => hk' (h.one k' k t ht hk)]
      exact ho.2

theorem of_update {v : Option (EntityUpdate μ)} {f : Nat → Option (EntityUpdate μ)} {k' : Nat}
    {c : EntityUpdate μ} (h : Function.update f k v k' = some c) :
    k' = k ∧ v = some c ∨ k' ≠ k ∧ f k' = some c := by
  rw [Function.update_apply] at h
  split at h
  · next hk => exact Or.inl ⟨hk, h⟩
  · next hk => exact Or.inr ⟨hk, h⟩

/-- An update in progress after a step: it was so before, or its tuple has just been checked. -/
theorem EntityStep.updating_cases (h : EntityStoreInv base σ) (hs : EntityStep base σ σ')
    {k : Nat} {c : EntityUpdate μ} (hc : σ'.updating k = some c) : ∃ t tuple,
      σ.session k = some t ∧ σ'.session k = some t ∧ σ.table.get c.otid = some tuple ∧
        MayStamp σ.xacts t tuple := by
  have hold : ∀ {c}, σ.updating k = some c → σ'.session k = σ.session k → ∃ t tuple,
      σ.session k = some t ∧ σ'.session k = some t ∧ σ.table.get c.otid = some tuple ∧
        MayStamp σ.xacts t tuple := by
    intro c hc hsame
    obtain ⟨t, tuple, hk, hg, hmay⟩ := h.updating k c hc
    exact ⟨t, tuple, hk, hsame.trans hk, hg, hmay⟩
  have hends : ∀ {k'} {x : XactState}, (σ.endXact k' x).updating k = some c →
      k ≠ k' ∧ σ.updating k = some c := by
    intro k' x hc
    rcases of_update hc with ⟨-, hc⟩ | hc
    · cases hc
    · exact hc
  cases hs with
  | begin k' hk' hroom =>
    obtain ⟨t, tuple, hk, hg, hmay⟩ := h.updating k c hc
    have hne : k ≠ k' := fun he => by
      rw [he, hk'] at hk
      cases hk
    exact ⟨t, tuple, hk, (Function.update_of_ne hne ..).trans hk, hg, hmay⟩
  | command k' hu => exact hold hc rfl
  | insert id entity metaSize props hk hu hfree hw => exact hold hc rfl
  | delete hk hu hfree hcheck => exact hold hc rfl
  | checkUpdate c' hk hu hfree hcheck =>
    rcases of_update hc with ⟨rfl, he⟩ | ⟨-, hc⟩
    · obtain rfl := Option.some.inj he
      obtain ⟨hg, hmay⟩ := mayStamp_of_check h hk hcheck
      exact ⟨_, _, hk, hk, hg, hmay⟩
    · exact hold hc rfl
  | @writeUpdate k' t c' tbl tid hk hu hst hfree hw =>
    rcases of_update hc with ⟨rfl, he⟩ | ⟨-, hc⟩
    · obtain rfl := Option.some.inj he
      obtain ⟨t, tuple, hτ, hg, hmay⟩ := h.updating k c' hu
      exact ⟨t, tuple, hτ, hτ, hg, hmay⟩
    · exact hold hc rfl
  | stampUpdate hk hu hst hfree =>
    rcases of_update hc with ⟨-, he⟩ | ⟨-, hc⟩
    · cases he
    · exact hold hc rfl
  | storeStamp c' hk hu hfree hstamp =>
    rcases of_update hc with ⟨rfl, he⟩ | ⟨-, hc⟩
    · obtain rfl := Option.some.inj he
      obtain ⟨old, hg, hmay, -⟩ := stampOld_ok h hk hstamp
      exact ⟨_, _, hk, hk, hg, hmay⟩
    · exact hold hc rfl
  | storeWrite hk hu hst hfree hw =>
    rcases of_update hc with ⟨-, he⟩ | ⟨-, hc⟩
    · cases he
    · exact hold hc rfl
  | failUpdate k' =>
    rcases of_update hc with ⟨-, he⟩ | ⟨-, hc⟩
    · cases he
    · exact hold hc rfl
  | commit hk hu =>
    obtain ⟨hne, hc⟩ := hends hc
    exact hold hc (Function.update_of_ne hne ..)
  | abort hk =>
    obtain ⟨hne, hc⟩ := hends hc
    exact hold hc (Function.update_of_ne hne ..)
  | finish hk hu =>
    obtain ⟨hne, hc⟩ := hends hc
    exact hold hc (Function.update_of_ne hne ..)

/-- **A step keeps the invariant.** -/
theorem EntityStoreInv.step (h : EntityStoreInv base σ) (hs : EntityStep base σ σ') :
    EntityStoreInv base σ' := by
  have hx := hs.xactEffect
  have ht := hs.tableEffect h
  have hlater := hx.later h
  obtain ⟨hxids, hrunning, hone⟩ := hx.inv h
  refine ⟨hxids, hrunning, hone, fun tid tuple' hg => ?_, fun k c hc => ?_⟩
  · rcases ht.get_cases hg with hg | ⟨k, t, hk, he, -, hxmin, -, hxmax⟩ |
      ⟨k, t, tuple, hk, he, hgold, hmay, rfl⟩
    · exact (h.header tid tuple' hg).later hlater
    · have hnone : tuple'.hdr.deleter = none := by
        unfold RecordHeader.deleter
        rw [hxmax]
        rfl
      refine ⟨?_, fun d hd => ?_, fun d hd => ?_⟩
      · rw [he, hxmin]
        exact (h.running k t hk).1
      · cases hnone.symm.trans hd
      · cases hnone.symm.trans hd
    · rw [he]
      exact header_stampTuple (h.header tid tuple hgold) (h.running k t hk).1 hmay
  · obtain ⟨t, tuple, hk, hk', hg, hmay⟩ := hs.updating_cases h hc
    obtain ⟨tuple', hg', hxmin, -, -⟩ := ht.keeps hg
    refine ⟨t, tuple', hk', hg', ?_⟩
    unfold MayStamp at hmay ⊢
    rw [hxmin]
    exact hmay.imp_right fun hc => hlater.committed _ ⟨(h.header _ tuple hg).xmin, hc⟩

/-- **What holds in every state of a run.** -/
theorem EntityHistory.inv (h : EntityHistory base σ) : EntityStoreInv base σ := by
  induction h with
  | empty status hbase h64 hpast =>
    refine ⟨⟨Nat.le_refl _, ?_, hbase, hbase, h64, fun y _ => hpast y⟩, nofun, nofun,
      fun tid tuple hg => ?_, nofun⟩
    · show base < base + 2 ^ 31
      omega
    · cases (Table.get_empty tid).symm.trans hg
  | step h hs ih => exact ih.step hs

end

end NeoPostGraph
