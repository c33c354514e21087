import NeoPostGraph.Graph.TableUpdate
import NeoPostGraph.Locks.SetVertexLabel

/-!
# Waiting for one's own lock

The updates of the two access methods with their content locks, and which functions come to request a
lock they hold. `np_catalog_tuple_update` releases the page of the old item before it writes the new one
and locks it again to stamp it. `np_entity_store_tuple_update` writes with the page of the old tuple
locked, and the writer locks the last page of the table first.

* `selfDeadlocks_npWriteRecordToPage`: which held locks the writer requests.
* `selfDeadlocks_npEntityStoreTupleUpdate`: the update of the access method waits for itself exactly
  when it finds a tuple to supersede on the last page.
* `npEntityStoreTupleUpdate_eq_none`: there the update without locks of `Graph.TableUpdate` has no result.

Result: `noSelfDeadlock_iff`. The other functions never do, on any pages, whatever other backends do to
the buffers meanwhile.
-/

namespace NeoPostGraph.Locking

open SlottedPage LockProg

/-! ## The updates of the access methods -/

/-- `np_catalog_tuple_update` (`np_catalog_heap.c:426-502`); a buffer is a block of the catalog. -/
def npCatalogTupleUpdate (s : Session) (rel : Oid) (otid : ItemPointer) (tuple : List Nat) :
    LockProg Nat Instance Err TmResult := do
  match ← underLock otid.block (checkCatalogItem s rel otid) with
  | .ok => do
    let _ ← npWriteRecordToPage id (fun i => (i.catalogs rel).elim 0 Table.nblocks)
      (fun i => (i.catalogs rel).any fun t => lastPageFull t (npCatalogPackSize tuple))
      (writeCatalogItem rel (npCatalogPackItem s otid tuple))
    underLock otid.block (stampCatalogItem s rel otid)
    return .ok
  | r => return r

section EntityStore

variable {μ : Type} (x : XactState) (s : Session) (otid : ItemPointer) (slot : EntitySlot μ)
  (metaSize : Nat)

/-- `ReadBuffer` on a block of the table. -/
def requireBlock (block : Nat) : Prog (Table (EntityTuple μ)) Err Unit :=
  Prog.read fun t => if t.nblocks ≤ block then .error (.couldNotReadBlock block) else .ok ()

/-- The first section of `np_entity_store_tuple_update`. -/
def stampOld : Prog (Table (EntityTuple μ)) Err TmResult :=
  Prog.step fun t => npEntityStoreStampOld x s t otid

/-- The new version, appended. -/
def appendTuple (tuple : EntityTuple μ) : Prog (Table (EntityTuple μ)) Err ItemPointer :=
  Prog.step fun t => (NeoPostGraph.npWriteRecordToPage t tuple
    (totalTupleSize metaSize tuple.props)).map Prod.swap

/-- `np_entity_store_tuple_update` (`np_entity_store.c:378-458`); a buffer is a block of the table. -/
def npEntityStoreTupleUpdate :
    LockProg Nat (Table (EntityTuple μ)) Err (TmResult × EntitySlot μ) := do
  lift (requireBlock otid.block)
  lockBuffer otid.block
  let res ← lift (stampOld x s otid)
  if res ≠ .ok then do
    unlockBuffer otid.block
    return (res, slot)
  else do
    -- obuf is still locked
    let newTid ← npWriteRecordToPage id Table.nblocks
      (fun t => lastPageFull t (totalTupleSize metaSize slot.props))
      (appendTuple metaSize (newEntityTuple s slot.id otid slot.entity slot.props))
    unlockBuffer otid.block
    return (.ok, { slot with tid := newTid })

end EntityStore

/-! ## The writer under other locks -/

section Writer

variable {β σ ε α : Type} [DecidableEq β] {buf : Nat → β} {nblocks : σ → Nat} {full : σ → Bool}
  {write : Prog σ ε α} {held : List β} {m : σ}

omit [DecidableEq β] in
theorem runs_look_iff {γ : Type} {f : σ → γ} {s s' : Locked β σ} {c : γ} :
    (look f : LockProg β σ ε γ).Runs s c s' ↔ c = f s.mem ∧ s' = s := by
  unfold look
  rw [runs_lift_iff]
  simp only [Prog.runs_read_iff, Except.ok.injEq]
  constructor
  · rintro ⟨m, ⟨rfl, rfl⟩, rfl⟩
    exact ⟨rfl, rfl⟩
  · rintro ⟨rfl, rfl⟩
    exact ⟨s'.mem, ⟨rfl, rfl⟩, rfl⟩

omit [DecidableEq β] in
/-- After a look the program goes on with what it saw. -/
theorem selfDeadlocks_look_bind {γ : Type} {f : σ → γ} {lk : γ → LockProg β σ ε α}
    {s : Locked β σ} : SelfDeadlocks (look f >>= lk) s ↔ SelfDeadlocks (lk (f s.mem)) s := by
  rw [selfDeadlocks_bind_iff]
  simp only [runs_look_iff]
  constructor
  · rintro (h | ⟨c, s', ⟨rfl, rfl⟩, h⟩)
    · exact absurd h (by simp [look])
    · exact h
  · exact fun h => Or.inr ⟨_, _, ⟨rfl, rfl⟩, h⟩

/-- **The writer waits for the last page**, or for the page behind it when the last is full. -/
theorem selfDeadlocks_npWriteRecordToPage :
    SelfDeadlocks (npWriteRecordToPage buf nblocks full write) ⟨held, m⟩ ↔
      buf (nblocks m - 1) ∈ held ∨ full m = true ∧ buf (nblocks m) ∈ held := by
  have hblock : SelfDeadlocks (npWriteRecordToPage buf nblocks full write) ⟨held, m⟩ ↔
      SelfDeadlocks (do
        lockBuffer (buf (nblocks m - 1))
        if ← look full then do
          unlockBuffer (buf (nblocks m - 1))
          let new ← look nblocks
          underLock (buf new) write
        else do
          let tid ← lift write
          unlockBuffer (buf (nblocks m - 1))
          return tid) ⟨held, m⟩ := by
    refine selfDeadlocks_look_bind.trans ?_
    by_cases h0 : nblocks m = 0
    · rw [if_pos h0]
      refine selfDeadlocks_look_bind.trans ?_
      rw [h0]
    · rw [if_neg h0]
      rfl
  rw [hblock, selfDeadlocks_bind_iff, selfDeadlocks_lockBuffer]
  simp only [runs_lockBuffer_iff]
  by_cases hlast : buf (nblocks m - 1) ∈ held
  · simp [hlast]
  simp only [hlast, false_or, not_false_iff, true_and, exists_eq_left, exists_const]
  rw [selfDeadlocks_look_bind]
  cases hfull : full m with
  | false => simp [selfDeadlocks_bind_iff]
  | true =>
    simp only [if_true, true_and]
    rw [selfDeadlocks_bind_iff]
    simp only [selfDeadlocks_unlockBuffer, runs_unlockBuffer_iff, false_or, exists_eq_left,
      exists_const, List.erase_cons_head, selfDeadlocks_look_bind]
    unfold underLock
    simp [selfDeadlocks_bind_iff]

end Writer

/-! ## Which functions wait for themselves -/

section

variable {μ : Type} {x : XactState} {s : Session} {otid : ItemPointer} {slot : EntitySlot μ}
  {metaSize : Nat} {t : Table (EntityTuple μ)}

/-- Behind the stamp, the writer waits for the page of the old tuple exactly when that is the last. -/
theorem selfDeadlocks_afterStamp {res : TmResult} (hb : otid.block < t.nblocks) :
    SelfDeadlocks (if res ≠ .ok then do
        unlockBuffer otid.block
        return (res, slot)
      else do
        let newTid ← npWriteRecordToPage id Table.nblocks
          (fun t => lastPageFull t (totalTupleSize metaSize slot.props))
          (appendTuple metaSize (newEntityTuple s slot.id otid slot.entity slot.props))
        unlockBuffer otid.block
        return (.ok, { slot with tid := newTid }) : LockProg Nat (Table (EntityTuple μ)) Err _)
        ⟨[otid.block], t⟩ ↔ res = .ok ∧ otid.block + 1 = t.nblocks := by
  by_cases hres : res = .ok
  · rw [if_neg (not_not.mpr hres), selfDeadlocks_bind_iff, selfDeadlocks_npWriteRecordToPage]
    have hnew : t.nblocks ≠ otid.block := by omega
    have hlast : t.nblocks - 1 = otid.block ↔ otid.block + 1 = t.nblocks := by omega
    simp [selfDeadlocks_bind_iff, hres, hnew, hlast]
  · rw [if_pos hres]
    simp [selfDeadlocks_bind_iff, hres]

/-- **The update of the access method** waits for itself exactly on a tuple of the last page that it
may supersede. -/
theorem selfDeadlocks_npEntityStoreTupleUpdate :
    SelfDeadlocks (npEntityStoreTupleUpdate x s otid slot metaSize) ⟨[], t⟩ ↔
      (∃ old, t.get otid = some old ∧ Updatable x s.own old) ∧ otid.block + 1 = t.nblocks := by
  unfold npEntityStoreTupleUpdate
  rw [selfDeadlocks_bind_iff]
  simp only [selfDeadlocks_lift, false_or, runs_lift_iff]
  constructor
  · rintro ⟨u, s₁, ⟨m, hreq, rfl⟩, h⟩
    obtain ⟨hm, rfl⟩ := Prog.runs_read_iff.mp hreq
    have hb : otid.block < m.nblocks := by
      by_contra hb
      rw [if_pos (Nat.le_of_not_lt hb)] at hm
      cases hm
    rw [selfDeadlocks_bind_iff] at h
    simp only [selfDeadlocks_lockBuffer, List.not_mem_nil, false_or, runs_lockBuffer_iff,
      not_false_iff, true_and, exists_eq_left, exists_const] at h
    rw [selfDeadlocks_bind_iff] at h
    simp only [selfDeadlocks_lift, false_or, runs_lift_iff] at h
    obtain ⟨res, s₂, ⟨t', hst, rfl⟩, h⟩ := h
    rcases stampOld_inv (Prog.runs_step_iff.mp hst) with ⟨hres, rfl⟩ | ⟨rfl, old, hold, hup, rfl⟩
    · exact absurd ((selfDeadlocks_afterStamp hb).mp h).1 hres
    · have hb' : otid.block < (m.modify otid (stampTuple s)).nblocks := by
        rwa [Table.nblocks_modify]
      have h' := ((selfDeadlocks_afterStamp hb').mp h).2
      rw [Table.nblocks_modify] at h'
      exact ⟨⟨old, hold, hup⟩, h'⟩
  · rintro ⟨⟨old, hold, hup⟩, hlast⟩
    have hb : otid.block < (t.modify otid (stampTuple s)).nblocks := by
      rw [Table.nblocks_modify]
      omega
    refine ⟨(), ⟨[], t⟩, ⟨t, Prog.runs_read_iff.mpr ⟨if_neg (by omega), rfl⟩, rfl⟩, ?_⟩
    rw [selfDeadlocks_bind_iff]
    refine Or.inr ⟨(), ⟨[otid.block], t⟩, runs_lockBuffer_iff.mpr ⟨List.not_mem_nil, rfl⟩, ?_⟩
    rw [selfDeadlocks_bind_iff]
    refine Or.inr ⟨.ok, ⟨[otid.block], t.modify otid (stampTuple s)⟩, runs_lift_iff.mpr
      ⟨_, Prog.runs_step_iff.mpr (stampOld_of_updatable hold hup), rfl⟩, ?_⟩
    rw [selfDeadlocks_afterStamp hb, Table.nblocks_modify]
    exact ⟨rfl, hlast⟩

/-- The model without locks stops there without a result. -/
theorem npEntityStoreTupleUpdate_eq_none {t' : Table (EntityTuple μ)}
    (h : NeoPostGraph.npEntityStoreTupleUpdate x s t otid slot metaSize = .ok (none, t')) :
    SelfDeadlocks (npEntityStoreTupleUpdate x s otid slot metaSize) ⟨[], t⟩ := by
  rw [selfDeadlocks_npEntityStoreTupleUpdate]
  obtain ⟨⟨res, t₁⟩, h₁, h⟩ := bind_ok h
  rcases stampOld_inv h₁ with ⟨hres, -⟩ | ⟨rfl, old, hold, hup, rfl⟩
  · dsimp only at h
    rw [if_pos hres] at h
    cases (Prod.mk.inj (Except.ok.inj h)).1
  · refine ⟨⟨old, hold, hup⟩, ?_⟩
    have hb := nblocks_of_get hold
    dsimp only at h
    rw [if_neg (by simp), Table.nblocks_modify] at h
    by_cases hlast : otid.block = t.nblocks - 1
    · omega
    · rw [if_neg hlast] at h
      obtain ⟨⟨t₂, newTid⟩, -, h⟩ := bind_ok h
      cases (Prod.mk.inj (Except.ok.inj h)).1

end

/-- The update of a catalog item releases the page of the old one before it writes. -/
theorem guards_npCatalogTupleUpdate (s : Session) (rel : Oid) (otid : ItemPointer)
    (tuple : List Nat) : Guards (npCatalogTupleUpdate s rel otid tuple)
      (NeoPostGraph.npCatalogTupleUpdate s rel otid tuple) := by
  refine (guards_underLock List.not_mem_nil _).bind fun res => ?_
  cases res with
  | ok =>
    refine (guards_npWriteRecordToPage _ _ _).bind fun tid => ?_
    exact (guards_underLock List.not_mem_nil _).bind fun _ => guards_ret _
  | invisible => exact guards_ret _
  | updated => exact guards_ret _

/-- **No function waits for its own lock**, except that the update of the access method of entities
does so exactly on a tuple of the last page that it may supersede. -/
theorem noSelfDeadlock_iff {μ : Type} (x : XactState) (s : Session) (otid : ItemPointer)
    (slot : EntitySlot μ) (metaSize : Nat) (t : Table (EntityTuple μ)) :
    (¬ SelfDeadlocks (npEntityStoreTupleUpdate x s otid slot metaSize) ⟨[], t⟩ ↔
      ¬ ((∃ old, t.get otid = some old ∧ Updatable x s.own old) ∧ otid.block + 1 = t.nblocks)) ∧
    (∀ rel tuple, ¬ CanWait (npCatalogTupleUpdate s rel otid tuple) []) ∧
    (∀ pages l id props, ¬ CanWait (updateVertex pages s l id props) []) ∧
    (∀ pages u l id props, ¬ CanWait (updateEdge pages u s l id props) []) ∧
    (∀ pages fuel edgeId l, ¬ CanWait (deleteEdge pages fuel s edgeId l) []) ∧
    ∀ pages behind u fuel s' oldVid currentLabelId newLabel,
      ¬ CanWait (setAnnotatedVertexLabel pages behind u fuel s s' oldVid currentLabelId newLabel) [] :=
  ⟨not_congr selfDeadlocks_npEntityStoreTupleUpdate,
    fun rel tuple => (guards_npCatalogTupleUpdate s rel otid tuple).not_canWait,
    fun pages l id props => (guards_updateVertex pages s l id props).not_canWait,
    fun pages u l id props => (guards_updateEdge pages u s l id props).not_canWait,
    fun pages fuel edgeId l => (guards_deleteEdge pages s l fuel edgeId).not_canWait,
    fun pages behind u fuel s' oldVid currentLabelId newLabel =>
      (guards_setAnnotatedVertexLabel pages behind u fuel s s' currentLabelId oldVid
        newLabel).not_canWait⟩

/-- `np_entity_store_tuple_update` of the only vertex of a label. -/
theorem noSelfDeadlock_fails : ∃ lab, exampleInserted.vlabels 1 = some lab ∧
    SelfDeadlocks (npEntityStoreTupleUpdate exampleInserted.xacts ⟨4, 0⟩ ⟨0, 1⟩
      (⟨⟨0, 1⟩, 1, ⟨1, 1, 0⟩, npEmptyGtypeObject⟩ : EntitySlot Vertex) sizeOfVertex)
      ⟨[], lab.vertexTbl⟩ := by
  refine ⟨_, rfl, selfDeadlocks_npEntityStoreTupleUpdate.mpr ⟨⟨_, rfl, ?_⟩, rfl⟩⟩
  exact ⟨rfl, rfl⟩

end NeoPostGraph.Locking
