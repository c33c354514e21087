import NeoPostGraph.Graph.Rows

/-!
# Savepoints

Every access method puts `GetTopFullTransactionId` on the rows it writes and stamps, so what a
subtransaction did carries the id of the whole transaction, and rolling the subtransaction back, which
leaves the pages alone, changes nothing that a visibility test looks at. The tests themselves ask
`TransactionIdIsCurrentTransactionId`, which knows the ids of subtransactions.

* `Command`: an operation, or a block that is rolled back to its savepoint or released.
* `XactHistory`: transactions of commands, which begin and end in any order.
* `Reader`: a session that looks at rows; `Reader.After`, one that does so later than some commands
  of a transaction, as the rest of that transaction or as another.

Result: `rollback_invisible_iff`, a block that is rolled back is invisible to all readers after it
exactly when it left nothing behind: it deleted each row it had written, and no other.
-/

namespace NeoPostGraph

open SlottedPage RowLog

/-! ## Commands -/

/-- A command of a transaction: an operation on rows, or what is between `SAVEPOINT` and
`ROLLBACK TO SAVEPOINT` or `RELEASE SAVEPOINT`. -/
inductive Command where
  | op (o : RowOp)
  | subxact (body : List Command) (rollback : Bool)

/-- The end of a subtransaction, by rollback or by release: the pages stay as they are, and the
counter of commands goes on. -/
def endSubxact (_rollback : Bool) (st : Nat × Instance) : Nat × Instance := st

mutual

/-- Run a command of the top-level transaction `t` from the next command id on. The operations ask
for the id of the top-level transaction, however deep they are. -/
def Command.run (u : Unspecified) (t : Nat) : Command → Nat × Instance → Nat × Instance
  | .op o, (cid, i) => (cid + 1, o.run u ⟨t, cid⟩ i)
  | .subxact body rollback, st => endSubxact rollback (Command.runAll u t body st)

/-- Run commands in order. -/
def Command.runAll (u : Unspecified) (t : Nat) : List Command → Nat × Instance → Nat × Instance
  | [], st => st
  | cmd :: cmds, st => Command.runAll u t cmds (cmd.run u t st)

end

/-- What running a command does: the command ids grow, and rows change by the rules. -/
def Ran (t : Nat) (st st' : Nat × Instance) : Prop := st.1 ≤ st'.1 ∧ st.2.WroteFrom t st'.1 st'.2

section

variable {u : Unspecified} {t : Nat} {st st' st'' : Nat × Instance}

theorem ran_refl (t : Nat) (st : Nat × Instance) : Ran t st st :=
  ⟨Nat.le_refl _, wroteFrom_refl _ _ _⟩

theorem Ran.trans (ht : fullXidIsValid t = true) (h₁ : Ran t st st') (h₂ : Ran t st' st'') :
    Ran t st st'' := by
  refine ⟨Nat.le_trans h₁.1 h₂.1, Instance.WroteFrom.trans ht ?_ h₂.2⟩
  exact ⟨h₁.2.1, h₁.2.2.mono h₂.1⟩

mutual

/-- **A command changes rows by the rules**, with everything that is in it. -/
theorem Command.ran (u : Unspecified) (ht : fullXidIsValid t = true) :
    ∀ (cmd : Command) (st : Nat × Instance), Ran t st (cmd.run u t st)
  | .op o, (cid, i) => by
    rw [Command.run]
    exact ⟨Nat.le_succ cid, o.wrote (s := ⟨t, cid⟩) ht (Nat.lt_succ_self cid)⟩
  | .subxact body rollback, st => by
    rw [Command.run]
    exact Command.ranAll u ht body st

theorem Command.ranAll (u : Unspecified) (ht : fullXidIsValid t = true) :
    ∀ (cmds : List Command) (st : Nat × Instance), Ran t st (Command.runAll u t cmds st)
  | [], st => by
    rw [Command.runAll]
    exact ran_refl t st
  | cmd :: cmds, st => by
    rw [Command.runAll]
    exact (Command.ran u ht cmd st).trans ht (Command.ranAll u ht cmds _)

end

end

/-! ## Histories -/

/-- The states transactions lead to, from a graph without labels. Transaction ids are assigned from
`base` on, fewer than 2^31 of them. -/
inductive XactHistory (u : Unspecified) (base : Nat) : Instance → Prop
  | empty (status : Nat → XidStatus) (hbase : firstNormalTransactionId ≤ xidFromFull base)
      (h64 : base + 2 ^ 32 ≤ 2 ^ 64) : XactHistory u base ⟨Db.empty ⟨base, status⟩, fun _ => none⟩
  | vertexLabel {i : Instance} (h : XactHistory u base i) (l : Nat) :
      XactHistory u base { i with db := ((buildVertexLabelInfrastructure l).exec i.db).2 }
  | edgeLabel {i : Instance} (h : XactHistory u base i) (l : Nat) :
      XactHistory u base { i with db := ((createElabelInternal l).exec i.db).2 }
  | catalog {i : Instance} (h : XactHistory u base i) (rel : Oid) :
      XactHistory u base
        { i with catalogs := Function.update i.catalogs rel (some SlottedPage.Table.empty) }
  | begin {i : Instance} (h : XactHistory u base i)
      (hroom : i.db.xacts.begin.nextFxid < base + 2 ^ 31) :
      XactHistory u base { i with db := i.db.begin }
  | commit {i : Instance} {t : Nat} (h : XactHistory u base i) (ht : i.db.xacts.Open base t) :
      XactHistory u base { i with db := i.db.commit t }
  | abort {i : Instance} {t : Nat} (h : XactHistory u base i) (ht : i.db.xacts.Open base t) :
      XactHistory u base { i with db := i.db.abort t }
  | command {i : Instance} {t : Nat} (h : XactHistory u base i) (ht : i.db.xacts.Open base t)
      (cid : Nat) (cmd : Command) : XactHistory u base (cmd.run u t (cid, i)).2

/-- The ids on a row are of the history, and a tuple or item with a deleter was there for it to
see. -/
structure RowInv (base : Nat) (x : XactState) (r : Row) : Prop where
  xmin : x.Begun base r.hdr.xmin
  xmax : fullXidIsValid r.hdr.xmax = true → x.Begun base r.hdr.xmax
  settled : (∀ m, r ≠ .member m) → fullXidIsValid r.hdr.xmax = true →
    r.hdr.xmin = r.hdr.xmax ∨ x.status r.hdr.xmin = .committed

/-- The invariant of a history. -/
structure InstanceInv (base : Nat) (i : Instance) : Prop where
  base_le : base ≤ i.db.xacts.nextFxid
  room : i.db.xacts.nextFxid < base + 2 ^ 31
  normal : firstNormalTransactionId ≤ xidFromFull i.db.xacts.nextFxid
  lt : base + 2 ^ 32 ≤ 2 ^ 64
  row : ∀ k r, i.row k = some r → RowInv base i.db.xacts r

section

variable {u : Unspecified} {base t c : Nat} {x y : XactState} {r r' : Row} {i i' : Instance}

theorem RowInv.later (h : RowInv base x r) (hl : XactState.Later base x y) : RowInv base y r where
  xmin := h.xmin.later hl
  xmax hv := (h.xmax hv).later hl
  settled hm hv := (h.settled hm hv).imp id fun hc => hl.committed _ ⟨h.xmin, hc⟩

/-! ## The tests in full ids -/

/-- `np_entity_tuple_is_live` on a header of the history: the writer is the session or has committed,
and the deleter has not; a session that wrote the row itself asks for its own deletes only. -/
theorem npEntityTupleIsLive_full {own : List Nat} {hdr : RecordHeader}
    (hroom : x.nextFxid ≤ base + 2 ^ 32) (hown : ∀ o ∈ own, x.Begun base o)
    (hmin : x.Begun base hdr.xmin) (hmax : fullXidIsValid hdr.xmax = true → x.Begun base hdr.xmax) :
    npEntityTupleIsLive x own hdr = true ↔
      if hdr.xmin ∈ own then fullXidIsValid hdr.xmax = true → hdr.xmax ∉ own
      else x.status hdr.xmin = .committed ∧
        (fullXidIsValid hdr.xmax = true → hdr.xmax ∉ own ∧ x.status hdr.xmax ≠ .committed) := by
  unfold npEntityTupleIsLive
  simp only [hmin.valid, XactState.transactionIdIsCurrent_eq hroom hown hmin,
    XactState.transactionIdIsInProgress_eq hroom hmin, XactState.transactionIdDidCommit_eq hroom hmin]
  cases hv : fullXidIsValid hdr.xmax with
  | false =>
    by_cases ho : hdr.xmin ∈ own <;> cases hst : x.status hdr.xmin <;> simp [ho]
  | true =>
    simp only [XactState.transactionIdIsCurrent_eq hroom hown (hmax hv),
      XactState.transactionIdIsInProgress_eq hroom (hmax hv),
      XactState.transactionIdDidCommit_eq hroom (hmax hv)]
    by_cases ho : hdr.xmin ∈ own <;> by_cases hd : hdr.xmax ∈ own <;>
      cases hst : x.status hdr.xmin <;> cases hsd : x.status hdr.xmax <;> simp [ho, hd]

/-- Who may stamp a row: it is the writer or the writer has committed, and the deleter, if any, has
aborted. -/
theorem Row.Stampable.full (hroom : x.nextFxid ≤ base + 2 ^ 32) (ht : x.Open base t)
    (hr : RowInv base x r) (hm : ∀ m, r ≠ .member m) (h : r.Stampable x [t]) :
    (r.hdr.xmin = t ∨ x.status r.hdr.xmin = .committed) ∧
      (fullXidIsValid r.hdr.xmax = true → r.hdr.xmax ≠ t ∧ x.status r.hdr.xmax = .aborted) := by
  have hown : ∀ o ∈ [t], x.Begun base o := fun o ho => by
    rw [List.mem_singleton.mp ho]
    exact ht.1
  obtain ⟨hlive, hother⟩ : npEntityTupleIsLive x [t] r.hdr = true ∧
      npEntityTupleXmaxOther x [t] r.hdr = false := by
    cases r with
    | member m => exact absurd rfl (hm m)
    | vertex a => exact h
    | edge a => exact h
    | catalog a => exact h
  rw [npEntityTupleIsLive_full hroom hown hr.xmin hr.xmax] at hlive
  simp only [List.mem_singleton] at hlive
  have hnotrun : fullXidIsValid r.hdr.xmax = true → r.hdr.xmax ≠ t →
      x.status r.hdr.xmax ≠ .inProgress := fun hv hne => by
    unfold npEntityTupleXmaxOther at hother
    simpa [hv, XactState.transactionIdIsCurrent_eq hroom hown (hr.xmax hv), hne,
      XactState.transactionIdIsInProgress_eq hroom (hr.xmax hv)] using hother
  by_cases hw : r.hdr.xmin = t
  · rw [if_pos hw] at hlive
    refine ⟨Or.inl hw, fun hv => ⟨hlive hv, ?_⟩⟩
    -- nobody else has deleted what the open transaction wrote
    rcases hr.settled hm hv with he | hc
    · exact absurd (he.symm.trans hw) (hlive hv)
    · rw [hw, ht.2] at hc
      cases hc
  · rw [if_neg hw] at hlive
    refine ⟨Or.inr hlive.1, fun hv => ⟨(hlive.2 hv).1, ?_⟩⟩
    cases hst : x.status r.hdr.xmax with
    | inProgress => exact absurd hst (hnotrun hv (hlive.2 hv).1)
    | committed => exact absurd hst (hlive.2 hv).2
    | aborted => rfl

/-! ## The invariant -/

theorem RowInv.mark {c : Nat} (hroom : x.nextFxid ≤ base + 2 ^ 32) (ht : x.Open base t)
    (hr : RowInv base x r) (h : Marks x t c r r') : RowInv base x r' := by
  obtain ⟨hst, cid, -, rfl⟩ := h
  refine ⟨?_, fun _ => ?_, fun hm _ => ?_⟩
  · rw [Row.hdr_stamp]
    exact hr.xmin
  · rw [Row.hdr_stamp]
    exact ht.1
  · have hm' : ∀ m, r ≠ .member m := fun m he => hm (stampMember ⟨t, cid⟩ m) (by rw [he]; rfl)
    rw [Row.hdr_stamp]
    exact (hst.full hroom ht hr hm').1

theorem RowInv.own {c : Nat} (ht : x.Open base t) (h : OwnRow t c r) : RowInv base x r := by
  refine ⟨?_, fun hv => ?_, fun _ hv => Or.inl ?_⟩
  · rw [h.1]
    exact ht.1
  · rcases h.2 with hn | hd
    · rw [hv] at hn
      cases hn
    · rw [hd.1]
      exact ht.1
  · rcases h.2 with hn | hd
    · rw [hv] at hn
      cases hn
    · rw [h.1, hd.1]

theorem InstanceInv.room_le (h : InstanceInv base i) : i.db.xacts.nextFxid ≤ base + 2 ^ 32 := by
  have := h.room
  omega

/-- **The writes of an open transaction keep the invariant.** -/
theorem InstanceInv.wrote (h : InstanceInv base i) (ht : i.db.xacts.Open base t)
    (hw : i.WroteFrom t c i') : InstanceInv base i' := by
  obtain ⟨hx, hw⟩ := hw
  refine ⟨by rw [hx]; exact h.base_le, by rw [hx]; exact h.room, by rw [hx]; exact h.normal, h.lt,
    fun k r hk => ?_⟩
  rw [hx]
  have hch := hw k
  rw [hk] at hch
  generalize ho : i.row k = o at hch
  cases hch with
  | same => exact h.row k r ho
  | new hown => exact RowInv.own ht hown
  | mark hm => exact (h.row k _ ho).mark h.room_le ht hm

/-- Transactions may begin and end. -/
theorem InstanceInv.later (h : InstanceInv base i) (hl : XactState.Later base i.db.xacts y)
    (hroom : y.nextFxid < base + 2 ^ 31) (hnormal : firstNormalTransactionId ≤ xidFromFull y.nextFxid) :
    InstanceInv base { i with db := { i.db with xacts := y } } := by
  refine ⟨Nat.le_trans h.base_le hl.next_le, hroom, hnormal, h.lt, fun k r hk => ?_⟩
  have hk' : i.row k = some r := by
    cases k <;> exact hk
  exact (h.row k r hk').later hl

/-- A state with fewer rows. -/
theorem InstanceInv.fewer (h : InstanceInv base i) (hx : i'.db.xacts = i.db.xacts)
    (hrow : ∀ k r, i'.row k = some r → i.row k = some r) : InstanceInv base i' := by
  refine ⟨?_, ?_, ?_, h.lt, fun k r hk => ?_⟩
  · rw [hx]
    exact h.base_le
  · rw [hx]
    exact h.room
  · rw [hx]
    exact h.normal
  · rw [hx]
    exact h.row k r (hrow k r hk)

/-- A new vertex label has no rows. -/
theorem row_newVertexLabel (i : Instance) (l : Nat) {k : RowKey} {r : Row}
    (h : { i with db := ((buildVertexLabelInfrastructure l).exec i.db).2 : Instance }.row k =
      some r) : i.row k = some r := by
  cases k with
  | vertex l' tid =>
    change (Option.bind (Function.update i.db.vlabels l _ l') _).map _ = some r at h
    show (Option.bind (i.db.vlabels l') _).map _ = some r
    by_cases hl : l' = l
    · rw [hl, Function.update_self, Option.bind_some] at h
      change ((SlottedPage.Table.empty : Table (EntityTuple Vertex)).get tid).map _ = some r at h
      rw [Table.get_empty] at h
      cases h
    · rw [Function.update_of_ne hl] at h
      exact h
  | member p =>
    obtain ⟨m, hm, rfl⟩ := Option.map_eq_some_iff.mp h
    obtain ⟨n, hn, hmem⟩ := Option.bind_eq_some_iff.mp hm
    have hn' : i.db.store.node p.1 = some n :=
      node_setRel_empty _ _ node_emptyArrayList (node_setRel_empty _ _ node_emptyLinkedList hn)
    show (Option.bind (i.db.store.node p.1) _).map _ = _
    rw [hn', Option.bind_some, hmem]
    rfl
  | edge l' tid => exact h
  | catalog rel tid => exact h

/-- A new edge label has no rows. -/
theorem row_newEdgeLabel (i : Instance) (l : Nat) {k : RowKey} {r : Row}
    (h : { i with db := ((createElabelInternal l).exec i.db).2 : Instance }.row k = some r) :
    i.row k = some r := by
  cases k with
  | edge l' tid =>
    change (Option.bind (Function.update i.db.elabels l _ l') _).map _ = some r at h
    show (Option.bind (i.db.elabels l') _).map _ = some r
    by_cases hl : l' = l
    · rw [hl, Function.update_self, Option.bind_some] at h
      change ((SlottedPage.Table.empty : Table (EntityTuple Edge)).get tid).map _ = some r at h
      rw [Table.get_empty] at h
      cases h
    · rw [Function.update_of_ne hl] at h
      exact h
  | vertex l' tid => exact h
  | member p => exact h
  | catalog rel tid => exact h

/-- A new catalog has no rows. -/
theorem row_newCatalog (i : Instance) (rel : Oid) {k : RowKey} {r : Row}
    (h : { i with catalogs := Function.update i.catalogs rel (some SlottedPage.Table.empty) :
      Instance }.row k = some r) : i.row k = some r := by
  cases k with
  | catalog rel' tid =>
    change (Option.bind (Function.update i.catalogs rel _ rel') _).map _ = some r at h
    show (Option.bind (i.catalogs rel') _).map _ = some r
    by_cases hr : rel' = rel
    · rw [hr, Function.update_self, Option.bind_some, Table.get_empty] at h
      cases h
    · rw [Function.update_of_ne hr] at h
      exact h
  | vertex l tid => exact h
  | edge l tid => exact h
  | member p => exact h

/-- **Every state of a history satisfies the invariant.** -/
theorem XactHistory.inv (h : XactHistory u base i) : InstanceInv base i := by
  induction h with
  | empty status hbase h64 =>
    refine ⟨Nat.le_refl _, by show base < _; omega, hbase, h64, fun k r hk => ?_⟩
    cases k <;> cases hk
  | vertexLabel _ l ih => exact ih.fewer rfl fun k r hk => row_newVertexLabel _ l hk
  | edgeLabel _ l ih => exact ih.fewer rfl fun k r hk => row_newEdgeLabel _ l hk
  | catalog _ rel ih => exact ih.fewer rfl fun k r hk => row_newCatalog _ rel hk
  | begin _ hroom ih =>
    exact ih.later (XactState.later_begin base _) hroom (fullTransactionIdAdvance_normal _)
  | commit _ ht ih => exact ih.later (XactState.later_commit base _ _) ih.room ih.normal
  | abort _ ht ih => exact ih.later (XactState.later_abort ht) ih.room ih.normal
  | @command i t _ ht cid cmd ih => exact ih.wrote ht (cmd.ran u ht.1.valid (cid, i)).2

end

/-! ## Readers -/

/-- A session that looks at rows. -/
structure Reader where
  xacts : XactState
  own : List Nat
  snapshot : Snapshot
  /-- The kind of snapshot a catalog scan comes with. -/
  kind : Option SnapshotType

/-- What a reader sees, by the test of the access method of the row. -/
def Reader.sees (x : Reader) : Row → Bool
  | .member m => recordSatisfiesSnapshot x.xacts x.own m.toRecordHeader x.snapshot
  | .catalog item =>
    npCatalogTupleVisible x.xacts x.own item.toRecordHeader (x.kind.map fun k => (k, x.snapshot))
  | .vertex t => npEntityTupleIsLive x.xacts x.own t.hdr.toRecordHeader
  | .edge t => npEntityTupleIsLive x.xacts x.own t.hdr.toRecordHeader

/-- The reader comes after the commands before `c` of the open transaction `t`: a later command of
it, or any session while it runs or after its end. -/
structure Reader.After (base : Nat) (x₀ : XactState) (t c : Nat) (x : Reader) : Prop where
  later : XactState.Later base x₀ x.xacts
  room : x.xacts.nextFxid ≤ base + 2 ^ 32
  own : ∀ o ∈ x.own, x.xacts.Begun base o
  command : t ∈ x.own → c ≤ x.snapshot.curcid

section

variable {base t c : Nat} {x₀ : XactState} {x : Reader} {r : Row} {hdr : RecordHeader}

/-- A row the transaction has written and deleted again is not live to anyone. -/
theorem not_live_of_own (own : List Nat) (y : XactState) (h : hdr.xmin = hdr.xmax) :
    npEntityTupleIsLive y own hdr = false := by
  unfold npEntityTupleIsLive
  rw [← h]
  dsimp only
  cases fullXidIsValid hdr.xmin with
  | false => rfl
  | true =>
    cases transactionIdIsCurrent own (xidFromFull hdr.xmin) with
    | true => rfl
    | false =>
      cases transactionIdIsInProgress y (xidFromFull hdr.xmin) <;>
        cases transactionIdDidCommit y (xidFromFull hdr.xmin) <;> rfl

/-- **Nobody sees a row that a transaction has written and deleted again**, but the commands of that
transaction in between. -/
theorem dead_not_seen (ht : x₀.Open base t) (hx : x.After base x₀ t c) (hown : OwnRow t c r)
    (hdead : DeadRow t c r) : ¬ x.sees r = true := by
  have hmin := hown.1
  obtain ⟨hmax, hcmax⟩ := hdead
  have hcur : transactionIdIsCurrent x.own (xidFromFull t) = true → r.hdr.cmax < x.snapshot.curcid :=
    fun h => by
      rw [XactState.transactionIdIsCurrent_eq hx.room hx.own (ht.1.later hx.later)] at h
      exact Nat.lt_of_lt_of_le hcmax (hx.command (of_decide_eq_true h))
  have hv : fullXidIsValid t = true := ht.1.valid
  have hlive : npEntityTupleIsLive x.xacts x.own r.hdr = false :=
    not_live_of_own _ _ (hmin.trans hmax.symm)
  rw [Bool.not_eq_true]
  cases r with
  | vertex a => exact hlive
  | edge a => exact hlive
  | catalog item =>
    change item.xmin = t at hmin
    change item.xmax = t at hmax
    change _ → item.cmax < _ at hcur
    show npCatalogTupleVisible _ _ _ (x.kind.map _) = false
    cases hk : x.kind with
    | none => exact hlive
    | some k =>
      cases k with
      | mvcc =>
        show catalogMvccVisible _ _ _ _ = false
        unfold catalogMvccVisible
        simp only [hmin, hmax, hv]
        cases hc : transactionIdIsCurrent x.own (xidFromFull t) with
        | true =>
          have hlt := Nat.not_le.mpr (hcur hc)
          simp [hlt]
        | false =>
          cases xidInMVCCSnapshot (xidFromFull t) x.snapshot <;>
            cases transactionIdIsInProgress x.xacts (xidFromFull t) <;>
              cases transactionIdDidCommit x.xacts (xidFromFull t) <;> rfl
      | self => exact hlive
      | any => exact hlive
      | toast => exact hlive
      | dirty => exact hlive
  | member m =>
    change m.xmin = t at hmin
    change m.xmax = t at hmax
    change _ → m.cmax < _ at hcur
    show recordSatisfiesSnapshot _ _ _ _ = false
    unfold recordSatisfiesSnapshot creationVisible deletionInvisible
    simp only [hmin, hmax, hv]
    cases fullXidPrecedes t (fullXidRelativeTo x.xacts.nextFxid x.snapshot.xmin) with
    | true => rfl
    | false =>
      cases hc : transactionIdIsCurrent x.own (xidFromFull t) with
      | true =>
        have hlt := Nat.not_le.mpr (hcur hc)
        simp [hlt]
      | false =>
        cases xidInMVCCSnapshot (xidFromFull t) x.snapshot <;>
          cases transactionIdDidCommit x.xacts (xidFromFull t) <;> rfl

end

/-! ## The reader after everything has ended -/

/-- Every transaction that runs commits. -/
def XactState.settle (x : XactState) : XactState :=
  { x with status := fun t => if x.status t = .inProgress then .committed else x.status t }

/-- A transaction that begins when all others have ended, with an MVCC snapshot. -/
def lastReader (x : XactState) : Reader where
  xacts := x.settle.begin
  own := [x.nextFxid]
  snapshot := ⟨xidFromFull x.nextFxid, xidFromFull x.nextFxid, [], 0⟩
  kind := some .mvcc

section

variable {base t c : Nat} {i : Instance} {r r' : Row} {x : XactState}

theorem settle_status_ne {y : Nat} (h : x.status y ≠ .inProgress) :
    x.settle.status y = x.status y := if_neg h

theorem later_settle (base : Nat) (x : XactState) : XactState.Later base x x.settle where
  next_le := Nat.le_refl _
  committed y hy := by
    rw [settle_status_ne (by rw [hy.2]; exact nofun)]
    exact hy.2

theorem lastReader_status {y : Nat} (hy : y < x.nextFxid) :
    (lastReader x).xacts.status y = x.settle.status y :=
  Function.update_of_ne (Nat.ne_of_lt hy) ..

theorem lastReader_after (h : InstanceInv base i) (ht : i.db.xacts.Open base t) (c : Nat) :
    (lastReader i.db.xacts).After base i.db.xacts t c := by
  have hopen := XactState.open_begin (x := i.db.xacts.settle) h.base_le h.normal
  refine ⟨(later_settle base _).trans (XactState.later_begin base _), ?_, fun o ho => ?_,
    fun ho => ?_⟩
  · have := fullTransactionIdAdvance_le i.db.xacts.nextFxid
    have := h.room
    show fullTransactionIdAdvance i.db.xacts.nextFxid ≤ _
    omega
  · rw [List.mem_singleton.mp ho]
    exact hopen.1
  · have hlt := ht.1.2.1
    rw [List.mem_singleton.mp ho] at hlt
    exact absurd hlt (Nat.lt_irrefl _)

/-- What the last reader makes of a header: the writer has ended, and so has the deleter. -/
theorem lastReader_sees (h : InstanceInv base i) (ht : i.db.xacts.Open base t)
    (hr : RowInv base i.db.xacts r)
    (hmin : (∀ m, r ≠ .member m) → i.db.xacts.settle.status r.hdr.xmin = .committed)
    (hmax : fullXidIsValid r.hdr.xmax = true → (∀ m, r ≠ .member m) ∧
      i.db.xacts.settle.status r.hdr.xmax ≠ .committed) :
    (lastReader i.db.xacts).sees r = true := by
  have hafter := lastReader_after h ht 0
  have hlt := h.lt
  have hroom := h.room
  have hnot : ∀ y, y < i.db.xacts.nextFxid → y ∉ (lastReader i.db.xacts).own := fun y hy hm => by
    rw [List.mem_singleton.mp hm] at hy
    exact Nat.lt_irrefl _ hy
  have hb := hr.xmin
  have hb' := hb.later hafter.later
  have hm := hr.xmax
  have hlive : (∀ m, r ≠ .member m) →
      npEntityTupleIsLive (lastReader i.db.xacts).xacts (lastReader i.db.xacts).own r.hdr = true :=
    fun hne => by
      rw [npEntityTupleIsLive_full hafter.room hafter.own hb' fun hv => (hm hv).later hafter.later,
        if_neg (hnot _ hb.2.1), lastReader_status hb.2.1]
      refine ⟨hmin hne, fun hv => ⟨hnot _ (hm hv).2.1, ?_⟩⟩
      rw [lastReader_status (hm hv).2.1]
      exact (hmax hv).2
  have hsnap : ∀ y, i.db.xacts.Begun base y →
      xidInMVCCSnapshot (xidFromFull y) (lastReader i.db.xacts).snapshot = false := fun y hy => by
    have hp : transactionIdPrecedes (xidFromFull y) (xidFromFull i.db.xacts.nextFxid) = true := by
      have h₁ := hy.1
      have h₂ := hy.2.1
      rw [transactionIdPrecedes_of_lt hy.2.2 h.normal (by omega) (by omega)]
      exact decide_eq_true h₂
    show (if transactionIdPrecedes (xidFromFull y) (xidFromFull i.db.xacts.nextFxid) = true then false
      else _) = false
    rw [if_pos hp]
  have hcur : ∀ y, i.db.xacts.Begun base y →
      transactionIdIsCurrent (lastReader i.db.xacts).own (xidFromFull y) = false := fun y hy => by
    rw [XactState.transactionIdIsCurrent_eq hafter.room hafter.own (hy.later hafter.later)]
    exact decide_eq_false (hnot y hy.2.1)
  cases r with
  | vertex a => exact hlive nofun
  | edge a => exact hlive nofun
  | catalog item =>
    have hst := hmin nofun
    change i.db.xacts.Begun base item.xmin at hb
    change (lastReader i.db.xacts).xacts.Begun base item.xmin at hb'
    change i.db.xacts.settle.status item.xmin = .committed at hst
    show catalogMvccVisible _ _ _ _ = true
    unfold catalogMvccVisible
    simp only [hb.valid, hcur _ hb, hsnap _ hb,
      XactState.transactionIdIsInProgress_eq hafter.room hb',
      XactState.transactionIdDidCommit_eq hafter.room hb', lastReader_status hb.2.1, hst]
    cases hv : fullXidIsValid item.xmax with
    | false => simp
    | true =>
      have hd := hm hv
      have hd' := hd.later hafter.later
      change i.db.xacts.Begun base item.xmax at hd
      change (lastReader i.db.xacts).xacts.Begun base item.xmax at hd'
      have hne : i.db.xacts.settle.status item.xmax ≠ .committed := (hmax hv).2
      simp [hcur _ hd, hsnap _ hd, XactState.transactionIdIsInProgress_eq hafter.room hd',
        XactState.transactionIdDidCommit_eq hafter.room hd', lastReader_status hd.2.1, hne]
  | member m =>
    have hv : fullXidIsValid m.xmax = false := by
      rw [Bool.eq_false_iff]
      exact fun hv => (hmax hv).1 m rfl
    change i.db.xacts.Begun base m.xmin at hb
    have hle := lt_fullTransactionIdAdvance i.db.xacts.nextFxid
    have hle' := fullTransactionIdAdvance_le i.db.xacts.nextFxid
    have hhorizon : fullXidRelativeTo (lastReader i.db.xacts).xacts.nextFxid
        (lastReader i.db.xacts).snapshot.xmin = i.db.xacts.nextFxid := by
      show fullXidRelativeTo (fullTransactionIdAdvance i.db.xacts.nextFxid)
        (xidFromFull i.db.xacts.nextFxid) = _
      exact fullXidRelativeTo_of_lt (by omega) (by omega) (by omega)
    have hp : fullXidPrecedes m.xmin i.db.xacts.nextFxid = true := decide_eq_true hb.2.1
    show recordSatisfiesSnapshot _ _ _ _ = true
    unfold recordSatisfiesSnapshot creationVisible deletionInvisible
    simp only [hb.valid, hhorizon, hp, hv]
    simp

/-! ## Rolling back -/

/-- **A rolled-back block is invisible to everyone after it exactly when it left nothing behind**:
each row it had written it deleted again, and it deleted no other. -/
theorem rollback_invisible_iff {u : Unspecified} (h : XactHistory u base i)
    (ht : i.db.xacts.Open base t) (cid : Nat) (body : List Command) :
    Invisible
      (Reader.After base i.db.xacts t ((Command.subxact body true).run u t (cid, i)).1)
      (fun x r => x.sees r = true) i.row ((Command.subxact body true).run u t (cid, i)).2.row ↔
    LeavesNothing (DeadRow t ((Command.subxact body true).run u t (cid, i)).1) i.row
      ((Command.subxact body true).run u t (cid, i)).2.row := by
  have hinv := h.inv
  obtain ⟨-, -, hw⟩ := (Command.subxact body true).ran u ht.1.valid (cid, i)
  have htcom : i.db.xacts.settle.status t = .committed := if_pos ht.2
  refine invisible_iff hw (fun x hx r hown hdead => dead_not_seen ht hx hown hdead)
    (lastReader_after hinv ht _) (fun r hown hlive => ?_) fun k r r' hk hm => ?_
  · -- a row of the block that it did not delete
    have hv : fullXidIsValid r.hdr.xmax = false := hown.2.resolve_right hlive
    refine lastReader_sees hinv ht (RowInv.own ht hown) (fun _ => ?_) fun hv' => ?_
    · rw [hown.1]
      exact htcom
    · rw [hv] at hv'
      cases hv'
  · -- a row the block stamped, before the stamp
    have hr := hinv.row k r hk
    refine lastReader_sees hinv ht hr (fun hne => ?_) fun hv => ?_
    · rcases (hm.1.full hinv.room_le ht hr hne).1 with he | hc
      · rw [he]
        exact htcom
      · rw [settle_status_ne (by rw [hc]; exact nofun)]
        exact hc
    · have hne : ∀ m, r ≠ .member m := fun m he => by
        subst he
        exact Bool.noConfusion (hv.symm.trans hm.1)
      have hab := ((hm.1.full hinv.room_le ht hr hne).2 hv).2
      refine ⟨hne, ?_⟩
      rw [settle_status_ne (by rw [hab]; exact nofun), hab]
      exact nofun

end

/-! ## Runs -/

/-- A graph with one vertex label, in which transaction 5 has begun. -/
def exampleInstance : Instance where
  db := ((buildVertexLabelInfrastructure 1).exec (Db.empty ⟨5, fun _ => .committed⟩)).2.begin
  catalogs := fun _ => none

theorem exampleInstance_history : XactHistory exampleUnspecified 5 exampleInstance :=
  ((XactHistory.empty (fun _ => .committed) (by decide) (by decide)).vertexLabel 1).begin (by decide)

theorem exampleInstance_open : exampleInstance.db.xacts.Open 5 5 :=
  ⟨⟨by decide, by decide, by decide⟩, rfl⟩

/-- Insert a vertex. -/
def exampleInsert : Command := .op (.entity (.insertVertex ⟨1, 1, 0⟩ npEmptyGtypeObject))

/-- A block that inserts a vertex and deletes it again. -/
theorem rollback_invisible_iff_example :
    let body := [exampleInsert, .op (.entity (.deleteVertex 10 1 1 false))]
    let after := (Command.subxact body true).run exampleUnspecified 5 (0, exampleInstance)
    Invisible (Reader.After 5 exampleInstance.db.xacts 5 after.1) (fun x r => x.sees r = true)
      exampleInstance.row after.2.row ↔
    LeavesNothing (DeadRow 5 after.1) exampleInstance.row after.2.row :=
  rollback_invisible_iff exampleInstance_history exampleInstance_open 0 _

/-- A block that inserts a vertex is rolled back, and the next command of the transaction sees the
vertex. -/
theorem rollback_invisible_fails :
    XactHistory exampleUnspecified 5 exampleInstance ∧ exampleInstance.db.xacts.Open 5 5 ∧
      let after := (Command.subxact [exampleInsert] true).run exampleUnspecified 5
        (0, exampleInstance)
      ¬ Invisible (Reader.After 5 exampleInstance.db.xacts 5 after.1) (fun x r => x.sees r = true)
        exampleInstance.row after.2.row := by
  refine ⟨exampleInstance_history, exampleInstance_open, fun h => ?_⟩
  let x : Reader := ⟨exampleInstance.db.xacts, [5], ⟨5, 6, [], 1⟩, some .mvcc⟩
  have hx : x.After 5 exampleInstance.db.xacts 5 1 := by
    refine ⟨⟨Nat.le_refl _, fun t ht => ht.2⟩, by decide, fun o ho => ?_, fun _ => Nat.le_refl _⟩
    rw [List.mem_singleton.mp ho]
    exact exampleInstance_open.1
  have hseen := (h x hx (.vertex 1 ⟨0, 1⟩)
    (.vertex (newEntityTuple ⟨5, 0⟩ 1 .invalid ⟨1, 1, 0⟩ npEmptyGtypeObject))).mpr ⟨rfl, rfl⟩
  cases hseen.1

end NeoPostGraph
