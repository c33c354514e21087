import NeoPostGraph.Adjacency.Record
import Mathlib.Tactic.Tauto

/-!
# Snapshot visibility of adjacency records

`np_record_satisfies_snapshot` (`np_linked_list.c:307-345`) and
`np_arraylist_record_satisfies_snapshot` (`np_arraylist.c:68-111`) are the same test on the header
of two record types. It takes every transaction before the snapshot's `xmin` as committed, without
asking, and every other one by 32-bit id.

* `Snapshot` is the `SnapshotData` the code is given, with 32-bit ids; `xidInMVCCSnapshot` is
  PostgreSQL's test on it. `FullSnapshot` is the same snapshot in full ids.
* `Consistent` is what a live system guarantees of the shared state, the session's own ids and its
  snapshot together.
* `Visible` is the reference rule: the creator is the reader at an earlier command, or committed
  and not running in the snapshot; the deleter is absent, aborted, still running in the snapshot,
  or the reader at a later command.

Results:
* `creationVisible_iff`, `deletionInvisible_iff`: what the code decides, rule by rule. Each is the
  reference rule but for a transaction that aborted before the freeze horizon.
* `record_satisfies_snapshot_iff`: it agrees with the reference exactly when neither half meets an
  aborted transaction whose fate matters.
-/

namespace NeoPostGraph

/-- The part of `SnapshotData` an MVCC test reads. `xip` holds the top-level and subtransaction
ids that were running. -/
structure Snapshot where
  xmin : Nat
  xmax : Nat
  xip : List Nat
  curcid : Nat
deriving DecidableEq, Repr

/-- PostgreSQL's `XidInMVCCSnapshot`: was this transaction running when the snapshot was taken. -/
def xidInMVCCSnapshot (xid : Nat) (snapshot : Snapshot) : Bool :=
  if transactionIdPrecedes xid snapshot.xmin then false
  else if !transactionIdPrecedes xid snapshot.xmax then true
  else snapshot.xip.contains xid

/-! ## The test of the code -/

/-- Rule 1 of the test: the record was created, as far as the snapshot can see. -/
def creationVisible (x : XactState) (own : List Nat) (rec : RecordHeader) (snapshot : Snapshot) :
    Bool :=
  let xmin32 := xidFromFull rec.xmin
  let freezeHorizon := fullXidRelativeTo x.nextFxid snapshot.xmin
  if !fullXidIsValid rec.xmin then false
  else if fullXidPrecedes rec.xmin freezeHorizon then true
  else if transactionIdIsCurrent own xmin32 then !decide (snapshot.curcid ≤ rec.cmin)
  else if xidInMVCCSnapshot xmin32 snapshot then false
  else transactionIdDidCommit x xmin32

/-- Rule 2 of the test: the record was not deleted. -/
def deletionInvisible (x : XactState) (own : List Nat) (rec : RecordHeader) (snapshot : Snapshot) :
    Bool :=
  let xmax32 := xidFromFull rec.xmax
  let freezeHorizon := fullXidRelativeTo x.nextFxid snapshot.xmin
  if fullXidIsValid rec.xmax then
    if fullXidPrecedes rec.xmax freezeHorizon then false
    else if transactionIdIsCurrent own xmax32 then decide (snapshot.curcid ≤ rec.cmax)
    else !(!xidInMVCCSnapshot xmax32 snapshot && transactionIdDidCommit x xmax32)
  else true

/-- The test on a header, for the session whose transaction has the ids `own`. -/
def recordSatisfiesSnapshot (x : XactState) (own : List Nat) (rec : RecordHeader)
    (snapshot : Snapshot) : Bool :=
  creationVisible x own rec snapshot && deletionInvisible x own rec snapshot

/-- `np_record_satisfies_snapshot` (`np_linked_list.c:307-345`). -/
def npRecordSatisfiesSnapshot (x : XactState) (own : List Nat) (rec : NeoLinkedListRecord)
    (snapshot : Snapshot) : Bool :=
  recordSatisfiesSnapshot x own rec.toRecordHeader snapshot

/-- `np_arraylist_record_satisfies_snapshot` (`np_arraylist.c:68-111`). -/
def npArraylistRecordSatisfiesSnapshot (x : XactState) (own : List Nat) (rec : NeoArrayListRecord)
    (snapshot : Snapshot) : Bool :=
  recordSatisfiesSnapshot x own rec.toRecordHeader snapshot

/-! ## The reference rule -/

/-- A snapshot in full transaction ids. -/
structure FullSnapshot where
  xmin : Nat
  xmax : Nat
  xip : List Nat
  curcid : Nat
deriving DecidableEq, Repr

/-- The `SnapshotData` of a snapshot: the same ids, 32 bits of them. -/
def FullSnapshot.data (s : FullSnapshot) : Snapshot :=
  ⟨xidFromFull s.xmin, xidFromFull s.xmax, s.xip.map xidFromFull, s.curcid⟩

/-- The transaction was running when the snapshot was taken, or had not started. -/
def FullSnapshot.Running (s : FullSnapshot) (fxid : Nat) : Prop :=
  s.xmin ≤ fxid ∧ (s.xmax ≤ fxid ∨ fxid ∈ s.xip)

instance (s : FullSnapshot) (fxid : Nat) : Decidable (s.Running fxid) :=
  inferInstanceAs (Decidable (_ ∧ _))

/-- What the transaction manager guarantees of its state, a session's own ids and the session's
snapshot. -/
structure Consistent (x : XactState) (own : List Nat) (s : FullSnapshot) : Prop where
  /-- The id counter is a `FullTransactionId`. -/
  next_lt : x.nextFxid < 2 ^ 64
  /-- The bounds of the snapshot are normal ids in order, at most the next id. -/
  xmin_normal : firstNormalTransactionId ≤ xidFromFull s.xmin
  xmax_normal : firstNormalTransactionId ≤ xidFromFull s.xmax
  xmin_le : s.xmin ≤ s.xmax
  xmax_le : s.xmax ≤ x.nextFxid
  /-- No running snapshot is half the 32-bit range old. -/
  window : x.nextFxid < s.xmin + 2 ^ 31
  /-- The running transactions lie between the bounds. -/
  xip_mem : ∀ y ∈ s.xip, s.xmin ≤ y ∧ y < s.xmax
  /-- The session's ids are running, and its snapshot's `xmin` is not after them. -/
  own_mem : ∀ y ∈ own, s.xmin ≤ y ∧ y < x.nextFxid ∧ x.status y = .inProgress
  /-- Whatever was not running when the snapshot was taken has finished. -/
  finished : ∀ y, x.Assigned y → ¬ s.Running y → y ∉ own → x.status y ≠ .inProgress

/-- The ids in a header were assigned to transactions. -/
structure Stamped (x : XactState) (rec : RecordHeader) : Prop where
  xmin : fullXidIsValid rec.xmin = true → x.Assigned rec.xmin
  xmax : fullXidIsValid rec.xmax = true → x.Assigned rec.xmax

/-- The record was created by the reader at an earlier command, or by a committed transaction
visible in the snapshot. -/
def Created (x : XactState) (own : List Nat) (rec : RecordHeader) (s : FullSnapshot) : Prop :=
  fullXidIsValid rec.xmin = true ∧
    if rec.xmin ∈ own then rec.cmin < s.curcid
    else x.status rec.xmin = .committed ∧ ¬ s.Running rec.xmin

/-- The deletion is absent, aborted, not visible in the snapshot, or the reader's own at a later
command. -/
def Survives (x : XactState) (own : List Nat) (rec : RecordHeader) (s : FullSnapshot) : Prop :=
  fullXidIsValid rec.xmax = false ∨
    if rec.xmax ∈ own then s.curcid ≤ rec.cmax
    else x.status rec.xmax = .aborted ∨ s.Running rec.xmax

/-- The reference MVCC rule. -/
def Visible (x : XactState) (own : List Nat) (rec : RecordHeader) (s : FullSnapshot) : Prop :=
  Created x own rec s ∧ Survives x own rec s

/-- The transaction aborted before the freeze horizon of the snapshot. -/
def AbortedBefore (x : XactState) (s : FullSnapshot) (fxid : Nat) : Prop :=
  fullXidIsValid fxid = true ∧ fxid < s.xmin ∧ x.status fxid = .aborted

instance (x : XactState) (own : List Nat) (rec : RecordHeader) (s : FullSnapshot) :
    Decidable (Visible x own rec s) := by
  unfold Visible Created Survives
  infer_instance

/-! ## The lookups agree with the full ids -/

section

variable {x : XactState} {own : List Nat} {s : FullSnapshot} {rec : RecordHeader}

theorem freezeHorizon_eq (h : Consistent x own s) :
    fullXidRelativeTo x.nextFxid s.data.xmin = s.xmin :=
  fullXidRelativeTo_of_lt h.next_lt (h.xmin_le.trans h.xmax_le) h.window

theorem isCurrent_eq (h : Consistent x own s) {y : Nat} (ha : x.Assigned y) (hy : s.xmin ≤ y) :
    transactionIdIsCurrent own (xidFromFull y) = decide (y ∈ own) := by
  have hw := h.window
  unfold transactionIdIsCurrent
  rw [Bool.eq_iff_iff, List.any_eq_true, decide_eq_true_eq]
  constructor
  · rintro ⟨o, ho, he⟩
    have ⟨h1, h2, _⟩ := h.own_mem o ho
    have hlt := ha.1
    rwa [← xidFromFull_inj (by omega) (by omega) (beq_iff_eq.mp he)]
  · intro ho
    exact ⟨y, ho, beq_self_eq_true _⟩

theorem didCommit_eq (h : Consistent x own s) {y : Nat} (ha : x.Assigned y) (hy : s.xmin ≤ y) :
    transactionIdDidCommit x (xidFromFull y) = decide (x.status y = .committed) := by
  have hw := h.window
  unfold transactionIdDidCommit
  rw [widen_of_lt ha.1 (by omega)]

theorem inSnapshot_eq (h : Consistent x own s) {y : Nat} (ha : x.Assigned y) (hy : s.xmin ≤ y) :
    xidInMVCCSnapshot (xidFromFull y) s.data = decide (s.Running y) := by
  have hw := h.window
  have hlt := ha.1
  have hle := h.xmax_le
  have hmin := h.xmin_le
  have hp1 : transactionIdPrecedes (xidFromFull y) s.data.xmin = decide (y < s.xmin) :=
    transactionIdPrecedes_of_lt ha.2 h.xmin_normal (by omega) (by omega)
  have hp2 : transactionIdPrecedes (xidFromFull y) s.data.xmax = decide (y < s.xmax) :=
    transactionIdPrecedes_of_lt ha.2 h.xmax_normal (by omega) (by omega)
  have hxip : s.data.xip.contains (xidFromFull y) = decide (y ∈ s.xip) := by
    rw [Bool.eq_iff_iff, List.contains_iff_mem, decide_eq_true_eq]
    constructor
    · intro hm
      obtain ⟨z, hz, he⟩ := List.mem_map.mp hm
      have ⟨h1, h2⟩ := h.xip_mem z hz
      rwa [← xidFromFull_inj (by omega) (by omega) he]
    · exact fun hm => List.mem_map.mpr ⟨y, hm, rfl⟩
  unfold xidInMVCCSnapshot
  rw [hp1, hp2, hxip]
  unfold FullSnapshot.Running
  by_cases hx : y < s.xmax
  · simp [Nat.not_lt.mpr hy, hx, hy, Nat.not_le.mpr hx]
  · simp [Nat.not_lt.mpr hy, hx, hy, Nat.not_lt.mp hx]

/-- A transaction before the snapshot's `xmin` is not the reader's and has finished. -/
theorem finished_before (h : Consistent x own s) {y : Nat} (ha : x.Assigned y) (hy : y < s.xmin) :
    y ∉ own ∧ ¬ s.Running y ∧ (x.status y = .committed ∨ x.status y = .aborted) := by
  have hown : y ∉ own := fun ho => by
    have := (h.own_mem y ho).1
    omega
  have hrun : ¬ s.Running y := fun hr => by
    have := hr.1
    omega
  have hfin := h.finished y ha hrun hown
  refine ⟨hown, hrun, ?_⟩
  cases hs : x.status y with
  | inProgress => exact absurd hs hfin
  | committed => exact Or.inl rfl
  | aborted => exact Or.inr rfl

/-! ## What the code decides -/

/-- **Rule 1 accepts what the reference accepts, and every creator that aborted before the
horizon.** -/
theorem creationVisible_iff (h : Consistent x own s) (hs : Stamped x rec) :
    creationVisible x own rec s.data = true ↔
      Created x own rec s ∨ AbortedBefore x s rec.xmin := by
  unfold creationVisible Created AbortedBefore
  simp only [freezeHorizon_eq h, fullXidPrecedes]
  cases hv : fullXidIsValid rec.xmin with
  | false => simp
  | true =>
    have ha := hs.xmin hv
    by_cases hlt : rec.xmin < s.xmin
    · obtain ⟨hown, hrun, hst⟩ := finished_before h ha hlt
      rcases hst with hst | hst <;> simp [hlt, hown, hrun, hst]
    · have hge := Nat.not_lt.mp hlt
      simp only [isCurrent_eq h ha hge, inSnapshot_eq h ha hge, didCommit_eq h ha hge]
      by_cases hown : rec.xmin ∈ own
      · simp [hlt, hown]
        rfl
      · by_cases hrun : s.Running rec.xmin <;> simp [hlt, hown, hrun]

/-- **Rule 2 accepts what the reference accepts, but for a deleter that aborted before the
horizon.** -/
theorem deletionInvisible_iff (h : Consistent x own s) (hs : Stamped x rec) :
    deletionInvisible x own rec s.data = true ↔
      Survives x own rec s ∧ ¬ AbortedBefore x s rec.xmax := by
  unfold deletionInvisible Survives AbortedBefore
  simp only [freezeHorizon_eq h, fullXidPrecedes]
  cases hv : fullXidIsValid rec.xmax with
  | false => simp
  | true =>
    have ha := hs.xmax hv
    by_cases hlt : rec.xmax < s.xmin
    · obtain ⟨hown, hrun, hst⟩ := finished_before h ha hlt
      rcases hst with hst | hst <;> simp [hlt, hown, hrun, hst]
    · have hge := Nat.not_lt.mp hlt
      simp only [isCurrent_eq h ha hge, inSnapshot_eq h ha hge, didCommit_eq h ha hge]
      by_cases hown : rec.xmax ∈ own
      · simp [hlt, hown]
        rfl
      · by_cases hrun : s.Running rec.xmax
        · simp [hlt, hown, hrun]
        · have hfin := h.finished rec.xmax ha hrun hown
          cases hst : x.status rec.xmax with
          | inProgress => exact absurd hst hfin
          | committed => simp [hlt, hown, hrun]
          | aborted => simp [hlt, hown, hrun]

/-- A creator that aborted before the horizon created nothing. -/
theorem not_created_of_abortedBefore (h : Consistent x own s) (hs : Stamped x rec)
    (ha : AbortedBefore x s rec.xmin) : ¬ Created x own rec s := by
  obtain ⟨hv, hlt, hst⟩ := ha
  obtain ⟨hown, -, -⟩ := finished_before h (hs.xmin hv) hlt
  rintro ⟨-, hc⟩
  rw [if_neg hown, hst] at hc
  exact absurd hc.1 (by decide)

/-- A deleter that aborted before the horizon deleted nothing. -/
theorem survives_of_abortedBefore (h : Consistent x own s) (hs : Stamped x rec)
    (ha : AbortedBefore x s rec.xmax) : Survives x own rec s := by
  obtain ⟨hv, hlt, hst⟩ := ha
  obtain ⟨hown, -, -⟩ := finished_before h (hs.xmax hv) hlt
  right
  rw [if_neg hown]
  exact Or.inl hst

/-- The freeze-horizon shortcut misjudges no aborted transaction: a creator that aborted before
the horizon left a record the reader sees as deleted, and a deleter that did so deleted a record
the reader does not see. -/
def FreezeSafe (x : XactState) (own : List Nat) (rec : RecordHeader) (s : FullSnapshot) : Prop :=
  (AbortedBefore x s rec.xmin → AbortedBefore x s rec.xmax ∨ ¬ Survives x own rec s) ∧
  (AbortedBefore x s rec.xmax → ¬ Created x own rec s)

theorem recordSatisfiesSnapshot_iff (h : Consistent x own s) (hs : Stamped x rec) :
    (recordSatisfiesSnapshot x own rec s.data = true ↔ Visible x own rec s) ↔
      FreezeSafe x own rec s := by
  unfold recordSatisfiesSnapshot Visible FreezeSafe
  rw [Bool.and_eq_true, creationVisible_iff h hs, deletionInvisible_iff h hs]
  have h1 := not_created_of_abortedBefore h hs
  have h2 := survives_of_abortedBefore h hs
  tauto

/-- **The visibility test of both record types is the reference rule exactly where the
freeze-horizon shortcut is safe.** -/
theorem record_satisfies_snapshot_iff (h : Consistent x own s) (ll : NeoLinkedListRecord)
    (arr : NeoArrayListRecord) (hll : Stamped x ll.toRecordHeader)
    (harr : Stamped x arr.toRecordHeader) :
    ((npRecordSatisfiesSnapshot x own ll s.data = true ↔ Visible x own ll.toRecordHeader s) ↔
      FreezeSafe x own ll.toRecordHeader s) ∧
    ((npArraylistRecordSatisfiesSnapshot x own arr s.data = true ↔
        Visible x own arr.toRecordHeader s) ↔
      FreezeSafe x own arr.toRecordHeader s) :=
  ⟨recordSatisfiesSnapshot_iff h hll, recordSatisfiesSnapshot_iff h harr⟩

end

/-! ## A state with an aborted transaction behind the horizon -/

/-- Transaction 5 aborted, 17 and 18 run, every other one before 20 committed. -/
def exampleXacts : XactState where
  nextFxid := 20
  status fxid :=
    if fxid = 5 then .aborted else if fxid = 17 ∨ fxid = 18 then .inProgress else .committed

/-- A snapshot of transaction 18 while 17 runs. -/
def exampleSnapshot : FullSnapshot := ⟨17, 19, [17], 2⟩

theorem consistent_example : Consistent exampleXacts [18] exampleSnapshot where
  next_lt := by decide
  xmin_normal := by decide
  xmax_normal := by decide
  xmin_le := by decide
  xmax_le := by decide
  window := by decide
  xip_mem := by decide
  own_mem := by decide
  finished := by
    intro y ⟨hlt, _⟩ hrun hown
    have h17 : y ≠ 17 := fun h => hrun (by rw [h]; decide)
    have h18 : y ≠ 18 := fun h => hown (by rw [h]; decide)
    show (if y = 5 then _ else if y = 17 ∨ y = 18 then _ else _) ≠ _
    rw [if_neg (show ¬ (y = 17 ∨ y = 18) by omega)]
    split <;> decide

/-- A linked-list record with this creator and deleter. -/
def exampleLinked (xmin xmax : Nat) : NeoLinkedListRecord where
  xmin := xmin
  xmax := xmax
  cmin := 0
  cmax := invalidCommandId
  id := 1
  edgeLid := 1
  dir := 0
  ownerId := 1
  otherId := 2
  otherLid := 1
  nextTbl := 0
  nextItemptr := .invalid
  prevTbl := 0
  prevItemptr := .invalid

/-- An array block with this creator and deleter. -/
def exampleArray (xmin xmax : Nat) : NeoArrayListRecord where
  xmin := xmin
  xmax := xmax
  cmin := 0
  cmax := invalidCommandId
  flags := 0
  ownerId := 1
  prevTbl := 0
  prevItemptr := .invalid
  nextItemptr := .invalid
  adjList := []

theorem stamped_example : Stamped exampleXacts (exampleLinked 7 5).toRecordHeader ∧
    Stamped exampleXacts (exampleArray 5 0).toRecordHeader :=
  ⟨⟨fun _ => ⟨by decide, by decide⟩, fun _ => ⟨by decide, by decide⟩⟩,
    ⟨fun _ => ⟨by decide, by decide⟩, fun h => absurd h (by decide)⟩⟩

/-- Committed record 7 deleted by the aborted 5, and block 5 that was never committed: the code
reads both the other way. -/
theorem record_satisfies_snapshot_example :
    ((npRecordSatisfiesSnapshot exampleXacts [18] (exampleLinked 7 5) exampleSnapshot.data = true ↔
        Visible exampleXacts [18] (exampleLinked 7 5).toRecordHeader exampleSnapshot) ↔
      FreezeSafe exampleXacts [18] (exampleLinked 7 5).toRecordHeader exampleSnapshot) ∧
    ((npArraylistRecordSatisfiesSnapshot exampleXacts [18] (exampleArray 5 0)
        exampleSnapshot.data = true ↔
        Visible exampleXacts [18] (exampleArray 5 0).toRecordHeader exampleSnapshot) ↔
      FreezeSafe exampleXacts [18] (exampleArray 5 0).toRecordHeader exampleSnapshot) :=
  record_satisfies_snapshot_iff consistent_example _ _ stamped_example.1 stamped_example.2

/-- The test loses a record whose deleter aborted and shows one whose creator aborted. -/
theorem record_satisfies_snapshot_fails :
    Consistent exampleXacts [18] exampleSnapshot ∧
    (Stamped exampleXacts (exampleLinked 7 5).toRecordHeader ∧
      npRecordSatisfiesSnapshot exampleXacts [18] (exampleLinked 7 5) exampleSnapshot.data = false ∧
      Visible exampleXacts [18] (exampleLinked 7 5).toRecordHeader exampleSnapshot) ∧
    (Stamped exampleXacts (exampleArray 5 0).toRecordHeader ∧
      npArraylistRecordSatisfiesSnapshot exampleXacts [18] (exampleArray 5 0)
        exampleSnapshot.data = true ∧
      ¬ Visible exampleXacts [18] (exampleArray 5 0).toRecordHeader exampleSnapshot) :=
  ⟨consistent_example, ⟨stamped_example.1, by decide, by decide⟩,
    ⟨stamped_example.2, by decide, by decide⟩⟩

end NeoPostGraph
