import Mathlib.Logic.Function.Basic
import NeoPostGraph.Postgres.Transam

/-!
# Transactions begin and end

How the shared transaction state changes over a history that starts at some next id, `base`:
`GetNewTransactionId` hands out the next full id, and a transaction commits or aborts once.

* `Begun base t`, `Open base t`, `CommittedSince base t`: where transaction `t` of the history stands.
* `seen own t`: a session with the transaction ids `own` sees the work of `t`.
* `Later base x y`: nothing begun or committed in `x` is undone in `y`.

Results:
* `transactionIdIsCurrent_eq`, `transactionIdDidCommit_eq`, `transactionIdIsInProgress_eq`: asked for
  the low bits of a transaction of the history, the lookups answer for that transaction, as long as
  the history has used fewer than 2^32 ids.
-/

namespace NeoPostGraph

/-- `FullTransactionIdAdvance`: the next full id whose low bits are those of a normal id. -/
def fullTransactionIdAdvance (x : Nat) : Nat :=
  x + 1 + (firstNormalTransactionId - xidFromFull (x + 1))

theorem lt_fullTransactionIdAdvance (x : Nat) : x < fullTransactionIdAdvance x := by
  unfold fullTransactionIdAdvance
  omega

theorem fullTransactionIdAdvance_le (x : Nat) : fullTransactionIdAdvance x ≤ x + 4 := by
  unfold fullTransactionIdAdvance firstNormalTransactionId
  omega

theorem fullTransactionIdAdvance_normal (x : Nat) :
    firstNormalTransactionId ≤ xidFromFull (fullTransactionIdAdvance x) := by
  unfold fullTransactionIdAdvance firstNormalTransactionId xidFromFull
  omega

namespace XactState

variable {base t u : Nat} {own : List Nat} {x y z : XactState}

/-- `GetNewTransactionId`: the next id goes to a transaction, which runs. -/
def begin (x : XactState) : XactState where
  nextFxid := fullTransactionIdAdvance x.nextFxid
  status := Function.update x.status x.nextFxid .inProgress

/-- The transaction commits. -/
def commit (x : XactState) (fxid : Nat) : XactState :=
  { x with status := Function.update x.status fxid .committed }

/-- The transaction aborts. -/
def abort (x : XactState) (fxid : Nat) : XactState :=
  { x with status := Function.update x.status fxid .aborted }

/-- A transaction of the history. -/
def Begun (x : XactState) (base t : Nat) : Prop := base ≤ t ∧ x.Assigned t

/-- A transaction of the history that has not ended. -/
def Open (x : XactState) (base t : Nat) : Prop := x.Begun base t ∧ x.status t = .inProgress

/-- A transaction of the history that has committed. -/
def CommittedSince (x : XactState) (base t : Nat) : Prop :=
  x.Begun base t ∧ x.status t = .committed

/-- A session with these transaction ids sees the work of a transaction: its own or committed. -/
def seen (x : XactState) (own : List Nat) (t : Nat) : Bool :=
  decide (t ∈ own) || decide (x.status t = .committed)

/-- What the history has begun and committed stays so. -/
structure Later (base : Nat) (x y : XactState) : Prop where
  next_le : x.nextFxid ≤ y.nextFxid
  committed : ∀ t, x.CommittedSince base t → y.status t = .committed

theorem Begun.later (h : x.Begun base t) (hl : Later base x y) : y.Begun base t :=
  ⟨h.1, Nat.lt_of_lt_of_le h.2.1 hl.next_le, h.2.2⟩

theorem CommittedSince.later (h : x.CommittedSince base t) (hl : Later base x y) :
    y.CommittedSince base t :=
  ⟨h.1.later hl, hl.committed t h⟩

theorem Later.trans (h₁ : Later base x y) (h₂ : Later base y z) : Later base x z :=
  ⟨Nat.le_trans h₁.next_le h₂.next_le, fun _ ht => h₂.committed _ (ht.later h₁)⟩

theorem later_begin (base : Nat) (x : XactState) : Later base x x.begin where
  next_le := Nat.le_of_lt (lt_fullTransactionIdAdvance _)
  committed _ h := (Function.update_of_ne (Nat.ne_of_lt h.1.2.1) ..).trans h.2

theorem later_commit (base t : Nat) (x : XactState) : Later base x (x.commit t) where
  next_le := Nat.le_refl _
  committed u h := by
    by_cases hu : u = t
    · rw [hu]
      exact Function.update_self ..
    · exact (Function.update_of_ne hu ..).trans h.2

theorem later_abort (h : x.Open base t) : Later base x (x.abort t) where
  next_le := Nat.le_refl _
  committed u hu := by
    have hne : u ≠ t := fun he => by
      rw [he] at hu
      cases h.2.symm.trans hu.2
    exact (Function.update_of_ne hne ..).trans hu.2

/-- The transaction just begun is open. -/
theorem open_begin (hbase : base ≤ x.nextFxid)
    (hnormal : firstNormalTransactionId ≤ xidFromFull x.nextFxid) :
    x.begin.Open base x.nextFxid :=
  ⟨⟨hbase, lt_fullTransactionIdAdvance _, hnormal⟩, Function.update_self ..⟩

/-! ## The lookups answer for the full id -/

theorem transactionIdIsCurrent_eq (hroom : x.nextFxid ≤ base + 2 ^ 32)
    (hown : ∀ o ∈ own, x.Begun base o) (ht : x.Begun base t) :
    transactionIdIsCurrent own (xidFromFull t) = decide (t ∈ own) := by
  unfold transactionIdIsCurrent
  rw [Bool.eq_iff_iff, List.any_eq_true, decide_eq_true_eq]
  constructor
  · rintro ⟨o, ho, he⟩
    have h₁ := hown o ho
    have h₂ := h₁.2.1
    have h₃ := ht.2.1
    rwa [← xidFromFull_inj (by have := h₁.1; have := ht.1; omega)
      (by have := h₁.1; have := ht.1; omega) (beq_iff_eq.mp he)]
  · intro hm
    exact ⟨t, hm, beq_self_eq_true _⟩

theorem widen_eq (hroom : x.nextFxid ≤ base + 2 ^ 32) (ht : x.Begun base t) :
    widen x.nextFxid (xidFromFull t) = t :=
  widen_of_lt ht.2.1 (by have := ht.1; omega)

theorem transactionIdDidCommit_eq (hroom : x.nextFxid ≤ base + 2 ^ 32) (ht : x.Begun base t) :
    transactionIdDidCommit x (xidFromFull t) = decide (x.status t = .committed) := by
  unfold transactionIdDidCommit
  rw [widen_eq hroom ht]

theorem transactionIdIsInProgress_eq (hroom : x.nextFxid ≤ base + 2 ^ 32) (ht : x.Begun base t) :
    transactionIdIsInProgress x (xidFromFull t) = decide (x.status t = .inProgress) := by
  unfold transactionIdIsInProgress
  rw [widen_eq hroom ht]

theorem Begun.valid (h : x.Begun base t) : fullXidIsValid t = true :=
  fullXidIsValid_of_normal h.2.2

end XactState

end NeoPostGraph
