import Mathlib.Algebra.Group.Int.Defs
import Mathlib.Algebra.Group.Nat.Defs
import Mathlib.Data.List.Basic

/-!
# Transaction ids

What the extension uses of PostgreSQL's transaction manager: 64-bit full transaction ids in the
stored headers, 32-bit ids in every lookup. Both are natural numbers here, `fxid` and `xid` by name.

* `FullXidRelativeTo` is the extension's own, three times the same text (`np_linked_list.c:118-131`,
  `np_phys_map.c:124-137`, `np_arraylist.c:55-66`), with the 32-bit signed difference and the 64-bit
  sum of the C code.
* `XactState` is the shared state: the next id to assign and the fate of each transaction by full
  id. `TransactionIdDidCommit` and `TransactionIdIsInProgress` are asked for a 32-bit id, which
  `widen` resolves to the latest full id that has these low bits. The ids of the session asking are
  passed as `own`.

Results:
* `fullXidRelativeTo_exact`: within half the 32-bit range the conversion is exact, and its sum does
  not wrap.
* `widen_of_lt`: so is the lookup, within the whole range.
-/

namespace NeoPostGraph

/-- `InvalidCommandId`. -/
def invalidCommandId : Nat := 0xFFFFFFFF

/-- `InvalidFullTransactionId`. -/
def invalidFullTransactionId : Nat := 0

/-- `FirstNormalTransactionId`: smaller ids are never assigned to a transaction. -/
def firstNormalTransactionId : Nat := 3

/-- `XidFromFullTransactionId`: the low 32 bits. -/
def xidFromFull (x : Nat) : Nat := x % 2 ^ 32

/-- `FullTransactionIdIsValid`: the low 32 bits are not 0. -/
def fullXidIsValid (x : Nat) : Bool := decide (xidFromFull x ≠ 0)

/-- The signed 32-bit difference `(int32) (a - b)` of two ids. -/
def xidDiff (a b : Nat) : Int :=
  let d : Nat := (a + (2 ^ 32 - b % 2 ^ 32)) % 2 ^ 32
  if d < 2 ^ 31 then d else (d : Int) - 2 ^ 32

/-- `TransactionIdPrecedes`: modulo-2^31 comparison of normal ids. -/
def transactionIdPrecedes (id1 id2 : Nat) : Bool :=
  if id1 < firstNormalTransactionId ∨ id2 < firstNormalTransactionId then decide (id1 < id2)
  else decide (xidDiff id1 id2 < 0)

/-- `FullXidRelativeTo` (`np_linked_list.c:118-131`, `np_phys_map.c:124-137`,
`np_arraylist.c:55-66`). -/
def fullXidRelativeTo (rel : Nat) (xid : Nat) : Nat :=
  (((rel : Int) + xidDiff xid (xidFromFull rel)) % 2 ^ 64).toNat

/-- `FullTransactionIdPrecedes`. -/
def fullXidPrecedes (a b : Nat) : Bool := decide (a < b)

/-- The fate of a transaction. -/
inductive XidStatus where
  | inProgress
  | committed
  | aborted
deriving DecidableEq, Repr

/-- The transaction state shared by all sessions. -/
structure XactState where
  /-- `ReadNextFullTransactionId`. -/
  nextFxid : Nat
  /-- The fate of each assigned transaction. -/
  status : Nat → XidStatus

/-- A full id that was assigned to a transaction. -/
def XactState.Assigned (x : XactState) (fxid : Nat) : Prop :=
  fxid < x.nextFxid ∧ firstNormalTransactionId ≤ xidFromFull fxid

/-- The latest full id before `next` with these low 32 bits. -/
def widen (next : Nat) (xid : Nat) : Nat :=
  next - 1 - (next - 1 + (2 ^ 32 - xid % 2 ^ 32)) % 2 ^ 32

/-- `TransactionIdIsCurrentTransactionId`, for a session whose transaction has the ids `own`. -/
def transactionIdIsCurrent (own : List Nat) (xid : Nat) : Bool :=
  own.any fun o => xidFromFull o == xid

/-- `TransactionIdDidCommit`. -/
def transactionIdDidCommit (x : XactState) (xid : Nat) : Bool :=
  decide (x.status (widen x.nextFxid xid) = .committed)

/-- `TransactionIdIsInProgress`. -/
def transactionIdIsInProgress (x : XactState) (xid : Nat) : Bool :=
  decide (x.status (widen x.nextFxid xid) = .inProgress)

/-! ## The conversions are exact within their range -/

/-- The 32-bit difference of two full ids at most 2^31 apart is their difference. -/
theorem xidDiff_of_le {a b : Nat} (h1 : a < b + 2 ^ 31) (h2 : b ≤ a + 2 ^ 31) :
    xidDiff (xidFromFull a) (xidFromFull b) = (a : Int) - b := by
  unfold xidDiff xidFromFull
  simp only
  split <;> omega

theorem xidDiff_of_lt {a b : Nat} (h1 : a < b + 2 ^ 31) (h2 : b < a + 2 ^ 31) :
    xidDiff (xidFromFull a) (xidFromFull b) = (a : Int) - b :=
  xidDiff_of_le h1 (Nat.le_of_lt h2)

/-- Where the true sum is a full id, the 64-bit sum is that id. -/
theorem fullXidRelativeTo_of_diff {rel x xid : Nat} (hx : x < 2 ^ 64)
    (h : (rel : Int) + xidDiff xid (xidFromFull rel) = x) : fullXidRelativeTo rel xid = x := by
  unfold fullXidRelativeTo
  rw [h]
  omega

theorem fullXidRelativeTo_of_lt {rel x : Nat} (hrel : rel < 2 ^ 64)
    (h1 : x ≤ rel) (h2 : rel < x + 2 ^ 31) : fullXidRelativeTo rel (xidFromFull x) = x := by
  apply fullXidRelativeTo_of_diff (by omega)
  rw [xidDiff_of_lt (by omega) h2]
  omega

theorem transactionIdPrecedes_of_le {a b : Nat}
    (ha : firstNormalTransactionId ≤ xidFromFull a) (hb : firstNormalTransactionId ≤ xidFromFull b)
    (h1 : a < b + 2 ^ 31) (h2 : b ≤ a + 2 ^ 31) :
    transactionIdPrecedes (xidFromFull a) (xidFromFull b) = decide (a < b) := by
  unfold transactionIdPrecedes
  rw [if_neg (by omega), xidDiff_of_le h1 h2]
  congr 1
  simp only [eq_iff_iff]
  omega

theorem transactionIdPrecedes_of_lt {a b : Nat}
    (ha : firstNormalTransactionId ≤ xidFromFull a) (hb : firstNormalTransactionId ≤ xidFromFull b)
    (h1 : a < b + 2 ^ 31) (h2 : b < a + 2 ^ 31) :
    transactionIdPrecedes (xidFromFull a) (xidFromFull b) = decide (a < b) :=
  transactionIdPrecedes_of_le ha hb h1 (Nat.le_of_lt h2)

theorem widen_of_lt {next x : Nat} (h1 : x < next) (h2 : next ≤ x + 2 ^ 32) :
    widen next (xidFromFull x) = x := by
  unfold widen xidFromFull
  omega

/-- The latest full id with the low bits of an id that was assigned. -/
theorem widen_spec {next x : Nat} (h : x < next) : x ≤ widen next (xidFromFull x) ∧
    widen next (xidFromFull x) < next ∧ xidFromFull (widen next (xidFromFull x)) = xidFromFull x := by
  unfold widen xidFromFull
  omega

/-- An id more than 2^31 old that passes for one before the next is taken for another. -/
theorem widen_ne_of_old {next x : Nat} (hx : firstNormalTransactionId ≤ xidFromFull x)
    (hnext : firstNormalTransactionId ≤ xidFromFull next) (hold : x + 2 ^ 31 < next)
    (hp : transactionIdPrecedes (xidFromFull x) (xidFromFull next) = true) :
    widen next (xidFromFull x) ≠ x := by
  unfold transactionIdPrecedes at hp
  rw [if_neg (by omega), decide_eq_true_eq] at hp
  unfold xidDiff xidFromFull at hp
  unfold widen xidFromFull
  dsimp only at hp
  split at hp <;> omega

theorem xidFromFull_inj {a b : Nat} (h1 : a < b + 2 ^ 32) (h2 : b < a + 2 ^ 32)
    (h : xidFromFull a = xidFromFull b) : a = b := by
  unfold xidFromFull at h
  omega

theorem fullXidIsValid_of_normal {x : Nat}
    (h : firstNormalTransactionId ≤ xidFromFull x) : fullXidIsValid x = true := by
  unfold fullXidIsValid
  have h3 : firstNormalTransactionId = 3 := rfl
  simp only [decide_eq_true_eq]
  omega

/-- **The conversion is exact within half the 32-bit range**, in epoch 0 and across epochs: it gives
back the transaction's full id, the sum of the C code stays within a `uint64`, and no other id less
than 2^31 away has these low bits. -/
theorem fullXidRelativeTo_exact {rel x xid : Nat} (hx : x < 2 ^ 64) (hxid : xidFromFull x = xid)
    (hahead : x < rel + 2 ^ 31) (hbehind : rel ≤ x + 2 ^ 31) :
    fullXidRelativeTo rel xid = x ∧
    (0 ≤ (rel : Int) + xidDiff xid (xidFromFull rel) ∧
      (rel : Int) + xidDiff xid (xidFromFull rel) < 2 ^ 64) ∧
    ∀ y, xidFromFull y = xid → y < rel + 2 ^ 31 → rel < y + 2 ^ 31 →
      y = fullXidRelativeTo rel xid := by
  subst hxid
  have hsum : (rel : Int) + xidDiff (xidFromFull x) (xidFromFull rel) = x := by
    rw [xidDiff_of_le hahead hbehind]
    omega
  have hres : fullXidRelativeTo rel (xidFromFull x) = x := fullXidRelativeTo_of_diff hx hsum
  refine ⟨hres, by omega, ?_⟩
  intro y hy hy1 hy2
  rw [hres]
  exact xidFromFull_inj (by omega) (by omega) hy

/-- A reference at the start of epoch 1, and a transaction at the end of epoch 0. -/
theorem fullXidRelativeTo_exact_example :
    fullXidRelativeTo (2 ^ 32 + 5) 0xFFFFFFF0 = 0xFFFFFFF0 ∧
    (0 ≤ ((2 ^ 32 + 5 : Nat) : Int) + xidDiff 0xFFFFFFF0 (xidFromFull (2 ^ 32 + 5)) ∧
      ((2 ^ 32 + 5 : Nat) : Int) + xidDiff 0xFFFFFFF0 (xidFromFull (2 ^ 32 + 5)) < 2 ^ 64) ∧
    ∀ y, xidFromFull y = 0xFFFFFFF0 → y < 2 ^ 32 + 5 + 2 ^ 31 → 2 ^ 32 + 5 < y + 2 ^ 31 →
      y = fullXidRelativeTo (2 ^ 32 + 5) 0xFFFFFFF0 :=
  fullXidRelativeTo_exact (by decide) (by decide) (by decide) (by decide)

@[simp] theorem fullXidIsValid_invalid : fullXidIsValid invalidFullTransactionId = false := rfl

end NeoPostGraph
