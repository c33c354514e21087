import NeoPostGraph.PhysMap.Slot
import NeoPostGraph.Postgres.Transam

/-!
# Adjacency records

The two storage formats of a vertex's adjacency (`np_linked_list.h`, `np_arraylist.h`,
`adj_list.h`). A linked-list record holds one direction of one edge; an array block holds many
members of one owner. Both start with the same transaction header, and so does each member.

An array block is stored with its payload `8 + 52 * nitems` bytes long after a 56-byte header. The
model keeps the members as a list, so `nitems` is its length, and `maxitems` is dropped: it is set
to `nitems` before a block is written and never read back.
-/

namespace NeoPostGraph

open SlottedPage

/-- The transaction header of a record: who created and who deleted it, at which command. -/
structure RecordHeader where
  xmin : Nat
  xmax : Nat
  cmin : Nat
  cmax : Nat
deriving DecidableEq, Repr

/-- `NeoLinkedListRecord`: one direction of one edge, in the chain of `ownerId`. -/
structure NeoLinkedListRecord extends RecordHeader where
  id : Nat
  edgeLid : Nat
  dir : Nat
  ownerId : Nat
  otherId : Nat
  otherLid : Nat
  nextTbl : Oid
  nextItemptr : ItemPointer
  prevTbl : Oid
  prevItemptr : ItemPointer
deriving DecidableEq, Repr

/-- `AdjListMember`: one direction of one edge inside an array block. -/
structure AdjListMember extends RecordHeader where
  edgeId : Nat
  edgeLid : Nat
  otherId : Nat
  otherLid : Nat
  dir : Nat
  flags : Nat
deriving DecidableEq, Repr

/-- `NeoArrayListRecord`: a block of members of one owner. -/
structure NeoArrayListRecord extends RecordHeader where
  flags : Nat
  ownerId : Nat
  prevTbl : Oid
  prevItemptr : ItemPointer
  nextItemptr : ItemPointer
  adjList : List AdjListMember
deriving DecidableEq, Repr

/-- `sizeof(NeoLinkedListRecord)`. -/
def sizeOfNeoLinkedListRecord : Nat := 77

/-- `SizeOfNeoArrayListRecord`: the header before the payload. -/
def sizeOfNeoArrayListRecord : Nat := 56

/-- `sizeof(AdjListMember)`. -/
def sizeOfAdjListMember : Nat := 52

/-- The stored length of a block of `n` members: the header, `nitems` and `maxitems`, the
members. -/
def arrayListSize (n : Nat) : Nat := sizeOfNeoArrayListRecord + 8 + sizeOfAdjListMember * n

/-- `MAX_EDGES_PER_BLOCK` (`np_adj_list.c:273`), with `MaxHeapTupleSize` 8160. -/
def maxEdgesPerBlock : Nat := (8160 - sizeOfNeoArrayListRecord) / sizeOfAdjListMember

@[simp] theorem maxEdgesPerBlock_eq : maxEdgesPerBlock = 155 := rfl

theorem fits_linkedListRecord : Fits sizeOfNeoLinkedListRecord := by decide

/-- **Every chunk the compactor cuts fits on a page.** -/
theorem fits_arrayListSize {n : Nat} (h : n ≤ maxEdgesPerBlock) : Fits (arrayListSize n) := by
  have h' : n ≤ 155 := h
  have hs : arrayListSize n = 64 + 52 * n := rfl
  have hmono : maxAlign (arrayListSize n) ≤ maxAlign (arrayListSize 155) := by
    rw [hs]
    unfold maxAlign arrayListSize sizeOfNeoArrayListRecord sizeOfAdjListMember
    omega
  have hmax : Fits (arrayListSize 155) := by decide
  unfold Fits at hmax ⊢
  omega

end NeoPostGraph
