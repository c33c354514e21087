import NeoPostGraph.Adjacency.Record
import NeoPostGraph.Postgres.Varlena

/-!
# The bytes of an array block

`adj_list.h`, `np_adj_list.c:171-209` and the table access method of array lists (`np_arraylist.c`).
A list of members is built in memory as a value of variable length: a 4-byte header with its size,
`nitems`, `maxitems`, and the members in an array that is doubled when it is full. The table stores the
bytes behind the header; a reader puts a header of its own in front and takes the members.

* `AdjList`: a list in memory, whose members are inside its array.
* `payload`: what a block stores for a list of members. `readBack`: the members a reader takes from it.

Results:
* `buildChunk_data`: the list built for a chunk holds its members.
* `readBack_payload`: what is stored is read back.
-/

namespace NeoPostGraph

open Bytes

/-! ## Lists in memory -/

/-- `AdjList`: `nitems` is the number of the members. -/
structure AdjList where
  maxitems : Nat
  data : List AdjListMember
  pos : 0 < maxitems
  room : data.length ≤ maxitems

/-- `np_init_adj_list` (`np_adj_list.c:171-181`). -/
def npInitAdjList (initialCapacity : Nat) (h : 0 < initialCapacity) : AdjList :=
  ⟨initialCapacity, [], h, Nat.zero_le _⟩

/-- `np_append_adj_list` (`np_adj_list.c:183-197`). -/
def npAppendAdjList (list : AdjList) (member : AdjListMember) : AdjList where
  maxitems := if list.maxitems ≤ list.data.length then 2 * list.maxitems else list.maxitems
  data := list.data ++ [member]
  pos := by
    have hpos := list.pos
    split_ifs <;> omega
  room := by
    have hpos := list.pos
    have hroom := list.room
    rw [List.length_append, List.length_singleton]
    split_ifs <;> omega

/-- `np_trim_adj_list` (`np_adj_list.c:205-209`). -/
def npTrimAdjList (list : AdjList) (h : list.data ≠ []) : AdjList :=
  ⟨list.data.length, list.data, List.length_pos_iff.mpr h, Nat.le_refl _⟩

theorem foldl_append_data (members : List AdjListMember) (list : AdjList) :
    (members.foldl npAppendAdjList list).data = list.data ++ members := by
  induction members generalizing list with
  | nil => exact (List.append_nil _).symm
  | cons member members ih =>
    rw [List.foldl_cons, ih]
    unfold npAppendAdjList
    rw [List.append_assoc]
    rfl

/-- The list `np_insert_chunked_arraylist` builds for a chunk. -/
def buildChunk (chunk : List AdjListMember) (h : chunk ≠ []) : AdjList :=
  npTrimAdjList (chunk.foldl npAppendAdjList (npInitAdjList chunk.length (List.length_pos_iff.mpr h)))
    (by rw [foldl_append_data]; exact h)

/-- **The list built for a chunk holds its members**, and has no room left. -/
@[simp] theorem buildChunk_data (chunk : List AdjListMember) (h : chunk ≠ []) :
    (buildChunk chunk h).data = chunk :=
  foldl_append_data chunk _

@[simp] theorem buildChunk_maxitems (chunk : List AdjListMember) (h : chunk ≠ []) :
    (buildChunk chunk h).maxitems = chunk.length :=
  congrArg List.length (buildChunk_data chunk h)

/-! ## Bytes -/

/-- The bytes of a member, in the order of the packed struct. -/
def AdjListMember.bytes (m : AdjListMember) : List UInt8 :=
  le 8 m.edgeId ++ (le 4 m.edgeLid ++ (le 8 m.otherId ++ (le 4 m.otherLid ++ (le 1 m.dir ++
    (le 8 m.xmin ++ (le 8 m.xmax ++ (le 4 m.cmin ++ (le 4 m.cmax ++ (le 1 m.flags ++ [0, 0])))))))))

/-- The fields of a member are of their types. -/
structure AdjListMember.InRange (m : AdjListMember) : Prop where
  edgeId : m.edgeId < 256 ^ 8
  edgeLid : m.edgeLid < 256 ^ 4
  otherId : m.otherId < 256 ^ 8
  otherLid : m.otherLid < 256 ^ 4
  dir : m.dir < 256 ^ 1
  xmin : m.xmin < 256 ^ 8
  xmax : m.xmax < 256 ^ 8
  cmin : m.cmin < 256 ^ 4
  cmax : m.cmax < 256 ^ 4
  flags : m.flags < 256 ^ 1

/-- The bytes behind the header of a list in memory, up to its `VARSIZE`. -/
def AdjList.body (list : AdjList) : List UInt8 :=
  le 4 list.data.length ++ (le 4 list.maxitems ++ list.data.flatMap AdjListMember.bytes)

/-- What `nparraylist_tableam_tuple_insert` (`np_arraylist.c:254-305`) stores of a list: its bytes
without the header. -/
def AdjList.payload (list : AdjList) : List UInt8 := vardataAny (withVarsize list.body)

/-- A number of `k` bytes at a place. -/
def readNat (buf : List UInt8) (p k : Nat) : Option Nat := (slice buf p k).map value

/-- The member at a place. -/
def readMember (buf : List UInt8) (p : Nat) : Option AdjListMember := do
  let edgeId ← readNat buf p 8
  let edgeLid ← readNat buf (p + 8) 4
  let otherId ← readNat buf (p + 12) 8
  let otherLid ← readNat buf (p + 20) 4
  let dir ← readNat buf (p + 24) 1
  let xmin ← readNat buf (p + 25) 8
  let xmax ← readNat buf (p + 33) 8
  let cmin ← readNat buf (p + 41) 4
  let cmax ← readNat buf (p + 45) 4
  let flags ← readNat buf (p + 49) 1
  return { xmin, xmax, cmin, cmax, edgeId, edgeLid, otherId, otherLid, dir, flags }

/-- The members `data[0]` to `data[n - 1]`, from a place on. -/
def readMembers (buf : List UInt8) : Nat → Nat → Option (List AdjListMember)
  | 0, _ => some []
  | n + 1, p => do
    let m ← readMember buf p
    let ms ← readMembers buf n (p + sizeOfAdjListMember)
    return m :: ms

/-- The members of a list: `nitems` of them; a negative number is none. -/
def adjListMembers (varlena : List UInt8) : Option (List AdjListMember) := do
  let nitems ← readNat varlena 4 4
  if nitems < 2 ^ 31 then readMembers varlena nitems 12 else some []

/-- The members a reader takes from a stored payload (`np_arraylist.c:144-205`): with a header in front
it is a list again. -/
def readBack (payload : List UInt8) : Option (List AdjListMember) := adjListMembers (withVarsize payload)

/-! ## What is stored is read back -/

section

variable {buf : List UInt8} {p k n : Nat} {m : AdjListMember} {ms : List AdjListMember}

theorem readNat_of_holds (h : Holds buf p (le k n)) (hn : n < 256 ^ k) : readNat buf p k = some n := by
  have hs := h.slice
  rw [length_le] at hs
  unfold readNat
  rw [hs, Option.map_some, value_le hn]

@[simp] theorem AdjListMember.length_bytes (m : AdjListMember) :
    m.bytes.length = sizeOfAdjListMember := by
  simp [AdjListMember.bytes, sizeOfAdjListMember]

theorem length_flatMap_bytes (ms : List AdjListMember) :
    (ms.flatMap AdjListMember.bytes).length = sizeOfAdjListMember * ms.length := by
  rw [List.length_flatMap]
  simp [Nat.mul_comm]

/-- A member that is held is read. -/
theorem readMember_of_holds (h : Holds buf p m.bytes) (hm : m.InRange) : readMember buf p = some m := by
  unfold AdjListMember.bytes at h
  simp only [holds_append_iff, length_le, Nat.add_assoc] at h
  obtain ⟨h₁, h₂, h₃, h₄, h₅, h₆, h₇, h₈, h₉, h₁₀, -⟩ := h
  unfold readMember
  rw [readNat_of_holds h₁ hm.edgeId, readNat_of_holds h₂ hm.edgeLid, readNat_of_holds h₃ hm.otherId,
    readNat_of_holds h₄ hm.otherLid, readNat_of_holds h₅ hm.dir, readNat_of_holds h₆ hm.xmin,
    readNat_of_holds h₇ hm.xmax, readNat_of_holds h₈ hm.cmin, readNat_of_holds h₉ hm.cmax,
    readNat_of_holds h₁₀ hm.flags]
  rfl

theorem readMembers_succ (buf : List UInt8) (n p : Nat) : readMembers buf (n + 1) p =
    (readMember buf p).bind fun m => (readMembers buf n (p + sizeOfAdjListMember)).bind fun ms =>
      some (m :: ms) := rfl

theorem readMembers_of_holds (h : Holds buf p (ms.flatMap AdjListMember.bytes))
    (hms : ∀ m ∈ ms, m.InRange) : readMembers buf ms.length p = some ms := by
  induction ms generalizing p with
  | nil => rfl
  | cons m ms ih =>
    rw [List.flatMap_cons, holds_append_iff, AdjListMember.length_bytes] at h
    have hrest := ih h.2 fun m' hm' => hms m' (List.mem_cons_of_mem _ hm')
    rw [List.length_cons, readMembers_succ, readMember_of_holds h.1 (hms m List.mem_cons_self), hrest]
    rfl

/-- What a block stores is what stands behind the header, if the list is as short as a chunk. -/
theorem AdjList.payload_eq (list : AdjList) (hsize : list.data.length ≤ maxEdgesPerBlock) :
    list.payload = list.body := by
  refine vardataAny_withVarsize ?_
  have hle : list.data.length ≤ 155 := hsize
  have hbody : list.body.length = 8 + 52 * list.data.length := by
    unfold AdjList.body
    rw [List.length_append, List.length_append, length_le, length_le, length_flatMap_bytes,
      sizeOfAdjListMember]
    omega
  rw [hbody, varhdrsz]
  omega

/-- **What is stored is read back.** -/
theorem readBack_payload (list : AdjList) (hsize : list.data.length ≤ maxEdgesPerBlock)
    (hin : ∀ m ∈ list.data, m.InRange) : readBack list.payload = some list.data := by
  have hle : list.data.length ≤ 155 := hsize
  rw [list.payload_eq hsize]
  have hholds : Holds (withVarsize list.body) 0 (withVarsize list.body) := ⟨[], [], by simp, rfl⟩
  unfold withVarsize AdjList.body at hholds
  simp only [holds_append_iff, length_le] at hholds
  obtain ⟨-, hitems, -, hdata⟩ := hholds
  unfold readBack adjListMembers
  have hn : readNat (withVarsize list.body) 4 4 = some list.data.length :=
    readNat_of_holds hitems (by omega)
  rw [hn]
  show (if list.data.length < 2 ^ 31 then readMembers _ _ 12 else some []) = _
  rw [if_pos (by omega)]
  exact readMembers_of_holds hdata hin

/-- The stored length of a block is that of its header and its payload. -/
theorem buildChunk_payload_length {chunk : List AdjListMember} (h : chunk ≠ [])
    (hsize : chunk.length ≤ maxEdgesPerBlock) :
    sizeOfNeoArrayListRecord + (buildChunk chunk h).payload.length = arrayListSize chunk.length := by
  rw [AdjList.payload_eq _ (by rwa [buildChunk_data]), AdjList.body, buildChunk_data,
    List.length_append, List.length_append, length_le, length_le, length_flatMap_bytes, arrayListSize]
  omega

end

end NeoPostGraph
