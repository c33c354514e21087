import NeoPostGraph.Adjacency.ArrayBlock
import NeoPostGraph.Graph.Splice

/-!
# The blocks of a chunked array list

`np_insert_chunked_arraylist` (`np_adj_list.c:311-376`) cuts a list of members into chunks and writes a
block for each, behind the upstream node and in front of the downstream block. A block is written
before the one behind it, and its next pointer is set when that one has its place.

* `readBlocks`: the members a reader takes from some blocks, one block after the other.
* `ChunkedChain`: what the blocks of a list are.

Results:
* `npInsertChunkedArraylist_chain`: the function succeeds, and writes such blocks.
-/

namespace NeoPostGraph

open SlottedPage LinkedChain

/-- What a block stores for its members; none is written without a member. -/
def blockPayload (members : List AdjListMember) : List UInt8 :=
  if h : members ≠ [] then (buildChunk members h).payload else []

/-- The members a reader takes from the blocks, in order. -/
def readBlocks : BlockPath → Option (List AdjListMember)
  | [] => some []
  | x :: xs => (readBack (blockPayload x.2.adjList)).bind fun members =>
    (readBlocks xs).map fun rest => members ++ rest

/-- **The blocks of a list**, as `np_insert_chunked_arraylist` leaves them.

* They are new, and nothing else is written.
* From the first one, whose place is returned, next pointers lead through them in order and on to the
  downstream block.
* They are linked both ways, the first one back to the upstream node.
* Each is within the limit, and fits on a page.
* What they store is the list. -/
structure ChunkedChain (st st' : Store) (o : Oid) (vertexId : Nat) (adj : List AdjListMember)
    (prevTbl : Oid) (prevTid downstreamTid firstTid : ItemPointer) (blocks : BlockPath) : Prop where
  new : ∀ x ∈ blocks, x.1.1 = o ∧ st.node x.1 = none ∧ st'.node x.1 = some (.block x.2) ∧
    x.2.ownerId = vertexId
  others : ∀ b, b ∉ blocks.map Prod.fst → st'.node b = st.node b
  first : firstTid = (blocks.head?.map fun x => x.1.2).getD .invalid
  walk : adj ≠ [] → Seg st'.node AdjNode.next (cursor o firstTid) (toPath [] blocks)
    (cursor o downstreamTid)
  linked : BlocksLinked (storedItemPointer downstreamTid) (prevTbl, storedItemPointer prevTid) blocks
  bounded : ∀ x ∈ blocks, x.2.adjList.length ≤ maxEdgesPerBlock ∧
    Fits (sizeOfNeoArrayListRecord + (blockPayload x.2.adjList).length)
  content : readBlocks blocks = some adj

/-- No chunk is empty. -/
theorem ne_nil_of_mem_chunks {adj c : List AdjListMember} (h : c ∈ chunks adj) : c ≠ [] := by
  obtain ⟨i, hi, rfl⟩ := List.mem_map.mp h
  rw [List.mem_range, maxEdgesPerBlock_eq] at hi
  rw [maxEdgesPerBlock_eq, ← List.length_pos_iff, List.length_take, List.length_drop]
  omega

theorem blockPayload_length {members : List AdjListMember} (h : members ≠ [])
    (hlen : members.length ≤ maxEdgesPerBlock) :
    sizeOfNeoArrayListRecord + (blockPayload members).length = arrayListSize members.length := by
  unfold blockPayload
  rw [dif_pos h]
  exact buildChunk_payload_length h hlen

theorem readBack_blockPayload {members : List AdjListMember} (h : members ≠ [])
    (hlen : members.length ≤ maxEdgesPerBlock) (hin : ∀ m ∈ members, m.InRange) :
    readBack (blockPayload members) = some members := by
  unfold blockPayload
  rw [dif_pos h]
  have hread := readBack_payload (buildChunk members h) (by rwa [buildChunk_data])
    (by rwa [buildChunk_data])
  rwa [buildChunk_data] at hread

/-- Blocks that hold chunks are read back as the list of these. -/
theorem readBlocks_eq {blocks : BlockPath} (hne : ∀ x ∈ blocks, x.2.adjList ≠ [])
    (hlen : ∀ x ∈ blocks, x.2.adjList.length ≤ maxEdgesPerBlock)
    (hin : ∀ x ∈ blocks, ∀ m ∈ x.2.adjList, m.InRange) :
    readBlocks blocks = some (blocks.map fun x => x.2.adjList).flatten := by
  induction blocks with
  | nil => rfl
  | cons x xs ih =>
    have hx := readBack_blockPayload (hne x List.mem_cons_self) (hlen x List.mem_cons_self)
      (hin x List.mem_cons_self)
    have hxs := ih (fun y hy => hne y (List.mem_cons_of_mem _ hy))
      (fun y hy => hlen y (List.mem_cons_of_mem _ hy)) fun y hy => hin y (List.mem_cons_of_mem _ hy)
    unfold readBlocks
    rw [hx, hxs]
    rfl

/-- **`np_insert_chunked_arraylist` succeeds and writes the blocks of the list**, for a list of any
length and any two neighbours. -/
theorem npInsertChunkedArraylist_chain {db : Db} {o : Oid} (hfmt : db.store.format o = some .arrayList)
    (ho : oidIsValid o = true) (s : Session) (vertexId : Nat) {adj : List AdjListMember}
    (hin : ∀ m ∈ adj, m.InRange) (prevTbl : Oid) (prevTid downstreamTid : ItemPointer) :
    ∃ db' firstTid blocks,
      (npInsertChunkedArraylist s o vertexId adj prevTbl prevTid downstreamTid).Runs db firstTid db' ∧
      ChunkedChain db.store db'.store o vertexId adj prevTbl prevTid downstreamTid firstTid blocks := by
  by_cases hnil : adj = []
  · subst hnil
    refine ⟨db, .invalid, [], Prog.runs_ret_iff.mpr ⟨rfl, rfl⟩, by simp, fun _ _ => rfl, rfl,
      fun h => absurd rfl h, trivial, by simp, rfl⟩
  · obtain ⟨db', firstTid, blocks, hruns, hvalid, hcs, hblocks, hseg, hlinked, hwrites⟩ :=
      insertChunks_none_runs hfmt s vertexId prevTbl prevTid downstreamTid
        (fun c hc => length_le_of_mem_chunks hc) (chunks_ne_nil hnil) ho
    have hchunk : ∀ x ∈ blocks, x.2.adjList ∈ chunks adj := fun x hx => hcs ▸ List.mem_map_of_mem hx
    have hlen : ∀ x ∈ blocks, x.2.adjList.length ≤ maxEdgesPerBlock := fun x hx =>
      length_le_of_mem_chunks (hchunk x hx)
    have hfull : ∀ x ∈ blocks, x.2.adjList ≠ [] := fun x hx => ne_nil_of_mem_chunks (hchunk x hx)
    have hcursor : cursor o firstTid = some (o, firstTid) := cursor_eq_some.mpr ⟨rfl, hvalid, ho⟩
    have hnodes : ∀ x ∈ blocks, db'.store.node x.1 = some (.block x.2) := fun x hx =>
      hseg.get_of_mem (mem_toPath.mpr (Or.inr ⟨x, hx, rfl⟩))
    refine ⟨db', firstTid, blocks, hruns, fun x hx => ?_, hwrites.node, ?_, fun _ => ?_, hlinked,
      fun x hx => ⟨hlen x hx, ?_⟩, ?_⟩
    · obtain ⟨howner, hox, hnone⟩ := hblocks x hx
      exact ⟨hox, hnone, hnodes x hx, howner⟩
    · -- the walk starts at the first block
      cases blocks with
      | nil => exact absurd hcs.symm (chunks_ne_nil hnil)
      | cons x xs =>
        obtain ⟨hx, -⟩ := hseg.cons_inv
        exact congrArg Prod.snd (Option.some.inj hx)
    · rw [hcursor]
      exact hseg
    · rw [blockPayload_length (hfull x hx) (hlen x hx)]
      exact fits_arrayListSize (hlen x hx)
    · rw [readBlocks_eq hfull hlen fun x hx m hm => hin m ?_, hcs, chunks_flatten]
      rw [← chunks_flatten adj]
      exact List.mem_flatten_of_mem (hchunk x hx) hm

/-- A database with an empty table of array lists. -/
def exampleArrayDb : Db := (Db.empty ⟨6, fun _ => .committed⟩).setRel 7 (.arrayList Table.empty)

/-- One member more than a block takes: two blocks. -/
theorem npInsertChunkedArraylist_chain_example : ∃ db' firstTid blocks,
    (npInsertChunkedArraylist ⟨5, 1⟩ 7 1 (List.replicate 156 ⟨⟨5, 0, 1, 0⟩, 2, 1, 3, 1, 0, 0⟩) 9 ⟨0, 1⟩
      ⟨4, 2⟩).Runs exampleArrayDb firstTid db' ∧
    ChunkedChain exampleArrayDb.store db'.store 7 1
      (List.replicate 156 ⟨⟨5, 0, 1, 0⟩, 2, 1, 3, 1, 0, 0⟩) 9 ⟨0, 1⟩ ⟨4, 2⟩ firstTid blocks := by
  refine npInsertChunkedArraylist_chain rfl rfl ⟨5, 1⟩ 1 (fun m hm => ?_) 9 ⟨0, 1⟩ ⟨4, 2⟩
  rw [List.eq_of_mem_replicate hm]
  constructor <;> decide

end NeoPostGraph
