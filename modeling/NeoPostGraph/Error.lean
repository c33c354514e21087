import Mathlib.Data.Nat.Notation

/-!
# Errors

Every `ereport(ERROR, …)` and `elog(ERROR, …)` the modelled functions can raise, with the text of
its message. One graph is modelled, so its id and name are arguments of `Err.message` rather
than of the errors that print them.
-/

namespace NeoPostGraph

/-- The errors raised by the modelled code. -/
inductive Err where
  /-- `np_internal_insert_vertex`, `update_vertex`. -/
  | labelNotFound (labelId : ℕ)
  /-- `update_edge`, `np_internal_delete_edge`. -/
  | edgeLabelNotFound (labelId : ℕ)
  /-- `np_internal_insert_edge`. -/
  | edgeLabelTableNotFound
  /-- `delete_vertex`. -/
  | vertexLabelNotFound (labelId : ℕ)
  /-- `set_vertex_label`, `remove_vertex_label`. -/
  | labelIdNotFound (labelId : ℕ)
  /-- `compact_oldest_linked_list_table`. -/
  | labelNotFoundForGraph (labelId : ℕ)
  /-- `rotate_active_linked_list_table_internal`. -/
  | noLinkedListSetup
  /-- `insert_edge_one_direction`. -/
  | missingPhysMap
  /-- `insert_edge_one_direction`. -/
  | noActiveLinkedList
  /-- `insert_edge_one_direction`. -/
  | unknownOldHeadFormat
  /-- `update_edge_prev_pointer`. -/
  | prevOnInvalidTuple
  /-- `np_update_arraylist_prev_pointer_inplace`. -/
  | prevOnInvalidArraylist
  /-- `update_vertex`, `update_edge`, `delete_vertex`, `np_internal_delete_edge`. -/
  | physMapTableEmpty
  /-- `update_vertex`, `update_edge`, `delete_vertex`, `np_internal_delete_edge`. -/
  | physMapNotFound
  /-- `update_vertex`. -/
  | corruptedPhysMap
  /-- `delete_vertex`. -/
  | corruptedPhysMapVertex (vertexId : ℕ)
  /-- `update_edge`, `np_internal_delete_edge`. -/
  | corruptedPhysMapEdge (edgeId : ℕ)
  /-- `update_vertex`, `delete_vertex`, `set_vertex_label`, `remove_vertex_label`. -/
  | vertexConcurrentlyUpdated (vertexId : ℕ)
  /-- `update_edge`, `np_internal_delete_edge`. -/
  | edgeConcurrentlyUpdated (edgeId : ℕ)
  /-- `delete_vertex`. -/
  | activeEdges (vertexId : ℕ)
  /-- `np_delete_edge_from_adj_list`. -/
  | invalidLinePointer
  /-- `np_delete_edge_from_adj_list`. -/
  | unknownAdjacencyFormat
  /-- `np_internal_fetch_vertex`. -/
  | vertexNotLive (vertexId : ℕ)
  /-- `np_internal_fetch_edge`. -/
  | edgeNotLive (edgeId : ℕ)
  /-- `remove_vertex_label`. -/
  | alreadyMigrated (vertexId : ℕ)
  /-- `np_overwrite_physmap_in_page`. -/
  | physMapOverwriteFailed
  /-- `update_vertex_phys_map`. -/
  | physMapPositionalUpdateFailed
  /-- `np_write_record_to_page`. -/
  | addTupleFailed
  /-- `compact_oldest_linked_list_table`. -/
  | compactionRotateFailed
  /-- `np_update_next_pointer_inplace`. -/
  | nextOnInvalidTuple
  /-- `np_update_arraylist_next_pointer_inplace`. -/
  | nextOnInvalidArraylist
  /-- `compact_oldest_linked_list_table`. -/
  | unknownUpstreamFormat
  /-- PostgreSQL's `ReadBuffer` on a block past the end of the file. -/
  | couldNotReadBlock (block : ℕ)
  /-- PostgreSQL's `table_open` on an oid with no relation. -/
  | couldNotOpenRelation (oid : ℕ)
  /-- PostgreSQL's `repalloc` on a pointer it did not allocate. -/
  | invalidChunk
  /-- Not raised: the code reads an item through a line pointer that is not normal, and goes on with
  the bytes it finds. -/
  | undefinedRead
  /-- Not raised: the fuel of a model loop ran out before the loop of the code ended. -/
  | outOfFuel
deriving DecidableEq, Repr

/-- The text of an error, for the graph of this id and name. -/
def Err.message (graphId : ℕ) (graphName : String) : Err → String
  | labelNotFound labelId => s!"label not found: graph_id={graphId}, label_id={labelId}"
  | edgeLabelNotFound labelId => s!"edge label not found: graph_id={graphId}, label_id={labelId}"
  | edgeLabelTableNotFound => "Edge label table not found"
  | vertexLabelNotFound labelId =>
    s!"Vertex label not found: graph_id={graphId}, label_id={labelId}"
  | labelIdNotFound labelId => s!"label {labelId} not found"
  | labelNotFoundForGraph labelId =>
    s!"NeoPostGraph: Label {labelId} not found for graph '" ++ graphName ++ "'"
  | noLinkedListSetup => "label does not have linked list setup"
  | missingPhysMap => "Missing phys_map or linked_list_meta"
  | noActiveLinkedList => "No active linked list"
  | unknownOldHeadFormat => "NeoPostGraph: Unknown old head format during insert_edge"
  | prevOnInvalidTuple =>
    "NeoPostGraph: attempted to update prev pointer on a dead or invalid tuple"
  | prevOnInvalidArraylist =>
    "NeoPostGraph: attempted in-place prev update on invalid arraylist tuple"
  | physMapTableEmpty => "Vertex ID not found in phys_map (table empty)"
  | physMapNotFound => "Vertex ID not found in phys_map"
  | corruptedPhysMap => "Corrupted phys_map: Pointer to empty line pointer"
  | corruptedPhysMapVertex vertexId =>
    s!"Corrupted phys_map: Pointer to empty line pointer for vertex {vertexId}"
  | corruptedPhysMapEdge edgeId =>
    s!"Corrupted phys_map: Pointer to empty line pointer for edge {edgeId}"
  | vertexConcurrentlyUpdated vertexId =>
    s!"Vertex ID {vertexId} was concurrently deleted or updated"
  | edgeConcurrentlyUpdated edgeId => s!"Edge ID {edgeId} was concurrently deleted or updated"
  | activeEdges vertexId =>
    s!"Cannot delete vertex {vertexId} because it still has active edges. Use DETACH DELETE."
  | invalidLinePointer => "NeoPostGraph: Traversed into an invalid line pointer in linked list"
  | unknownAdjacencyFormat => "NeoPostGraph: Unknown adjacency list table format"
  | vertexNotLive vertexId => s!"vertex id {vertexId} is not live"
  | edgeNotLive edgeId => s!"edge id {edgeId} is not live"
  | alreadyMigrated vertexId => s!"Vertex {vertexId} not found or already migrated"
  | physMapOverwriteFailed =>
    "NeoPostGraph: attempted to in-place update an invalid phys_map tuple"
  | physMapPositionalUpdateFailed => "NeoPostGraph: phys_map positional update failed"
  | addTupleFailed => "NeoPostGraph: Failed to add tuple to new page despite free space check"
  | compactionRotateFailed => "NeoPostGraph: Compaction failed to successfully rotate the label"
  | nextOnInvalidTuple =>
    "NeoPostGraph: attempted in-place update on invalid or dead tuple during compaction"
  | nextOnInvalidArraylist => "NeoPostGraph: attempted in-place update on invalid arraylist tuple"
  | unknownUpstreamFormat => "NeoPostGraph: Unknown upstream table format in compactor"
  | couldNotReadBlock block => s!"could not read block {block}"
  | couldNotOpenRelation oid => s!"could not open relation with OID {oid}"
  | invalidChunk => "repalloc called with invalid pointer"
  | undefinedRead => ""
  | outOfFuel => ""

/-- What succeeds in sequence succeeds in each part. -/
theorem bind_eq_ok {ε α β : Type} {x : Except ε α} {f : α → Except ε β} {b : β}
    (h : x.bind f = .ok b) : ∃ a, x = .ok a ∧ f a = .ok b := by
  cases x with
  | error e => cases h
  | ok a => exact ⟨a, rfl, h⟩

theorem ok_bind_eq {ε α β : Type} {a : α} {f : α → Except ε β} : ((Except.ok a : Except ε α) >>= f) = f a :=
  rfl

@[simp] theorem mapError_eq_ok {ε ε' α : Type} {x : Except ε α} {f : ε → ε'} {a : α} :
    x.mapError f = .ok a ↔ x = .ok a := by
  cases x with
  | error e => exact iff_of_false nofun nofun
  | ok b =>
    constructor <;>
    · intro h
      cases h
      rfl

end NeoPostGraph
