import NeoPostGraph.Graph.Relabel

/-!
# Changing the label of an edge

`set_edge_label` and `remove_edge_label` (`dml_labels.c:1884-2317`). An edge moves to the stores of the
target label: the code copies it with the target's label id, deletes it under its old label, and
inserts the copy between the same two vertices. The id is copied too, although each label draws its
ids from a sequence of its own.

As for vertices, the target label is an argument. Between the delete and the insert the command
counter goes on, so the two carry different command ids.
-/

namespace NeoPostGraph

open SlottedPage

/-- `CommandCounterIncrement`, after a command that wrote. -/
def Session.nextCommand (s : Session) : Session := { s with cid := s.cid + 1 }

/-- The read of the old slot, which does not check its line pointer. -/
def readOldEdgeSlot (l id : Nat) : Op NeoEdgePhysMapRecord :=
  readEdgeLabel l (.edgeLabelNotFound l) fun _ lab =>
    readItem lab.physMap.table (edgeSlot id) .undefinedRead

/-- Steps 2 to 7, which `set_edge_label` and `remove_edge_label` share. -/
def relabelEdge (u : Unspecified) (fuel : Nat) (s : Session) (edgeId currentLabelId targetLabelId :
    Nat) : Op Edge := do
  let pmapRec ← readOldEdgeSlot currentLabelId edgeId
  let oldTuple ← readEdgeLabel currentLabelId (.edgeLabelNotFound currentLabelId) fun x lab =>
    checkTuple x s.own lab.vertexTbl pmapRec.eItemptr .undefinedRead
      (.edgeConcurrentlyUpdated edgeId)
  let newE : Edge := { oldTuple.entity with labelId := targetLabelId }
  npInternalDeleteEdge fuel s currentLabelId edgeId
  let s' := s.nextCommand
  let startV ← npInternalFetchVertex s' newE.startLabel newE.startId
  let endV ← npInternalFetchVertex s' newE.endLabel newE.endId
  npInternalInsertEdge u s' startV endV newE oldTuple.props
  return newE

/-- The label cache entry of the current label has to be there. -/
def checkEdgeLabel (l : Nat) : Op Unit :=
  readEdgeLabel l (.edgeLabelNotFound l) fun _ _ => return ()

/-- `set_edge_label` (`dml_labels.c:1884-1984`): nothing to do when the target is the current
label. -/
def setEdgeLabel (u : Unspecified) (fuel : Nat) (s : Session)
    (edgeId currentLabelId targetLabelId : Nat) : Op (Option Edge) := do
  checkEdgeLabel currentLabelId
  if targetLabelId = currentLabelId then return none
  else do
    let newE ← relabelEdge u fuel s edgeId currentLabelId targetLabelId
    return some newE

/-- `remove_edge_label` (`dml_labels.c:2221-2317`): the sibling, which differs in how it finds the
target label. -/
def removeEdgeLabel (u : Unspecified) (fuel : Nat) (s : Session)
    (edgeId currentLabelId targetLabelId : Nat) : Op (Option Edge) := do
  checkEdgeLabel currentLabelId
  if targetLabelId = currentLabelId then return none
  else do
    let newE ← relabelEdge u fuel s edgeId currentLabelId targetLabelId
    return some newE

end NeoPostGraph
