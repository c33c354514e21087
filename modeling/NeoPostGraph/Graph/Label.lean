import NeoPostGraph.Graph.State

/-!
# New labels

The parts of `build_vertex_label_infrastructure` (`label_commands.c:184-240`) and of
`create_elabel_internal` (`np_label.c:228-290`) that make the relations of `Graph.State`. A label id
comes from a sequence of the graph, so a new label never has the id of an old one; the runs of the
later modules state it where they create a label.
-/

namespace NeoPostGraph

open SlottedPage

/-- The relations of a new vertex label: all empty, with one partition, which is active. -/
def newVertexLabel (arraylist tbl : Oid) : VertexLabel where
  vertexTbl := Table.empty
  physMap := PhysMap.empty
  arraylist := arraylist
  linkedListMeta := [⟨1, tbl, true, false⟩]
  linkedListSeq := 2
  vertexIdSeq := 1

/-- `build_vertex_label_infrastructure` (`label_commands.c:184-240`), its relations. -/
def buildVertexLabelInfrastructure (l : Nat) : Op Unit :=
  Prog.write fun db =>
    let arraylist := db.nextOid
    let llTable := db.nextOid + 1
    let db := db.setRel arraylist (.arrayList Table.empty)
    let db := db.setRel llTable (.linkedList Table.empty)
    let db := db.setVertexLabel l (newVertexLabel arraylist llTable)
    return { db with nextOid := llTable + 1 }

/-- The relations of a new edge label. -/
def newEdgeLabel : EdgeLabel where
  vertexTbl := Table.empty
  physMap := PhysMap.empty

/-- `create_elabel_internal` (`np_label.c:228-290`), its relations. -/
def createElabelInternal (l : Nat) : Op Unit :=
  Prog.write fun db => return db.setEdgeLabel l newEdgeLabel

/-- `FirstNormalObjectId`. -/
def firstNormalObjectId : Nat := 16384

/-- A graph without labels. -/
def Db.empty (xacts : XactState) : Db where
  xacts := xacts
  vlabels := fun _ => none
  elabels := fun _ => none
  rels := fun _ => none
  nextOid := firstNormalObjectId

end NeoPostGraph
