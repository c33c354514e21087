import NeoPostGraph.Storage.DropGraph

/-!
# Moving and renaming a graph

`alter_graph` moves the relations of a graph that are in its schema to another one, and leaves those in
the extension's schema where they are; `rename_graph` changes the row of `np_graph` only, since the names
of the relations have the id of the graph in them.

* `alterGraph`, `renameGraph`: the two calls.
* `MoveCall`, `MoveRun`: histories with them.

The relations are moved in one command, which reads `pg_class` as it was: what it has moved already is
neither seen in its old schema nor in the new one. The number of relations in the notice is counted in
this way and always 0; it is left out.

A call reads the row of a graph in `np_graph`: a row that a backend has cached from before a move, with
the schema the graph had, is not modelled. Ids are as their sequences return them, not cut to 32 bits.
-/

namespace NeoPostGraph.Storage

variable {db db' seen : ObjectDb} {os : List Oid} {o oldNsp newNsp : Oid} {u : Unit}

namespace ObjectDb

/-- `get_rel_namespace`. -/
def getRelNamespace (db : ObjectDb) (o : Oid) : Option Oid :=
  (db.pgClass.find? fun c => c.oid = o).map PgClass.relnamespace

/-- Relations move to another schema, and their indexes with them. -/
def moveRelations (os : List Oid) (newNsp : Oid) (db : ObjectDb) : ObjectDb :=
  { db with
    pgClass := db.pgClass.map fun c => if Covered os c then { c with relnamespace := newNsp } else c }

/-- A relation of the name of this one is in the schema. -/
def nameTaken (db : ObjectDb) (newNsp : Oid) (c : PgClass) : Bool :=
  (db.getRelnameRelid c.relname newNsp).isSome

end ObjectDb

/-- `AlterObjectNamespace_oid` of a relation, an error when the schema has a relation of its name or of
the name of one of its indexes. -/
def alterObjectNamespaceOid (seen : ObjectDb) (newNsp o : Oid) : StorageOp Unit :=
  Prog.write fun db =>
    match seen.pgClass.find? fun c => Covered [o] c ∧ seen.nameTaken newNsp c with
    | some c => .error (.relationExists c.relname)
    | none => .ok (db.moveRelations [o] newNsp)

/-- `np_move_rel_to_namespace` (`np_graph.c:260-268`). -/
def npMoveRelToNamespace (seen : ObjectDb) (oldNsp newNsp o : Oid) : StorageOp Unit :=
  if seen.getRelNamespace o = some oldNsp then alterObjectNamespaceOid seen newNsp o else return ()

/-- The loop of `alter_graph`. -/
def moveRels (seen : ObjectDb) (oldNsp newNsp : Oid) : List Oid → StorageOp Unit
  | [] => return ()
  | o :: rest => do
    npMoveRelToNamespace seen oldNsp newNsp o
    moveRels seen oldNsp newNsp rest

/-- `np_catalog_update` of the row of a graph. -/
def updateGraph (name : String) (ns : Oid) (upd : NpGraphRow → NpGraphRow) : StorageOp Unit :=
  Prog.write fun db =>
    match db.searchGraph name ns with
    | none => .error (.graphDoesNotExist name)
    | some graph => .ok (.commandCounterIncrement { db with
        npGraph := db.npGraph.map fun gr => if gr = graph then upd gr else gr })

/-- `alter_graph` (`np_graph.c:270-390`). -/
def alterGraph (name : String) (newNsp oldNsp : Oid) : StorageOp Unit := do
  let graph ← findGraph name oldNsp
  if newNsp = oldNsp then return ()
  else do
    checkNoGraph name newNsp
    let oids ← npCollectGraphNamespaceRels graph
    let seen ← Prog.read .ok
    moveRels seen oldNsp newNsp oids
    updateGraph name oldNsp fun graph => { graph with namespaceOid := newNsp }

/-- `rename_graph` (`np_graph.c:392-488`). -/
def renameGraph (name newName : String) (nsp : Oid) : StorageOp Unit := do
  let _ ← findGraph name nsp
  if name = newName then return ()
  else do
    checkNoGraph newName nsp
    updateGraph name nsp fun graph => { graph with name := newName }

/-! ## Histories -/

/-- A call, one that moves or renames a graph among them. -/
inductive MoveCall where
  | storage (c : StorageCall)
  | alterGraph (name : String) (newNsp oldNsp : Oid)
  | renameGraph (name newName : String) (nsp : Oid)
deriving DecidableEq, Repr

/-- What the call does. -/
def MoveCall.run : MoveCall → StorageOp Unit
  | storage c => c.run
  | alterGraph name newNsp oldNsp => Storage.alterGraph name newNsp oldNsp
  | renameGraph name newName nsp => Storage.renameGraph name newName nsp

/-- A graph is not moved out of the extension's own schema, nor by a command that has given one of its
edge labels a table for annotations and does not see it. -/
def MoveCall.Safe (db : ObjectDb) : MoveCall → Prop
  | alterGraph name _ oldNsp => oldNsp ≠ npNamespaceId ∧ ∀ graph ∈ db.npGraph, graph.name = name →
      graph.namespaceOid = oldNsp → ∀ row ∈ db.edgeLabels graph.edgeLabels,
        row.annotationsSeen = row.annotationsTbl
  | _ => True

instance (db : ObjectDb) : DecidablePred (MoveCall.Safe db) := fun c => match c with
  | .storage _ => inferInstanceAs (Decidable True)
  | .renameGraph .. => inferInstanceAs (Decidable True)
  | .alterGraph name _ oldNsp => inferInstanceAs (Decidable (oldNsp ≠ npNamespaceId ∧
      ∀ graph ∈ db.npGraph, graph.name = name → graph.namespaceOid = oldNsp →
        ∀ row ∈ db.edgeLabels graph.edgeLabels, row.annotationsSeen = row.annotationsTbl))

/-- The state before the running transaction, and now, in a history with moves and renames. -/
inductive MoveRun : ObjectDb → ObjectDb → Prop where
  | start : MoveRun .empty .empty
  | call {before db db' : ObjectDb} {u : Unit} (h : MoveRun before db) (c : MoveCall)
      (hs : c.Safe db) (hr : c.run.Runs db u db') : MoveRun before db'
  | nextCommand {before db : ObjectDb} (h : MoveRun before db) :
      MoveRun before db.commandCounterIncrement
  | commit {before db : ObjectDb} (h : MoveRun before db) :
      MoveRun db.commandCounterIncrement db.commandCounterIncrement
  | abort {before db : ObjectDb} (h : MoveRun before db) :
      MoveRun (before.rollback db) (before.rollback db)
  | fail {before db db' : ObjectDb} {e : StorageErr} (h : MoveRun before db) (c : MoveCall)
      (hr : c.run.exec db = (.error e, db')) : MoveRun (before.rollback db') (before.rollback db')

end NeoPostGraph.Storage
