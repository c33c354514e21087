import NeoPostGraph.Graph.Delete
import NeoPostGraph.Graph.Partition
import NeoPostGraph.Graph.Relabel

/-!
# The store as maps

What the graph store means, without pages: finite maps from addresses to tuples, slots and
adjacency nodes. `Db.store` reads it off the pages, and for every step of the DML functions a lemma
here says what the step does to it. The proofs above this module speak of maps only.

* `Store`: vertex and edge tuples and slots by label and tid, adjacency nodes by `Addr`, the
  format of each relation, the label rows.
* `AdjNode`: a node of an adjacency chain in either format, with the address of the node after it.

Results: for a step `f`, `f_inv` says what a successful run found and did, and `f_runs` when it
succeeds. A page write fills one fresh address (`write_inv` and its instances); an in-place update
changes one (`modify`); placing a slot may also fill empty slots around it with pads.
-/

namespace NeoPostGraph

open SlottedPage

/-! ## Nodes -/

/-- An adjacency address: a relation and a tid in it. -/
abbrev Addr := Oid × ItemPointer

/-- An adjacency node in one of the two formats. -/
inductive AdjNode where
  | linked (rec : NeoLinkedListRecord)
  | block (rec : NeoArrayListRecord)
deriving DecidableEq, Repr

/-- A pointer as the walks test it: both parts valid, or the end of the chain. -/
def cursor (tbl : Oid) (tid : ItemPointer) : Option Addr :=
  if tid.isValid && oidIsValid tbl then some (tbl, tid) else none

namespace AdjNode

/-- The node after the one at `a`. A block's successor is in the block's own relation. -/
def next (a : Addr) : AdjNode → Option Addr
  | linked rec => cursor rec.nextTbl rec.nextItemptr
  | block rec => cursor a.1 rec.nextItemptr

/-- The owner of a node. -/
def ownerId : AdjNode → Nat
  | linked rec => rec.ownerId
  | block rec => rec.ownerId

/-- The adjacency members of a node, those of a linked-list record as the array would hold it. -/
def members : AdjNode → List AdjListMember
  | linked rec => [rec.toMember]
  | block rec => rec.adjList

/-- Set the back pointer. -/
def setPrev (tbl : Oid) (tid : ItemPointer) : AdjNode → AdjNode
  | linked rec => linked { rec with prevTbl := tbl, prevItemptr := tid }
  | block rec => block { rec with prevTbl := tbl, prevItemptr := tid }

@[simp] theorem next_setPrev (a : Addr) (tbl : Oid) (tid : ItemPointer) (n : AdjNode) :
    (n.setPrev tbl tid).next a = n.next a := by cases n <;> rfl

@[simp] theorem ownerId_setPrev (tbl : Oid) (tid : ItemPointer) (n : AdjNode) :
    (n.setPrev tbl tid).ownerId = n.ownerId := by cases n <;> rfl

@[simp] theorem members_setPrev (tbl : Oid) (tid : ItemPointer) (n : AdjNode) :
    (n.setPrev tbl tid).members = n.members := by cases n <;> rfl

end AdjNode

theorem cursor_eq_some {tbl : Oid} {tid : ItemPointer} {a : Addr} :
    cursor tbl tid = some a ↔ a = (tbl, tid) ∧ tid.isValid = true ∧ oidIsValid tbl = true := by
  unfold cursor
  by_cases h : (tid.isValid && oidIsValid tbl) = true
  · rw [if_pos h, Option.some.injEq]
    rw [Bool.and_eq_true] at h
    exact ⟨fun he => ⟨he.symm, h⟩, fun he => he.1.symm⟩
  · rw [if_neg h]
    rw [Bool.and_eq_true] at h
    exact ⟨fun he => absurd he (by simp), fun he => absurd he.2 h⟩

@[simp] theorem cursor_invalid (tbl : Oid) : cursor tbl .invalid = none := by simp [cursor]

/-! ## The store -/

/-- The two formats of an adjacency relation. -/
inductive AdjFormat where
  | linkedList
  | arrayList
deriving DecidableEq, Repr

/-- The catalog side of a vertex label. -/
structure LabelInfo where
  arraylist : Oid
  linkedListMeta : List LinkedListMeta
  linkedListSeq : Nat
  vertexIdSeq : Nat

/-- The contents of the graph store, by address. -/
structure Store where
  xacts : XactState
  vlabel : Nat → Option LabelInfo
  vtuple : Nat × ItemPointer → Option (EntityTuple Vertex)
  vslot : Nat × ItemPointer → Option NeoPhysMapRecord
  elabel : Nat → Bool
  etuple : Nat × ItemPointer → Option (EntityTuple Edge)
  eslot : Nat × ItemPointer → Option NeoEdgePhysMapRecord
  format : Oid → Option AdjFormat
  node : Addr → Option AdjNode
  nextOid : Oid

/-- The catalog side of a label's relations. -/
def VertexLabel.info (lab : VertexLabel) : LabelInfo :=
  ⟨lab.arraylist, lab.linkedListMeta, lab.linkedListSeq, lab.vertexIdSeq⟩

/-- The format of a relation. -/
def AdjRelation.format : AdjRelation → AdjFormat
  | .linkedList _ => .linkedList
  | .arrayList _ => .arrayList

/-- The node at a tid of a relation. -/
def AdjRelation.node (r : AdjRelation) (tid : ItemPointer) : Option AdjNode :=
  match r with
  | .linkedList t => (t.get tid).map .linked
  | .arrayList t => (t.get tid).map .block

/-- The contents of a graph. -/
def Db.store (db : Db) : Store where
  xacts := db.xacts
  vlabel l := (db.vlabels l).map VertexLabel.info
  vtuple k := (db.vlabels k.1).bind (·.vertexTbl.get k.2)
  vslot k := (db.vlabels k.1).bind (·.physMap.table.get k.2)
  elabel l := (db.elabels l).isSome
  etuple k := (db.elabels k.1).bind (·.vertexTbl.get k.2)
  eslot k := (db.elabels k.1).bind (·.physMap.table.get k.2)
  format o := (db.rels o).map AdjRelation.format
  node a := (db.rels a.1).bind (·.node a.2)
  nextOid := db.nextOid

/-- A vertex by label and id. -/
abbrev VertexKey := Nat × Nat

/-- The key of a vertex value. -/
def Vertex.key (v : Vertex) : VertexKey := (v.labelId, v.id)

namespace Store

/-- The head of a vertex's chain. -/
def head (st : Store) (l id : Nat) : Option Addr :=
  (st.vslot (l, headSlot id)).bind fun rec => cursor rec.eTblId rec.eItemptr

/-- Write a node. -/
def putNode (st : Store) (a : Addr) (n : AdjNode) : Store :=
  { st with node := Function.update st.node a (some n) }

/-- Set the back pointer of the node at `h`, if there is one. -/
def setPrev (st : Store) (h : Option Addr) (a : Addr) : Store :=
  match h with
  | none => st
  | some h =>
    { st with node := Function.update st.node h ((st.node h).map (AdjNode.setPrev a.1 a.2)) }

/-- Move the head of a vertex. -/
def setHead (st : Store) (v : VertexKey) (a : Addr) : Store :=
  { st with
    vslot := Function.update st.vslot (v.1, headSlot v.2)
      ((st.vslot (v.1, headSlot v.2)).map fun rec => { rec with eTblId := a.1, eItemptr := a.2 }) }

@[simp] theorem node_putNode (st : Store) (a : Addr) (n : AdjNode) :
    (st.putNode a n).node = Function.update st.node a (some n) := rfl

theorem node_setPrev (st : Store) (h : Option Addr) (a b : Addr) :
    (st.setPrev h a).node b = st.node b ∨
      (st.setPrev h a).node b = (st.node b).map (AdjNode.setPrev a.1 a.2) := by
  unfold setPrev
  cases h with
  | none => exact Or.inl rfl
  | some h =>
    by_cases hb : b = h
    · subst hb
      exact Or.inr (Function.update_self ..)
    · exact Or.inl (Function.update_of_ne hb ..)

@[simp] theorem vlabel_setPrev (st : Store) (h : Option Addr) (a : Addr) :
    (st.setPrev h a).vlabel = st.vlabel := by
  unfold setPrev
  split <;> rfl

@[simp] theorem format_setPrev (st : Store) (h : Option Addr) (a : Addr) :
    (st.setPrev h a).format = st.format := by
  unfold setPrev
  split <;> rfl

@[simp] theorem nextOid_setPrev (st : Store) (h : Option Addr) (a : Addr) :
    (st.setPrev h a).nextOid = st.nextOid := by
  unfold setPrev
  split <;> rfl

@[simp] theorem vslot_setPrev (st : Store) (h : Option Addr) (a : Addr) :
    (st.setPrev h a).vslot = st.vslot := by
  unfold setPrev
  split <;> rfl

@[simp] theorem head_setPrev (st : Store) (h : Option Addr) (a : Addr) (l id : Nat) :
    (st.setPrev h a).head l id = st.head l id := by
  unfold head
  rw [vslot_setPrev]

end Store

/-! ## Steps on one label or relation -/

section Steps

variable {α : Type} {db db' : Db} {l : Nat} {o : Oid} {e : Err} {a : α}

theorem runs_onVertexLabel {f : XactState → VertexLabel → Except Err (α × VertexLabel)} :
    (onVertexLabel l e f).Runs db a db' ↔ ∃ lab lab', db.vlabels l = some lab ∧
      f db.xacts lab = .ok (a, lab') ∧ db' = db.setVertexLabel l lab' := by
  unfold onVertexLabel
  rw [Prog.runs_step_iff]
  cases db.vlabels l with
  | none => simp
  | some lab =>
    simp only [Option.some.injEq]
    cases hf : f db.xacts lab with
    | error e' => simp [Except.map, hf]
    | ok x =>
      simp only [Except.map, Except.ok.injEq, Prod.mk.injEq]
      constructor
      · rintro ⟨rfl, rfl⟩
        exact ⟨lab, x.2, rfl, hf, rfl⟩
      · rintro ⟨_, lab', rfl, hf', rfl⟩
        rw [hf] at hf'
        obtain rfl := Except.ok.inj hf'
        exact ⟨rfl, rfl⟩

theorem runs_readVertexLabel {f : XactState → VertexLabel → Except Err α} :
    (readVertexLabel l e f).Runs db a db' ↔
      ∃ lab, db.vlabels l = some lab ∧ f db.xacts lab = .ok a ∧ db' = db := by
  unfold readVertexLabel
  rw [Prog.runs_read_iff]
  cases db.vlabels l <;> simp

theorem runs_onEdgeLabel {f : XactState → EdgeLabel → Except Err (α × EdgeLabel)} :
    (onEdgeLabel l e f).Runs db a db' ↔ ∃ lab lab', db.elabels l = some lab ∧
      f db.xacts lab = .ok (a, lab') ∧ db' = db.setEdgeLabel l lab' := by
  unfold onEdgeLabel
  rw [Prog.runs_step_iff]
  cases db.elabels l with
  | none => simp
  | some lab =>
    simp only [Option.some.injEq]
    cases hf : f db.xacts lab with
    | error e' => simp [Except.map, hf]
    | ok x =>
      simp only [Except.map, Except.ok.injEq, Prod.mk.injEq]
      constructor
      · rintro ⟨rfl, rfl⟩
        exact ⟨lab, x.2, rfl, hf, rfl⟩
      · rintro ⟨_, lab', rfl, hf', rfl⟩
        rw [hf] at hf'
        obtain rfl := Except.ok.inj hf'
        exact ⟨rfl, rfl⟩

theorem runs_readEdgeLabel {f : XactState → EdgeLabel → Except Err α} :
    (readEdgeLabel l e f).Runs db a db' ↔
      ∃ lab, db.elabels l = some lab ∧ f db.xacts lab = .ok a ∧ db' = db := by
  unfold readEdgeLabel
  rw [Prog.runs_read_iff]
  cases db.elabels l <;> simp

theorem runs_onRel {f : AdjRelation → Except Err (α × AdjRelation)} :
    (onRel o f).Runs db a db' ↔ ∃ r r', db.rels o = some r ∧ f r = .ok (a, r') ∧
      db' = db.setRel o r' := by
  unfold onRel
  rw [Prog.runs_step_iff]
  cases db.rels o with
  | none => simp
  | some r =>
    simp only [Option.some.injEq]
    cases hf : f r with
    | error e' => simp [Except.map, hf]
    | ok x =>
      simp only [Except.map, Except.ok.injEq, Prod.mk.injEq]
      constructor
      · rintro ⟨rfl, rfl⟩
        exact ⟨r, x.2, rfl, hf, rfl⟩
      · rintro ⟨_, r', rfl, hf', rfl⟩
        rw [hf] at hf'
        obtain rfl := Except.ok.inj hf'
        exact ⟨rfl, rfl⟩

theorem runs_readRel {f : AdjRelation → Except Err α} :
    (readRel o f).Runs db a db' ↔ ∃ r, db.rels o = some r ∧ f r = .ok a ∧ db' = db := by
  unfold readRel
  rw [Prog.runs_read_iff]
  cases db.rels o <;> simp

theorem onVertexLabel_runs {f : XactState → VertexLabel → Except Err (α × VertexLabel)}
    {lab lab' : VertexLabel} (h : db.vlabels l = some lab) (hf : f db.xacts lab = .ok (a, lab')) :
    ∃ db', (onVertexLabel l e f).Runs db a db' :=
  ⟨_, runs_onVertexLabel.mpr ⟨lab, lab', h, hf, rfl⟩⟩

theorem onEdgeLabel_runs {f : XactState → EdgeLabel → Except Err (α × EdgeLabel)}
    {lab lab' : EdgeLabel} (h : db.elabels l = some lab) (hf : f db.xacts lab = .ok (a, lab')) :
    ∃ db', (onEdgeLabel l e f).Runs db a db' :=
  ⟨_, runs_onEdgeLabel.mpr ⟨lab, lab', h, hf, rfl⟩⟩

theorem onRel_runs {f : AdjRelation → Except Err (α × AdjRelation)} {r r' : AdjRelation}
    (h : db.rels o = some r) (hf : f r = .ok (a, r')) : ∃ db', (onRel o f).Runs db a db' :=
  ⟨_, runs_onRel.mpr ⟨r, r', h, hf, rfl⟩⟩

/-! ## The store after an update of one relation -/

variable {lab : VertexLabel} {elab' : EdgeLabel} {r : AdjRelation}

theorem store_setVertexTbl (h : db.vlabels l = some lab) {t : Table (EntityTuple Vertex)}
    {tid : ItemPointer} {x : Option (EntityTuple Vertex)}
    (ht : ∀ tid', t.get tid' = if tid' = tid then x else lab.vertexTbl.get tid') :
    (db.setVertexLabel l { lab with vertexTbl := t }).store =
      { db.store with vtuple := Function.update db.store.vtuple (l, tid) x } := by
  unfold Db.store Db.setVertexLabel
  simp only [Store.mk.injEq, true_and, and_true]
  refine ⟨?_, ?_, ?_⟩
  · funext l'
    by_cases hl : l' = l
    · subst hl
      simp [h, VertexLabel.info]
    · simp [hl]
  · funext ⟨l', tid'⟩
    by_cases hl : l' = l
    · subst hl
      simp only [Function.update_self, Option.bind_some, ht, Function.update_apply, Prod.mk.injEq,
        true_and, h]
    · simp [hl]
  · funext ⟨l', tid'⟩
    by_cases hl : l' = l
    · subst hl
      simp [h]
    · simp [hl]

theorem store_setPhysMap (h : db.vlabels l = some lab)
    (m : PhysMap NeoPhysMapRecord sizeOfNeoPhysMapRecord) :
    (db.setVertexLabel l { lab with physMap := m }).store =
      { db.store with vslot := fun k => if k.1 = l then m.table.get k.2 else db.store.vslot k } := by
  unfold Db.store Db.setVertexLabel
  simp only [Store.mk.injEq, true_and, and_true]
  refine ⟨?_, ?_, ?_⟩
  · funext l'
    by_cases hl : l' = l
    · subst hl
      simp [h, VertexLabel.info]
    · simp [hl]
  · funext ⟨l', tid'⟩
    by_cases hl : l' = l
    · subst hl
      simp [h]
    · simp [hl]
  · funext ⟨l', tid'⟩
    by_cases hl : l' = l
    · subst hl
      simp
    · simp [hl]

/-- An in-place update of a slot of the map changes that slot. -/
theorem store_modifySlot (h : db.vlabels l = some lab) (tid : ItemPointer)
    (f : NeoPhysMapRecord → NeoPhysMapRecord)
    {m : PhysMap NeoPhysMapRecord sizeOfNeoPhysMapRecord}
    (hm : m.table = lab.physMap.table.modify tid f) :
    (db.setVertexLabel l { lab with physMap := m }).store =
      { db.store with
        vslot := Function.update db.store.vslot (l, tid) ((db.store.vslot (l, tid)).map f) } := by
  rw [store_setPhysMap h, hm]
  simp only [Store.mk.injEq, true_and, and_true]
  funext ⟨l', tid'⟩
  by_cases hl : l' = l
  · subst hl
    have hs : ∀ tid, db.store.vslot (l', tid) = lab.physMap.table.get tid := by
      intro tid
      simp [Db.store, h]
    simp only [if_true, Table.get_modify, Function.update_apply, Prod.mk.injEq, true_and, hs]
    by_cases ht : tid' = tid
    · subst ht
      simp
    · simp [ht]
  · simp [hl]

theorem store_setInfo (h : db.vlabels l = some lab) {lab' : VertexLabel}
    (h1 : lab'.vertexTbl = lab.vertexTbl) (h2 : lab'.physMap = lab.physMap) :
    (db.setVertexLabel l lab').store =
      { db.store with vlabel := Function.update db.store.vlabel l (some lab'.info) } := by
  unfold Db.store Db.setVertexLabel
  simp only [Store.mk.injEq, true_and, and_true]
  refine ⟨?_, ?_, ?_⟩
  · funext l'
    by_cases hl : l' = l
    · subst hl
      simp
    · simp [hl]
  · funext ⟨l', tid'⟩
    by_cases hl : l' = l
    · subst hl
      simp [h, h1]
    · simp [hl]
  · funext ⟨l', tid'⟩
    by_cases hl : l' = l
    · subst hl
      simp [h, h2]
    · simp [hl]

theorem store_setEdgeTbl (h : db.elabels l = some elab') {t : Table (EntityTuple Edge)}
    {tid : ItemPointer} {x : Option (EntityTuple Edge)}
    (ht : ∀ tid', t.get tid' = if tid' = tid then x else elab'.vertexTbl.get tid') :
    (db.setEdgeLabel l { elab' with vertexTbl := t }).store =
      { db.store with etuple := Function.update db.store.etuple (l, tid) x } := by
  unfold Db.store Db.setEdgeLabel
  simp only [Store.mk.injEq, true_and, and_true]
  refine ⟨?_, ?_, ?_⟩
  · funext l'
    by_cases hl : l' = l
    · subst hl
      simp [h]
    · simp [hl]
  · funext ⟨l', tid'⟩
    by_cases hl : l' = l
    · subst hl
      simp only [Function.update_self, Option.bind_some, ht, Function.update_apply, Prod.mk.injEq,
        true_and, h]
    · simp [hl]
  · funext ⟨l', tid'⟩
    by_cases hl : l' = l
    · subst hl
      simp [h]
    · simp [hl]

theorem store_setEdgePhysMap (h : db.elabels l = some elab')
    (m : PhysMap NeoEdgePhysMapRecord sizeOfNeoEdgePhysMapRecord) :
    (db.setEdgeLabel l { elab' with physMap := m }).store =
      { db.store with eslot := fun k => if k.1 = l then m.table.get k.2 else db.store.eslot k } := by
  unfold Db.store Db.setEdgeLabel
  simp only [Store.mk.injEq, true_and, and_true]
  refine ⟨?_, ?_, ?_⟩
  · funext l'
    by_cases hl : l' = l
    · subst hl
      simp [h]
    · simp [hl]
  · funext ⟨l', tid'⟩
    by_cases hl : l' = l
    · subst hl
      simp [h]
    · simp [hl]
  · funext ⟨l', tid'⟩
    by_cases hl : l' = l
    · subst hl
      simp
    · simp [hl]

theorem store_setRel (h : db.rels o = some r) {r' : AdjRelation} (hf : r'.format = r.format)
    {tid : ItemPointer} {x : Option AdjNode}
    (hn : ∀ tid', r'.node tid' = if tid' = tid then x else r.node tid') :
    (db.setRel o r').store =
      { db.store with node := Function.update db.store.node (o, tid) x } := by
  unfold Db.store Db.setRel
  simp only [Store.mk.injEq, true_and, and_true]
  refine ⟨?_, ?_⟩
  · funext o'
    by_cases ho : o' = o
    · subst ho
      simp [h, hf]
    · simp [ho]
  · funext ⟨o', tid'⟩
    by_cases ho : o' = o
    · subst ho
      simp only [Function.update_self, Option.bind_some, hn, Function.update_apply, Prod.mk.injEq,
        true_and, h]
    · simp [ho]

/-- An in-place update of a tuple of the entity table. -/
theorem store_modifyVertexTbl (h : db.vlabels l = some lab) {tid : ItemPointer}
    {t : EntityTuple Vertex} (hg : lab.vertexTbl.get tid = some t)
    (f : EntityTuple Vertex → EntityTuple Vertex) :
    (db.setVertexLabel l { lab with vertexTbl := lab.vertexTbl.modify tid f }).store =
      { db.store with vtuple := Function.update db.store.vtuple (l, tid) (some (f t)) } := by
  refine store_setVertexTbl h fun tid' => ?_
  rw [Table.get_modify]
  split
  · next he =>
    rw [he, hg]
    rfl
  · rfl

theorem store_modifyEdgeTbl (h : db.elabels l = some elab') {tid : ItemPointer}
    {t : EntityTuple Edge} (hg : elab'.vertexTbl.get tid = some t)
    (f : EntityTuple Edge → EntityTuple Edge) :
    (db.setEdgeLabel l { elab' with vertexTbl := elab'.vertexTbl.modify tid f }).store =
      { db.store with etuple := Function.update db.store.etuple (l, tid) (some (f t)) } := by
  refine store_setEdgeTbl h fun tid' => ?_
  rw [Table.get_modify]
  split
  · next he =>
    rw [he, hg]
    rfl
  · rfl

/-! In the two formats, after an append and after an in-place update. -/

theorem store_writeLinked {t t' : Table NeoLinkedListRecord} {len : Nat} {tid : ItemPointer}
    {rec : NeoLinkedListRecord} (h : db.rels o = some (.linkedList t))
    (hw : t.write len rec = some (t', tid)) :
    (db.setRel o (.linkedList t')).store =
      { db.store with node := Function.update db.store.node (o, tid) (some (.linked rec)) } := by
  have hf : (AdjRelation.linkedList t').format = (AdjRelation.linkedList t).format := rfl
  refine store_setRel h hf fun tid' => ?_
  show ((t'.get tid').map AdjNode.linked) = _
  rw [Table.get_write hw]
  split <;> rfl

theorem store_writeBlock {t t' : Table NeoArrayListRecord} {len : Nat} {tid : ItemPointer}
    {rec : NeoArrayListRecord} (h : db.rels o = some (.arrayList t))
    (hw : t.write len rec = some (t', tid)) :
    (db.setRel o (.arrayList t')).store =
      { db.store with node := Function.update db.store.node (o, tid) (some (.block rec)) } := by
  have hf : (AdjRelation.arrayList t').format = (AdjRelation.arrayList t).format := rfl
  refine store_setRel h hf fun tid' => ?_
  show ((t'.get tid').map AdjNode.block) = _
  rw [Table.get_write hw]
  split <;> rfl

theorem store_modifyLinked {t : Table NeoLinkedListRecord} {tid : ItemPointer}
    {rec : NeoLinkedListRecord} (h : db.rels o = some (.linkedList t))
    (hg : t.get tid = some rec) (f : NeoLinkedListRecord → NeoLinkedListRecord) :
    (db.setRel o (.linkedList (t.modify tid f))).store =
      { db.store with node := Function.update db.store.node (o, tid) (some (.linked (f rec))) } := by
  have hf : (AdjRelation.linkedList (t.modify tid f)).format =
    (AdjRelation.linkedList t).format := rfl
  refine store_setRel h hf fun tid' => ?_
  show ((t.modify tid f).get tid').map AdjNode.linked = _
  rw [Table.get_modify]
  split
  · next he =>
    rw [he, hg]
    rfl
  · rfl

theorem store_modifyBlock {t : Table NeoArrayListRecord} {tid : ItemPointer}
    {rec : NeoArrayListRecord} (h : db.rels o = some (.arrayList t))
    (hg : t.get tid = some rec) (f : NeoArrayListRecord → NeoArrayListRecord) :
    (db.setRel o (.arrayList (t.modify tid f))).store =
      { db.store with node := Function.update db.store.node (o, tid) (some (.block (f rec))) } := by
  have hf : (AdjRelation.arrayList (t.modify tid f)).format =
    (AdjRelation.arrayList t).format := rfl
  refine store_setRel h hf fun tid' => ?_
  show ((t.modify tid f).get tid').map AdjNode.block = _
  rw [Table.get_modify]
  split
  · next he =>
    rw [he, hg]
    rfl
  · rfl

theorem store_format (h : db.rels o = some r) : db.store.format o = some r.format := by
  simp [Db.store, h]

theorem store_linked {t : Table NeoLinkedListRecord} {tid : ItemPointer}
    (h : db.rels o = some (.linkedList t)) :
    db.store.node (o, tid) = (t.get tid).map AdjNode.linked := by
  simp [Db.store, h, AdjRelation.node]

theorem store_block {t : Table NeoArrayListRecord} {tid : ItemPointer}
    (h : db.rels o = some (.arrayList t)) :
    db.store.node (o, tid) = (t.get tid).map AdjNode.block := by
  simp [Db.store, h, AdjRelation.node]

theorem store_vtuple (h : db.vlabels l = some lab) (tid : ItemPointer) :
    db.store.vtuple (l, tid) = lab.vertexTbl.get tid := by simp [Db.store, h]

theorem store_vslot (h : db.vlabels l = some lab) (tid : ItemPointer) :
    db.store.vslot (l, tid) = lab.physMap.table.get tid := by simp [Db.store, h]

theorem store_vlabel (h : db.vlabels l = some lab) : db.store.vlabel l = some lab.info := by
  simp [Db.store, h]

theorem store_elabel (h : db.elabels l = some elab') : db.store.elabel l = true := by
  simp [Db.store, h]

theorem store_etuple (h : db.elabels l = some elab') (tid : ItemPointer) :
    db.store.etuple (l, tid) = elab'.vertexTbl.get tid := by simp [Db.store, h]

theorem store_eslot (h : db.elabels l = some elab') (tid : ItemPointer) :
    db.store.eslot (l, tid) = elab'.physMap.table.get tid := by simp [Db.store, h]

theorem exists_vlabel (h : (db.store.vlabel l).isSome) : ∃ lab, db.vlabels l = some lab := by
  simpa [Db.store, Option.isSome_iff_exists] using h

theorem exists_vlabel_of_vtuple {tid : ItemPointer} {x : EntityTuple Vertex}
    (h : db.store.vtuple (l, tid) = some x) : ∃ lab, db.vlabels l = some lab := by
  obtain ⟨lab, hlab, -⟩ := Option.bind_eq_some_iff.mp h
  exact ⟨lab, hlab⟩

theorem exists_vlabel_of_vslot {tid : ItemPointer} {x : NeoPhysMapRecord}
    (h : db.store.vslot (l, tid) = some x) : ∃ lab, db.vlabels l = some lab := by
  obtain ⟨lab, hlab, -⟩ := Option.bind_eq_some_iff.mp h
  exact ⟨lab, hlab⟩

theorem exists_elabel (h : db.store.elabel l = true) : ∃ lab, db.elabels l = some lab :=
  Option.isSome_iff_exists.mp h

theorem exists_elabel_of_etuple {tid : ItemPointer} {x : EntityTuple Edge}
    (h : db.store.etuple (l, tid) = some x) : ∃ lab, db.elabels l = some lab := by
  obtain ⟨lab, hlab, -⟩ := Option.bind_eq_some_iff.mp h
  exact ⟨lab, hlab⟩

theorem exists_elabel_of_eslot {tid : ItemPointer} {x : NeoEdgePhysMapRecord}
    (h : db.store.eslot (l, tid) = some x) : ∃ lab, db.elabels l = some lab := by
  obtain ⟨lab, hlab, -⟩ := Option.bind_eq_some_iff.mp h
  exact ⟨lab, hlab⟩

theorem exists_linkedList (h : db.store.format o = some .linkedList) :
    ∃ t, db.rels o = some (.linkedList t) := by
  obtain ⟨r, hr, hf⟩ := Option.map_eq_some_iff.mp h
  cases r with
  | linkedList t => exact ⟨t, hr⟩
  | arrayList t => cases hf

theorem exists_arrayList (h : db.store.format o = some .arrayList) :
    ∃ t, db.rels o = some (.arrayList t) := by
  obtain ⟨r, hr, hf⟩ := Option.map_eq_some_iff.mp h
  cases r with
  | linkedList t => cases hf
  | arrayList t => exact ⟨t, hr⟩

/-- A linked-list node lives in a linked-list relation. -/
theorem rel_of_linked {tid : ItemPointer} {rec : NeoLinkedListRecord}
    (h : db.store.node (o, tid) = some (.linked rec)) :
    ∃ t, db.rels o = some (.linkedList t) ∧ t.get tid = some rec := by
  obtain ⟨r, hr, hn⟩ := Option.bind_eq_some_iff.mp h
  cases r with
  | linkedList t =>
    obtain ⟨rec', hg, he⟩ := Option.map_eq_some_iff.mp hn
    exact ⟨t, hr, by rw [hg, AdjNode.linked.inj he]⟩
  | arrayList t =>
    obtain ⟨rec', -, he⟩ := Option.map_eq_some_iff.mp hn
    cases he

/-- An array block lives in an array-list relation. -/
theorem rel_of_block {tid : ItemPointer} {rec : NeoArrayListRecord}
    (h : db.store.node (o, tid) = some (.block rec)) :
    ∃ t, db.rels o = some (.arrayList t) ∧ t.get tid = some rec := by
  obtain ⟨r, hr, hn⟩ := Option.bind_eq_some_iff.mp h
  cases r with
  | linkedList t =>
    obtain ⟨rec', -, he⟩ := Option.map_eq_some_iff.mp hn
    cases he
  | arrayList t =>
    obtain ⟨rec', hg, he⟩ := Option.map_eq_some_iff.mp hn
    exact ⟨t, hr, by rw [hg, AdjNode.block.inj he]⟩

end Steps

/-! ## Empty relations -/

/-- The nodes of a store whose relation at an oid is replaced by an empty one. -/
theorem node_setRel_empty (db : Db) (o : Oid) {r : AdjRelation} (hr : ∀ tid, r.node tid = none)
    {a : Addr} {n : AdjNode} (h : (db.setRel o r).store.node a = some n) :
    db.store.node a = some n := by
  change (Function.update db.rels o (some r) a.1).bind _ = some n at h
  rw [Function.update_apply] at h
  split at h
  · rw [Option.bind_some, hr] at h
    cases h
  · exact h

theorem node_emptyLinkedList (tid : ItemPointer) :
    (AdjRelation.linkedList Table.empty).node tid = none := by
  show (Table.get (Table.empty : Table NeoLinkedListRecord) tid).map AdjNode.linked = none
  rw [Table.get_empty]
  rfl

theorem node_emptyArrayList (tid : ItemPointer) :
    (AdjRelation.arrayList Table.empty).node tid = none := by
  show (Table.get (Table.empty : Table NeoArrayListRecord) tid).map AdjNode.block = none
  rw [Table.get_empty]
  rfl

end NeoPostGraph
