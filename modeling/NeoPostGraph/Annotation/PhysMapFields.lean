import NeoPostGraph.Annotation.Change
import NeoPostGraph.Graph.TwoInserts
import NeoPostGraph.Graph.TwoUpdates
import NeoPostGraph.Lib.SharedRecord

/-!
# The fields of a vertex's record

The physical map record of a vertex has three fields with a writer each: `update_vertex` moves
`v_itemptr`, `insert_edge` the head of the adjacency list, `add_vertex_annotation_label` and
`remove_vertex_annotation_label` move `a_itemptr`. The head is written in place. The other two copy
the whole record under a share lock, and write the whole copy back some sections later. Here any
number of calls of any sessions take their buffer-locked sections in any order.

* `PmapField`, `PmapField.slot`: the fields, and the slot that holds the field of a vertex. The head is
  looked up by another rule than the record.
* `VertexAnnotCall`, `AnnotTurn`: the sections of the two annotation functions.
* `WriteCall`, `WriteCall.Turn`: a call with the sections it has still to take, and one of them.
* `PmapRun calls trace db calls' db'`: turns of the calls, and transactions that begin and end.
* `PmapFieldsKept`: each field of a vertex is the last value its writers gave it.
* `PmapUndisturbed`: whenever a call writes its copy of the record back, no other field of it has been
  written since the copy was made.

Result: `pmapFieldsKept_of_undisturbed`, the fields are kept in every undisturbed run.
-/

namespace NeoPostGraph

open SlottedPage SharedRecord

/-! ## Fields -/

/-- The fields of a physical map record, by who writes them. -/
inductive PmapField where
  | vItemptr
  | head
  | aItemptr
deriving DecidableEq, Repr

/-- The values of a field. -/
def PmapField.Val : PmapField → Type
  | vItemptr | aItemptr => ItemPointer
  | head => Oid × ItemPointer

/-- The slot of a vertex that has the field. -/
def PmapField.slot : PmapField → Nat → ItemPointer
  | vItemptr | aItemptr => entitySlot
  | head => headSlot

/-- A record by its fields. -/
def NeoPhysMapRecord.fields (rec : NeoPhysMapRecord) : ∀ f : PmapField, f.Val
  | .vItemptr => rec.vItemptr
  | .head => (rec.eTblId, rec.eItemptr)
  | .aItemptr => rec.aItemptr

theorem fields_set_vItemptr (rec : NeoPhysMapRecord) (tid : ItemPointer) :
    ({ rec with vItemptr := tid } : NeoPhysMapRecord).fields =
      Function.update rec.fields .vItemptr tid := by
  funext f
  cases f <;> rfl

theorem fields_set_aItemptr (rec : NeoPhysMapRecord) (tid : ItemPointer) :
    ({ rec with aItemptr := tid } : NeoPhysMapRecord).fields =
      Function.update rec.fields .aItemptr tid := by
  funext f
  cases f <;> rfl

theorem fields_set_head (rec : NeoPhysMapRecord) (tbl : Oid) (tid : ItemPointer) :
    ({ rec with eTblId := tbl, eItemptr := tid } : NeoPhysMapRecord).fields =
      Function.update rec.fields .head (tbl, tid) := by
  funext f
  cases f <;> rfl

/-! ## The sections of the annotation functions -/

/-- A call of `add_vertex_annotation_label` or `remove_vertex_annotation_label`. -/
structure VertexAnnotCall where
  change : BitChange
  s : Session
  labelId : Nat
  id : Nat
  annot : String

/-- Where such a call stands, with the locals it still needs. -/
inductive AnnotAt where
  | start
  | labelFound (row : LabelRow)
  | resolved (names : Names) (pos : Nat)
  | slotRead (names : Names) (pos : Nat) (rec : NeoPhysMapRecord)
  | pointed (names : Names) (pos : Nat) (rec : NeoPhysMapRecord) (oldTid : ItemPointer)
  | bitsRead (pos : Nat) (rec : NeoPhysMapRecord) (oldTid : ItemPointer) (bits : List Nat)
  | written (rec : NeoPhysMapRecord) (oldTid newTid : ItemPointer)
  | repointed (oldTid : ItemPointer)
  | stamped

/-- The copy of the record the call has and will write back. -/
def AnnotAt.copied : AnnotAt → Option NeoPhysMapRecord
  | .slotRead _ _ rec | .pointed _ _ rec _ | .bitsRead _ rec _ _ | .written rec _ _ => some rec
  | .start | .labelFound _ | .resolved .. | .repointed _ | .stamped => none

/-- One section of a call (`np_label.c:1354-1567`, `1570-1787`). -/
inductive AnnotTurn (c : VertexAnnotCall) : AnnotAt → AnnotDb → AnnotAt → AnnotDb → Prop
  | findLabel {db db' : AnnotDb} {row : LabelRow}
      (h : (requireAnnotatedLabel .vertex c.labelId).Runs db row db') :
      AnnotTurn c .start db (.labelFound row) db'
  | resolve {db db' : AnnotDb} {row : LabelRow} {names : Names} {pos : Nat}
      (h : (resolveBit .vertex row c.annot).Runs db (names, pos) db') :
      AnnotTurn c (.labelFound row) db (.resolved names pos) db'
  | readSlot {db db' : AnnotDb} {names : Names} {pos : Nat} {rec : NeoPhysMapRecord}
      (h : (readPmapRec .vertex c.labelId c.id).Runs db (.vertex rec) db') :
      AnnotTurn c (.resolved names pos) db (.slotRead names pos rec) db'
  | pointer {db db' : AnnotDb} {names : Names} {pos : Nat} {rec : NeoPhysMapRecord}
      {oldTid : ItemPointer} (h : (oldAnnotTid .vertex c.labelId rec.aItemptr).Runs db oldTid db') :
      AnnotTurn c (.slotRead names pos rec) db (.pointed names pos rec oldTid) db'
  | readBits {db db' : AnnotDb} {names : Names} {pos : Nat} {rec : NeoPhysMapRecord}
      {oldTid : ItemPointer} {bits : List Nat}
      (h : (oldBits .vertex c.s.own c.labelId c.id (byteSizeOf names) oldTid).Runs db bits db') :
      AnnotTurn c (.pointed names pos rec oldTid) db (.bitsRead pos rec oldTid bits) db'
  | append {db db' : AnnotDb} {pos : Nat} {rec : NeoPhysMapRecord} {oldTid newTid : ItemPointer}
      {bits : List Nat}
      (h : (writeAnnotTuple .vertex c.labelId
        (newAnnotTuple c.s c.id oldTid (c.change.apply bits pos))).Runs db newTid db') :
      AnnotTurn c (.bitsRead pos rec oldTid bits) db (.written rec oldTid newTid) db'
  | repoint {db db' : AnnotDb} {rec : NeoPhysMapRecord} {oldTid newTid : ItemPointer}
      (h : (writeAItemptr c.labelId c.id (.vertex rec) newTid).Runs db () db') :
      AnnotTurn c (.written rec oldTid newTid) db (.repointed oldTid) db'
  | stamp {db db' : AnnotDb} {oldTid : ItemPointer}
      (h : (stampOldBitset .vertex c.s c.labelId oldTid).Runs db () db') :
      AnnotTurn c (.repointed oldTid) db .stamped db'

/-! ## Calls in progress -/

/-- A call, with where it stands. -/
inductive WriteCall where
  | updateVertex (s : Session) (l id : Nat) (props : Gtype)
      (pos : UpdateAt NeoPhysMapRecord (EntityTuple Vertex))
  | changeAnnot (c : VertexAnnotCall) (pos : AnnotAt)
  | insertEdge (c : InsertCall) (pos : Progress)

namespace WriteCall

/-- The call has not taken a section. -/
def Begins : WriteCall → Prop
  | updateVertex _ _ _ _ pos => pos = .start
  | changeAnnot _ pos => pos = .start
  | insertEdge _ pos => pos = .start

/-- The call has taken all its sections; an update has committed, too. -/
def Ends : WriteCall → Prop
  | updateVertex _ _ _ _ pos => ∃ rec, pos = .committed rec
  | changeAnnot _ pos => pos = .stamped
  | insertEdge _ pos => pos.todo = []

/-- The next section of a call. -/
inductive Turn (u : Unspecified) : WriteCall → AnnotDb → WriteCall → AnnotDb → Prop
  | updateVertex {s : Session} {l id : Nat} {props : Gtype} {db : AnnotDb} {g : Db}
      {pos pos' : UpdateAt NeoPhysMapRecord (EntityTuple Vertex)}
      (h : UpdateTurn (vertexUpdate s l id props) pos db.graph pos' g) :
      Turn u (.updateVertex s l id props pos) db (.updateVertex s l id props pos')
        { db with graph := g }
  | changeAnnot {c : VertexAnnotCall} {pos pos' : AnnotAt} {db db' : AnnotDb}
      (h : AnnotTurn c pos db pos' db') : Turn u (.changeAnnot c pos) db (.changeAnnot c pos') db'
  | insertEdge {c : InsertCall} {ps : PageStep} {rest : List PageStep} {loc loc' : InsertLocals}
      {db : AnnotDb} {g : Db} (h : (ps.op u c loc).Runs db.graph loc' g) :
      Turn u (.insertEdge c ⟨ps :: rest, loc⟩) db (.insertEdge c ⟨rest, loc'⟩) { db with graph := g }

/-- The copy of the record in a slot that a call has and will write back. -/
def copied (slot : Nat × ItemPointer) : WriteCall → Option NeoPhysMapRecord
  | updateVertex _ l id _ pos =>
    if (l, entitySlot id) = slot then
      match pos with
      | .slotRead rec | .checked rec _ | .appended rec _ _ => some rec
      | .start | .repointed _ | .stamped _ | .committed _ => none
    else none
  | changeAnnot c pos => if (c.labelId, entitySlot c.id) = slot then pos.copied else none
  | insertEdge .. => none

/-- What the next section of a call does to the record in a slot. -/
def event {ι : Type} (slot : Nat × ItemPointer) (i : ι) :
    WriteCall → Option (RecordEvent ι PmapField PmapField.Val)
  | updateVertex _ l id _ pos =>
    if (l, entitySlot id) = slot then
      match pos with
      | .start => some (.copy i)
      | .appended _ _ newTid => some (.writeBack i .vItemptr newTid)
      | _ => none
    else none
  | changeAnnot c pos =>
    if (c.labelId, entitySlot c.id) = slot then
      match pos with
      | .resolved .. => some (.copy i)
      | .written _ _ newTid => some (.writeBack i .aItemptr newTid)
      | _ => none
    else none
  | insertEdge c pos =>
    match pos.todo with
    | .writeHead d :: _ =>
      if (c.owner d).headSlot = slot then
        some (.write .head (pos.loc.activeListOid, pos.loc.newTid))
      else none
    | _ => none

end WriteCall

/-! ## What a section does to a record -/

section

variable {slot : Nat × ItemPointer} {db db' : AnnotDb} {g g' : Db} {c c' : WriteCall}
  {rec : NeoPhysMapRecord}

/-- The record in a slot. -/
def AnnotDb.record (db : AnnotDb) (slot : Nat × ItemPointer) : Option NeoPhysMapRecord :=
  db.graph.store.vslot slot

/-- What a section leaves in a slot with the record `rec`, and of the copy the call has of it. -/
def WriteCall.Effect {ι : Type} (slot : Nat × ItemPointer) (i : ι) (rec : NeoPhysMapRecord)
    (c c' : WriteCall) (db' : AnnotDb) : Option (RecordEvent ι PmapField PmapField.Val) → Prop
  | none => db'.record slot = some rec ∧ ∀ r, c'.copied slot = some r → c.copied slot = some r
  | some (.copy j) =>
    j = i ∧ db'.record slot = some rec ∧ ∀ r, c'.copied slot = some r → r = rec
  | some (.writeBack j f v) =>
    j = i ∧ c'.copied slot = none ∧ ∃ r r', c.copied slot = some r ∧ db'.record slot = some r' ∧
      r'.fields = Function.update r.fields f v
  | some (.write f v) =>
    c'.copied slot = none ∧ ∃ r', db'.record slot = some r' ∧
      r'.fields = Function.update rec.fields f v

/-- A section that leaves the slots alone, and no new copy. -/
theorem WriteCall.Effect.of_same {ι : Type} {i : ι} (hrec : db.record slot = some rec)
    (hsame : db'.graph.store.vslot = db.graph.store.vslot)
    (hcopy : ∀ r, c'.copied slot = some r → c.copied slot = some r) :
    c.Effect slot i rec c' db' none := by
  refine ⟨?_, hcopy⟩
  unfold AnnotDb.record
  rw [hsame]
  exact hrec

/-- Overwriting another slot. -/
theorem record_update_ne {k : Nat × ItemPointer} {r : Option NeoPhysMapRecord} (hne : k ≠ slot)
    (h : db'.graph.store.vslot = Function.update db.graph.store.vslot k r) :
    db'.record slot = db.record slot := by
  unfold AnnotDb.record
  rw [h, Function.update_of_ne (Ne.symm hne)]

theorem record_update_self {r : Option NeoPhysMapRecord}
    (h : db'.graph.store.vslot = Function.update db.graph.store.vslot slot r) :
    db'.record slot = r := by
  unfold AnnotDb.record
  rw [h, Function.update_self]

theorem updateTurn_effect {ι : Type} {i : ι} {s : Session} {l id : Nat} {props : Gtype}
    {pos pos' : UpdateAt NeoPhysMapRecord (EntityTuple Vertex)} (hrec : db.record slot = some rec)
    (h : UpdateTurn (vertexUpdate s l id props) pos db.graph pos' g) :
    (WriteCall.updateVertex s l id props pos).Effect slot i rec (.updateVertex s l id props pos')
      { db with graph := g } ((WriteCall.updateVertex s l id props pos).event slot i) := by
  unfold WriteCall.event
  dsimp only
  split_ifs with hslot
  · cases h with
    | readSlot h =>
      obtain ⟨rfl, hr⟩ := readVertexSlot_iff.mp h
      refine ⟨rfl, hrec, fun r hc => ?_⟩
      simp only [WriteCall.copied, if_pos hslot, Option.some.injEq] at hc
      subst hc
      rw [hslot] at hr
      exact Option.some.inj (hr.symm.trans hrec)
    | check h =>
      obtain ⟨rfl, -⟩ := readVertexTuple_iff.mp h
      exact .of_same hrec rfl fun r hc => hc
    | append h =>
      obtain ⟨-, -, -, -, -, hst⟩ := writeVertexTuple_inv h
      exact .of_same hrec (by simp [hst]) fun r hc => hc
    | @repoint _ _ r _ newTid h =>
      have hst := npOverwritePhysmapInPage_inv h
      rw [hslot] at hst
      have hnew : ({ db with graph := g } : AnnotDb).record slot = some { r with vItemptr := newTid } :=
        record_update_self (by rw [hst])
      exact ⟨rfl, by simp [WriteCall.copied], r, _, by simp [WriteCall.copied, hslot], hnew,
        fields_set_vItemptr ..⟩
    | stamp h => exact .of_same hrec (stampVertexTuple_vslot h) fun r hc => hc
    | commit => exact .of_same hrec rfl fun r hc => hc
  · -- another slot: the copy is none of this record
    refine ⟨?_, by simp [WriteCall.copied, hslot]⟩
    cases h with
    | readSlot h => rw [(readVertexSlot_iff.mp h).1]; exact hrec
    | check h => rw [(readVertexTuple_iff.mp h).1]; exact hrec
    | append h =>
      obtain ⟨-, -, -, -, -, hst⟩ := writeVertexTuple_inv h
      unfold AnnotDb.record
      rw [hst]
      exact hrec
    | repoint h =>
      exact (record_update_ne hslot (by rw [npOverwritePhysmapInPage_inv h])).trans hrec
    | stamp h =>
      unfold AnnotDb.record
      rw [stampVertexTuple_vslot h]
      exact hrec
    | commit => exact hrec

theorem onAnnotations_graph {α : Type} {a : α} {kind : LabelKind} {labelId : Nat}
    {f : XactState → Table AnnotTuple → Except AnnotErr (α × Table AnnotTuple)}
    (h : (onAnnotations kind labelId f).Runs db a db') : db'.graph = db.graph := by
  cases htbl : db.annotationsTbl kind labelId with
  | none =>
    unfold onAnnotations at h
    rw [Prog.runs_step_iff, htbl] at h
    cases h
  | some tbl =>
    obtain ⟨tbl', -, rfl⟩ := (onAnnotations_runs_iff htbl).mp h
    rfl

theorem writeAItemptr_vslot {l id : Nat} {tid : ItemPointer} {u : Unit}
    (h : (writeAItemptr l id (.vertex rec) tid).Runs db u db') : db'.graph.store.vslot =
      Function.update db.graph.store.vslot (l, entitySlot id) (some { rec with aItemptr := tid }) := by
  obtain ⟨g, hg, rfl⟩ := onGraph_runs_iff.mp h
  dsimp only
  rw [npOverwritePhysmapInPage_inv hg]

theorem annotTurn_effect {ι : Type} {i : ι} {c : VertexAnnotCall} {pos pos' : AnnotAt}
    (hrec : db.record slot = some rec) (h : AnnotTurn c pos db pos' db') :
    (WriteCall.changeAnnot c pos).Effect slot i rec (.changeAnnot c pos') db'
      ((WriteCall.changeAnnot c pos).event slot i) := by
  -- every section but one leaves the graph alone
  have hgraph : (∀ r oldTid newTid, pos ≠ .written r oldTid newTid) → db'.graph = db.graph := by
    intro hpos
    cases h with
    | findLabel h | resolve h | readSlot h => rw [(Prog.runs_read_iff.mp h).2]
    | pointer h | append h => exact onAnnotations_graph h
    | readBits h =>
      unfold oldBits at h
      split_ifs at h
      · exact onAnnotations_graph h
      · rw [(Prog.runs_ret_iff.mp h).2]
    | repoint h => exact absurd rfl (hpos _ _ _)
    | stamp h =>
      unfold stampOldBitset at h
      split_ifs at h
      · exact onAnnotations_graph h
      · rw [(Prog.runs_ret_iff.mp h).2]
  have hkept : (∀ r oldTid newTid, pos ≠ .written r oldTid newTid) →
      db'.record slot = some rec := fun hpos => by
    unfold AnnotDb.record
    rw [hgraph hpos]
    exact hrec
  unfold WriteCall.event
  dsimp only
  split_ifs with hslot
  · cases h with
    | readSlot h =>
      refine ⟨rfl, hkept (by simp), fun r hc => ?_⟩
      simp only [WriteCall.copied, if_pos hslot, AnnotAt.copied, Option.some.injEq] at hc
      subst hc
      obtain ⟨hr, rfl⟩ := readPmapRec_runs_iff.mp h
      rw [pmapRec_vertex, hslot] at hr
      obtain ⟨r', hr', he⟩ := Option.map_eq_some_iff.mp hr
      obtain rfl := PmapRec.vertex.inj he
      exact Option.some.inj (hr'.symm.trans hrec)
    | @repoint _ _ r _ newTid h =>
      have hst := writeAItemptr_vslot h
      rw [hslot] at hst
      exact ⟨rfl, by simp [WriteCall.copied, AnnotAt.copied], r, _,
        by simp [WriteCall.copied, hslot, AnnotAt.copied], record_update_self hst,
        fields_set_aItemptr ..⟩
    | findLabel | resolve | pointer | readBits | append | stamp =>
      exact ⟨hkept (by simp), fun r hc => hc⟩
  · -- another slot: the copy is none of this record
    refine ⟨?_, by simp [WriteCall.copied, hslot]⟩
    cases h with
    | repoint h => exact (record_update_ne hslot (writeAItemptr_vslot h)).trans hrec
    | _ => exact hkept (by simp)

theorem pageStep_effect {ι : Type} {i : ι} {u : Unspecified} {c : InsertCall} {ps : PageStep}
    {rest : List PageStep} {loc loc' : InsertLocals} (hrec : db.record slot = some rec)
    (h : (ps.op u c loc).Runs db.graph loc' g) :
    (WriteCall.insertEdge c ⟨ps :: rest, loc⟩).Effect slot i rec (.insertEdge c ⟨rest, loc'⟩)
      { db with graph := g } ((WriteCall.insertEdge c ⟨ps :: rest, loc⟩).event slot i) := by
  have hsame : g.store.vslot = db.graph.store.vslot →
      (WriteCall.insertEdge c ⟨ps :: rest, loc⟩).Effect slot i rec (.insertEdge c ⟨rest, loc'⟩)
        { db with graph := g } none := fun hs => .of_same hrec hs fun r hc => hc
  cases ps with
  | writeTuple => exact hsame (writeTuple_inv h).2
  | setSlot => exact hsame (setSlot_inv h).2
  | getActive d => exact hsame (by rw [(getActive_inv h).1])
  | readHead d => exact hsame (by rw [(readHead_inv h).1])
  | append d =>
    obtain ⟨-, -, -, hst⟩ := append_inv h
    exact hsame (by rw [hst]; rfl)
  | fixOldHead d => exact hsame (by rw [(fixOldHead_inv h).2, Store.vslot_setPrev])
  | writeHead d =>
    obtain ⟨r, hr, hst⟩ := writeHead_step_inv h
    have hslots : g.store.vslot = Function.update db.graph.store.vslot (c.owner d).headSlot
        (some { r with eTblId := loc.activeListOid, eItemptr := loc.newTid }) := by
      rw [hst]
      show Function.update db.graph.store.vslot (c.owner d).headSlot
        ((db.graph.store.vslot (c.owner d).headSlot).map _) = _
      rw [hr]
      rfl
    unfold WriteCall.event
    dsimp only
    split_ifs with hslot
    · rw [hslot] at hslots hr
      obtain rfl := Option.some.inj (hr.symm.trans hrec)
      exact ⟨rfl, _, record_update_self hslots, fields_set_head ..⟩
    · exact ⟨(record_update_ne hslot hslots).trans hrec, fun r hc => hc⟩

/-- **What a section does to the record in a slot** is its event, and the call's copy is the record as
it was at the last copy. -/
theorem WriteCall.Turn.effect {ι : Type} {i : ι} {u : Unspecified} (hrec : db.record slot = some rec)
    (h : Turn u c db c' db') : c.Effect slot i rec c' db' (c.event slot i) := by
  cases h with
  | updateVertex h => exact updateTurn_effect hrec h
  | changeAnnot h => exact annotTurn_effect hrec h
  | insertEdge h => exact pageStep_effect hrec h

end

/-! ## Runs -/

/-- Calls take turns, and transactions begin, commit and abort in between. The trace has the calls
that took a turn, as they were before it. -/
inductive PmapRun {ι : Type} [DecidableEq ι] (u : Unspecified) :
    List (ι × WriteCall) → (ι → WriteCall) → AnnotDb → (ι → WriteCall) → AnnotDb → Prop
  | done (calls : ι → WriteCall) (db : AnnotDb) : PmapRun u [] calls db calls db
  | turn {i : ι} {c : WriteCall} {trace : List (ι × WriteCall)} {calls calls' : ι → WriteCall}
      {db db₁ db' : AnnotDb} (ht : (calls i).Turn u db c db₁)
      (h : PmapRun u trace (Function.update calls i c) db₁ calls' db') :
      PmapRun u ((i, calls i) :: trace) calls db calls' db'
  | xacts {trace : List (ι × WriteCall)} {calls calls' : ι → WriteCall} {db db' : AnnotDb}
      (x : XactState)
      (h : PmapRun u trace calls { db with graph := { db.graph with xacts := x } } calls' db') :
      PmapRun u trace calls db calls' db'

section

variable {ι : Type} [DecidableEq ι] {u : Unspecified} {trace : List (ι × WriteCall)}
  {calls calls' : ι → WriteCall} {db db' : AnnotDb} {slot : Nat × ItemPointer}

/-- What happens at the record in a slot, in the order of the turns. -/
def recordEvents (slot : Nat × ItemPointer) (trace : List (ι × WriteCall)) :
    List (RecordEvent ι PmapField PmapField.Val) :=
  trace.filterMap fun x => x.2.event slot x.1

/-- **Each field of a vertex is the last value its writers gave it**, or what it was at the beginning. -/
def PmapFieldsKept (trace : List (ι × WriteCall)) (l id : Nat) (db db' : AnnotDb) : Prop :=
  ∀ f : PmapField, ∀ rec, db.record (l, f.slot id) = some rec →
    ∃ rec', db'.record (l, f.slot id) = some rec' ∧
      rec'.fields f = lastWritten rec.fields (recordEvents (l, f.slot id) trace) f

/-- Whenever a call writes its copy of the record back, no other field of it that the vertex has there
has been written since the copy was made. -/
def PmapUndisturbed (trace : List (ι × WriteCall)) (l id : Nat) : Prop :=
  ∀ f : PmapField, Undisturbed f noneStale (recordEvents (l, f.slot id) trace)

/-- The record and the copies of it are those of the events so far. -/
structure PmapInv (slot : Nat × ItemPointer) (st : SharedRecord.State ι PmapField PmapField.Val)
    (calls : ι → WriteCall) (db : AnnotDb) : Prop where
  record : ∃ rec, db.record slot = some rec ∧ rec.fields = st.record
  copies : ∀ i r, (calls i).copied slot = some r → r.fields = st.copies i

theorem PmapInv.turn {st : SharedRecord.State ι PmapField PmapField.Val} {i : ι} {c : WriteCall}
    (h : PmapInv slot st calls db) (ht : (calls i).Turn u db c db') :
    PmapInv slot (recordRun st ((calls i).event slot i).toList) (Function.update calls i c) db' := by
  obtain ⟨rec, hrec, hfields⟩ := h.record
  have heff := ht.effect (i := i) hrec
  -- the copies of the other calls
  have hother : ∀ {st' : SharedRecord.State ι PmapField PmapField.Val},
      (∀ j, j ≠ i → st'.copies j = st.copies j) →
      (∀ r, c.copied slot = some r → r.fields = st'.copies i) →
      ∀ j r, (Function.update calls i c j).copied slot = some r → r.fields = st'.copies j := by
    intro st' hst hown j r hc
    by_cases hj : j = i
    · subst hj
      rw [Function.update_self] at hc
      exact hown r hc
    · rw [Function.update_of_ne hj] at hc
      rw [hst j hj]
      exact h.copies j r hc
  cases hev : (calls i).event slot i with
  | none =>
    rw [hev] at heff
    exact ⟨⟨rec, heff.1, hfields⟩, hother (fun _ _ => rfl) fun r hc => h.copies i r (heff.2 r hc)⟩
  | some e =>
    rw [hev] at heff
    cases e with
    | copy j =>
      obtain ⟨rfl, hnew, hcopy⟩ := heff
      refine ⟨⟨rec, hnew, hfields⟩, hother (fun k hk => Function.update_of_ne hk ..) fun r hc => ?_⟩
      have hself : Function.update st.copies j st.record j = st.record := Function.update_self ..
      rw [hcopy r hc, hfields]
      exact hself.symm
    | writeBack j f v =>
      obtain ⟨rfl, hnone, r, r', hr, hnew, hset⟩ := heff
      refine ⟨⟨r', hnew, ?_⟩, hother (fun _ _ => rfl) fun r hc => ?_⟩
      · rw [hset, h.copies j r hr]
        rfl
      · rw [hnone] at hc
        cases hc
    | write f v =>
      obtain ⟨hnone, r', hnew, hset⟩ := heff
      refine ⟨⟨r', hnew, ?_⟩, hother (fun _ _ => rfl) fun r hc => ?_⟩
      · rw [hset, hfields]
        rfl
      · rw [hnone] at hc
        cases hc

theorem PmapInv.run {st : SharedRecord.State ι PmapField PmapField.Val} (h : PmapInv slot st calls db)
    (hrun : PmapRun u trace calls db calls' db') :
    PmapInv slot (recordRun st (recordEvents slot trace)) calls' db' := by
  induction hrun generalizing st with
  | done calls db => exact h
  | @turn i c trace calls calls' db db₁ db' ht hrun ih =>
    have hrest := ih (h.turn ht)
    have happ : recordEvents slot ((i, calls i) :: trace) =
        ((calls i).event slot i).toList ++ recordEvents slot trace := by
      unfold recordEvents
      rw [List.filterMap_cons]
      cases (calls i).event slot i <;> rfl
    rw [happ]
    unfold recordRun at hrest ⊢
    rw [List.foldl_append]
    exact hrest
  | xacts x hrun ih => exact ih ⟨h.record, h.copies⟩

/-- Transactions may begin and end after the last turn. -/
theorem PmapRun.then_xacts (h : PmapRun u trace calls db calls' db') (x : XactState) :
    PmapRun u trace calls db calls' { db' with graph := { db'.graph with xacts := x } } := by
  induction h with
  | done calls db => exact .xacts x (.done ..)
  | turn ht h ih => exact .turn ht ih
  | xacts y h ih => exact .xacts y ih

/-- A call that has not begun has no copy. -/
theorem WriteCall.Begins.copied {c : WriteCall} (h : c.Begins) : c.copied slot = none := by
  cases c with
  | updateVertex s l id props pos =>
    cases h
    simp [WriteCall.copied]
  | changeAnnot c pos =>
    cases h
    simp [WriteCall.copied, AnnotAt.copied]
  | insertEdge c pos => rfl

/-- **A field nobody disturbs is kept**, in every state of every run: calls of the three functions on
any vertices and edges, in any number, of any sessions, take their sections in any order. -/
theorem pmapFieldsKept_of_undisturbed {l id : Nat} (hbegin : ∀ i, (calls i).Begins)
    (hrun : PmapRun u trace calls db calls' db') (h : PmapUndisturbed trace l id) :
    PmapFieldsKept trace l id db db' := by
  intro f rec hrec
  have hinit : PmapInv (l, f.slot id) (SharedRecord.start rec.fields) calls db :=
    ⟨⟨rec, hrec, rfl⟩, fun i r hc => by rw [(hbegin i).copied] at hc; cases hc⟩
  obtain ⟨rec', hrec', hfields⟩ := (hinit.run hrun).record
  refine ⟨rec', hrec', ?_⟩
  rw [hfields]
  exact field_last_written (h f)

end

/-! ## A write back over another call's write -/

section

variable {ι : Type} [DecidableEq ι] {u : Unspecified}

/-- A section of a call on the annotations, taken alone. -/
def annotResult {α : Type} (q : AnnotOp α) (db : AnnotDb) : Option (α × AnnotDb) :=
  match q.exec db with
  | (.ok a, db') => some (a, db')
  | (.error _, _) => none

/-- The next section of a call, computed. -/
def VertexAnnotCall.next (c : VertexAnnotCall) (pos : AnnotAt) (db : AnnotDb) :
    Option (AnnotAt × AnnotDb) :=
  match pos with
  | .start => (annotResult (requireAnnotatedLabel .vertex c.labelId) db).map fun x =>
      (.labelFound x.1, x.2)
  | .labelFound row => (annotResult (resolveBit .vertex row c.annot) db).map fun x =>
      (.resolved x.1.1 x.1.2, x.2)
  | .resolved names pos =>
    match annotResult (readPmapRec .vertex c.labelId c.id) db with
    | some (.vertex rec, db') => some (.slotRead names pos rec, db')
    | _ => none
  | .slotRead names pos rec => (annotResult (oldAnnotTid .vertex c.labelId rec.aItemptr) db).map
      fun x => (.pointed names pos rec x.1, x.2)
  | .pointed names pos rec oldTid =>
    (annotResult (oldBits .vertex c.s.own c.labelId c.id (byteSizeOf names) oldTid) db).map fun x =>
      (.bitsRead pos rec oldTid x.1, x.2)
  | .bitsRead pos rec oldTid bits =>
    (annotResult (writeAnnotTuple .vertex c.labelId
      (newAnnotTuple c.s c.id oldTid (c.change.apply bits pos))) db).map fun x =>
      (.written rec oldTid x.1, x.2)
  | .written rec oldTid newTid =>
    (annotResult (writeAItemptr c.labelId c.id (.vertex rec) newTid) db).map fun x =>
      (.repointed oldTid, x.2)
  | .repointed oldTid => (annotResult (stampOldBitset .vertex c.s c.labelId oldTid) db).map fun x =>
      (.stamped, x.2)
  | .stamped => none

/-- The next section of a call, computed. -/
def WriteCall.next (u : Unspecified) (c : WriteCall) (db : AnnotDb) : Option (WriteCall × AnnotDb) :=
  match c with
  | updateVertex s l id props pos =>
    (nextTurn (vertexUpdate s l id props) pos db.graph).map fun x =>
      (updateVertex s l id props x.1, { db with graph := x.2 })
  | changeAnnot c pos => (c.next pos db).map fun x => (changeAnnot c x.1, x.2)
  | insertEdge _ ⟨[], _⟩ => none
  | insertEdge c ⟨ps :: rest, loc⟩ => (runResult (ps.op u c loc) db.graph).map fun x =>
      (insertEdge c ⟨rest, x.1⟩, { db with graph := x.2 })

/-- The turns, computed, with their trace. -/
def runCalls (u : Unspecified) : List ι → (ι → WriteCall) → AnnotDb →
    Option (List (ι × WriteCall) × (ι → WriteCall) × AnnotDb)
  | [], calls, db => some ([], calls, db)
  | i :: is, calls, db =>
    match (calls i).next u db with
    | none => none
    | some (c, db₁) => (runCalls u is (Function.update calls i c) db₁).map fun x =>
        ((i, calls i) :: x.1, x.2)

theorem runs_of_annotResult {α : Type} {q : AnnotOp α} {db db' : AnnotDb} {a : α}
    (h : annotResult q db = some (a, db')) : q.Runs db a db' := by
  unfold annotResult at h
  unfold Prog.Runs
  split at h
  · next he =>
    obtain ⟨rfl, rfl⟩ := Prod.mk.inj (Option.some.inj h)
    exact he
  · cases h

theorem annotTurn_of_next {c : VertexAnnotCall} {a b : AnnotAt} {db db' : AnnotDb}
    (h : c.next a db = some (b, db')) : AnnotTurn c a db b db' := by
  have hstep : ∀ {α : Type} {q : AnnotOp α} {f : α → AnnotAt},
      (annotResult q db).map (fun x => (f x.1, x.2)) = some (b, db') →
      ∃ x, q.Runs db x db' ∧ b = f x := by
    intro α q f hq
    obtain ⟨⟨x, db₁⟩, hx, he⟩ := Option.map_eq_some_iff.mp hq
    obtain ⟨rfl, rfl⟩ := Prod.mk.inj he
    exact ⟨x, runs_of_annotResult hx, rfl⟩
  cases a with
  | start =>
    obtain ⟨row, hr, rfl⟩ := hstep h
    exact .findLabel hr
  | labelFound row =>
    obtain ⟨x, hr, rfl⟩ := hstep (f := fun x : Names × Nat => .resolved x.1 x.2) h
    exact .resolve hr
  | resolved names pos =>
    simp only [VertexAnnotCall.next] at h
    split at h
    · next rec db₁ hr =>
      obtain ⟨rfl, rfl⟩ := Prod.mk.inj (Option.some.inj h)
      exact .readSlot (runs_of_annotResult hr)
    · cases h
  | slotRead names pos rec =>
    obtain ⟨oldTid, hr, rfl⟩ := hstep h
    exact .pointer hr
  | pointed names pos rec oldTid =>
    obtain ⟨bits, hr, rfl⟩ := hstep h
    exact .readBits hr
  | bitsRead pos rec oldTid bits =>
    obtain ⟨newTid, hr, rfl⟩ := hstep h
    exact .append hr
  | written rec oldTid newTid =>
    obtain ⟨_, hr, rfl⟩ := hstep (f := fun _ => .repointed oldTid) h
    exact .repoint hr
  | repointed oldTid =>
    obtain ⟨_, hr, rfl⟩ := hstep (f := fun _ => .stamped) h
    exact .stamp hr
  | stamped => cases h

theorem WriteCall.turn_of_next {c c' : WriteCall} {db db' : AnnotDb}
    (h : c.next u db = some (c', db')) : c.Turn u db c' db' := by
  unfold WriteCall.next at h
  split at h
  · obtain ⟨⟨pos', g⟩, hx, he⟩ := Option.map_eq_some_iff.mp h
    obtain ⟨rfl, rfl⟩ := Prod.mk.inj he
    exact .updateVertex (updateTurn_of_nextTurn hx)
  · obtain ⟨⟨pos', db₁⟩, hx, he⟩ := Option.map_eq_some_iff.mp h
    obtain ⟨rfl, rfl⟩ := Prod.mk.inj he
    exact .changeAnnot (annotTurn_of_next hx)
  · cases h
  · obtain ⟨⟨loc', g⟩, hx, he⟩ := Option.map_eq_some_iff.mp h
    obtain ⟨rfl, rfl⟩ := Prod.mk.inj he
    exact .insertEdge (runs_of_result hx)

theorem pmapRun_of_runCalls (is : List ι) {trace : List (ι × WriteCall)}
    {calls calls' : ι → WriteCall} {db db' : AnnotDb}
    (h : runCalls u is calls db = some (trace, calls', db')) : PmapRun u trace calls db calls' db' := by
  induction is generalizing trace calls db with
  | nil =>
    cases h
    exact .done ..
  | cons i is ih =>
    unfold runCalls at h
    split at h
    · cases h
    · next c db₁ hn =>
      obtain ⟨⟨trace', calls₁, db₂⟩, hx, he⟩ := Option.map_eq_some_iff.mp h
      cases he
      exact .turn (WriteCall.turn_of_next hn) (ih hx)

end

/-- Two vertices of a label with an annotation, and the transactions 6, 7 and 8. -/
def exampleTwoAnnotated : AnnotDb :=
  let db := (SchemaOp.createVlabel ["a"] (some [some "x"])).perform ⟨5, 0⟩
    (AnnotDb.created asciiLtree ⟨9, fun n => if n < 6 then .committed else .inProgress⟩ ⟨5, 0⟩)
  let db₁ := ((insertAnnotatedVertex ⟨5, 1⟩ ⟨1, 2, 0⟩ npEmptyGtypeObject none).exec db).2
  ((insertAnnotatedVertex ⟨5, 1⟩ ⟨2, 2, 0⟩ npEmptyGtypeObject none).exec db₁).2

/-- Transaction 6 updates vertex 1, 7 adds an annotation to it, 8 inserts an edge from it. -/
def exampleWriteCalls (i : Fin 3) : WriteCall :=
  match i with
  | 0 => .updateVertex ⟨6, 0⟩ 2 1 exampleProps .start
  | 1 => .changeAnnot ⟨.set, ⟨7, 0⟩, 2, 1, "x"⟩ .start
  | 2 => .insertEdge ⟨⟨8, 0⟩, ⟨1, 2, 0⟩, ⟨2, 2, 0⟩, ⟨1, 1, 0, 1, 2, 1, 2⟩, npEmptyGtypeObject⟩ .start

/-- One after the other. -/
def exampleInTurn : List (Fin 3) :=
  List.replicate 6 0 ++ List.replicate 8 1 ++ List.replicate 12 2

/-- The update reads the record before the other two calls and goes on after them. -/
def exampleStaleCopy : List (Fin 3) :=
  [0] ++ List.replicate 8 1 ++ List.replicate 12 2 ++ List.replicate 5 0

theorem begins_exampleWriteCalls (i : Fin 3) : (exampleWriteCalls i).Begins := by
  match i with
  | 0 | 1 | 2 => rfl

/-- One after the other, the three calls keep the fields. -/
theorem pmapFieldsKept_of_undisturbed_example : ∃ trace calls db',
    PmapRun exampleUnspecified trace exampleWriteCalls exampleTwoAnnotated calls db' ∧
      PmapFieldsKept trace 2 1 exampleTwoAnnotated db' := by
  have h : PmapRun exampleUnspecified _ exampleWriteCalls exampleTwoAnnotated _ _ :=
    pmapRun_of_runCalls exampleInTurn rfl
  exact ⟨_, _, _, h, pmapFieldsKept_of_undisturbed begins_exampleWriteCalls h fun f => by
    cases f <;> decide⟩

/-- **Two writes are lost.** All three calls succeed and commit. The update has put the head and the
annotation pointer back to what it read before the other two calls wrote them. -/
theorem pmapFieldsKept_fails : ∃ trace calls db',
    PmapRun exampleUnspecified trace exampleWriteCalls exampleTwoAnnotated calls db' ∧
      (∀ i, (calls i).Ends) ∧ (∀ n ∈ [6, 7, 8], db'.graph.xacts.status n = .committed) ∧
      ¬ PmapFieldsKept trace 2 1 exampleTwoAnnotated db' := by
  have h : PmapRun exampleUnspecified _ exampleWriteCalls exampleTwoAnnotated _ _ :=
    pmapRun_of_runCalls exampleStaleCopy rfl
  refine ⟨_, _, _, h.then_xacts ⟨9, fun _ => .committed⟩, fun i => ?_, fun n _ => rfl, fun hkept => ?_⟩
  · match i with
    | 0 => exact ⟨_, rfl⟩
    | 1 | 2 => rfl
  · obtain ⟨rec', hrec', hhead⟩ := hkept .head ⟨⟨0, 1⟩, 0, .invalid, .invalid⟩ rfl
    obtain rfl := Option.some.inj (hrec'.symm.trans
      (show _ = some (⟨⟨0, 3⟩, 0, .invalid, .invalid⟩ : NeoPhysMapRecord) from rfl))
    have hlast : ((0, .invalid) : Oid × ItemPointer) = (16387, ⟨0, 1⟩) := hhead
    cases hlast

end NeoPostGraph
