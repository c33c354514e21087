import NeoPostGraph.Annotation.Change
import NeoPostGraph.Annotation.LabelChange
import NeoPostGraph.Annotation.LabelDdl
import NeoPostGraph.Graph.EntityInv
import NeoPostGraph.Graph.EntityReads
import NeoPostGraph.Graph.RelabelEdge
import NeoPostGraph.Graph.Writes

/-!
# The annotation pointer of an edge

The record of an edge in its label's physical map has two pointers, to the edge and to its bitset.
`np_internal_insert_edge` (`dml_insert.c:318-322`) and `update_edge` (`dml_update.c:160-162`) build the
record on the stack, set the first and write both: the second is what was on the stack. The label of an
edge is changed by an insert. `add_edge_annotation` and `remove_edge_annotation` alone set the second.

* `EdgeCall`: the calls, with what the stack holds in the place of the pointer.
* `EdgeRun P stored db`: calls with `P` lead to `db`; `stored` is the bitset stored last for each edge,
  since its record was inserted. Two ids of one slot are one edge here.
* `PointersDefined`: each pointer is invalid, or points to that bitset.
* `CleanStack`: what the stack has to hold.

Results:
* `edgePointers_defined`: in every run with a clean stack the pointers are defined.
* `edgePointers_fail`: one insert with something else on the stack.
-/

namespace NeoPostGraph

open SlottedPage

variable {db db' db₁ : AnnotDb} {s s' : Session} {x : Unspecified} {g : ItemPointer} {l id : Nat}
  {K : Nat × ItemPointer → Prop} {st st' st₀ : Store} {annot : String}

/-! ## The records a call writes -/

/-- The stack holds `g` in the place of the pointer. -/
def Unspecified.withStack (x : Unspecified) (g : ItemPointer) : Unspecified :=
  { x with stackItemptr := fun _ => g }

/-- **What a call leaves of the records**: what they were, padding where there was none, or one with the
pointer `g`, in a slot with `K`. None goes. -/
def EdgeSlots (K : Nat × ItemPointer → Prop) (g : ItemPointer) (st st' : Store) : Prop :=
  ∀ k, st'.eslot k = st.eslot k ∨ st.eslot k = none ∧ st'.eslot k = some emptyEdgePad ∨
    K k ∧ (∀ rec, st'.eslot k = some rec → rec.aItemptr = g) ∧
      (st'.eslot k = none → st.eslot k = none)

theorem EdgeSlots.refl (K : Nat × ItemPointer → Prop) (g : ItemPointer) (st : Store) :
    EdgeSlots K g st st := fun _ => Or.inl rfl

theorem EdgeSlots.congr (h : EdgeSlots K g st₀ st) (he : st'.eslot = st.eslot) :
    EdgeSlots K g st₀ st' := by
  unfold EdgeSlots
  rw [he]
  exact h

/-- A record is placed in a slot with `K`. -/
theorem EdgeSlots.place {tid : ItemPointer} {capacity : Nat}
    (hplaced : Placed st.eslot st'.eslot l (edgeSlot id) capacity emptyEdgePad ⟨tid, g⟩)
    (hK : K (l, edgeSlot id))
    (hle : ∀ rec, st.eslot (l, edgeSlot id) = some rec → (edgeSlot id).offset ≤ capacity) :
    EdgeSlots K g st st' := by
  intro k
  by_cases hk : k = (l, edgeSlot id)
  · subst hk
    refine Or.inr (Or.inr ⟨hK, fun rec hrec => ?_, fun hnone => ?_⟩)
    · rw [hplaced.self] at hrec
      split_ifs at hrec
      obtain rfl := Option.some.inj hrec
      rfl
    · cases hrec : st.eslot (l, edgeSlot id) with
      | none => rfl
      | some rec =>
        rw [hplaced.self, if_pos (hle rec hrec)] at hnone
        cases hnone
  · rcases hplaced.other k hk with he | hpad
    · exact Or.inl he
    · exact Or.inr (Or.inl hpad)

/-! ## The calls on the graph -/

section

variable {I : Store → Prop} (hI : ∀ st st', st'.eslot = st.eslot → I st → I st')

include hI

theorem writeEdgeTuple_keepsSlots (e : Err) (tuple : EntityTuple Edge) :
    (writeEdgeTuple l e tuple).Keeps fun gr => I gr.store :=
  Prog.keeps_of_runs fun gr tid gr' h hr => by
    change (writeEdgeTuple l e tuple).Runs gr tid gr' at hr
    refine hI _ _ ?_ h
    rw [(writeEdgeTuple_inv hr).2.2.2.2.2]

theorem stampEdgeTuple_keepsSlots (s : Session) (l : Nat) (tid : ItemPointer) :
    (stampEdgeTuple s l tid).Keeps fun gr => I gr.store :=
  Prog.keeps_of_runs fun gr u gr' h hr => by
    change (stampEdgeTuple s l tid).Runs gr u gr' at hr
    obtain ⟨lab, lab', hlab, hf, rfl⟩ := runs_onEdgeLabel.mp hr
    obtain ⟨t, hi, hf⟩ := bind_ok hf
    obtain ⟨-, rfl⟩ := Prod.mk.inj (Except.ok.inj hf)
    refine hI _ _ ?_ h
    rw [store_modifyEdgeTbl hlab (readItem_ok hi)]

theorem insertEdgeOneDirection_keepsSlots (s : Session) (ownerV otherV : Vertex) (e : Edge) (dir : Nat) :
    (insertEdgeOneDirection s ownerV otherV e dir).Keeps fun gr => I gr.store :=
  insertEdgeOneDirection_keeps (fun _ _ h hs => hI _ _ hs.eslot h) s ownerV otherV e dir

theorem npInternalDeleteEdge_keepsSlots (fuel : Nat) (s : Session) (l id : Nat) :
    (npInternalDeleteEdge fuel s l id).Keeps fun gr => I gr.store :=
  deleteEdge_keeps s (fun st _ _ _ h => hI st _ rfl h) (fun st _ h => hI st _ rfl h) fuel id l

end

/-- The step that writes the record. -/
theorem setEdgeSlot_edgeSlots (hK : K (l, edgeSlot id)) (e : Err) (tid : ItemPointer) :
    Prog.Triple (fun gr : Db => gr.store.eslot = st₀.eslot) (setEdgeSlot l id e ⟨tid, g⟩)
      (fun _ gr => EdgeSlots K g st₀ gr.store) fun gr => EdgeSlots K g st₀ gr.store := by
  refine Prog.triple_step (fun gr u gr' h hr => ?_) fun gr h k => Or.inl (congrFun h k)
  change (setEdgeSlot l id e ⟨tid, g⟩).Runs gr u gr' at hr
  obtain ⟨-, hplaced, -⟩ := setEdgeSlot_inv hr
  have hle (rec : NeoEdgePhysMapRecord) (hrec : gr.store.eslot (l, edgeSlot id) = some rec) :=
    eslot_offset_le hrec
  rw [h] at hplaced hle
  exact EdgeSlots.place hplaced hK hle

/-- What writes no record, before the one that is written. -/
theorem triple_before {α : Type} {p : Op α}
    (h : p.Keeps fun gr => gr.store.eslot = st₀.eslot) :
    Prog.Triple (fun gr : Db => gr.store.eslot = st₀.eslot) p (fun _ gr => gr.store.eslot = st₀.eslot)
      fun gr => EdgeSlots K g st₀ gr.store :=
  h.triple.weaken (fun _ h => h) (fun _ _ h => h) fun _ h k => Or.inl (congrFun h k)

theorem EdgeSlots.congr' (st st' : Store) (he : st'.eslot = st.eslot) (h : EdgeSlots K g st₀ st) :
    EdgeSlots K g st₀ st' := h.congr he

theorem sameSlots_trans (st st' : Store) (he : st'.eslot = st.eslot) (h : st.eslot = st₀.eslot) :
    st'.eslot = st₀.eslot := he.trans h

/-- **An insert** writes one record. -/
theorem npInternalInsertEdge_edgeSlots {e : Edge} (hK : K (e.labelId, edgeSlot e.id)) (x : Unspecified)
    (s : Session) (startV endV : Vertex) (props : Gtype) :
    Prog.Triple (fun gr : Db => gr.store.eslot = st₀.eslot)
      (npInternalInsertEdge (x.withStack g) s startV endV e props)
      (fun _ gr => EdgeSlots K g st₀ gr.store) fun gr => EdgeSlots K g st₀ gr.store :=
  (triple_before (writeEdgeTuple_keepsSlots sameSlots_trans _ _)).bind fun tid =>
    (setEdgeSlot_edgeSlots hK _ tid).bind fun _ =>
      (insertEdgeOneDirection_keepsSlots EdgeSlots.congr' s startV endV e 0).triple.bind fun _ =>
        (insertEdgeOneDirection_keepsSlots EdgeSlots.congr' s endV startV e 1).triple

/-- **An update** writes the record of the edge, which it has read. -/
theorem updateEdge_edgeSlots (x : Unspecified) (s : Session) (l id : Nat) (props : Gtype) :
    Prog.Triple (fun gr : Db => gr.store.eslot = st₀.eslot) (updateEdge (x.withStack g) s l id props)
      (fun _ gr => EdgeSlots (fun k => k = (l, edgeSlot id) ∧ (st₀.eslot k).isSome) g st₀ gr.store)
      fun gr => EdgeSlots (fun k => k = (l, edgeSlot id) ∧ (st₀.eslot k).isSome) g st₀ gr.store := by
  refine Prog.Triple.bind (Q := fun _ gr => gr.store.eslot = st₀.eslot ∧
      (st₀.eslot (l, edgeSlot id)).isSome)
    (Prog.triple_of_reads (fun _ => Prog.keeps_read _ _) (fun gr rec h hr => ⟨h, ?_⟩)
      fun gr h k => Or.inl (congrFun h k)) fun rec => ?_
  · obtain ⟨lab, hlab, hread, -⟩ := runs_readEdgeLabel.mp hr
    rw [← h, store_eslot hlab, readSlot_iff.mp hread]
    rfl
  · refine Prog.triple_assume (fun _ h => h.2) fun hsome => ?_
    refine Prog.Triple.pre ?_ fun _ h => h.1
    exact (triple_before (Prog.keeps_read _ _)).bind fun _ =>
      (triple_before (writeEdgeTuple_keepsSlots sameSlots_trans _ _)).bind fun tid =>
        (setEdgeSlot_edgeSlots ⟨rfl, hsome⟩ _ tid).bind fun _ =>
          (stampEdgeTuple_keepsSlots EdgeSlots.congr' s l _).triple

/-- **A change of the label** writes one record. -/
theorem relabelEdge_edgeSlots (x : Unspecified) (fuel : Nat) (s : Session) (edgeId cur target : Nat) :
    Prog.Triple (fun gr : Db => gr.store.eslot = st₀.eslot)
      (relabelEdge (x.withStack g) fuel s edgeId cur target)
      (fun _ gr => EdgeSlots (fun _ => True) g st₀ gr.store)
      fun gr => EdgeSlots (fun _ => True) g st₀ gr.store :=
  (triple_before (Prog.keeps_read _ _)).bind fun _ => (triple_before (Prog.keeps_read _ _)).bind fun _ =>
    (triple_before (npInternalDeleteEdge_keepsSlots sameSlots_trans fuel s cur edgeId)).bind fun _ =>
      (triple_before (EdgesKept.npInternalFetchVertex _ _ _ _)).bind fun _ =>
        (triple_before (EdgesKept.npInternalFetchVertex _ _ _ _)).bind fun _ =>
          (npInternalInsertEdge_edgeSlots trivial x _ _ _ _).bind fun _ => Prog.triple_ret fun _ h => h

theorem setEdgeLabel_edgeSlots (x : Unspecified) (fuel : Nat) (s : Session) (edgeId cur target : Nat) :
    Prog.Triple (fun gr : Db => gr.store.eslot = st₀.eslot)
      (setEdgeLabel (x.withStack g) fuel s edgeId cur target)
      (fun _ gr => EdgeSlots (fun _ => True) g st₀ gr.store)
      fun gr => EdgeSlots (fun _ => True) g st₀ gr.store := by
  refine (triple_before (Prog.keeps_read _ _)).bind fun _ => ?_
  split
  · exact Prog.triple_ret fun _ h k => Or.inl (congrFun h k)
  · exact (relabelEdge_edgeSlots x fuel s edgeId cur target).bind fun _ => Prog.triple_ret fun _ h => h

/-! ## Finding the label -/

/-- The label has no record. -/
def AnnotDb.NoRecords (db : AnnotDb) (l : Nat) : Prop := ∀ slot, db.graph.store.eslot (l, slot) = none

/-- Each edge label has the records and the annotation table it had, or no record. -/
def EdgeLabelsKept (db db' : AnnotDb) : Prop := ∀ l, db'.NoRecords l ∨
  (∀ slot, db'.graph.store.eslot (l, slot) = db.graph.store.eslot (l, slot)) ∧
    db'.annotationsTbl .edge l = db.annotationsTbl .edge l

theorem EdgeLabelsKept.refl (db : AnnotDb) : EdgeLabelsKept db db :=
  fun _ => Or.inr ⟨fun _ => rfl, rfl⟩

theorem EdgeLabelsKept.congr (h : EdgeLabelsKept db db₁) (hgraph : db'.graph = db₁.graph)
    (htbl : db'.annotationsTbl = db₁.annotationsTbl) : EdgeLabelsKept db db' := by
  unfold EdgeLabelsKept AnnotDb.NoRecords
  rw [hgraph, htbl]
  exact h

/-- The relations of a new label have no record. -/
theorem createElabelInternal_noRecords (l : Nat) :
    Prog.Triple (EdgeLabelsKept db) (onGraph (createElabelInternal l))
      (fun _ db' => EdgeLabelsKept db db' ∧ db'.NoRecords l) (EdgeLabelsKept db) := by
  refine Prog.triple_step (fun db₁ u db' h hr => ?_) fun _ h => h
  change (onGraph (createElabelInternal l)).Runs db₁ u db' at hr
  obtain ⟨gr, hgr, rfl⟩ := onGraph_runs_iff.mp hr
  obtain rfl := Except.ok.inj (Prog.runs_write_iff.mp hgr)
  have hslot (l' : Nat) (slot : ItemPointer) :
      (db₁.graph.setEdgeLabel l newEdgeLabel).store.eslot (l', slot) =
        if l' = l then none else db₁.graph.store.eslot (l', slot) := by
    unfold Db.store Db.setEdgeLabel
    by_cases hl : l' = l
    · simp [hl, newEdgeLabel, PhysMap.empty, Table.get_empty]
    · simp [hl]
  refine ⟨fun l' => ?_, fun slot => (hslot l slot).trans (if_pos rfl)⟩
  by_cases hl : l' = l
  · exact Or.inl fun slot => (hslot l' slot).trans (if_pos hl)
  · rcases h l' with hnone | ⟨hsame, htbl⟩
    · exact Or.inl fun slot => ((hslot l' slot).trans (if_neg hl)).trans (hnone slot)
    · exact Or.inr ⟨fun slot => ((hslot l' slot).trans (if_neg hl)).trans (hsame slot), htbl⟩

theorem insertAnnotationSchema_keepsLabels {I : AnnotDb → Prop}
    (hI : ∀ db db', db'.graph = db.graph → db'.annotationsTbl = db.annotationsTbl → I db → I db')
    (kind : LabelKind) (names : Names) : (insertAnnotationSchema s kind l names).Keeps I :=
  Prog.keeps_write fun db db' h hr => by
    obtain ⟨tid, tbl, t, -, -, -, rfl⟩ := insertAnnotationSchema_inv (u := ())
      (Prog.runs_write_iff.mpr hr)
    exact hI db _ rfl rfl h

theorem nextLabelId_keeps (kind : LabelKind) :
    Prog.Triple (EdgeLabelsKept db) (nextLabelId kind) (fun _ => EdgeLabelsKept db)
      (EdgeLabelsKept db) :=
  Prog.Keeps.triple (Prog.keeps_step fun db₁ a db' h hr => by
    cases hr
    exact h.congr rfl rfl)

/-- **A label that is made on the way** is new, whatever had its id. -/
theorem buildEdgeLabel_keeps {path : AnnotOp Ltree} (hpath : ∀ I, path.Keeps I)
    (annotations : Option Names) :
    Prog.Triple (EdgeLabelsKept db) (buildEdgeLabel s l path annotations)
      (fun _ => EdgeLabelsKept db) (EdgeLabelsKept db) := by
  let I : AnnotDb → Prop := fun db' => EdgeLabelsKept db db' ∧ db'.NoRecords l
  have hcongr : ∀ db₁ db' : AnnotDb, db'.graph = db₁.graph →
      db'.annotationsTbl = db₁.annotationsTbl → I db₁ → I db' := by
    rintro db₁ db' hgraph htbl ⟨h, hnone⟩
    refine ⟨h.congr hgraph htbl, ?_⟩
    unfold AnnotDb.NoRecords
    rw [hgraph]
    exact hnone
  have hafter {α : Type} {p : AnnotOp α} (hp : p.Keeps I) :
      Prog.Triple I p (fun _ => I) (EdgeLabelsKept db) :=
    hp.triple.weaken (fun _ h => h) (fun _ _ h => h) fun _ h => h.1
  refine (createElabelInternal_noRecords l).bind fun _ => Prog.Triple.bind (hafter ?_) fun _ =>
    Prog.Triple.bind (hafter (hpath I)) fun ltree => ?_
  · unfold buildEdgeAnnotations
    split
    · split
      · exact Prog.keeps_ret _ _
      · refine Prog.Keeps.bind (Prog.keeps_write fun db₁ db' h hr => ?_) fun _ =>
          insertAnnotationSchema_keepsLabels hcongr _ _
        cases hr
        refine ⟨fun l' => ?_, h.2⟩
        by_cases hl : l' = l
        · subst hl
          exact Or.inl h.2
        · rcases h.1 l' with hnone | ⟨hsame, htbl⟩
          · exact Or.inl hnone
          · refine Or.inr ⟨hsame, ?_⟩
            dsimp only
            rw [Function.update_self, Function.update_of_ne hl, htbl]
    · exact Prog.keeps_ret _ _
  · exact (hafter (p := insertLabel .edge _) (Prog.keeps_write fun db₁ db' h hr => by
      cases hr
      exact hcongr db₁ _ rfl rfl h)).post fun _ _ h => h.1

theorem createElabel_keeps (label : DottedText) (annotations : Option Names) :
    Prog.Triple (EdgeLabelsKept db) (createElabel s label annotations)
      (fun _ => EdgeLabelsKept db) (EdgeLabelsKept db) :=
  (nextLabelId_keeps .edge).bind fun _ =>
    (buildEdgeLabel_keeps (fun _ => keeps_parseUnderRoot _) _).bind fun _ =>
      Prog.triple_ret fun _ h => h

theorem read_keeps {α : Type} (f : AnnotDb → Except AnnotErr α) :
    Prog.Triple (EdgeLabelsKept db) (Prog.read f) (fun _ => EdgeLabelsKept db) (EdgeLabelsKept db) :=
  (Prog.keeps_read _ f).triple

theorem resolveOrCreateTargetEdgeLabel_keeps (currentLabelId : Nat) (newLabel : String)
    (currentLtree : Ltree) :
    Prog.Triple (EdgeLabelsKept db)
      (resolveOrCreateTargetEdgeLabel s currentLabelId newLabel currentLtree)
      (fun _ => EdgeLabelsKept db) (EdgeLabelsKept db) := by
  refine (read_keeps _).bind fun basePath => Prog.Triple.bind (Q := fun _ => EdgeLabelsKept db) ?_
    fun baseLabelId => ?_
  · refine (read_keeps _).bind fun found => ?_
    cases found with
    | some baseLabelId => exact Prog.triple_ret fun _ h => h
    | none => exact createElabel_keeps _ _
  · split
    · exact Prog.triple_ret fun _ h => h
    · refine (keeps_parseTargetPath ..).triple.bind fun targetPath => (read_keeps _).bind fun found => ?_
      cases found with
      | some targetLabelId => exact Prog.triple_ret fun _ h => h
      | none =>
        exact (nextLabelId_keeps .edge).bind fun _ => (keeps_searchLabels ..).triple.bind fun _ =>
            (buildEdgeLabel_keeps (fun _ => Prog.keeps_ret _ _) _).bind fun _ =>
              Prog.triple_ret fun _ h => h

/-- Step 1 of `set_edge_label` (`dml_labels.c:1884-1914`). -/
def targetEdgeLabel (s : Session) (currentLabelId : Nat) : DottedText → AnnotOp Nat
  | [newLabel] => do
    let current ← requireLabel .edge currentLabelId (.edgeLabelIdNotFound currentLabelId)
    resolveOrCreateTargetEdgeLabel s currentLabelId newLabel current.ltree
  | _ => Prog.fail .labelContainsDots

theorem targetEdgeLabel_keeps (currentLabelId : Nat) (newLabel : DottedText) :
    Prog.Triple (EdgeLabelsKept db) (targetEdgeLabel s currentLabelId newLabel)
      (fun _ => EdgeLabelsKept db) (EdgeLabelsKept db) := by
  unfold targetEdgeLabel
  split
  · exact (read_keeps _).bind fun _ => resolveOrCreateTargetEdgeLabel_keeps _ _ _
  · exact Prog.triple_fail fun _ h => h

/-! ## Runs -/

/-- A call on an edge, or on its annotations. -/
inductive EdgeCall where
  | insertEdge (startV endV : Vertex) (e : Edge) (props : Gtype)
  | updateEdge (l id : Nat) (props : Gtype)
  | setEdgeLabel (fuel : Nat) (s' : Session) (edgeId currentLabelId : Nat) (newLabel : DottedText)
  | addEdgeAnnotation (l id : Nat) (annot : String)
  | removeEdgeAnnotation (l id : Nat) (annot : String)
deriving DecidableEq, Repr

/-- What a call leaves, whether it returns or fails: the pages it wrote stay written. -/
def EdgeCall.perform (x : Unspecified) (s : Session) : EdgeCall → AnnotDb → AnnotDb
  | insertEdge startV endV e props, db =>
    { db with graph := ((NeoPostGraph.insertEdge x s startV endV e props).exec db.graph).2 }
  | updateEdge l id props, db =>
    { db with graph := ((NeoPostGraph.updateEdge x s l id props).exec db.graph).2 }
  | setEdgeLabel fuel s' edgeId currentLabelId newLabel, db =>
    match (targetEdgeLabel s currentLabelId newLabel).exec db with
    | (.ok target, db₁) => { db₁ with graph :=
        ((NeoPostGraph.setEdgeLabel x fuel s' edgeId currentLabelId target).exec db₁.graph).2 }
    | (.error _, db₁) => db₁
  | addEdgeAnnotation l id annot, db => ((NeoPostGraph.addEdgeAnnotation s l id annot).exec db).2
  | removeEdgeAnnotation l id annot, db => ((NeoPostGraph.removeEdgeAnnotation s l id annot).exec db).2

/-- A bitset of the edge has been stored at this tid. -/
def StoresBitset (db db' : AnnotDb) (l id : Nat) (tid : ItemPointer) : Prop :=
  ∃ tbl tbl' t, db.annotationsTbl .edge l = some tbl ∧ db'.annotationsTbl .edge l = some tbl' ∧
    tbl.get tid = none ∧ tbl'.get tid = some t ∧ t.hdr.id = id

/-- Where the bitset stored last for an edge is, by its label and slot. -/
abbrev StoredBitsets := Nat × ItemPointer → Option ItemPointer

/-- An edge whose record has been inserted has none. -/
def StoredBitsets.renewed (stored : StoredBitsets) (db db' : AnnotDb) : StoredBitsets := fun k =>
  if db'.graph.store.eslot k = db.graph.store.eslot k then stored k else none

/-- What a call does to the bitsets stored last. -/
def EdgeCall.Stores (db db' : AnnotDb) (stored stored' : StoredBitsets) : EdgeCall → Prop
  | insertEdge .. | setEdgeLabel .. => stored' = stored.renewed db db'
  | updateEdge .. => stored' = stored
  | addEdgeAnnotation l id _ | removeEdgeAnnotation l id _ =>
    (∃ tid, StoresBitset db db' l id tid ∧
      stored' = Function.update stored (l, edgeSlot id) (some tid)) ∨
    (∀ tid, ¬ StoresBitset db db' l id tid) ∧ stored' = stored

/-- The states that calls with `P` lead to, from a graph without edges, while transactions begin and
end. `g` is what the stack holds in the place of the pointer during the call. -/
inductive EdgeRun (P : ItemPointer → AnnotDb → EdgeCall → Prop) : AnnotDb → StoredBitsets → Prop
  | fresh {db : AnnotDb} (h : ∀ l, db.NoRecords l) : EdgeRun P db fun _ => none
  | call {db : AnnotDb} {stored stored' : StoredBitsets} (h : EdgeRun P db stored) (x : Unspecified)
      (g : ItemPointer) (s : Session) (c : EdgeCall) (hP : P g db c)
      (hst : c.Stores db (c.perform (x.withStack g) s db) stored stored') :
      EdgeRun P (c.perform (x.withStack g) s db) stored'
  | xacts {db : AnnotDb} {stored : StoredBitsets} (h : EdgeRun P db stored) (x : XactState) :
      EdgeRun P { db with graph := { db.graph with xacts := x } } stored

/-! ## The pointers -/

/-- A bitset of the edge is at this tid. -/
def AnnotDb.HoldsBitset (db : AnnotDb) (l id : Nat) (tid : ItemPointer) : Prop :=
  ∃ tbl t, db.annotationsTbl .edge l = some tbl ∧ tbl.get tid = some t ∧ edgeSlot t.hdr.id = edgeSlot id

/-- **The pointer of every edge's record** is invalid, if no bitset was stored for the edge, or points to
the one stored last. -/
def PointersDefined (db : AnnotDb) (stored : StoredBitsets) : Prop :=
  ∀ l id rec, db.graph.store.eslot (l, edgeSlot id) = some rec →
    match stored (l, edgeSlot id) with
    | none => rec.aItemptr.isValid = false
    | some tid => rec.aItemptr = tid ∧ db.HoldsBitset l id tid

/-- **A clean stack**: what it holds in the place of the pointer is invalid when a record is inserted,
and the pointer the record has when one is updated. -/
def CleanStack (g : ItemPointer) (db : AnnotDb) : EdgeCall → Prop
  | .insertEdge .. | .setEdgeLabel .. => g.isValid = false
  | .updateEdge l id _ => ∀ rec, db.graph.store.eslot (l, edgeSlot id) = some rec → rec.aItemptr = g
  | _ => True

/-- What a call may do to the pointer of its edge. -/
def EdgeCall.Frames (db db' : AnnotDb) : EdgeCall → Prop
  | insertEdge _ _ e _ => ∀ rec, db'.graph.store.eslot (e.labelId, edgeSlot e.id) = some rec →
    db.graph.store.eslot (e.labelId, edgeSlot e.id) = some rec ∨ rec.aItemptr.isValid = false
  | updateEdge l id _ => ∀ rec rec', db.graph.store.eslot (l, edgeSlot id) = some rec →
    db'.graph.store.eslot (l, edgeSlot id) = some rec' → rec'.aItemptr = rec.aItemptr
  | _ => True

/-! ## What a call keeps -/

/-- The pointers are defined, and a bitset was stored last where there is a record. -/
structure PointerInv (db : AnnotDb) (stored : StoredBitsets) : Prop where
  defined : PointersDefined db stored
  recorded : ∀ l id, db.graph.store.eslot (l, edgeSlot id) = none → stored (l, edgeSlot id) = none

theorem AnnotDb.HoldsBitset.isValid {tid : ItemPointer} (h : db.HoldsBitset l id tid) :
    tid.isValid = true := by
  obtain ⟨tbl, t, -, hget, -⟩ := h
  exact Table.isValid_of_get hget

theorem AnnotDb.HoldsBitset.congr {tid : ItemPointer} (h : db.HoldsBitset l id tid)
    (htbl : db'.annotationsTbl .edge l = db.annotationsTbl .edge l) : db'.HoldsBitset l id tid := by
  unfold AnnotDb.HoldsBitset
  rw [htbl]
  exact h

/-- **Records with an invalid pointer**, in labels some of which may have been made on the way. -/
theorem PointerInv.renewed {stored : StoredBitsets} (h : PointerInv db stored)
    (hlabels : EdgeLabelsKept db db₁) (hslots : EdgeSlots K g db₁.graph.store db'.graph.store)
    (hg : g.isValid = false) (htbls : db'.annotationsTbl = db₁.annotationsTbl) :
    PointerInv db' (stored.renewed db db') := by
  have hwritten (k : Nat × ItemPointer) (rec : NeoEdgePhysMapRecord)
      (hrec : db'.graph.store.eslot k = some rec) :
      db₁.graph.store.eslot k = some rec ∨ rec.aItemptr.isValid = false := by
    rcases hslots k with he | ⟨-, hpad⟩ | ⟨-, hptr, -⟩
    · exact Or.inl (he ▸ hrec)
    · rw [hpad] at hrec
      obtain rfl := Option.some.inj hrec
      exact Or.inr rfl
    · rw [hptr rec hrec]
      exact Or.inr hg
  refine ⟨fun l id rec hrec => ?_, fun l id hnone => ?_⟩
  · unfold StoredBitsets.renewed
    by_cases hk : db'.graph.store.eslot (l, edgeSlot id) = db.graph.store.eslot (l, edgeSlot id)
    · rw [if_pos hk]
      have hdefined := h.defined l id rec (hk ▸ hrec)
      cases hstored : stored (l, edgeSlot id) with
      | none =>
        rw [hstored] at hdefined
        exact hdefined
      | some tid =>
        rw [hstored] at hdefined
        obtain ⟨he, hholds⟩ := hdefined
        refine ⟨he, ?_⟩
        rcases hlabels l with hnone | ⟨-, htbl⟩
        · -- the record would be one just written
          rcases hwritten _ _ hrec with hold | hinvalid
          · rw [hnone] at hold
            cases hold
          · rw [he, hholds.isValid] at hinvalid
            cases hinvalid
        · exact hholds.congr (by rw [htbls, htbl])
    · rw [if_neg hk]
      rcases hwritten _ _ hrec with hold | hinvalid
      · rcases hlabels l with hnone | ⟨hsame, -⟩
        · rw [hnone] at hold
          cases hold
        · exact absurd (hrec.trans (hold.symm.trans (hsame _))) hk
      · exact hinvalid
  · unfold StoredBitsets.renewed
    split_ifs with hk
    · exact h.recorded l id (hk ▸ hnone)
    · rfl

/-- **A record with the pointer it had.** -/
theorem PointerInv.updated {stored : StoredBitsets} (h : PointerInv db stored)
    (hslots : EdgeSlots (fun k => k = (l, edgeSlot id) ∧ (db.graph.store.eslot k).isSome) g
      db.graph.store db'.graph.store)
    (hg : ∀ rec, db.graph.store.eslot (l, edgeSlot id) = some rec → rec.aItemptr = g)
    (htbls : db'.annotationsTbl = db.annotationsTbl) : PointerInv db' stored := by
  have hptr (l' id' : Nat) (rec rec' : NeoEdgePhysMapRecord)
      (hrec : db.graph.store.eslot (l', edgeSlot id') = some rec) (he : rec'.aItemptr = rec.aItemptr) :
      match stored (l', edgeSlot id') with
      | none => rec'.aItemptr.isValid = false
      | some tid => rec'.aItemptr = tid ∧ db'.HoldsBitset l' id' tid := by
    have hdefined := h.defined l' id' rec hrec
    rw [he]
    cases hstored : stored (l', edgeSlot id') with
    | none =>
      rw [hstored] at hdefined
      exact hdefined
    | some tid =>
      rw [hstored] at hdefined
      exact ⟨hdefined.1, hdefined.2.congr (by rw [htbls])⟩
  refine ⟨fun l' id' rec' hrec' => ?_, fun l' id' hnone => ?_⟩
  · rcases hslots (l', edgeSlot id') with he | ⟨hnone, hpad⟩ | ⟨⟨hk, hsome⟩, hwritten, -⟩
    · exact hptr l' id' rec' rec' (he ▸ hrec') rfl
    · rw [h.recorded l' id' hnone]
      rw [hpad] at hrec'
      obtain rfl := Option.some.inj hrec'
      exact (rfl : emptyEdgePad.aItemptr.isValid = false)
    · obtain ⟨rec, hrec⟩ := Option.isSome_iff_exists.mp hsome
      refine hptr l' id' rec rec' hrec ?_
      rw [hwritten rec' hrec', hg rec (hk ▸ hrec)]
  · rcases hslots (l', edgeSlot id') with he | ⟨-, hpad⟩ | ⟨-, -, hkept⟩
    · exact h.recorded l' id' (he ▸ hnone)
    · rw [hpad] at hnone
      cases hnone
    · exact h.recorded l' id' (hkept hnone)

theorem pmapRec_edge (db : AnnotDb) (l id : Nat) : db.pmapRec l id .edge =
    (db.graph.store.eslot (l, edgeSlot id)).map PmapRec.edge := by
  unfold AnnotDb.pmapRec Db.store
  dsimp only
  cases db.graph.elabels l <;> rfl

/-- A valid pointer leads to a bitset of the edge. -/
theorem PointersDefined.holds {stored : StoredBitsets} (h : PointersDefined db stored) {rec : PmapRec}
    (hrec : db.pmapRec l id .edge = some rec) (hvalid : rec.aItemptr.isValid = true) :
    db.HoldsBitset l id rec.aItemptr := by
  rw [pmapRec_edge] at hrec
  obtain ⟨r, hr, rfl⟩ := Option.map_eq_some_iff.mp hrec
  have hdefined := h l id r hr
  cases hstored : stored (l, edgeSlot id) with
  | none =>
    rw [hstored] at hdefined
    rw [show (PmapRec.edge r).aItemptr.isValid = false from hdefined] at hvalid
    cases hvalid
  | some tid =>
    rw [hstored] at hdefined
    obtain ⟨rfl, hholds⟩ := hdefined
    exact hholds

/-- The pointer that is kept is the record's, or invalid. -/
theorem keptAnnotTid_valid {kind : LabelKind} {tbl : Table AnnotTuple} {aItemptr : ItemPointer}
    (h : (keptAnnotTid kind tbl aItemptr).isValid = true) : keptAnnotTid kind tbl aItemptr = aItemptr := by
  unfold keptAnnotTid at h ⊢
  cases kind with
  | vertex => rfl
  | edge =>
    dsimp only at h ⊢
    split_ifs at h ⊢
    · cases h
    · rfl

/-- The old bitset is there. -/
theorem PointersDefined.kept_stored {stored : StoredBitsets} (h : PointersDefined db stored)
    {rec : PmapRec} {tbl : Table AnnotTuple} (hrec : db.pmapRec l id .edge = some rec)
    (htbl : db.annotationsTbl .edge l = some tbl)
    (hvalid : (keptAnnotTid .edge tbl rec.aItemptr).isValid = true) :
    ∃ t, tbl.get (keptAnnotTid .edge tbl rec.aItemptr) = some t := by
  have hkept := keptAnnotTid_valid hvalid
  rw [hkept] at hvalid ⊢
  obtain ⟨tbl₁, t, htbl₁, hget, -⟩ := h.holds hrec hvalid
  obtain rfl := Option.some.inj (htbl.symm.trans htbl₁)
  exact ⟨t, hget⟩

/-- A state that stays as it is stores no bitset. -/
theorem not_storesBitset_self (db : AnnotDb) (l id : Nat) (tid : ItemPointer) :
    ¬ StoresBitset db db l id tid := by
  rintro ⟨tbl, tbl', t, htbl, htbl', hnone, hget, -⟩
  obtain rfl := Option.some.inj (htbl.symm.trans htbl')
  rw [hnone] at hget
  cases hget

section Annotated

variable {change : BitChange} {names : Names} {pos : Nat} {tbl tbl' : Table AnnotTuple}
  {oldTid newTid : ItemPointer} {bits : List Nat} {stored : StoredBitsets}

/-- A bitset stays where it is: the change appends one and stamps one. -/
theorem AnnotDb.HoldsBitset.kept {l' id' : Nat} {tid : ItemPointer} (hholds : db.HoldsBitset l' id' tid)
    (hchange : AnnotChange db db' .edge change s l id annot names pos tbl tbl' oldTid newTid bits) :
    db'.HoldsBitset l' id' tid := by
  by_cases hl : l' = l
  · subst hl
    obtain ⟨tbl₁, t, htbl₁, hget, hid⟩ := hholds
    obtain rfl := Option.some.inj (hchange.table.symm.trans htbl₁)
    by_cases he : tid = oldTid
    · subst he
      exact ⟨_, _, hchange.stamp,
        hchange.get_old (Table.isValid_of_get hget) hget hchange.stamp, hid⟩
    · refine ⟨_, t, hchange.stamp, ?_, hid⟩
      rw [hchange.get_other he (fun hnew => ?_) hchange.stamp, hget]
      rw [hnew, Table.write_fresh hchange.write] at hget
      cases hget
  · exact hholds.congr (hchange.redirect.others .edge l' fun he => hl (Prod.mk.inj he).2)

variable (h : PointerInv db stored)
  (hchange : AnnotChange db db' .edge change s l id annot names pos tbl tbl' oldTid newTid bits)

include h hchange

theorem PointerInv.old_stored (hvalid : oldTid.isValid = true) : (tbl.get oldTid).isSome := by
  obtain ⟨rec, hrec, rfl⟩ := hchange.record
  exact Option.isSome_iff_exists.mpr (h.defined.kept_stored hrec hchange.table hvalid)

/-- **The bitset a change stores** is the one it appended. -/
theorem PointerInv.storesBitset_iff (tid : ItemPointer) :
    StoresBitset db db' l id tid ↔ tid = newTid := by
  have hold := h.old_stored hchange
  constructor
  · rintro ⟨tbl₁, tbl₂, t, htbl₁, htbl₂, hnone, hget, -⟩
    obtain rfl := Option.some.inj (hchange.table.symm.trans htbl₁)
    by_contra hne
    by_cases he : tid = oldTid
    · subst he
      have hsome := hold (Table.isValid_of_get hget)
      rw [hnone] at hsome
      cases hsome
    · rw [hchange.get_other he hne htbl₂, hnone] at hget
      cases hget
  · rintro rfl
    exact ⟨tbl, _, _, hchange.table, hchange.stamp, Table.write_fresh hchange.write,
      hchange.get_new hold hchange.stamp, rfl⟩

/-- **A change of an annotation** stores a bitset and points the record to it. -/
theorem PointerInv.annotated :
    PointerInv db' (Function.update stored (l, edgeSlot id) (some newTid)) := by
  have hslots (l' id' : Nat) := hchange.redirect.slots .edge l' id'
  simp only [pmapRec_edge, true_and, LabelKind.slot] at hslots
  refine ⟨fun l' id' rec' hrec' => ?_, fun l' id' hnone => ?_⟩
  · by_cases hk : l' = l ∧ edgeSlot id' = edgeSlot id
    · obtain ⟨rfl, hid⟩ := hk
      have hself := hslots l' id'
      rw [if_pos ⟨rfl, hid⟩, hrec'] at hself
      cases hrec : db.graph.store.eslot (l', edgeSlot id') with
      | none =>
        rw [hrec] at hself
        cases hself
      | some rec =>
        rw [hrec] at hself
        cases hself
        rw [hid, Function.update_self]
        exact ⟨rfl, _, _, hchange.stamp, hchange.get_new (h.old_stored hchange) hchange.stamp, hid.symm⟩
    · have hother := hslots l' id'
      rw [if_neg hk] at hother
      have hrec : db.graph.store.eslot (l', edgeSlot id') = some rec' := by
        rw [← hrec']
        exact Option.map_injective (fun _ _ he => PmapRec.edge.inj he) hother.symm
      have hdefined := h.defined l' id' rec' hrec
      have hne : (l', edgeSlot id') ≠ (l, edgeSlot id) := fun he => hk (Prod.mk.inj he)
      rw [Function.update_of_ne hne]
      cases hstored : stored (l', edgeSlot id') with
      | none =>
        rw [hstored] at hdefined
        exact hdefined
      | some tid =>
        rw [hstored] at hdefined
        exact ⟨hdefined.1, hdefined.2.kept hchange⟩
  · have hrecord := hslots l' id'
    rw [hnone] at hrecord
    by_cases hk : l' = l ∧ edgeSlot id' = edgeSlot id
    · obtain ⟨rfl, hid⟩ := hk
      obtain ⟨rec, hrec, -⟩ := hchange.record
      rw [if_pos ⟨rfl, hid⟩, hid, ← pmapRec_edge, hrec] at hrecord
      cases hrecord
    · rw [if_neg hk] at hrecord
      have hne : (l', edgeSlot id') ≠ (l, edgeSlot id) := fun he => hk (Prod.mk.inj he)
      rw [Function.update_of_ne hne]
      exact h.recorded l' id' (Option.map_eq_none_iff.mp hrecord.symm)

end Annotated

/-- **The state after a change**, whether it was made or refused. -/
theorem PointerInv.changeAnnot {change : BitChange} {stored stored' : StoredBitsets}
    (h : PointerInv db stored)
    (hst : (∃ tid, StoresBitset db ((NeoPostGraph.changeAnnot .edge change s l id annot).exec db).2 l id tid ∧
        stored' = Function.update stored (l, edgeSlot id) (some tid)) ∨
      (∀ tid, ¬ StoresBitset db ((NeoPostGraph.changeAnnot .edge change s l id annot).exec db).2 l id tid) ∧
        stored' = stored) :
    PointerInv ((NeoPostGraph.changeAnnot .edge change s l id annot).exec db).2 stored' := by
  rcases hr : (NeoPostGraph.changeAnnot .edge change s l id annot).exec db with ⟨e | u, db'⟩
  · -- a call that is refused leaves the state
    have hsame : db' = db := changeAnnot_error (fun _ _ => h.defined.kept_stored) hr
    subst hsame
    rw [hr] at hst
    rcases hst with ⟨tid, hstores, -⟩ | ⟨-, rfl⟩
    · exact absurd hstores (not_storesBitset_self _ l id tid)
    · exact h
  · obtain ⟨names, pos, tbl, tbl', oldTid, newTid, bits, hchange⟩ := changeAnnot_inv (u := u) hr
    rw [hr] at hst
    rcases hst with ⟨tid, hstores, rfl⟩ | ⟨hno, -⟩
    · obtain rfl := (h.storesBitset_iff hchange tid).mp hstores
      exact h.annotated hchange
    · exact absurd ((h.storesBitset_iff hchange newTid).mpr rfl) (hno newTid)

/-! ## Runs with a clean stack -/

/-- **The step.** -/
theorem PointerInv.call {stored stored' : StoredBitsets} (h : PointerInv db stored) (x : Unspecified)
    {c : EdgeCall} (hP : CleanStack g db c)
    (hst : c.Stores db (c.perform (x.withStack g) s db) stored stored') :
    PointerInv (c.perform (x.withStack g) s db) stored' := by
  cases c with
  | insertEdge startV endV e props =>
    obtain rfl := hst
    refine h.renewed (K := fun _ => True) (EdgeLabelsKept.refl db) ?_ hP rfl
    exact (npInternalInsertEdge_edgeSlots trivial x s startV endV props).exec rfl
  | updateEdge l id props =>
    obtain rfl := hst
    exact h.updated ((updateEdge_edgeSlots x s l id props).exec rfl) hP rfl
  | setEdgeLabel fuel s' edgeId currentLabelId newLabel =>
    obtain rfl := hst
    have hlabels := (targetEdgeLabel_keeps currentLabelId newLabel (s := s)).exec (EdgeLabelsKept.refl db)
    rcases hr : (targetEdgeLabel s currentLabelId newLabel).exec db with ⟨e | target, db₁⟩
    · rw [hr] at hlabels
      simp only [EdgeCall.perform, hr]
      exact h.renewed (g := .invalid) (K := fun _ => True) hlabels (EdgeSlots.refl _ _ _) rfl rfl
    · rw [hr] at hlabels
      simp only [EdgeCall.perform, hr]
      exact h.renewed hlabels ((setEdgeLabel_edgeSlots x fuel s' edgeId currentLabelId target).exec rfl)
        hP rfl
  | addEdgeAnnotation l id annot => exact h.changeAnnot hst
  | removeEdgeAnnotation l id annot => exact h.changeAnnot hst

theorem PointerInv.xacts {stored : StoredBitsets} (h : PointerInv db stored) (x : XactState) :
    PointerInv { db with graph := { db.graph with xacts := x } } stored :=
  ⟨h.defined, h.recorded⟩

theorem EdgeRun.pointerInv {stored : StoredBitsets} (h : EdgeRun CleanStack db stored) :
    PointerInv db stored := by
  induction h with
  | fresh hnone =>
    refine ⟨fun l id rec hrec => ?_, fun _ _ _ => rfl⟩
    cases (hnone l _).symm.trans hrec
  | call _ x g s c hP hst ih => exact ih.call x hP hst
  | xacts _ x ih => exact ih.xacts x

/-- **An insert** writes an invalid pointer, **an update** the one that was there. -/
theorem EdgeCall.frames {c : EdgeCall} (hP : CleanStack g db c) (x : Unspecified) (s : Session) :
    c.Frames db (c.perform (x.withStack g) s db) := by
  cases c with
  | insertEdge startV endV e props =>
    intro rec hrec
    have hslots : EdgeSlots (fun _ => True) g db.graph.store
        ((npInternalInsertEdge (x.withStack g) s startV endV e props).exec db.graph).2.store :=
      (npInternalInsertEdge_edgeSlots trivial x s startV endV props).exec rfl
    rcases hslots (e.labelId, edgeSlot e.id) with he | ⟨-, hpad⟩ | ⟨-, hptr, -⟩
    · exact Or.inl (he.symm.trans hrec)
    · obtain rfl := Option.some.inj (hpad.symm.trans hrec)
      exact Or.inr rfl
    · rw [hptr rec hrec]
      exact Or.inr hP
  | updateEdge l id props =>
    intro rec rec' hrec hrec'
    have hslots : EdgeSlots _ g db.graph.store
        ((NeoPostGraph.updateEdge (x.withStack g) s l id props).exec db.graph).2.store :=
      (updateEdge_edgeSlots x s l id props).exec rfl
    rcases hslots (l, edgeSlot id) with he | ⟨hnone, -⟩ | ⟨-, hptr, -⟩
    · obtain rfl := Option.some.inj ((he.symm.trans hrec').symm.trans hrec)
      rfl
    · cases hnone.symm.trans hrec
    · rw [hptr rec' hrec', hP rec hrec]
  | setEdgeLabel | addEdgeAnnotation | removeEdgeAnnotation => trivial

/-- **The annotation pointer of every edge is defined** after calls with a clean stack: it is invalid, or
points to the bitset stored last for the edge. An insert writes it invalid, an update leaves it. -/
theorem edgePointers_defined {stored : StoredBitsets} (h : EdgeRun CleanStack db stored) :
    PointersDefined db stored ∧ ∀ (x : Unspecified) (s : Session) (g : ItemPointer) (c : EdgeCall),
      CleanStack g db c → c.Frames db (c.perform (x.withStack g) s db) :=
  ⟨h.pointerInv.defined, fun x s _ _ hP => EdgeCall.frames hP x s⟩

/-- A label with two vertices, and an edge label with an annotation. -/
def exampleUnlinked : AnnotDb :=
  let db := (SchemaOp.createElabel ["e"] (some [some "y"])).perform ⟨5, 0⟩
    ((SchemaOp.createVlabel ["a"] none).perform ⟨5, 0⟩
      (AnnotDb.created asciiLtree ⟨7, fun n => if n < 6 then .committed else .inProgress⟩ ⟨5, 0⟩))
  let insert : Op Unit := do
    npInternalInsertVertex ⟨5, 0⟩ ⟨1, 2, 0⟩ npEmptyGtypeObject
    npInternalInsertVertex ⟨5, 0⟩ ⟨2, 2, 0⟩ npEmptyGtypeObject
  { db with graph := (insert.exec db.graph).2 }

theorem noRecords_exampleUnlinked (l : Nat) : exampleUnlinked.NoRecords l := by
  intro slot
  change ((Function.update (Function.update (fun _ => none) 1 (some newEdgeLabel)) 2
    (some newEdgeLabel) l : Option EdgeLabel).bind fun lab => lab.physMap.table.get slot) = none
  by_cases h2 : l = 2
  · simp [h2, newEdgeLabel, PhysMap.empty, Table.get_empty]
  · by_cases h1 : l = 1
    · simp [h1, newEdgeLabel, PhysMap.empty, Table.get_empty]
    · simp [h1, h2]

/-- An edge is inserted with `g` on the stack. -/
def exampleStack (g : ItemPointer) : AnnotDb :=
  (EdgeCall.insertEdge ⟨1, 2, 0⟩ ⟨2, 2, 0⟩ ⟨1, 2, 0, 2, 1, 2, 2⟩ npEmptyGtypeObject).perform
    (exampleUnspecified.withStack g) ⟨6, 0⟩ exampleUnlinked

/-- The edge is annotated. -/
def exampleAnnotatedEdge : AnnotDb :=
  (EdgeCall.addEdgeAnnotation 2 1 "y").perform (exampleUnspecified.withStack .invalid) ⟨6, 1⟩
    (exampleStack .invalid)

/-- And updated, with its pointer on the stack. -/
theorem edgePointers_defined_example : ∃ stored,
    EdgeRun CleanStack ((EdgeCall.updateEdge 2 1 exampleProps).perform
      (exampleUnspecified.withStack ⟨0, 1⟩) ⟨6, 2⟩ exampleAnnotatedEdge) stored ∧
    PointersDefined ((EdgeCall.updateEdge 2 1 exampleProps).perform
      (exampleUnspecified.withStack ⟨0, 1⟩) ⟨6, 2⟩ exampleAnnotatedEdge) stored ∧
    stored (2, edgeSlot 1) = some ⟨0, 1⟩ := by
  have hinsert : EdgeRun CleanStack (exampleStack .invalid) _ :=
    (EdgeRun.fresh noRecords_exampleUnlinked).call exampleUnspecified .invalid _ _ rfl rfl
  have hannot : EdgeRun CleanStack exampleAnnotatedEdge _ :=
    hinsert.call exampleUnspecified .invalid _ _ trivial
      (Or.inl ⟨⟨0, 1⟩, ⟨_, _, _, rfl, rfl, by decide +kernel, rfl, rfl⟩, rfl⟩)
  have hupdate := hannot.call exampleUnspecified ⟨0, 1⟩ ⟨6, 2⟩ (.updateEdge 2 1 exampleProps)
    (fun rec hrec => by cases hrec; rfl) rfl
  exact ⟨_, hupdate, (edgePointers_defined hupdate).1, Function.update_self ..⟩

/-- **Without an annotation the edge points to one**: its pointer is what was on the stack. -/
theorem edgePointers_fail : ¬ ∀ db stored, EdgeRun (fun _ _ _ => True) db stored →
    PointersDefined db stored := by
  intro h
  have hinsert : EdgeRun (fun _ _ _ => True) (exampleStack ⟨7, 7⟩)
      (StoredBitsets.renewed (fun _ => none) exampleUnlinked (exampleStack ⟨7, 7⟩)) :=
    (EdgeRun.fresh noRecords_exampleUnlinked).call exampleUnspecified ⟨7, 7⟩ _ _ trivial rfl
  have hdefined := h _ _ hinsert 2 1 ⟨⟨0, 1⟩, ⟨7, 7⟩⟩ rfl
  have hnone : StoredBitsets.renewed (fun _ => none) exampleUnlinked (exampleStack ⟨7, 7⟩)
      (2, edgeSlot 1) = none := by
    unfold StoredBitsets.renewed
    split_ifs <;> rfl
  rw [hnone] at hdefined
  cases hdefined

end NeoPostGraph
