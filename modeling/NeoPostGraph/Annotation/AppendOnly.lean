import Mathlib.Data.Finset.Basic
import Mathlib.Data.List.ReduceOption
import NeoPostGraph.Annotation.DropName

/-!
# Annotations under a schema that only grows

A label whose schema grows by `add_annotation_label` and never shrinks, and its vertices: inserted with
annotations, and annotations added to them and removed from them. A bitset has a bit for each name
of the schema of its time; the names keep their positions, so the bits keep their meaning.

The decoder takes a bit for each name of the schema as it is now and does not ask how long the bitset
is. When the schema has outgrown a stored tuple, the bit of a later name is read from the tuple behind
it.

* `annotationsOf tr id`: the names added to a vertex and not since removed, by the calls `tr`.
* `AppendRun P structLabel labelId tr db`: the calls `tr` on the label, each meeting `P`, lead to `db`.
* `WithinTuple`: what a call must find for the set to be kept.

Results:
* `AppendInv.call`: each call keeps the bits of every vertex to its set.
* `annotationSets`: over every run, a vertex's decoded annotations are its set, and a change moves one
  bit.
-/

namespace NeoPostGraph

open SlottedPage

variable {db db' : AnnotDb} {g : BytesBehind} {s : Session} {structLabel : DottedText}
  {labelId id : Nat} {annot a : String} {names : Names} {x : XactState} {own : List Nat}
  {tid : ItemPointer} {t : AnnotTuple} {tr : List (Session × AnnotCall)} {bits bits' : List Nat}

/-! ## The set of a vertex -/

/-- The vertex a call is on. -/
def AnnotCall.vertex : AnnotCall → Option Nat
  | insertVertex id .. | addVertexAnnotationLabel id _ | removeVertexAnnotationLabel id _ => some id
  | _ => none

/-- The call is on the vertex: ids of one slot are one vertex. -/
def AnnotCall.On (c : AnnotCall) (id : Nat) : Prop :=
  ∃ i, c.vertex = some i ∧ entitySlot i = entitySlot id

/-- The set of a vertex after a call on it. -/
def AnnotCall.annotationsAfter (c : AnnotCall) (annots : Finset String) : Finset String :=
  match c with
  | insertVertex _ _ _ inputAnnots => (inputAnnots.getD []).reduceOption.toFinset
  | addVertexAnnotationLabel _ annot => insert annot annots
  | removeVertexAnnotationLabel _ annot => annots.erase annot
  | _ => annots

/-- The names added to a vertex, at its insert or later, and not since removed. The last call comes
first. -/
def annotationsOf : List (Session × AnnotCall) → Nat → Finset String
  | [], _ => ∅
  | (_, c) :: tr, id =>
    if c.vertex.any fun i => entitySlot i = entitySlot id then c.annotationsAfter (annotationsOf tr id)
    else annotationsOf tr id

theorem AnnotCall.any_vertex {c : AnnotCall} :
    (c.vertex.any fun i => entitySlot i = entitySlot id) = true ↔ c.On id := by
  unfold AnnotCall.On
  cases c.vertex <;> simp

theorem annotationsOf_of_on {c : AnnotCall} (h : c.On id) :
    annotationsOf ((s, c) :: tr) id = c.annotationsAfter (annotationsOf tr id) :=
  if_pos (AnnotCall.any_vertex.mpr h)

theorem annotationsOf_of_not_on {c : AnnotCall} (h : ¬ c.On id) :
    annotationsOf ((s, c) :: tr) id = annotationsOf tr id :=
  if_neg fun hany => h (AnnotCall.any_vertex.mp hany)

/-- Two ids of one slot have one set. -/
theorem annotationsOf_congr (tr : List (Session × AnnotCall)) {i : Nat}
    (h : entitySlot i = entitySlot id) : annotationsOf tr i = annotationsOf tr id := by
  induction tr with
  | nil => rfl
  | cons c tr ih =>
    unfold annotationsOf
    rw [ih, h]

/-! ## Runs -/

/-- The calls on a schema that only grows. -/
def AnnotCall.Appends : AnnotCall → Prop
  | dropAnnotationLabel _ => False
  | _ => True

/-- The states that calls with `P` lead to, from a label without vertices, while transactions begin
and end. -/
inductive AppendRun (P : AnnotDb → AnnotCall → Prop) (structLabel : DottedText) (labelId : Nat) :
    List (Session × AnnotCall) → AnnotDb → Prop
  | fresh {db : AnnotDb} (h : FreshLabel structLabel labelId db) :
      AppendRun P structLabel labelId [] db
  | call {tr : List (Session × AnnotCall)} {db db' : AnnotDb}
      (h : AppendRun P structLabel labelId tr db) (s : Session) (c : AnnotCall) (hc : c.Appends)
      (hs : fullXidIsValid s.fxid = true) (hP : P db c)
      (hr : (c.run structLabel labelId s).Runs db () db') :
      AppendRun P structLabel labelId ((s, c) :: tr) db'
  | xacts {tr : List (Session × AnnotCall)} {db : AnnotDb}
      (h : AppendRun P structLabel labelId tr db) (x : XactState) :
      AppendRun P structLabel labelId tr { db with graph := { db.graph with xacts := x } }

/-- **What a call must find.** An addition to the schema: the bit of the new name lies in the stored
bitset of every vertex, and no other label the call goes over has the label's slot. An insert with
annotations: its slot lies on a page of the physical map. -/
def WithinTuple (structLabel : DottedText) (labelId : Nat) (db : AnnotDb) : AnnotCall → Prop
  | .addAnnotationLabel annot => OtherSlots db .vertex labelId structLabel ∧
    (some annot ∉ db.labelNames .vertex labelId →
      ∀ id tid t, db.bitset .vertex labelId id = some (tid, t) →
        (db.labelNames .vertex labelId).length / 8 < ownBytes t.bits.length)
  | .insertVertex id _ _ inputAnnots =>
    (inputAnnots.getD []).reduceOption ≠ [] →
      (entitySlot id).offset ≤ pageCapacity sizeOfNeoPhysMapRecord
  | _ => True

/-- A reader counts the transaction among its own, or as committed. -/
def XactState.Counts (x : XactState) (own : List Nat) (fxid : Nat) : Prop :=
  transactionIdIsCurrent own (xidFromFull fxid) = true ∨
    transactionIdIsInProgress x (xidFromFull fxid) = false ∧
      transactionIdDidCommit x (xidFromFull fxid) = true

/-- A bit of the bitset of a vertex; a vertex without one has no bit set. -/
def AnnotDb.vertexBit (db : AnnotDb) (labelId id i : Nat) : Bool :=
  (db.bitset .vertex labelId id).any fun x => ByteBits.bit x.2.bits i

/-! ## The invariant -/

/-- **The bits of a vertex are its set.** -/
structure BitsOf (labelId id : Nat) (names : Names) (tr : List (Session × AnnotCall))
    (db : AnnotDb) : Prop where
  listed : ∀ a ∈ annotationsOf tr id, some a ∈ names
  bits : ∀ tid t, db.bitset .vertex labelId id = some (tid, t) →
    t.bits.length ≤ byteSizeOf names ∧ ∀ i, ByteBits.bit t.bits i = true ↔
      ∃ a ∈ annotationsOf tr id, bitPosition names a = some i
  written : ∀ tid t, db.bitset .vertex labelId id = some (tid, t) →
    fullXidIsValid t.hdr.xmin = true ∧ t.hdr.xmax = invalidFullTransactionId ∧
      ∃ c ∈ tr, c.2.On id ∧ t.hdr.xmin = c.1.fxid
  empty : db.bitset .vertex labelId id = none → annotationsOf tr id = ∅

/-- The label over a run: its names and its vertices. -/
structure AppendInv (structLabel : DottedText) (labelId : Nat) (names : Names)
    (tr : List (Session × AnnotCall)) (db : AnnotDb) : Prop where
  label : LabelInv structLabel labelId names db
  vertices : ∀ id, BitsOf labelId id names tr db

/-- The vertex is as it was, under names that keep their positions. -/
theorem BitsOf.congr {names' : Names} {tr' : List (Session × AnnotCall)}
    (h : BitsOf labelId id names tr db)
    (hb : db'.bitset .vertex labelId id = db.bitset .vertex labelId id)
    (htr : annotationsOf tr' id = annotationsOf tr id) (hmem : ∀ c ∈ tr, c ∈ tr')
    (hsize : byteSizeOf names ≤ byteSizeOf names') (hsub : ∀ a, some a ∈ names → some a ∈ names')
    (hpos : ∀ a, some a ∈ names → bitPosition names' a = bitPosition names a) :
    BitsOf labelId id names' tr' db' := by
  have hset : ∀ i, (∃ a ∈ annotationsOf tr' id, bitPosition names' a = some i) ↔
      ∃ a ∈ annotationsOf tr id, bitPosition names a = some i := fun i => by
    rw [htr]
    refine exists_congr fun a => and_congr_right fun ha => ?_
    rw [hpos a (h.listed a ha)]
  refine ⟨fun a ha => hsub a (h.listed a (htr ▸ ha)), fun tid t hbt => ?_, fun tid t hbt => ?_,
    fun hn => ?_⟩
  · rw [hb] at hbt
    obtain ⟨hlen, hbits⟩ := h.bits tid t hbt
    exact ⟨Nat.le_trans hlen hsize, fun i => (hbits i).trans (hset i).symm⟩
  · rw [hb] at hbt
    obtain ⟨hmin, hmax, c, hc, hrest⟩ := h.written tid t hbt
    exact ⟨hmin, hmax, c, hmem c hc, hrest⟩
  · rw [hb] at hn
    rw [htr]
    exact h.empty hn

/-! ## Adding to the schema -/

theorem byteSizeOf_mono {names' : Names} (h : names.length ≤ names'.length) :
    byteSizeOf names ≤ byteSizeOf names' := by
  unfold byteSizeOf
  omega

/-- A name keeps its position when another is appended. -/
theorem bitPosition_addedNames (h : some a ∈ names) :
    bitPosition (addedNames names annot) a = bitPosition names a := by
  unfold addedNames bitPosition
  split_ifs
  · rfl
  · obtain ⟨pos, hpos⟩ := exists_bitPosition h
    change names.idxOf? (some a) = some pos at hpos
    unfold List.idxOf? at hpos ⊢
    rw [List.findIdx?_append, hpos]
    rfl

theorem mem_addedNames (h : some a ∈ names) : some a ∈ addedNames names annot := by
  unfold addedNames
  split_ifs
  · exact h
  · exact List.mem_append_left _ h

theorem length_addedNames (names : Names) (annot : String) :
    names.length ≤ (addedNames names annot).length := by
  unfold addedNames
  split_ifs <;> simp

/-- **An addition to the schema** changes no vertex. -/
theorem AppendInv.add {u : Unit} (h : AppendInv structLabel labelId names tr db)
    (hsafe : WithinTuple structLabel labelId db (.addAnnotationLabel annot))
    (hr : (addAnnotationLabel s structLabel [annot]).Runs db u db') :
    AppendInv structLabel labelId (addedNames names annot)
      ((s, .addAnnotationLabel annot) :: tr) db' := by
  have hstep := addAnnotationLabel_step h.label.ok h.label.tbl h.label.named hsafe.1 hr
  have hlen : ∀ id tid t, db.bitset .vertex labelId id = some (tid, t) →
      (addedNames names annot).length ≤ 8 * ownBytes t.bits.length := by
    intro id tid t hb
    by_cases hmem : some annot ∈ names
    · have hnames : addedNames names annot = names := if_pos hmem
      rw [hnames]
      exact h.label.bitset hb
    · have hlt := hsafe.2 (by rwa [h.label.ok.labelNames]) id tid t hb
      rw [h.label.ok.labelNames] at hlt
      have hlen : (addedNames names annot).length = names.length + 1 := by
        unfold addedNames
        rw [if_neg hmem, List.length_append]
        rfl
      omega
  refine ⟨h.label.step hstep hlen, fun id => ?_⟩
  have hnot : ¬ (AnnotCall.addAnnotationLabel annot).On id := by
    rintro ⟨i, hi, -⟩
    cases hi
  exact (h.vertices id).congr (hstep.bitset id) (annotationsOf_of_not_on hnot)
    (fun c hc => List.mem_cons_of_mem _ hc) (byteSizeOf_mono (length_addedNames names annot))
    (fun _ => mem_addedNames) fun _ => bitPosition_addedNames

/-! ## Inserting a vertex -/

/-- **The bits of the annotations an insert is given** are set, and no other. -/
theorem bit_setBits {annots : Names} (h : setBits names annots bits = .ok bits')
    (hlen : byteSizeOf names ≤ bits.length) :
    (∀ a, some a ∈ annots → some a ∈ names) ∧ ∀ i, ByteBits.bit bits' i = true ↔
      ByteBits.bit bits i = true ∨ ∃ a, some a ∈ annots ∧ bitPosition names a = some i := by
  induction annots generalizing bits with
  | nil =>
    obtain rfl := Except.ok.inj h
    simp
  | cons name rest ih =>
    cases name with
    | none => simpa using ih h hlen
    | some annot =>
      unfold setBits at h
      cases hpos : bitPosition names annot with
      | none =>
        rw [hpos] at h
        cases h
      | some pos =>
        rw [hpos] at h
        have hlt := lt_byteSizeOf (lt_of_bitPosition hpos)
        have happly : (BitChange.set.apply bits pos).length = bits.length := List.length_modify ..
        obtain ⟨hlisted, hbits⟩ := ih h (by omega)
        refine ⟨fun a ha => ?_, fun i => ?_⟩
        · rcases List.mem_cons.mp ha with he | ha
          · cases he
            exact List.mem_of_getElem? (getElem?_of_bitPosition hpos)
          · exact hlisted a ha
        · have hor : ByteBits.bit (BitChange.set.apply bits pos) i =
              (ByteBits.bit bits i || decide (i = pos)) := ByteBits.bit_modify_or (by omega)
          rw [hbits, hor, Bool.or_eq_true, decide_eq_true_eq, or_assoc]
          refine or_congr_right ⟨?_, ?_⟩
          · rintro (rfl | ⟨a, ha, hi⟩)
            · exact ⟨annot, List.mem_cons_self, hpos⟩
            · exact ⟨a, List.mem_cons_of_mem _ ha, hi⟩
          · rintro ⟨a, ha, hi⟩
            rcases List.mem_cons.mp ha with he | ha
            · cases he
              exact .inl (Option.some.inj (hi.symm.trans hpos))
            · exact .inr ⟨a, ha, hi⟩

/-- **The bitset of a vertex that has been inserted**: none without annotations; with them, the one
that was written, if the record has found its slot. -/
theorem insertAnnotatedVertex_bitset {u : Unit} {dictionaryId : Nat} {props : Gtype}
    {inputAnnots : Option Names} (hok : SchemaOk db .vertex labelId names)
    (hr : (insertAnnotatedVertex s ⟨id, labelId, dictionaryId⟩ props inputAnnots).Runs db u db') :
    (inputAnnots = none ∧ db'.bitset .vertex labelId id = none) ∨
      ∃ annots bits newTid, inputAnnots = some annots ∧
        setBits names annots (copyBits [] (byteSizeOf names)) = .ok bits ∧
        db'.bitset .vertex labelId id =
          if (entitySlot id).offset ≤ pageCapacity sizeOfNeoPhysMapRecord then
            some (newTid, newAnnotTuple s id .invalid bits)
          else none := by
  obtain ⟨vItemptr, db₁, hvertex, h₁⟩ := Prog.runs_bind_iff.mp hr
  obtain ⟨gr₁, -, hdb₁⟩ := onGraph_runs_iff.mp hvertex
  obtain ⟨newTid, db₂, hannots, h₂⟩ := Prog.runs_bind_iff.mp h₁
  obtain ⟨gr₂, hplace, hdb'⟩ := onGraph_runs_iff.mp h₂
  have hok₁ : SchemaOk db₁ .vertex labelId names :=
    hok.congr (by rw [hdb₁]) (by rw [hdb₁]) (by rw [hdb₁])
  obtain ⟨-, hplaced, -⟩ := placeVertexSlot_inv hplace
  have hrec : db'.pmapRec labelId id .vertex =
      if (entitySlot id).offset ≤ pageCapacity sizeOfNeoPhysMapRecord then
        some (.vertex ⟨vItemptr, 0, .invalid, newTid⟩)
      else none := by
    rw [pmapRec_vertex, hdb']
    dsimp only
    rw [hplaced.self]
    split_ifs <;> rfl
  rcases insertAnnotations_bits hok₁ hannots with ⟨hnone, htid, -⟩ |
    ⟨annots, bits, tbl, tbl', hsome, hbits, -, -, hw, hdb₂⟩
  · refine .inl ⟨hnone, Option.eq_none_iff_forall_not_mem.mpr fun ⟨tid, t⟩ hb => ?_⟩
    obtain ⟨rec, _, hr, -, hvalid, -⟩ := bitset_eq_some.mp hb
    rw [hrec, htid] at hr
    split_ifs at hr
    cases hr
    cases hvalid
  · refine .inr ⟨annots, bits, newTid, hsome, hbits, ?_⟩
    have htbl : db'.annotationsTbl .vertex labelId = some tbl' := by
      rw [hdb', hdb₂]
      exact setAnnotations_tbl db₁ .vertex labelId tbl'
    split_ifs with hcap
    · rw [if_pos hcap] at hrec
      exact bitset_eq_some.mpr ⟨_, tbl', hrec, htbl, Table.write_valid hw, rfl, Table.write_get hw⟩
    · rw [if_neg hcap] at hrec
      unfold AnnotDb.bitset
      rw [hrec]

theorem mem_annotationsOf_insert {dictionaryId : Nat} {props : Gtype} {inputAnnots : Option Names}
    {i : Nat} (hi : entitySlot id = entitySlot i) :
    a ∈ annotationsOf ((s, .insertVertex id dictionaryId props inputAnnots) :: tr) i ↔
      some a ∈ inputAnnots.getD [] := by
  rw [annotationsOf_of_on ⟨id, rfl, hi⟩]
  simp only [AnnotCall.annotationsAfter, List.mem_toFinset, List.reduceOption_mem_iff]

/-- **An insert** gives the vertex the annotations it is given, and leaves the others alone. -/
theorem AppendInv.insert {u : Unit} {dictionaryId : Nat} {props : Gtype} {inputAnnots : Option Names}
    (h : AppendInv structLabel labelId names tr db) (hs : fullXidIsValid s.fxid = true)
    (hsafe : WithinTuple structLabel labelId db (.insertVertex id dictionaryId props inputAnnots))
    (hr : (insertAnnotatedVertex s ⟨id, labelId, dictionaryId⟩ props inputAnnots).Runs db u db') :
    AppendInv structLabel labelId names
      ((s, .insertVertex id dictionaryId props inputAnnots) :: tr) db' := by
  obtain ⟨tbl, htbl⟩ := Option.isSome_iff_exists.mp h.label.tbl
  obtain ⟨tbl', newTid, hi⟩ := insertAnnotatedVertex_inv h.label.ok htbl hr
  obtain ⟨hinv, hothers⟩ := h.label.insert hi
  refine ⟨hinv, fun i => ?_⟩
  by_cases hne : entitySlot i = entitySlot id
  · have hmem (a : String) :
        a ∈ annotationsOf ((s, .insertVertex id dictionaryId props inputAnnots) :: tr) i ↔
          some a ∈ inputAnnots.getD [] := mem_annotationsOf_insert hne.symm
    rcases insertAnnotatedVertex_bitset h.label.ok hr with ⟨rfl, hb⟩ |
      ⟨annots, bits, newTid, rfl, hbits, hb⟩
    · rw [← bitset_congr hne] at hb
      have hempty (a : String) :
          a ∉ annotationsOf ((s, .insertVertex id dictionaryId props none) :: tr) i :=
        fun ha => nomatch (hmem a).mp ha
      refine ⟨fun a ha => absurd ha (hempty a), fun tid t hbt => ?_, fun tid t hbt => ?_,
        fun _ => Finset.eq_empty_of_forall_notMem hempty⟩
      · cases hb.symm.trans hbt
      · cases hb.symm.trans hbt
    · rw [← bitset_congr hne] at hb
      have hcopy : (copyBits [] (byteSizeOf names)).length = byteSizeOf names :=
        ByteBits.length_resize ..
      obtain ⟨hlisted, hset⟩ := bit_setBits hbits (Nat.le_of_eq hcopy.symm)
      refine ⟨fun a ha => hlisted a ((hmem a).mp ha), fun tid t hbt => ?_, fun tid t hbt => ?_,
        fun hn => ?_⟩
      · rw [hb] at hbt
        split_ifs at hbt
        cases hbt
        refine ⟨Nat.le_of_eq ((length_setBits hbits).trans hcopy), fun j => ?_⟩
        have hclear : ByteBits.bit (copyBits [] (byteSizeOf names)) j = false := by
          have hresize : ByteBits.bit (copyBits [] (byteSizeOf names)) j =
              (ByteBits.bit [] j && decide (j / 8 < byteSizeOf names)) := ByteBits.bit_resize ..
          rw [hresize, ByteBits.bit_eq_false (by simp), Bool.false_and]
        change ByteBits.bit bits j = true ↔ _
        rw [hset, hclear]
        simp only [Bool.false_eq_true, false_or]
        exact exists_congr fun a => and_congr_left fun _ => (hmem a).symm
      · rw [hb] at hbt
        split_ifs at hbt
        cases hbt
        exact ⟨hs, rfl, _, List.mem_cons_self, ⟨id, rfl, hne.symm⟩, rfl⟩
      · rw [hb] at hn
        refine Finset.eq_empty_of_forall_notMem fun a ha => ?_
        have hin : a ∈ annots.reduceOption := List.reduceOption_mem_iff.mpr ((hmem a).mp ha)
        rw [if_pos (hsafe (List.ne_nil_of_mem hin))] at hn
        cases hn
  · have hnot : ¬ (AnnotCall.insertVertex id dictionaryId props inputAnnots).On i := by
      rintro ⟨j, hj, hslot⟩
      cases hj
      exact hne hslot.symm
    exact (h.vertices i).congr (hothers i hne) (annotationsOf_of_not_on hnot)
      (fun c hc => List.mem_cons_of_mem _ hc) (Nat.le_refl _) (fun _ ha => ha) fun _ _ => rfl

/-! ## Changing a vertex -/

/-- The call that makes a change. -/
def BitChange.call (change : BitChange) (id : Nat) (annot : String) : AnnotCall :=
  match change with
  | set => .addVertexAnnotationLabel id annot
  | clear => .removeVertexAnnotationLabel id annot

theorem BitChange.run_call (change : BitChange) (id : Nat) (annot : String) (s : Session) :
    (change.call id annot).run structLabel labelId s =
      changeAnnot .vertex change s labelId id annot := by
  cases change <;> rfl

theorem BitChange.vertex_call (change : BitChange) (id : Nat) (annot : String) :
    (change.call id annot).vertex = some id := by
  cases change <;> rfl

theorem BitChange.mem_annotationsAfter (change : BitChange) (id : Nat) (annot : String)
    (annots : Finset String) : a ∈ (change.call id annot).annotationsAfter annots ↔
      if a = annot then change = .set else a ∈ annots := by
  cases change with
  | set =>
    change a ∈ insert annot annots ↔ _
    rw [Finset.mem_insert]
    split_ifs with ha <;> simp [ha]
  | clear =>
    change a ∈ annots.erase annot ↔ _
    rw [Finset.mem_erase]
    split_ifs with ha <;> simp [ha]

theorem bitPosition_inj {i : Nat} {b : String} (ha : bitPosition names a = some i)
    (hb : bitPosition names b = some i) : a = b :=
  Option.some.inj (Option.some.inj ((getElem?_of_bitPosition ha).symm.trans (getElem?_of_bitPosition hb)))

/-- **The bits after a change are the set after it.** -/
theorem bit_changedSet {change : BitChange} {old : List Nat} {pos : Nat} {annots : Finset String}
    (hpos : bitPosition names annot = some pos)
    (hold : ∀ i, ByteBits.bit old i = true ↔ ∃ a ∈ annots, bitPosition names a = some i) (i : Nat) :
    ByteBits.bit (change.apply (copyBits old (byteSizeOf names)) pos) i = true ↔
      ∃ a ∈ (change.call id annot).annotationsAfter annots, bitPosition names a = some i := by
  rw [bit_change (lt_of_bitPosition hpos)]
  by_cases hi : i = pos
  · subst hi
    rw [if_pos rfl, decide_eq_true_eq]
    constructor
    · intro hset
      exact ⟨annot, (change.mem_annotationsAfter id annot annots).mpr (by rwa [if_pos rfl]), hpos⟩
    · rintro ⟨a, ha, hat⟩
      rw [bitPosition_inj hat hpos, change.mem_annotationsAfter, if_pos rfl] at ha
      exact ha
  · have hne (a : String) (hat : bitPosition names a = some i) : a ≠ annot := by
      rintro rfl
      exact hi (Option.some.inj (hat.symm.trans hpos))
    rw [if_neg hi, Bool.and_eq_true, decide_eq_true_eq, hold]
    constructor
    · rintro ⟨⟨a, ha, hat⟩, -⟩
      refine ⟨a, ?_, hat⟩
      rw [change.mem_annotationsAfter, if_neg (hne a hat)]
      exact ha
    · rintro ⟨a, ha, hat⟩
      rw [change.mem_annotationsAfter, if_neg (hne a hat)] at ha
      exact ⟨⟨a, ha, hat⟩, lt_byteSizeOf (lt_of_bitPosition hat)⟩

/-- What a change finds: the bits of the vertex, in the schema of its label. -/
theorem AppendInv.changed {change : BitChange} {u : Unit}
    (h : AppendInv structLabel labelId names tr db)
    (hr : (changeAnnot .vertex change s labelId id annot).Runs db u db') :
    LabelInv structLabel labelId names db' ∧
      (∀ i, entitySlot i ≠ entitySlot id →
        db'.bitset .vertex labelId i = db.bitset .vertex labelId i) ∧
      ∃ pos old oldTid newTid, bitPosition names annot = some pos ∧
        (∀ i, ByteBits.bit old i = db.vertexBit labelId id i) ∧
        (∀ i, ByteBits.bit old i = true ↔
          ∃ a ∈ annotationsOf tr id, bitPosition names a = some i) ∧
        db'.bitset .vertex labelId id = some (newTid, newAnnotTuple s id oldTid
          (change.apply (copyBits old (byteSizeOf names)) pos)) := by
  obtain ⟨names', pos, tbl, tbl', oldTid, newTid, bits, hc⟩ := changeAnnot_inv hr
  obtain ⟨row, hrow, hmap⟩ := hc.schema
  obtain ⟨rfl, hblock⟩ := h.label.ok.mapArray hrow hmap
  obtain ⟨rec, hrec, -⟩ := hc.record
  have hnew := hc.bitset_self (i := id) (h.label.oldStored hc) rfl (by rw [hrec]; rfl)
  refine ⟨h.label.change hc hblock, fun i hi => h.label.bitset_other hc hi, pos, ?_⟩
  rcases h.label.start hc with ⟨t, hb, -, -, rfl⟩ | ⟨hb, -, rfl⟩
  · refine ⟨t.bits, oldTid, newTid, hc.position, fun i => ?_, ((h.vertices id).bits _ _ hb).2, hnew⟩
    unfold AnnotDb.vertexBit
    rw [hb]
    rfl
  · have hclear (i : Nat) : ByteBits.bit [] i = false := ByteBits.bit_eq_false (by simp)
    refine ⟨[], oldTid, newTid, hc.position, fun i => ?_, fun i => ?_, hnew⟩
    · unfold AnnotDb.vertexBit
      rw [hb, hclear]
      rfl
    · rw [hclear, (h.vertices id).empty hb]
      simp

/-- **A change** moves the annotation in or out of the set of its vertex. -/
theorem AppendInv.change (change : BitChange) {u : Unit}
    (h : AppendInv structLabel labelId names tr db) (hs : fullXidIsValid s.fxid = true)
    (hr : (changeAnnot .vertex change s labelId id annot).Runs db u db') :
    AppendInv structLabel labelId names ((s, change.call id annot) :: tr) db' := by
  obtain ⟨hinv, hothers, pos, old, oldTid, newTid, hpos, -, hold, hnew⟩ := h.changed hr
  refine ⟨hinv, fun i => ?_⟩
  by_cases hne : entitySlot id = entitySlot i
  · have hon : (change.call id annot).On i := ⟨id, change.vertex_call id annot, hne⟩
    have hset : annotationsOf ((s, change.call id annot) :: tr) i = _ := annotationsOf_of_on hon
    have hsame : annotationsOf tr i = annotationsOf tr id := annotationsOf_congr tr hne.symm
    rw [bitset_congr hne] at hnew
    refine ⟨fun a ha => ?_, fun tid t hb => ?_, fun tid t hb => ?_, fun hn => ?_⟩
    · rw [hset, change.mem_annotationsAfter] at ha
      split_ifs at ha with he
      · rw [he]
        exact List.mem_of_getElem? (getElem?_of_bitPosition hpos)
      · exact (h.vertices i).listed a ha
    · rw [hnew] at hb
      cases hb
      refine ⟨Nat.le_of_eq (length_change _), fun j => ?_⟩
      rw [hset, hsame]
      exact bit_changedSet hpos hold j
    · rw [hnew] at hb
      cases hb
      exact ⟨hs, rfl, _, List.mem_cons_self, hon, rfl⟩
    · rw [hnew] at hn
      cases hn
  · have hnot : ¬ (change.call id annot).On i := by
      rintro ⟨j, hj, hslot⟩
      rw [change.vertex_call] at hj
      cases hj
      exact hne hslot
    exact (h.vertices i).congr (hothers i (Ne.symm hne)) (annotationsOf_of_not_on hnot)
      (fun c hc => List.mem_cons_of_mem _ hc) (Nat.le_refl _) (fun _ ha => ha) fun _ _ => rfl

/-! ## Every run -/

/-- **Each call keeps the bits of every vertex to its set.** -/
theorem AppendInv.call {c : AnnotCall} (h : AppendInv structLabel labelId names tr db)
    (hc : c.Appends) (hs : fullXidIsValid s.fxid = true)
    (hsafe : WithinTuple structLabel labelId db c)
    (hr : (c.run structLabel labelId s).Runs db () db') :
    ∃ names', AppendInv structLabel labelId names' ((s, c) :: tr) db' := by
  cases c with
  | addAnnotationLabel annot => exact ⟨_, h.add hsafe hr⟩
  | dropAnnotationLabel annot => exact hc.elim
  | insertVertex id dictionaryId props inputAnnots => exact ⟨_, h.insert hs hsafe hr⟩
  | addVertexAnnotationLabel id annot => exact ⟨_, h.change .set hs hr⟩
  | removeVertexAnnotationLabel id annot => exact ⟨_, h.change .clear hs hr⟩

theorem AppendRun.inv (h : AppendRun (WithinTuple structLabel labelId) structLabel labelId tr db) :
    ∃ names, AppendInv structLabel labelId names tr db := by
  induction h with
  | @fresh db h =>
    obtain ⟨names, hinv⟩ := h.inv
    refine ⟨names, hinv, fun id => ?_⟩
    have hnone : ∀ tid t, db.bitset .vertex labelId id ≠ some (tid, t) := fun tid t hb => by
      obtain ⟨rec, _, hrec, -⟩ := bitset_eq_some.mp hb
      rw [h.slots] at hrec
      cases hrec
    exact ⟨fun a ha => absurd ha (Finset.notMem_empty a), fun tid t hb => absurd hb (hnone tid t),
      fun tid t hb => absurd hb (hnone tid t), fun _ => rfl⟩
  | call h s c hc hs hsafe hr ih =>
    obtain ⟨names, hinv⟩ := ih
    exact hinv.call hc hs hsafe hr
  | xacts h x ih =>
    obtain ⟨names, hinv⟩ := ih
    refine ⟨names, ⟨hinv.label.ok.congr rfl rfl rfl, hinv.label.tbl, hinv.label.stored,
      hinv.label.inj, hinv.label.block, hinv.label.named⟩, fun id => ?_⟩
    exact (hinv.vertices id).congr rfl rfl (fun _ hc => hc) (Nat.le_refl _) (fun _ ha => ha)
      fun _ _ => rfl

/-- A tuple that nobody has stamped is live for a reader that counts its writer. -/
theorem npEntityTupleIsLive_of_counts {hdr : RecordHeader} (hmin : fullXidIsValid hdr.xmin = true)
    (hmax : hdr.xmax = invalidFullTransactionId) (h : x.Counts own hdr.xmin) :
    npEntityTupleIsLive x own hdr = true := by
  have hinvalid : fullXidIsValid hdr.xmax = false := by
    rw [hmax]
    rfl
  unfold npEntityTupleIsLive
  simp only [hmin, hinvalid, Bool.not_true, Bool.false_and, Bool.not_false, if_true]
  rcases h with hcur | ⟨hprog, hcommit⟩
  · simp [hcur]
  · simp [hprog, hcommit]

/-- **What a reader decodes is the set**, when it counts the calls on the vertex. -/
theorem AppendInv.decodes_iff (h : AppendInv structLabel labelId names tr db)
    (hcounts : ∀ c ∈ tr, c.2.On id → x.Counts own c.1.fxid) :
    db.Decodes g .vertex x own labelId id a ↔ a ∈ annotationsOf tr id := by
  rw [h.label.decodes_iff]
  have hid := h.vertices id
  constructor
  · rintro ⟨tid, t, hb, -, i, hi, hbit⟩
    obtain ⟨b, hmem, hat⟩ := ((hid.bits tid t hb).2 i).mp hbit
    have he : b = a :=
      Option.some.inj (Option.some.inj ((getElem?_of_bitPosition hat).symm.trans hi))
    exact he ▸ hmem
  · intro hmem
    cases hb : db.bitset .vertex labelId id with
    | none =>
      rw [hid.empty hb] at hmem
      exact absurd hmem (Finset.notMem_empty a)
    | some found =>
      obtain ⟨tid, t⟩ := found
      obtain ⟨hmin, hmax, c, hc, hon, hwriter⟩ := hid.written tid t hb
      obtain ⟨pos, hpos⟩ := exists_bitPosition (hid.listed a hmem)
      have hlive : npEntityTupleIsLive x own t.hdr.toRecordHeader = true := by
        refine npEntityTupleIsLive_of_counts hmin hmax ?_
        rw [hwriter]
        exact hcounts c hc hon
      exact ⟨tid, t, rfl, hlive, pos, getElem?_of_bitPosition hpos,
        ((hid.bits tid t hb).2 pos).mpr ⟨a, hmem, hpos⟩⟩

/-- **A vertex's annotations are its set**: in every state that the calls lead to, a reader that
counts the calls on a vertex decodes the names added to it and not since removed. A change writes the
bit of its annotation and no other, none at all when the set is as wanted, and no other vertex. -/
theorem annotationSets
    (h : AppendRun (WithinTuple structLabel labelId) structLabel labelId tr db) :
    (∀ g x own id a, (∀ c ∈ tr, c.2.On id → x.Counts own c.1.fxid) →
      (db.Decodes g .vertex x own labelId id a ↔ a ∈ annotationsOf tr id)) ∧
    ∀ change s id annot db',
      ((BitChange.call change id annot).run structLabel labelId s).Runs db () db' →
        (∃ pos, bitPosition (db.labelNames .vertex labelId) annot = some pos ∧
          ∀ i, db'.vertexBit labelId id i =
            if i = pos then decide (change = .set) else db.vertexBit labelId id i) ∧
        ((annot ∈ annotationsOf tr id ↔ change = .set) →
          ∀ i, db'.vertexBit labelId id i = db.vertexBit labelId id i) ∧
        ∀ i, entitySlot i ≠ entitySlot id →
          db'.bitset .vertex labelId i = db.bitset .vertex labelId i := by
  obtain ⟨names, hinv⟩ := h.inv
  refine ⟨fun g x own id a hcounts => hinv.decodes_iff hcounts, fun change s id annot db' hr => ?_⟩
  rw [change.run_call] at hr
  obtain ⟨-, hothers, pos, old, oldTid, newTid, hpos, hold, hset, hnew⟩ := hinv.changed hr
  have hbit (i : Nat) : db'.vertexBit labelId id i =
      if i = pos then decide (change = .set) else db.vertexBit labelId id i := by
    have hafter : db'.vertexBit labelId id i =
        ByteBits.bit (change.apply (copyBits old (byteSizeOf names)) pos) i := by
      unfold AnnotDb.vertexBit
      rw [hnew]
      rfl
    rw [hafter, bit_change (lt_of_bitPosition hpos), hold]
    split_ifs
    · rfl
    · cases hb : db.vertexBit labelId id i with
      | false => rfl
      | true =>
        obtain ⟨a, -, hat⟩ := (hset i).mp ((hold i).trans hb)
        rw [decide_eq_true (lt_byteSizeOf (lt_of_bitPosition hat))]
        rfl
  refine ⟨⟨pos, by rwa [hinv.label.ok.labelNames], hbit⟩, fun hwanted i => ?_, hothers⟩
  rw [hbit]
  split_ifs with hi
  · subst hi
    rw [Bool.eq_iff_iff, ← hold, hset, decide_eq_true_eq, ← hwanted]
    constructor
    · exact fun hmem => ⟨annot, hmem, hpos⟩
    · rintro ⟨a, hmem, hat⟩
      rwa [← bitPosition_inj hat hpos]
  · rfl

/-- A label with two annotations and a vertex that has the second gets a third. -/
def exampleWidened : AnnotDb :=
  (((AnnotCall.addAnnotationLabel "c").run ["p"] 2 ⟨5, 2⟩).exec exampleVertex).2

/-- The vertex gets it, too, and loses the second. -/
def exampleMarked : AnnotDb :=
  (((AnnotCall.addVertexAnnotationLabel 1 "c").run ["p"] 2 ⟨5, 3⟩).exec exampleWidened).2

def exampleCleared : AnnotDb :=
  (((AnnotCall.removeVertexAnnotationLabel 1 "b").run ["p"] 2 ⟨5, 4⟩).exec exampleMarked).2

theorem exampleCleared_run : AppendRun (WithinTuple ["p"] 2) ["p"] 2
    [(⟨5, 4⟩, .removeVertexAnnotationLabel 1 "b"), (⟨5, 3⟩, .addVertexAnnotationLabel 1 "c"),
      (⟨5, 2⟩, .addAnnotationLabel "c"), (⟨5, 1⟩, exampleAnnotated)] exampleCleared := by
  have hinsert := AppendRun.call (P := WithinTuple ["p"] 2) (.fresh exampleLabel_fresh) ⟨5, 1⟩
    exampleAnnotated trivial (by decide) (fun _ => by decide) exampleAnnotated_runs
  have hwithin : WithinTuple ["p"] 2 exampleVertex (.addAnnotationLabel "c") := by
    refine ⟨exampleVertex_otherSlots, fun _ id tid t hb => ?_⟩
    have hnames : exampleVertex.labelNames .vertex 2 = [some "a", some "b"] := by decide
    rw [hnames]
    -- the padding alone has room for a name more
    show 0 < ownBytes t.bits.length
    unfold ownBytes annotTupleSize maxAlign sizeOfNPEntityTupleHeader
    omega
  have hwiden := hinsert.call ⟨5, 2⟩ (.addAnnotationLabel "c") trivial (by decide) hwithin
    (show ((AnnotCall.addAnnotationLabel "c").run ["p"] 2 ⟨5, 2⟩).Runs _ () exampleWidened from
      Prog.runs_of_ok (by rfl))
  have hmark := hwiden.call ⟨5, 3⟩ (.addVertexAnnotationLabel 1 "c") trivial (by decide) trivial
    (show ((AnnotCall.addVertexAnnotationLabel 1 "c").run ["p"] 2 ⟨5, 3⟩).Runs _ () exampleMarked from
      Prog.runs_of_ok (by rfl))
  exact hmark.call ⟨5, 4⟩ (.removeVertexAnnotationLabel 1 "b") trivial (by decide) trivial
    (show ((AnnotCall.removeVertexAnnotationLabel 1 "b").run ["p"] 2 ⟨5, 4⟩).Runs _ () exampleCleared from
      Prog.runs_of_ok (by rfl))

/-- The vertex has the third annotation and not the second. -/
theorem annotationSets_example :
    exampleCleared.Decodes (fun _ _ _ => 255) .vertex exampleCleared.graph.xacts (Session.own ⟨5, 5⟩) 2 1 "c" ∧
    ¬ exampleCleared.Decodes (fun _ _ _ => 255) .vertex exampleCleared.graph.xacts (Session.own ⟨5, 5⟩) 2 1 "b" := by
  have hsets := (annotationSets exampleCleared_run).1 (fun _ _ _ => 255) exampleCleared.graph.xacts
    (Session.own ⟨5, 5⟩) 1
  have hcounts : ∀ c ∈ [((⟨5, 4⟩ : Session), AnnotCall.removeVertexAnnotationLabel 1 "b"),
      (⟨5, 3⟩, .addVertexAnnotationLabel 1 "c"), (⟨5, 2⟩, .addAnnotationLabel "c"), (⟨5, 1⟩, exampleAnnotated)],
      c.2.On 1 → exampleCleared.graph.xacts.Counts (Session.own ⟨5, 5⟩) c.1.fxid := by
    intro c hc _
    have hwriter : c.1.fxid = 5 := by
      simp only [List.mem_cons, List.not_mem_nil, or_false] at hc
      rcases hc with rfl | rfl | rfl | rfl <;> rfl
    rw [hwriter]
    exact .inl (by decide)
  rw [hsets "c" hcounts, hsets "b" hcounts]
  decide

/-! ## A schema that outgrows a bitset -/

/-- The tuple behind a stored one is the one written before it: its first field is its `xmin`. -/
def headerBehind : BytesBehind := fun tbl tid j =>
  match tbl.get ⟨tid.block, tid.offset - 1⟩ with
  | some t => t.hdr.xmin / 256 ^ (j - ownBytes 4) % 256
  | none => 0

/-- As many names as four bytes have bits. -/
def exampleNames : Names :=
  ["a", "b", "c", "d", "e", "f", "g", "h", "i", "j", "k", "l", "m", "n", "o", "p",
    "q", "r", "s", "t", "u", "v", "w", "x", "y", "z", "A", "B", "C", "D", "E", "F"].map some

/-- A label with these names. -/
def exampleFull : AnnotDb :=
  (SchemaOp.createVlabel ["person"] (some exampleNames)).perform ⟨5, 0⟩ exampleCreated

/-- An insert of a vertex with the first of them. -/
def exampleFirst (id : Nat) : AnnotCall := .insertVertex id 0 npEmptyGtypeObject (some [some "a"])

/-- The label with one such vertex, and with two. -/
def exampleOneVertex : AnnotDb := (((exampleFirst 1).run ["person"] 2 ⟨5, 1⟩).exec exampleFull).2

def exampleTwoVertices : AnnotDb :=
  (((exampleFirst 2).run ["person"] 2 ⟨5, 2⟩).exec exampleOneVertex).2

/-- The label with another name. -/
def exampleOutgrown : AnnotDb :=
  (((AnnotCall.addAnnotationLabel "G").run ["person"] 2 ⟨5, 3⟩).exec exampleTwoVertices).2

theorem exampleFull_fresh : FreshLabel ["person"] 2 exampleFull where
  ok := ⟨exampleNames, {
    row := ⟨⟨2, ["_", "person"], some exampleNames⟩, by decide +kernel, rfl, rfl, fun _ => rfl⟩
    read := fun tid ns h => by
      have hread : exampleFull.readSchema 2 = some (⟨0, 1⟩, exampleNames) := by decide +kernel
      rw [hread] at h
      cases h
      rfl
    walk := fun _ => by
      have hstored : (exampleFull.annotSchemaTbl.get (exampleFull.latestSchemaTid 2)).any
          (fun t => !t.hdr.prevItemptr.isValid) = true := by decide +kernel
      simpa [Option.any_eq_true] using hstored }⟩
  tbl := by decide +kernel
  slots := fun _ => rfl
  named := ⟨by decide +kernel, ["_", "person"], 2, by decide +kernel, by decide +kernel⟩

theorem exampleOneVertex_runs :
    ((exampleFirst 1).run ["person"] 2 ⟨5, 1⟩).Runs exampleFull () exampleOneVertex :=
  Prog.runs_of_ok (by decide +kernel)

theorem exampleTwoVertices_runs :
    ((exampleFirst 2).run ["person"] 2 ⟨5, 2⟩).Runs exampleOneVertex () exampleTwoVertices :=
  Prog.runs_of_ok (by decide +kernel)

theorem exampleOutgrown_runs :
    ((AnnotCall.addAnnotationLabel "G").run ["person"] 2 ⟨5, 3⟩).Runs exampleTwoVertices ()
      exampleOutgrown :=
  Prog.runs_of_ok (by decide +kernel)

/-- The bit of the new name of the second vertex is a bit of the header of the first vertex's tuple:
the vertex has a name that nobody has added to it. -/
theorem annotationSets_fails : ¬ ∀ structLabel labelId tr db,
    AppendRun (fun _ _ => True) structLabel labelId tr db →
      ∀ x own id a, (∀ c ∈ tr, c.2.On id → x.Counts own c.1.fxid) →
        (db.Decodes headerBehind .vertex x own labelId id a ↔ a ∈ annotationsOf tr id) := by
  intro h
  have hrun := AppendRun.call (P := fun _ _ => True) (.call (.call (.fresh exampleFull_fresh) ⟨5, 1⟩
    (exampleFirst 1) trivial (by decide) trivial exampleOneVertex_runs) ⟨5, 2⟩ (exampleFirst 2) trivial
      (by decide) trivial exampleTwoVertices_runs) ⟨5, 3⟩ (.addAnnotationLabel "G") trivial (by decide)
        trivial exampleOutgrown_runs
  have hsets := h ["person"] 2 _ _ hrun exampleOutgrown.graph.xacts (Session.own ⟨5, 4⟩) 2 "G"
    fun c hc _ => by
      have hwriter : c.1.fxid = 5 := by
        simp only [List.mem_cons, List.not_mem_nil, or_false] at hc
        rcases hc with rfl | rfl | rfl <;> rfl
      rw [hwriter]
      exact .inl (by decide)
  obtain ⟨names₀, hfresh⟩ := exampleFull_fresh.inv
  obtain ⟨⟨names₁, hone⟩, -⟩ := hfresh.call (c := exampleFirst 1) (by decide) trivial exampleOneVertex_runs
  obtain ⟨⟨names, htwo⟩, -⟩ := hone.call (c := exampleFirst 2) (by decide) trivial exampleTwoVertices_runs
  have hnames : names = exampleNames := htwo.ok.labelNames.symm.trans (by decide +kernel)
  subst hnames
  have hslots : OtherSlots exampleTwoVertices .vertex 2 ["person"] := fun k => by
    cases k <;> decide +kernel
  have hstep := addAnnotationLabel_step htwo.ok htwo.tbl htwo.named hslots exampleOutgrown_runs
  obtain ⟨tbl, htbl⟩ := Option.isSome_iff_exists.mp htwo.tbl
  have hbitset : exampleTwoVertices.bitset .vertex 2 2 =
      some (⟨0, 2⟩, newAnnotTuple ⟨5, 2⟩ 2 .invalid [1, 0, 0, 0]) := by decide +kernel
  have hbehind : (exampleTwoVertices.annotationsTbl .vertex 2).any
      (fun tbl => bitAt headerBehind tbl ⟨0, 2⟩ [1, 0, 0, 0] 32) = true := by decide +kernel
  rw [htbl] at hbehind
  rw [← hstep.tbl] at htbl
  rw [← hstep.bitset] at hbitset
  rw [hstep.ok.decodes_iff (fun _ => ?_) htbl, hbitset] at hsets
  · have hmem := hsets.mp ⟨_, _, rfl, by decide, 32, by decide, hbehind⟩
    exact absurd hmem (by decide)
  · exact (htwo.block ⟨2, by rw [← hstep.bitset, hbitset]; rfl⟩).mono hstep.blocks

end NeoPostGraph
