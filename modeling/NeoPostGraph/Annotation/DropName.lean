import NeoPostGraph.Annotation.LabelChange

/-!
# Dropping a name, and the bits behind it

A bitset has a bit for each name of its label, by position. `drop_annotation_label` takes the name out
of the array, so the names behind it move down by one, while the bitsets of the vertices stay as they
are; `add_annotation_label` appends a name, and reads whatever the old bitsets have at its position.

* `AnnotCall`: the DDL calls on one vertex label, and the calls on its vertices.
* `LabelRun`: the states these calls lead to, in any order, from a label without vertices.
* `CallLaw`: what a call may change of the decoded annotations.
* `Unmoved`, `Unused`, `SafeCall`: the bits a schema change must find.

Results:
* `LabelRun.inv`: the invariant of the label over all runs.
* `annotations_kept`: in every run of safe calls, every safe call obeys the law.
-/

namespace NeoPostGraph

open SlottedPage

variable {db db' : AnnotDb} {g : BytesBehind} {s : Session} {structLabel : DottedText}
  {labelId id : Nat} {annot a : String} {names : Names} {x : XactState} {own : List Nat}
  {tid : ItemPointer} {t : AnnotTuple}

/-! ## The calls -/

/-- A call on one vertex label or on its vertices. -/
inductive AnnotCall where
  | addAnnotationLabel (annot : String)
  | dropAnnotationLabel (annot : String)
  | insertVertex (id dictionaryId : Nat) (props : Gtype) (inputAnnots : Option Names)
  | addVertexAnnotationLabel (id : Nat) (annot : String)
  | removeVertexAnnotationLabel (id : Nat) (annot : String)
deriving DecidableEq, Repr

/-- The call, for the label of this text and id. -/
def AnnotCall.run (structLabel : DottedText) (labelId : Nat) (s : Session) :
    AnnotCall → AnnotOp Unit
  | addAnnotationLabel annot => NeoPostGraph.addAnnotationLabel s structLabel [annot]
  | dropAnnotationLabel annot => NeoPostGraph.dropAnnotationLabel s structLabel annot
  | insertVertex id dictionaryId props inputAnnots =>
    insertAnnotatedVertex s ⟨id, labelId, dictionaryId⟩ props inputAnnots
  | addVertexAnnotationLabel id annot => NeoPostGraph.addVertexAnnotationLabel s labelId id annot
  | removeVertexAnnotationLabel id annot =>
    NeoPostGraph.removeVertexAnnotationLabel s labelId id annot

/-- A label without vertices: the map and the catalog agree on its names. -/
structure FreshLabel (structLabel : DottedText) (labelId : Nat) (db : AnnotDb) : Prop where
  ok : ∃ names, SchemaOk db .vertex labelId names
  tbl : (db.annotationsTbl .vertex labelId).isSome
  slots : ∀ id, db.pmapRec labelId id .vertex = none
  named : NamedLabel (db.paths .vertex) labelId structLabel

/-- The states of a graph whose label is called on, by sessions that have a transaction id and calls
with `P`, while transactions begin and end. -/
inductive LabelRun (P : AnnotDb → AnnotCall → Prop) (structLabel : DottedText) (labelId : Nat) :
    AnnotDb → Prop
  | fresh {db : AnnotDb} (h : FreshLabel structLabel labelId db) : LabelRun P structLabel labelId db
  | call {db db' : AnnotDb} (h : LabelRun P structLabel labelId db) (s : Session) (c : AnnotCall)
      (hs : fullXidIsValid s.fxid = true) (hP : P db c) (hr : (c.run structLabel labelId s).Runs db () db') :
      LabelRun P structLabel labelId db'
  | xacts {db : AnnotDb} (h : LabelRun P structLabel labelId db) (x : XactState) :
      LabelRun P structLabel labelId { db with graph := { db.graph with xacts := x } }

/-! ## The law -/

/-- A session that reads an entity finds its bitset live, or finds none. -/
def AnnotDb.SeesBitset (db : AnnotDb) (kind : LabelKind) (x : XactState) (own : List Nat)
    (labelId id : Nat) : Prop :=
  ∀ tid t, db.bitset kind labelId id = some (tid, t) →
    npEntityTupleIsLive x own t.hdr.toRecordHeader = true

/-- What a change of one annotation of a vertex may change: that annotation of that vertex, for the
session that made the call and for every one that sees the bitsets before and after. -/
structure ChangeLaw (labelId id : Nat) (annot : String) (c : BitChange) (s : Session)
    (db db' : AnnotDb) : Prop where
  self : ∀ g x own a, db.SeesBitset .vertex x own labelId id →
    db'.SeesBitset .vertex x own labelId id →
      (db'.Decodes g .vertex x own labelId id a ↔
        if a = annot then c = .set else db.Decodes g .vertex x own labelId id a)
  caller : db.SeesBitset .vertex db.graph.xacts s.own labelId id ∧
    db'.SeesBitset .vertex db.graph.xacts s.own labelId id
  others : ∀ g x own id' a, entitySlot id' ≠ entitySlot id →
    (db'.Decodes g .vertex x own labelId id' a ↔ db.Decodes g .vertex x own labelId id' a)

/-- **What a call may change of the annotations decoded for the vertices of the label.** -/
def CallLaw (labelId : Nat) (s : Session) (db db' : AnnotDb) : AnnotCall → Prop
  | .addAnnotationLabel _ => ∀ g x own id a,
    db'.Decodes g .vertex x own labelId id a ↔ db.Decodes g .vertex x own labelId id a
  | .dropAnnotationLabel annot => ∀ g x own id a,
    db'.Decodes g .vertex x own labelId id a ↔
      db.Decodes g .vertex x own labelId id a ∧ a ≠ annot
  | .insertVertex id _ _ _ => ∀ g x own id' a, entitySlot id' ≠ entitySlot id →
    (db'.Decodes g .vertex x own labelId id' a ↔ db.Decodes g .vertex x own labelId id' a)
  | .addVertexAnnotationLabel id annot => ChangeLaw labelId id annot .set s db db'
  | .removeVertexAnnotationLabel id annot => ChangeLaw labelId id annot .clear s db db'

/-! ## The condition -/

/-- The names of a label, by its `annotation_map`. -/
def AnnotDb.labelNames (db : AnnotDb) (kind : LabelKind) (labelId : Nat) : Names :=
  (((db.labels kind).find? fun row => row.id = labelId).bind LabelRow.annotationMap).getD []

/-- The positions of the names that a drop keeps. -/
def keptPositions (names : Names) (annot : String) : List Nat :=
  (names.zipIdx.filter fun x => x.1.isSome ∧ x.1 ≠ some annot).map Prod.snd

/-- Every kept name has the same bit at its position after the drop as at its position before. -/
def Unmoved (names : Names) (annot : String) (bits : List Nat) : Prop :=
  ∀ k j, (keptPositions names annot)[k]? = some j → ByteBits.bit bits k = ByteBits.bit bits j

/-- The position of the next name lies in the stored tuple, and its bit is clear. -/
def Unused (names : Names) (bits : List Nat) : Prop :=
  names.length / 8 < ownBytes bits.length ∧ ByteBits.bit bits names.length = false

/-- **The bits a call must find**, in the bitsets of the vertices of the label. A change of a label's
names also needs that no other label it goes over has the label's slot, and clearing an annotation
that the names have twice needs the second bit clear. -/
def SafeCall (structLabel : DottedText) (labelId : Nat) (db : AnnotDb) : AnnotCall → Prop
  | .addAnnotationLabel annot => OtherSlots db .vertex labelId structLabel ∧
    (some annot ∉ db.labelNames .vertex labelId →
      ∀ id tid t, db.bitset .vertex labelId id = some (tid, t) →
        Unused (db.labelNames .vertex labelId) t.bits)
  | .dropAnnotationLabel annot => OtherSlots db .vertex labelId structLabel ∧
    (some annot ∈ db.labelNames .vertex labelId →
      ∀ id tid t, db.bitset .vertex labelId id = some (tid, t) →
        Unmoved (db.labelNames .vertex labelId) annot t.bits)
  | .removeVertexAnnotationLabel id annot => ∀ tid t,
    db.bitset .vertex labelId id = some (tid, t) → ∀ i,
      (db.labelNames .vertex labelId)[i]? = some (some annot) → ByteBits.bit t.bits i = true →
        bitPosition (db.labelNames .vertex labelId) annot = some i
  | _ => True

/-! ## The invariant -/

/-- **The label between calls**: its names are what the map and the catalog say, every bitset is a
stored tuple with a bit for each of them, and no two vertices share one. -/
structure LabelInv (structLabel : DottedText) (labelId : Nat) (names : Names) (db : AnnotDb) :
    Prop where
  ok : SchemaOk db .vertex labelId names
  tbl : (db.annotationsTbl .vertex labelId).isSome
  stored : ∀ id rec tbl, db.pmapRec labelId id .vertex = some rec → rec.aItemptr.isValid = true →
    db.annotationsTbl .vertex labelId = some tbl →
      ∃ t, tbl.get rec.aItemptr = some t ∧ names.length ≤ 8 * ownBytes t.bits.length
  inj : ∀ id id' rec rec', db.pmapRec labelId id .vertex = some rec →
    db.pmapRec labelId id' .vertex = some rec' → rec.aItemptr.isValid = true →
      rec.aItemptr = rec'.aItemptr → entitySlot id = entitySlot id'
  block : (∃ id, (db.bitset .vertex labelId id).isSome) → db.HasSchemaBlock .vertex labelId
  named : NamedLabel (db.paths .vertex) labelId structLabel

theorem SchemaOk.labelNames {kind : LabelKind} (h : SchemaOk db kind labelId names) :
    db.labelNames kind labelId = names := by
  obtain ⟨row, hrow, -, hnames, -⟩ := h.row
  unfold AnnotDb.labelNames
  rw [hrow]
  exact hnames

theorem FreshLabel.inv (h : FreshLabel structLabel labelId db) :
    ∃ names, LabelInv structLabel labelId names db := by
  obtain ⟨names, hok⟩ := h.ok
  refine ⟨names, hok, h.tbl, fun id rec tbl hrec => ?_, fun id id' rec rec' hrec => ?_, ?_, h.named⟩
  · rw [h.slots] at hrec
    cases hrec
  · rw [h.slots] at hrec
    cases hrec
  · rintro ⟨id, hsome⟩
    unfold AnnotDb.bitset at hsome
    rw [h.slots] at hsome
    cases hsome

/-- A bitset has a bit for each name, of its own. -/
theorem LabelInv.bitset (h : LabelInv structLabel labelId names db)
    (hb : db.bitset .vertex labelId id = some (tid, t)) :
    names.length ≤ 8 * ownBytes t.bits.length := by
  obtain ⟨rec, tbl, hrec, htbl, hvalid, rfl, ht⟩ := bitset_eq_some.mp hb
  obtain ⟨t', ht', hlen⟩ := h.stored id rec tbl hrec hvalid htbl
  rwa [Option.some.inj (ht.symm.trans ht')]

/-- **What is decoded, in terms of the bits.** -/
theorem LabelInv.decodes_iff (h : LabelInv structLabel labelId names db) :
    db.Decodes g .vertex x own labelId id a ↔
      ∃ tid t, db.bitset .vertex labelId id = some (tid, t) ∧
        npEntityTupleIsLive x own t.hdr.toRecordHeader = true ∧
        ∃ i, names[i]? = some (some a) ∧ ByteBits.bit t.bits i = true := by
  obtain ⟨tbl, htbl⟩ := Option.isSome_iff_exists.mp h.tbl
  rw [h.ok.decodes_iff (fun hsome => h.block ⟨id, hsome⟩) htbl]
  refine exists_congr fun tid => exists_congr fun t => and_congr_right fun hb =>
    and_congr_right fun _ => exists_congr fun i => and_congr_right fun hi => ?_
  have hlt : i < names.length := (List.getElem?_eq_some_iff.mp hi).1
  have hlen := h.bitset hb
  rw [bitAt_eq (by omega)]

/-- Only the names matter, and the bitset. -/
theorem decodes_congr {names' : Names} (h : LabelInv structLabel labelId names db)
    (h' : LabelInv structLabel labelId names' db')
    (hb : db'.bitset .vertex labelId id = db.bitset .vertex labelId id)
    (hnames : ∀ tid t, db.bitset .vertex labelId id = some (tid, t) →
      ((∃ i, names'[i]? = some (some a) ∧ ByteBits.bit t.bits i = true) ↔
        ∃ i, names[i]? = some (some a) ∧ ByteBits.bit t.bits i = true)) :
    db'.Decodes g .vertex x own labelId id a ↔ db.Decodes g .vertex x own labelId id a := by
  rw [h.decodes_iff, h'.decodes_iff, hb]
  exact exists_congr fun tid => exists_congr fun t => and_congr_right fun hbt =>
    and_congr_right fun _ => hnames tid t hbt

/-! ## Changing the names -/

theorem LabelStep.pmapRec (h : LabelStep .vertex labelId names db db') (id : Nat) :
    db'.pmapRec labelId id .vertex = db.pmapRec labelId id .vertex := by
  unfold AnnotDb.pmapRec
  rw [h.graph]

theorem LabelStep.bitset (h : LabelStep .vertex labelId names db db') (id : Nat) :
    db'.bitset .vertex labelId id = db.bitset .vertex labelId id := by
  unfold AnnotDb.bitset
  rw [h.pmapRec, h.tbl]

theorem AnnotDb.HasSchemaBlock.mono {kind : LabelKind} (h : db.HasSchemaBlock kind labelId)
    (hle : db.annotSchemaPhysMap.table.nblocks ≤ db'.annotSchemaPhysMap.table.nblocks) :
    db'.HasSchemaBlock kind labelId :=
  h.imp_right fun hlt => Nat.lt_of_lt_of_le hlt hle

/-- The label after its names have changed. -/
theorem LabelInv.step {names' : Names} (h : LabelInv structLabel labelId names db)
    (hstep : LabelStep .vertex labelId names' db db')
    (hlen : ∀ id tid t, db.bitset .vertex labelId id = some (tid, t) →
      names'.length ≤ 8 * ownBytes t.bits.length) :
    LabelInv structLabel labelId names' db' where
  ok := hstep.ok
  tbl := by
    rw [hstep.tbl]
    exact h.tbl
  stored := fun id rec tbl hrec hvalid htbl => by
    rw [hstep.pmapRec] at hrec
    rw [hstep.tbl] at htbl
    obtain ⟨t, ht, -⟩ := h.stored id rec tbl hrec hvalid htbl
    exact ⟨t, ht, hlen id _ t (bitset_eq_some.mpr ⟨rec, tbl, hrec, htbl, hvalid, rfl, ht⟩)⟩
  inj := fun id id' rec rec' hrec hrec' => by
    rw [hstep.pmapRec] at hrec hrec'
    exact h.inj id id' rec rec' hrec hrec'
  block := fun ⟨id, hsome⟩ => by
    rw [hstep.bitset] at hsome
    exact (h.block ⟨id, hsome⟩).mono hstep.blocks
  named := by
    rw [hstep.paths]
    exact h.named

/-- The names a drop keeps are those at the kept positions. -/
theorem keptNames_eq (hmem : some annot ∈ names) :
    keptNames names annot =
      (names.zipIdx.filter fun x => x.1.isSome ∧ x.1 ≠ some annot).map Prod.fst := by
  have hmap : names = names.zipIdx.map Prod.fst := (List.zipIdx_map_fst 0 names).symm
  unfold keptNames
  rw [if_pos hmem]
  conv_lhs => rw [hmap]
  rw [List.filter_map]
  rfl

theorem length_keptNames_le (names : Names) (annot : String) :
    (keptNames names annot).length ≤ names.length := by
  unfold keptNames
  split_ifs
  · exact List.length_filter_le _ names
  · exact Nat.le_refl _

/-- A kept name was at a kept position. -/
theorem getElem?_keptNames (hmem : some annot ∈ names) {k : Nat} {name : Option String} :
    (keptNames names annot)[k]? = some name ↔
      ∃ j, (keptPositions names annot)[k]? = some j ∧ names[j]? = some name ∧ name.isSome ∧
        name ≠ some annot := by
  rw [keptNames_eq hmem]
  unfold keptPositions
  simp only [List.getElem?_map, Option.map_eq_some_iff]
  constructor
  · rintro ⟨⟨name', j⟩, hget, rfl⟩
    obtain ⟨hz, hkeep⟩ := List.mem_filter.mp (List.mem_of_getElem? hget)
    simp only [decide_eq_true_eq] at hkeep
    exact ⟨j, ⟨(name', j), hget, rfl⟩, List.mem_zipIdx_iff_getElem?.mp hz, hkeep⟩
  · rintro ⟨j, ⟨⟨name', j'⟩, hget, rfl⟩, hname, -⟩
    obtain ⟨hz, -⟩ := List.mem_filter.mp (List.mem_of_getElem? hget)
    have hname' := List.mem_zipIdx_iff_getElem?.mp hz
    exact ⟨(name', j'), hget, Option.some.inj (hname'.symm.trans hname)⟩

/-- A name that a drop keeps has a position after it. -/
theorem exists_keptPosition {j : Nat} (hj : names[j]? = some (some a)) (hne : a ≠ annot) :
    ∃ k : Nat, (keptPositions names annot)[k]? = some j := by
  have hmem : j ∈ keptPositions names annot :=
    List.mem_map.mpr ⟨(some a, j), List.mem_filter.mpr
      ⟨List.mem_zipIdx_iff_getElem?.mpr hj, by simp [hne]⟩, rfl⟩
  exact List.mem_iff_getElem?.mp hmem

/-- **The names decoded after a drop**, from bits that agree at the old and the new positions. -/
theorem keptNames_decode {bits : List Nat} (hmem : some annot ∈ names)
    (h : Unmoved names annot bits) :
    (∃ k, (keptNames names annot)[k]? = some (some a) ∧ ByteBits.bit bits k = true) ↔
      (∃ j, names[j]? = some (some a) ∧ ByteBits.bit bits j = true) ∧ a ≠ annot := by
  constructor
  · rintro ⟨k, hk, hbit⟩
    obtain ⟨j, hj, hname, -, hne⟩ := (getElem?_keptNames hmem).mp hk
    exact ⟨⟨j, hname, (h k j hj).symm.trans hbit⟩, fun he => hne (by rw [he])⟩
  · rintro ⟨⟨j, hname, hbit⟩, hne⟩
    obtain ⟨k, hk⟩ := exists_keptPosition hname hne
    refine ⟨k, (getElem?_keptNames hmem).mpr ⟨j, hk, hname, rfl, ?_⟩, (h k j hk).trans hbit⟩
    simpa using hne

/-- **The names decoded after an addition**, from a clear bit at the new position. -/
theorem addedNames_decode {bits : List Nat} (hmem : some annot ∉ names)
    (h : ByteBits.bit bits names.length = false) :
    (∃ i, (addedNames names annot)[i]? = some (some a) ∧ ByteBits.bit bits i = true) ↔
      ∃ i, names[i]? = some (some a) ∧ ByteBits.bit bits i = true := by
  unfold addedNames
  rw [if_neg hmem]
  refine exists_congr fun i => and_congr_left fun hbit => ?_
  have hne : i ≠ names.length := fun he => by
    rw [he, h] at hbit
    cases hbit
  rw [List.getElem?_append]
  split_ifs with hlt
  · rfl
  · have hpast : names.length < i := by omega
    rw [List.getElem?_eq_none (l := [some annot]) (by simp; omega),
      List.getElem?_eq_none (by omega)]

/-- A drop that finds every bit where the name moves to keeps the law. -/
theorem LabelInv.drop {u : Unit} (h : LabelInv structLabel labelId names db)
    (hsafe : SafeCall structLabel labelId db (.dropAnnotationLabel annot))
    (hr : (dropAnnotationLabel s structLabel annot).Runs db u db') :
    LabelInv structLabel labelId (keptNames names annot) db' ∧
      CallLaw labelId s db db' (.dropAnnotationLabel annot) := by
  have hstep := dropAnnotationLabel_step h.ok h.tbl h.named hsafe.1 hr
  have hinv' := h.step hstep fun id tid t hb =>
    Nat.le_trans (length_keptNames_le names annot) (h.bitset hb)
  refine ⟨hinv', fun g x own id a => ?_⟩
  rw [h.decodes_iff, hinv'.decodes_iff, hstep.bitset]
  by_cases hmem : some annot ∈ names
  · have hbits := hsafe.2 (by rwa [h.ok.labelNames])
    rw [h.ok.labelNames] at hbits
    constructor
    · rintro ⟨tid, t, hb, hlive, hbit⟩
      obtain ⟨hbit', hne⟩ := (keptNames_decode hmem (hbits id tid t hb)).mp hbit
      exact ⟨⟨tid, t, hb, hlive, hbit'⟩, hne⟩
    · rintro ⟨⟨tid, t, hb, hlive, hbit⟩, hne⟩
      exact ⟨tid, t, hb, hlive, (keptNames_decode hmem (hbits id tid t hb)).mpr ⟨hbit, hne⟩⟩
  · have hnames : keptNames names annot = names := if_neg hmem
    rw [hnames]
    constructor
    · rintro ⟨tid, t, hb, hlive, i, hi, hbit⟩
      refine ⟨⟨tid, t, hb, hlive, i, hi, hbit⟩, ?_⟩
      rintro rfl
      exact hmem (List.mem_of_getElem? hi)
    · exact fun hall => hall.1

/-- An addition that finds the next bit clear keeps the law. -/
theorem LabelInv.add {u : Unit} (h : LabelInv structLabel labelId names db)
    (hsafe : SafeCall structLabel labelId db (.addAnnotationLabel annot))
    (hr : (addAnnotationLabel s structLabel [annot]).Runs db u db') :
    LabelInv structLabel labelId (addedNames names annot) db' ∧
      CallLaw labelId s db db' (.addAnnotationLabel annot) := by
  have hstep := addAnnotationLabel_step h.ok h.tbl h.named hsafe.1 hr
  by_cases hmem : some annot ∈ names
  · have hnames : addedNames names annot = names := if_pos hmem
    rw [hnames] at hstep ⊢
    have hinv' := h.step hstep fun id tid t hb => h.bitset hb
    exact ⟨hinv', fun g x own id a => decodes_congr h hinv' (hstep.bitset id) fun _ _ _ => Iff.rfl⟩
  · have hunused := hsafe.2 (by rwa [h.ok.labelNames])
    rw [h.ok.labelNames] at hunused
    have hinv' := h.step hstep fun id tid t hb => by
      have hlt := (hunused id tid t hb).1
      have hlen : (addedNames names annot).length = names.length + 1 := by
        unfold addedNames
        rw [if_neg hmem, List.length_append]
        rfl
      omega
    exact ⟨hinv', fun g x own id a => decodes_congr h hinv' (hstep.bitset id) fun tid t hb =>
      addedNames_decode hmem (hunused id tid t hb).2⟩

/-! ## Changing a bitset -/

section Changed

variable {c : BitChange} {pos : Nat} {tbl tbl' : Table AnnotTuple} {oldTid newTid : ItemPointer}
  {bits : List Nat} {names' : Names}

/-- Two ids of one slot have one record. -/
theorem pmapRec_congr {i j : Nat} (h : entitySlot i = entitySlot j) :
    db.pmapRec labelId i .vertex = db.pmapRec labelId j .vertex := by
  unfold AnnotDb.pmapRec
  rw [h]

theorem bitset_congr {i j : Nat} (h : entitySlot i = entitySlot j) :
    db.bitset .vertex labelId i = db.bitset .vertex labelId j := by
  unfold AnnotDb.bitset
  rw [pmapRec_congr h]

/-- **What a change of a vertex starts from**: its bitset, which is live for the caller, or nothing. -/
theorem LabelInv.start (h : LabelInv structLabel labelId names db)
    (hc : AnnotChange db db' .vertex c s labelId id annot names' pos tbl tbl' oldTid newTid bits) :
    (∃ t, db.bitset .vertex labelId id = some (oldTid, t) ∧ tbl.get oldTid = some t ∧
      npEntityTupleIsLive db.graph.xacts s.own t.hdr.toRecordHeader = true ∧
      bits = copyBits t.bits (byteSizeOf names')) ∨
    (db.bitset .vertex labelId id = none ∧ oldTid.isValid = false ∧
      bits = copyBits [] (byteSizeOf names')) := by
  obtain ⟨rec, hrec, hold⟩ := hc.record
  change oldTid = rec.aItemptr at hold
  subst hold
  cases hc.start with
  | first hvalid =>
    refine .inr ⟨?_, hvalid, rfl⟩
    unfold AnnotDb.bitset
    rw [hrec, hc.table]
    dsimp only
    rw [hvalid, if_neg Bool.false_ne_true]
  | lost hvalid _ hget =>
    obtain ⟨t, ht, -⟩ := h.stored id rec tbl hrec hvalid hc.table
    rw [hget] at ht
    cases ht
  | old hvalid hget hlive _ =>
    exact .inl ⟨_, bitset_eq_some.mpr ⟨rec, tbl, hrec, hc.table, hvalid, rfl, hget⟩, hget, hlive, rfl⟩

theorem LabelInv.oldStored (h : LabelInv structLabel labelId names db)
    (hc : AnnotChange db db' .vertex c s labelId id annot names' pos tbl tbl' oldTid newTid bits)
    (hvalid : oldTid.isValid = true) : (tbl.get oldTid).isSome := by
  rcases h.start hc with ⟨t, -, ht, -⟩ | ⟨-, hinvalid, -⟩
  · rw [ht]
    rfl
  · rw [hinvalid] at hvalid
    cases hvalid

/-- The bitset of another vertex is not touched. -/
theorem LabelInv.get_other (h : LabelInv structLabel labelId names db)
    (hc : AnnotChange db db' .vertex c s labelId id annot names' pos tbl tbl' oldTid newTid bits)
    {i : Nat} {rec : PmapRec} (hne : entitySlot i ≠ entitySlot id)
    (hrec : db.pmapRec labelId i .vertex = some rec) (hvalid : rec.aItemptr.isValid = true)
    {t : Table AnnotTuple} (ht : db'.annotationsTbl .vertex labelId = some t) :
    t.get rec.aItemptr = tbl.get rec.aItemptr ∧ rec.aItemptr ≠ newTid := by
  obtain ⟨rec', hrec', hold⟩ := hc.record
  change oldTid = rec'.aItemptr at hold
  obtain ⟨b, hb, -⟩ := h.stored i rec tbl hrec hvalid hc.table
  have hnew : rec.aItemptr ≠ newTid := fun he => by
    rw [he, Table.write_fresh hc.write] at hb
    cases hb
  exact ⟨hc.get_other (fun he => hne (h.inj i id rec rec' hrec hrec' hvalid (he.trans hold))) hnew ht,
    hnew⟩

/-- **The label after the record of one slot is replaced**: the slot has a tuple of its own, and the
other slots have the records and the tuples they had. -/
theorem LabelInv.replace (h : LabelInv structLabel labelId names db) (id : Nat)
    (newTid : ItemPointer) (htbl : db.annotationsTbl .vertex labelId = some tbl)
    (htbl' : db'.annotationsTbl .vertex labelId = some tbl')
    (hok : SchemaOk db' .vertex labelId names)
    (hblock : (∃ i, (db'.bitset .vertex labelId i).isSome) → db'.HasSchemaBlock .vertex labelId)
    (hpaths : db'.paths .vertex = db.paths .vertex)
    (hown : ∀ i rec, entitySlot i = entitySlot id → db'.pmapRec labelId i .vertex = some rec →
      rec.aItemptr.isValid = true → rec.aItemptr = newTid ∧
        ∃ b, tbl'.get newTid = some b ∧ names.length ≤ 8 * ownBytes b.bits.length)
    (hother : ∀ i rec, entitySlot i ≠ entitySlot id → db'.pmapRec labelId i .vertex = some rec →
      rec.aItemptr.isValid = true → db.pmapRec labelId i .vertex = some rec ∧
        tbl'.get rec.aItemptr = tbl.get rec.aItemptr ∧ rec.aItemptr ≠ newTid) :
    LabelInv structLabel labelId names db' := by
  refine ⟨hok, by rw [htbl']; rfl, fun i rec t hrec hvalid ht => ?_,
    fun i j rec rec' hrec hrec' hvalid he => ?_, hblock, by rw [hpaths]; exact h.named⟩
  · obtain rfl := Option.some.inj (htbl'.symm.trans ht)
    by_cases hi : entitySlot i = entitySlot id
    · obtain ⟨he, hb⟩ := hown i rec hi hrec hvalid
      rw [he]
      exact hb
    · obtain ⟨hrec, hget, -⟩ := hother i rec hi hrec hvalid
      rw [hget]
      exact h.stored i rec tbl hrec hvalid htbl
  · have hvalid' : rec'.aItemptr.isValid = true := by
      rw [← he]
      exact hvalid
    by_cases hi : entitySlot i = entitySlot id
    · by_cases hj : entitySlot j = entitySlot id
      · rw [hi, hj]
      · exact absurd (he.symm.trans (hown i rec hi hrec hvalid).1) (hother j rec' hj hrec' hvalid').2.2
    · by_cases hj : entitySlot j = entitySlot id
      · exact absurd (he.trans (hown j rec' hj hrec' hvalid').1) (hother i rec hi hrec hvalid).2.2
      · exact h.inj i j rec rec' (hother i rec hi hrec hvalid).1 (hother j rec' hj hrec' hvalid').1
          hvalid he

/-- A bitset as long as the names need has a bit for each. -/
theorem le_ownBytes_of_length {n : Nat} (h : n = byteSizeOf names) :
    names.length ≤ 8 * ownBytes n := by
  have hbytes := le_ownBytes (byteSizeOf names)
  rw [h]
  unfold byteSizeOf at hbytes ⊢
  omega

/-- **The label after a change of one vertex.** -/
theorem LabelInv.change (h : LabelInv structLabel labelId names db)
    (hc : AnnotChange db db' .vertex c s labelId id annot names pos tbl tbl' oldTid newTid bits)
    (hblock : db.HasSchemaBlock .vertex labelId) : LabelInv structLabel labelId names db' := by
  have hpaths : db'.paths .vertex = db.paths .vertex := by
    unfold AnnotDb.paths
    rw [hc.redirect.labels]
  refine h.replace id newTid hc.table hc.stamp (hc.redirect.schemaOk h.ok)
    (fun _ => hc.redirect.hasSchemaBlock hblock) hpaths (fun i rec hi hrec _ => ?_)
    (fun i rec hi hrec hvalid => ?_)
  · rw [hc.redirect.slots, if_pos ⟨rfl, rfl, hi⟩] at hrec
    obtain ⟨old, -, rfl⟩ := Option.map_eq_some_iff.mp hrec
    refine ⟨by cases old <;> rfl, _, hc.get_new (h.oldStored hc) hc.stamp, le_ownBytes_of_length ?_⟩
    rw [← length_of_startBits hc.start]
    exact List.length_modify ..
  · rw [hc.redirect.slots, if_neg fun hall => hi hall.2.2] at hrec
    exact ⟨hrec, h.get_other hc hi hrec hvalid hc.stamp⟩

/-- The vertices of other slots have the bitsets they had. -/
theorem LabelInv.bitset_other (h : LabelInv structLabel labelId names db)
    (hc : AnnotChange db db' .vertex c s labelId id annot names pos tbl tbl' oldTid newTid bits)
    {i : Nat} (hi : entitySlot i ≠ entitySlot id) :
    db'.bitset .vertex labelId i = db.bitset .vertex labelId i := by
  unfold AnnotDb.bitset
  rw [hc.redirect.slots, if_neg fun hall => hi hall.2.2, hc.stamp, hc.table]
  cases hrec : db.pmapRec labelId i .vertex with
  | none => rfl
  | some rec =>
    dsimp only
    cases hvalid : rec.aItemptr.isValid with
    | false => rfl
    | true => rw [if_pos rfl, if_pos rfl, (h.get_other hc hi hrec hvalid hc.stamp).1]

/-- **The names decoded after a change**: the one in question as wanted, the others as before. -/
theorem changed_decode {old : List Nat} (hpos : bitPosition names annot = some pos)
    (honce : c = .clear → ∀ i, names[i]? = some (some annot) → ByteBits.bit old i = true → i = pos) :
    (∃ i, names[i]? = some (some a) ∧
      ByteBits.bit (c.apply (copyBits old (byteSizeOf names)) pos) i = true) ↔
    if a = annot then c = .set
    else ∃ i, names[i]? = some (some a) ∧ ByteBits.bit old i = true := by
  have hat := getElem?_of_bitPosition hpos
  split_ifs with ha
  · subst ha
    constructor
    · rintro ⟨i, hi, hbit⟩
      rw [bit_changed hpos hi] at hbit
      split_ifs at hbit with hp
      · exact of_decide_eq_true hbit
      · cases c with
        | set => rfl
        | clear => exact absurd (honce rfl i hi hbit) hp
    · intro hset
      refine ⟨pos, hat, ?_⟩
      rw [bit_changed hpos hat, if_pos rfl]
      exact decide_eq_true hset
  · refine exists_congr fun i => and_congr_right fun hi => ?_
    rw [bit_changed hpos hi, if_neg]
    rintro rfl
    rw [hat] at hi
    exact ha (Option.some.inj (Option.some.inj hi)).symm

/-- **A change of an annotation keeps the law.** -/
theorem LabelInv.changeLaw (h : LabelInv structLabel labelId names db)
    (hs : fullXidIsValid s.fxid = true)
    (hc : AnnotChange db db' .vertex c s labelId id annot names pos tbl tbl' oldTid newTid bits)
    (h' : LabelInv structLabel labelId names db')
    (honce : c = .clear → ∀ tid t, db.bitset .vertex labelId id = some (tid, t) →
      ∀ i, names[i]? = some (some annot) → ByteBits.bit t.bits i = true → i = pos) :
    ChangeLaw labelId id annot c s db db' := by
  obtain ⟨rec, hrec, -⟩ := hc.record
  have hnew := hc.bitset_self (i := id) (h.oldStored hc) rfl (by rw [hrec]; rfl)
  refine ⟨fun g x own a hsees hsees' => ?_, ⟨?_, ?_⟩, fun g x own i a hi => ?_⟩
  · have hlive := hsees' _ _ hnew
    have hdecode : db'.Decodes g .vertex x own labelId id a ↔
        ∃ i, names[i]? = some (some a) ∧ ByteBits.bit (c.apply bits pos) i = true := by
      rw [h'.decodes_iff, hnew]
      constructor
      · rintro ⟨tid, t, he, -, hbit⟩
        cases he
        exact hbit
      · exact fun hbit => ⟨_, _, rfl, hlive, hbit⟩
    rw [hdecode, h.decodes_iff]
    rcases h.start hc with ⟨t, hb, -, -, rfl⟩ | ⟨hb, -, rfl⟩
    · rw [changed_decode hc.position fun hclear => honce hclear oldTid t hb, hb]
      split_ifs
      · rfl
      · constructor
        · exact fun hbit => ⟨_, _, rfl, hsees _ _ hb, hbit⟩
        · rintro ⟨tid, t', he, -, hbit⟩
          cases he
          exact hbit
    · have hclear (i : Nat) : ByteBits.bit [] i = false := ByteBits.bit_eq_false (by simp)
      have hnot (i : Nat) : ¬ ByteBits.bit [] i = true := by simp [hclear]
      rw [changed_decode hc.position fun _ i _ hbit => absurd hbit (hnot i), hb]
      split_ifs
      · rfl
      · constructor
        · rintro ⟨i, -, hbit⟩
          exact absurd hbit (hnot i)
        · rintro ⟨tid, t, he, -⟩
          cases he
  · intro tid t hb
    rcases h.start hc with ⟨t', hb', -, hlive, -⟩ | ⟨hb', -⟩
    · rw [hb] at hb'
      cases hb'
      exact hlive
    · rw [hb] at hb'
      cases hb'
  · intro tid t hb
    rw [hnew] at hb
    cases hb
    exact npEntityTupleIsLive_self _ hs rfl rfl
  · exact decodes_congr h h' (h.bitset_other hc hi) fun _ _ _ => Iff.rfl

end Changed

/-! ## Inserting a vertex -/

theorem length_setBits {annots : Names} {bits bits' : List Nat}
    (h : setBits names annots bits = .ok bits') : bits'.length = bits.length := by
  induction annots generalizing bits with
  | nil => rw [Except.ok.inj h]
  | cons name rest ih =>
    cases name with
    | none => exact ih h
    | some annot =>
      unfold setBits at h
      split at h
      · cases h
      · rw [ih h]
        exact List.length_modify ..

/-- **What the annotation part of an insert writes**: nothing, or a bitset with the bits of the
annotations it is given. -/
theorem insertAnnotations_bits {v : Vertex} {inputAnnots : Option Names}
    (hok : SchemaOk db .vertex v.labelId names)
    (h : (insertAnnotations s v inputAnnots).Runs db tid db') :
    (inputAnnots = none ∧ tid = .invalid ∧ db' = db) ∨
      ∃ annots bits tbl tbl', inputAnnots = some annots ∧
        setBits names annots (copyBits [] (byteSizeOf names)) = .ok bits ∧
        db.annotationsTbl .vertex v.labelId = some tbl ∧ db.HasSchemaBlock .vertex v.labelId ∧
        tbl.write (annotTupleSize bits.length) (newAnnotTuple s v.id .invalid bits) =
          some (tbl', tid) ∧
        db' = db.setAnnotations .vertex v.labelId tbl' := by
  cases inputAnnots with
  | none =>
    obtain ⟨rfl, rfl⟩ := Prog.runs_ret_iff.mp h
    exact .inl ⟨rfl, rfl, rfl⟩
  | some annots =>
    obtain ⟨bits, db₁, hbits, h₁⟩ := Prog.runs_bind_iff.mp h
    obtain ⟨hread, rfl⟩ := Prog.runs_read_iff.mp hbits
    split at hread
    · next row tbl hrow htbl =>
      dsimp only [bind, Except.bind] at hread
      split at hread
      · cases hread
      · next found hmap =>
        cases found with
        | none => cases hread
        | some names' =>
          obtain ⟨rfl, hblock⟩ := hok.mapArray hrow hmap
          obtain ⟨tbl', hw, rfl⟩ := (writeAnnotTuple_runs_iff htbl).mp h₁
          exact .inr ⟨annots, bits, tbl, tbl', rfl, hread, htbl, hblock, hw, rfl⟩
    · cases hread

theorem insertAnnotations_inv {v : Vertex} {inputAnnots : Option Names}
    (hok : SchemaOk db .vertex v.labelId names)
    (h : (insertAnnotations s v inputAnnots).Runs db tid db') :
    (tid.isValid = false ∧ db' = db) ∨
      ∃ tbl tbl' b, db.annotationsTbl .vertex v.labelId = some tbl ∧
        db.HasSchemaBlock .vertex v.labelId ∧ b.bits.length = byteSizeOf names ∧
        tbl.write (annotTupleSize b.bits.length) b = some (tbl', tid) ∧
        db' = db.setAnnotations .vertex v.labelId tbl' := by
  rcases insertAnnotations_bits hok h with ⟨-, htid, hdb⟩ |
    ⟨annots, bits, tbl, tbl', -, hbits, htbl, hblock, hw, rfl⟩
  · refine .inl ⟨?_, hdb⟩
    rw [htid]
    exact ItemPointer.isValid_invalid
  · refine .inr ⟨tbl, tbl', newAnnotTuple s v.id .invalid bits, htbl, hblock, ?_, hw, rfl⟩
    dsimp only [newAnnotTuple]
    rw [length_setBits hbits]
    exact ByteBits.length_resize ..

/-- **What an insert does to its label**: a tuple of its own for the bitset, if there is one, and a
record in one slot; a slot behind it may be padded. -/
structure Inserted (db db' : AnnotDb) (labelId id : Nat) (names : Names)
    (tbl tbl' : Table AnnotTuple) (newTid : ItemPointer) : Prop where
  labels : db'.labels = db.labels
  schemaTbl : db'.annotSchemaTbl = db.annotSchemaTbl
  schemaMap : db'.annotSchemaPhysMap = db.annotSchemaPhysMap
  table : db.annotationsTbl .vertex labelId = some tbl
  table' : db'.annotationsTbl .vertex labelId = some tbl'
  self : ∀ i rec, entitySlot i = entitySlot id → db'.pmapRec labelId i .vertex = some rec →
    rec.aItemptr = newTid
  other : ∀ i, entitySlot i ≠ entitySlot id →
    db'.pmapRec labelId i .vertex = db.pmapRec labelId i .vertex ∨
      db.pmapRec labelId i .vertex = none ∧ db'.pmapRec labelId i .vertex = some (.vertex emptyPad)
  new : newTid.isValid = true → db.HasSchemaBlock .vertex labelId ∧
    ∃ b, tbl'.get newTid = some b ∧ names.length ≤ 8 * ownBytes b.bits.length
  old : ∀ tid b, tbl.get tid = some b → tbl'.get tid = some b ∧ tid ≠ newTid

/-- The slots after the record is placed. -/
theorem placeVertexSlot_slots (db db' : AnnotDb) {gr gr' : Db} {u : Unit} {rec : NeoPhysMapRecord}
    (h : (placeVertexSlot labelId id rec).Runs gr u gr') (hdb : db.graph.store.vslot = gr.store.vslot)
    (hdb' : db'.graph = gr') :
    (∀ i r, entitySlot i = entitySlot id → db'.pmapRec labelId i .vertex = some r →
      r.aItemptr = rec.aItemptr) ∧
    ∀ i, entitySlot i ≠ entitySlot id →
      db'.pmapRec labelId i .vertex = db.pmapRec labelId i .vertex ∨
        db.pmapRec labelId i .vertex = none ∧
          db'.pmapRec labelId i .vertex = some (.vertex emptyPad) := by
  obtain ⟨-, hplaced, -⟩ := placeVertexSlot_inv h
  refine ⟨fun i r hi hr => ?_, fun i hi => ?_⟩
  · rw [pmapRec_vertex, hdb', hi, hplaced.self] at hr
    obtain ⟨r', he, rfl⟩ := Option.map_eq_some_iff.mp hr
    split_ifs at he
    cases he
    rfl
  · rw [pmapRec_vertex, pmapRec_vertex, hdb', hdb]
    rcases hplaced.other (labelId, entitySlot i) fun he => hi (Prod.mk.inj he).2 with he | ⟨hn, hp⟩
    · exact .inl (by rw [he])
    · exact .inr ⟨by rw [hn]; rfl, by rw [hp]; rfl⟩

theorem insertAnnotatedVertex_inv {u : Unit} {dictionaryId : Nat} {props : Gtype}
    {inputAnnots : Option Names} {tbl : Table AnnotTuple} (hok : SchemaOk db .vertex labelId names)
    (htbl : db.annotationsTbl .vertex labelId = some tbl)
    (hr : (insertAnnotatedVertex s ⟨id, labelId, dictionaryId⟩ props inputAnnots).Runs db u db') :
    ∃ tbl' newTid, Inserted db db' labelId id names tbl tbl' newTid := by
  obtain ⟨vItemptr, db₁, hvertex, h₁⟩ := Prog.runs_bind_iff.mp hr
  obtain ⟨gr₁, hwrite, hdb₁⟩ := onGraph_runs_iff.mp hvertex
  obtain ⟨newTid, db₂, hannots, h₂⟩ := Prog.runs_bind_iff.mp h₁
  obtain ⟨gr₂, hplace, hdb'⟩ := onGraph_runs_iff.mp h₂
  have hvslot : db.graph.store.vslot = gr₁.store.vslot := by
    rw [(writeVertexTuple_inv hwrite).2.2.2.2.2]
  have hok₁ : SchemaOk db₁ .vertex labelId names :=
    hok.congr (by rw [hdb₁]) (by rw [hdb₁]) (by rw [hdb₁])
  rcases insertAnnotations_inv hok₁ hannots with ⟨hinvalid, hdb₂⟩ |
    ⟨tbl₁, tbl', b, htbl₁, hblock, hlen, hw, hdb₂⟩
  · rw [hdb₂, hdb₁] at hplace
    obtain ⟨hself, hother⟩ := placeVertexSlot_slots db db' hplace hvslot
      (by rw [hdb'])
    subst hdb' hdb₂ hdb₁
    refine ⟨tbl, newTid, rfl, rfl, rfl, htbl, htbl, hself, hother, fun hv => ?_,
      fun tid b hb => ⟨hb, fun he => ?_⟩⟩
    · cases hinvalid.symm.trans hv
    · have hv := Table.isValid_of_get hb
      rw [he, hinvalid] at hv
      cases hv
  · rw [hdb₂, hdb₁] at hplace
    obtain ⟨hself, hother⟩ := placeVertexSlot_slots db db' hplace hvslot
      (by rw [hdb'])
    subst hdb' hdb₂ hdb₁
    obtain rfl := Option.some.inj (htbl₁.symm.trans htbl)
    refine ⟨tbl', newTid, rfl, rfl, rfl, htbl, setAnnotations_tbl _ .vertex labelId tbl', hself,
      hother, fun _ => ⟨hblock, b, Table.write_get hw, le_ownBytes_of_length hlen⟩,
      fun tid b' hb => ?_⟩
    have hne : tid ≠ newTid := fun he => by
      rw [he, Table.write_fresh hw] at hb
      cases hb
    exact ⟨by rw [Table.write_ne hw hne, hb], hne⟩

/-- **The label after an insert**: the new vertex has a bitset of its own, or none. -/
theorem LabelInv.insert {tbl tbl' : Table AnnotTuple} {newTid : ItemPointer}
    (h : LabelInv structLabel labelId names db)
    (hi : Inserted db db' labelId id names tbl tbl' newTid) :
    LabelInv structLabel labelId names db' ∧
      ∀ i, entitySlot i ≠ entitySlot id →
        db'.bitset .vertex labelId i = db.bitset .vertex labelId i := by
  have hstored (i : Nat) (rec : PmapRec) (hr : db.pmapRec labelId i .vertex = some rec)
      (hvalid : rec.aItemptr.isValid = true) :
      tbl'.get rec.aItemptr = tbl.get rec.aItemptr ∧ rec.aItemptr ≠ newTid := by
    obtain ⟨b, hb, -⟩ := h.stored i rec tbl hr hvalid hi.table
    obtain ⟨hb', hne⟩ := hi.old _ b hb
    exact ⟨by rw [hb', hb], hne⟩
  have hothers (i : Nat) (hne : entitySlot i ≠ entitySlot id) :
      db'.bitset .vertex labelId i = db.bitset .vertex labelId i := by
    unfold AnnotDb.bitset
    rw [hi.table, hi.table']
    rcases hi.other i hne with he | ⟨hn, hp⟩
    · rw [he]
      cases hrec : db.pmapRec labelId i .vertex with
      | none => rfl
      | some rec =>
        dsimp only
        cases hvalid : rec.aItemptr.isValid with
        | false => rfl
        | true => rw [if_pos rfl, if_pos rfl, (hstored i rec hrec hvalid).1]
    · rw [hn, hp]
      rfl
  have hblock : (∃ i, (db'.bitset .vertex labelId i).isSome) → db'.HasSchemaBlock .vertex labelId := by
    rintro ⟨i, hsome⟩
    have hold : db.HasSchemaBlock .vertex labelId := by
      by_cases hne : entitySlot i = entitySlot id
      · obtain ⟨⟨tid, t⟩, hb⟩ := Option.isSome_iff_exists.mp hsome
        obtain ⟨rec, _, hr, -, hvalid, -⟩ := bitset_eq_some.mp hb
        rw [hi.self i rec hne hr] at hvalid
        exact (hi.new hvalid).1
      · rw [hothers i hne] at hsome
        exact h.block ⟨i, hsome⟩
    unfold AnnotDb.HasSchemaBlock at hold ⊢
    rwa [hi.schemaMap]
  have hpaths : db'.paths .vertex = db.paths .vertex := by
    unfold AnnotDb.paths
    rw [hi.labels]
  refine ⟨h.replace id newTid hi.table hi.table' (h.ok.congr hi.labels hi.schemaTbl hi.schemaMap)
    hblock hpaths (fun i rec hne hr hvalid => ?_) (fun i rec hne hr hvalid => ?_), hothers⟩
  · have he := hi.self i rec hne hr
    rw [he] at hvalid
    exact ⟨he, (hi.new hvalid).2⟩
  · rcases hi.other i hne with he | ⟨-, hpad⟩
    · rw [he] at hr
      exact ⟨hr, hstored i rec hr hvalid⟩
    · cases hr.symm.trans hpad
      cases hvalid

/-! ## Every run -/

/-- **One call keeps the invariant and obeys the law.** -/
theorem LabelInv.call {c : AnnotCall} (h : LabelInv structLabel labelId names db)
    (hs : fullXidIsValid s.fxid = true) (hsafe : SafeCall structLabel labelId db c)
    (hr : (c.run structLabel labelId s).Runs db () db') :
    (∃ names', LabelInv structLabel labelId names' db') ∧ CallLaw labelId s db db' c := by
  cases c with
  | addAnnotationLabel annot =>
    obtain ⟨hinv, hlaw⟩ := h.add hsafe hr
    exact ⟨⟨_, hinv⟩, hlaw⟩
  | dropAnnotationLabel annot =>
    obtain ⟨hinv, hlaw⟩ := h.drop hsafe hr
    exact ⟨⟨_, hinv⟩, hlaw⟩
  | insertVertex id dictionaryId props inputAnnots =>
    obtain ⟨tbl, htbl⟩ := Option.isSome_iff_exists.mp h.tbl
    obtain ⟨tbl', newTid, hi⟩ := insertAnnotatedVertex_inv h.ok htbl hr
    obtain ⟨hinv, hothers⟩ := h.insert hi
    exact ⟨⟨_, hinv⟩, fun g x own i a hne =>
      decodes_congr h hinv (hothers i hne) fun _ _ _ => Iff.rfl⟩
  | addVertexAnnotationLabel id annot =>
    obtain ⟨names', pos, tbl, tbl', oldTid, newTid, bits, hc⟩ := changeAnnot_inv hr
    obtain ⟨row, hrow, hmap⟩ := hc.schema
    obtain ⟨rfl, hblock⟩ := h.ok.mapArray hrow hmap
    have hinv := h.change hc hblock
    exact ⟨⟨_, hinv⟩, h.changeLaw hs hc hinv nofun⟩
  | removeVertexAnnotationLabel id annot =>
    obtain ⟨names', pos, tbl, tbl', oldTid, newTid, bits, hc⟩ := changeAnnot_inv hr
    obtain ⟨row, hrow, hmap⟩ := hc.schema
    obtain ⟨rfl, hblock⟩ := h.ok.mapArray hrow hmap
    have hinv := h.change hc hblock
    refine ⟨⟨_, hinv⟩, h.changeLaw hs hc hinv fun _ tid t hb i hi hbit => ?_⟩
    have honce := hsafe tid t hb i
    rw [h.ok.labelNames] at honce
    exact Option.some.inj ((honce hi hbit).symm.trans hc.position)

/-- **The label's invariant holds in every state of a run of safe calls.** -/
theorem LabelRun.inv (h : LabelRun (SafeCall structLabel labelId) structLabel labelId db) :
    ∃ names, LabelInv structLabel labelId names db := by
  induction h with
  | fresh h => exact h.inv
  | call h s c hs hsafe hr ih =>
    obtain ⟨names, hinv⟩ := ih
    exact (hinv.call hs hsafe hr).1
  | xacts h x ih =>
    obtain ⟨names, hinv⟩ := ih
    exact ⟨names, hinv.ok.congr rfl rfl rfl, hinv.tbl, hinv.stored, hinv.inj, hinv.block, hinv.named⟩

/-- **Annotations are kept**: in every state that safe calls lead to, dropping an annotation takes it
from every vertex and no other, adding one to the label changes no vertex, and a change of a vertex's
annotation changes that one only, as long as the calls are safe. -/
theorem annotations_kept (h : LabelRun (SafeCall structLabel labelId) structLabel labelId db)
    {c : AnnotCall} (hs : fullXidIsValid s.fxid = true) (hsafe : SafeCall structLabel labelId db c)
    (hr : (c.run structLabel labelId s).Runs db () db') : CallLaw labelId s db db' c := by
  obtain ⟨names, hinv⟩ := h.inv
  exact (hinv.call hs hsafe hr).2

/-! ## A label with two annotations -/

/-- A label with two annotations. -/
def exampleLabel : AnnotDb :=
  (SchemaOp.createVlabel ["p"] (some [some "a", some "b"])).perform ⟨5, 0⟩ exampleCreated

theorem exampleLabel_fresh : FreshLabel ["p"] 2 exampleLabel where
  ok := ⟨[some "a", some "b"], {
    row := ⟨⟨2, ["_", "p"], some [some "a", some "b"]⟩, by decide, rfl, rfl, fun _ => rfl⟩
    read := fun tid ns h => by
      have hread : exampleLabel.readSchema 2 = some (⟨0, 1⟩, [some "a", some "b"]) := by decide
      rw [hread] at h
      cases h
      rfl
    walk := fun _ => ⟨_, rfl, rfl⟩ }⟩
  tbl := by decide
  slots := fun _ => rfl
  named := ⟨by decide, ["_", "p"], 2, by decide, by decide⟩

/-- An insert of a vertex that has the second annotation. -/
def exampleAnnotated : AnnotCall := .insertVertex 1 0 npEmptyGtypeObject (some [some "b"])

/-- The label with that vertex. -/
def exampleVertex : AnnotDb := ((exampleAnnotated.run ["p"] 2 ⟨5, 1⟩).exec exampleLabel).2

theorem exampleAnnotated_runs : (exampleAnnotated.run ["p"] 2 ⟨5, 1⟩).Runs exampleLabel () exampleVertex :=
  Prog.runs_of_ok (by rfl)

theorem exampleVertex_otherSlots : OtherSlots exampleVertex .vertex 2 ["p"] := fun k => by
  cases k <;> decide

/-- Its names and its vertex after a drop. -/
def exampleDropped (annot : String) : AnnotDb :=
  ((dropAnnotationLabel ⟨5, 2⟩ ["p"] annot).exec exampleVertex).2

/-- Dropping the last name moves no other. -/
theorem annotations_kept_example :
    CallLaw 2 ⟨5, 2⟩ exampleVertex (exampleDropped "b") (.dropAnnotationLabel "b") := by
  refine annotations_kept (.call (.fresh exampleLabel_fresh) ⟨5, 1⟩ exampleAnnotated (by decide) trivial
    exampleAnnotated_runs) (by decide) ⟨exampleVertex_otherSlots, fun _ id tid t _ k j hk => ?_⟩
    (Prog.runs_of_ok (by rfl))
  have hnames : exampleVertex.labelNames .vertex 2 = [some "a", some "b"] := by decide
  have hkept : keptPositions [some "a", some "b"] "b" = [0] := by decide
  rw [hnames, hkept] at hk
  cases k with
  | zero => rw [Option.some.inj hk]
  | succ k => cases hk

/-- Dropping the first name takes the second from the vertex that has it. -/
theorem annotations_kept_fails : ¬ ∀ structLabel labelId db db' s c,
    LabelRun (fun _ _ => True) structLabel labelId db → fullXidIsValid s.fxid = true →
      (c.run structLabel labelId s).Runs db () db' → CallLaw labelId s db db' c := by
  intro h
  have hdrop : (dropAnnotationLabel ⟨5, 2⟩ ["p"] "a").Runs exampleVertex () (exampleDropped "a") :=
    Prog.runs_of_ok (by rfl)
  have hlaw := h ["p"] 2 exampleVertex (exampleDropped "a") ⟨5, 2⟩ (.dropAnnotationLabel "a")
    (.call (.fresh exampleLabel_fresh) ⟨5, 1⟩ exampleAnnotated (by decide) trivial exampleAnnotated_runs)
    (by decide) hdrop (fun _ _ _ => 0) exampleVertex.graph.xacts [] 1 "b"
  obtain ⟨names₀, hfresh⟩ := exampleLabel_fresh.inv
  obtain ⟨⟨names, hinv⟩, -⟩ := hfresh.call (c := exampleAnnotated) (by decide) trivial exampleAnnotated_runs
  obtain rfl : names = [some "a", some "b"] := hinv.ok.labelNames.symm.trans (by decide)
  have hstep := dropAnnotationLabel_step hinv.ok hinv.tbl hinv.named exampleVertex_otherSlots hdrop
  have hinv' := hinv.step hstep fun id tid t hb =>
    Nat.le_trans (length_keptNames_le ..) (hinv.bitset hb)
  have hbitset : exampleVertex.bitset .vertex 2 1 =
      some (⟨0, 1⟩, newAnnotTuple ⟨5, 1⟩ 1 .invalid [2]) := by rfl
  rw [hinv.decodes_iff, hinv'.decodes_iff, hstep.bitset, hbitset] at hlaw
  obtain ⟨tid, t, he, -, i, hi, hbit⟩ := hlaw.mpr ⟨⟨_, _, rfl, by decide, 1, by decide, by decide⟩, by decide⟩
  cases he
  have hkept : keptNames [some "a", some "b"] "a" = [some "b"] := by decide
  rw [hkept] at hi
  cases i with
  | zero => cases hbit
  | succ i => cases hi

end NeoPostGraph
