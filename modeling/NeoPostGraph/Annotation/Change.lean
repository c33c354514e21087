import NeoPostGraph.Annotation.Decode
import NeoPostGraph.Graph.Steps

/-!
# What a change of an annotation writes

`changeAnnot` reads the names of the label and the record of the entity, appends the new bitset,
overwrites the `a_itemptr` and stamps the old bitset.

* `Redirected`: another bitset in the record of one entity, and nothing else.
* `StartBits`: the bits a change starts from.
* `AnnotChange`: everything a successful call read and wrote.

Results:
* `changeAnnot_inv`: a call that returns is such a change.
* `changeAnnot_runs`: when a call returns. `changeAnnot_error`: a call that fails has written nothing.
-/

namespace NeoPostGraph

open SlottedPage

variable {db db' : AnnotDb} {kind : LabelKind} {change : BitChange} {s : Session}
  {labelId id : Nat} {annot : String} {names : Names} {tbl tbl' : Table AnnotTuple} {rec : PmapRec}
  {tid : ItemPointer} {bits : List Nat} {u : Unit}

/-! ## The annotation table -/

theorem setAnnotations_tbl (db : AnnotDb) (kind : LabelKind) (labelId : Nat)
    (tbl : Table AnnotTuple) :
    (db.setAnnotations kind labelId tbl).annotationsTbl kind labelId = some tbl := by
  unfold AnnotDb.setAnnotations
  simp

theorem setAnnotations_other {k : LabelKind} {l : Nat} (h : (k, l) ≠ (kind, labelId))
    (tbl : Table AnnotTuple) :
    (db.setAnnotations kind labelId tbl).annotationsTbl k l = db.annotationsTbl k l := by
  unfold AnnotDb.setAnnotations
  by_cases hk : k = kind
  · subst hk
    have hl : l ≠ labelId := fun he => h (by rw [he])
    simp [hl]
  · simp [hk]

theorem setAnnotations_self (h : db.annotationsTbl kind labelId = some tbl) :
    db.setAnnotations kind labelId tbl = db := by
  unfold AnnotDb.setAnnotations
  rw [← h]
  simp

theorem setAnnotations_again (t t' : Table AnnotTuple) :
    (db.setAnnotations kind labelId t).setAnnotations kind labelId t' =
      db.setAnnotations kind labelId t' := by
  unfold AnnotDb.setAnnotations
  simp

/-- A step on the annotation table of a label. -/
theorem onAnnotations_runs_iff {α : Type} {a : α}
    {f : XactState → Table AnnotTuple → Except AnnotErr (α × Table AnnotTuple)}
    (h : db.annotationsTbl kind labelId = some tbl) :
    (onAnnotations kind labelId f).Runs db a db' ↔
      ∃ tbl', f db.graph.xacts tbl = .ok (a, tbl') ∧ db' = db.setAnnotations kind labelId tbl' := by
  unfold onAnnotations
  rw [Prog.runs_step_iff, h]
  dsimp only
  cases f db.graph.xacts tbl with
  | error e => simp [Except.map]
  | ok x =>
    obtain ⟨b, t⟩ := x
    simp only [Except.map, Except.ok.injEq, Prod.mk.injEq]
    constructor
    · rintro ⟨rfl, rfl⟩
      exact ⟨t, ⟨rfl, rfl⟩, rfl⟩
    · rintro ⟨t', ⟨rfl, rfl⟩, rfl⟩
      exact ⟨rfl, rfl⟩

/-! ## The graph -/

theorem onGraph_runs_iff {α : Type} {p : Op α} {r : α} :
    (onGraph p).Runs db r db' ↔ ∃ gr, p.Runs db.graph r gr ∧ db' = { db with graph := gr } := by
  unfold onGraph
  rw [Prog.runs_step_iff]
  unfold Prog.Runs
  constructor
  · intro h
    split at h
    · next r' gr hr =>
      cases h
      exact ⟨gr, hr, rfl⟩
    · cases h
  · rintro ⟨gr, hr, rfl⟩
    rw [hr]

theorem pmapRec_vertex (db : AnnotDb) (labelId id : Nat) : db.pmapRec labelId id .vertex =
    (db.graph.store.vslot (labelId, entitySlot id)).map PmapRec.vertex := by
  unfold AnnotDb.pmapRec Db.store
  dsimp only
  cases db.graph.vlabels labelId <;> rfl

/-! ## The record -/

/-- **The record of one entity names another bitset**, and that is all that changed but for its
label's annotation table. -/
structure Redirected (db db' : AnnotDb) (kind : LabelKind) (labelId id : Nat) (tid : ItemPointer) :
    Prop where
  labels : db'.labels = db.labels
  schemaTbl : db'.annotSchemaTbl = db.annotSchemaTbl
  schemaMap : db'.annotSchemaPhysMap = db.annotSchemaPhysMap
  others : ∀ k l, (k, l) ≠ (kind, labelId) → db'.annotationsTbl k l = db.annotationsTbl k l
  xacts : db'.graph.xacts = db.graph.xacts
  blocks : ∀ k l, db'.pmapBlocks l k = db.pmapBlocks l k
  slots : ∀ k l i, db'.pmapRec l i k = if k = kind ∧ l = labelId ∧ k.slot i = k.slot id then
    (db.pmapRec l i k).map (PmapRec.setAItemptr tid) else db.pmapRec l i k

/-- Changes of the annotation table go along. -/
theorem Redirected.setAnnotations (h : Redirected db db' kind labelId id tid)
    (t t' : Table AnnotTuple) :
    Redirected (db.setAnnotations kind labelId t) (db'.setAnnotations kind labelId t') kind labelId id
      tid where
  labels := h.labels
  schemaTbl := h.schemaTbl
  schemaMap := h.schemaMap
  others := fun k l hne => by
    rw [setAnnotations_other hne, setAnnotations_other hne, h.others k l hne]
  xacts := h.xacts
  blocks := h.blocks
  slots := h.slots

/-- The vertex functions overwrite the record with the one they read, but for the pointer. -/
theorem writeAItemptr_vertex {r : NeoPhysMapRecord}
    (h : db.pmapRec labelId id .vertex = some (.vertex r)) :
    ∃ db', (writeAItemptr labelId id (.vertex r) tid).Runs db () db' ∧
      db'.annotationsTbl = db.annotationsTbl ∧ Redirected db db' .vertex labelId id tid := by
  obtain ⟨lab, hlab, hmap⟩ := Option.bind_eq_some_iff.mp h
  obtain ⟨r', hr, he⟩ := Option.map_eq_some_iff.mp hmap
  obtain rfl := PmapRec.vertex.inj he
  let lab' := { lab with
    physMap := lab.physMap.modify (entitySlot id) fun _ => { r' with aItemptr := tid } }
  let g := db.graph.setVertexLabel labelId lab'
  have hrun : (npOverwritePhysmapInPage labelId (entitySlot id) { r' with aItemptr := tid }).exec
      db.graph = (.ok (), g) := by
    unfold npOverwritePhysmapInPage onVertexLabel
    rw [Prog.exec_step, hlab]
    simp only [readItem_of_get hr]
    rfl
  refine ⟨{ db with graph := g }, ?_, rfl, rfl, rfl, rfl, fun _ _ _ => rfl, rfl, ?_, ?_⟩
  · unfold writeAItemptr onGraph
    rw [Prog.runs_step_iff, hrun]
  · intro k l
    cases k with
    | edge => rfl
    | vertex =>
      unfold AnnotDb.pmapBlocks
      by_cases hl : l = labelId
      · subst hl
        simp [g, Db.setVertexLabel, hlab, lab', PhysMap.modify]
      · simp [g, Db.setVertexLabel, hl]
  · intro k l i
    cases k with
    | edge => simp [AnnotDb.pmapRec, g, Db.setVertexLabel]
    | vertex =>
      unfold AnnotDb.pmapRec
      by_cases hl : l = labelId
      · subst hl
        simp only [g, Db.setVertexLabel, Function.update_self, Option.bind_some, lab',
          PhysMap.modify, Table.get_modify, true_and, LabelKind.slot, hlab]
        split_ifs with hi
        · rw [hi, hr]
          rfl
        · rfl
      · simp [g, Db.setVertexLabel, hl]

/-- The edge functions write the pointer into the record as it is. -/
theorem writeAItemptr_edge {r : NeoEdgePhysMapRecord} (hr : db.pmapRec labelId id .edge = some rec) :
    ∃ db', (writeAItemptr labelId id (.edge r) tid).Runs db () db' ∧
      db'.annotationsTbl = db.annotationsTbl ∧ Redirected db db' .edge labelId id tid := by
  obtain ⟨lab, hlab, hmap⟩ := Option.bind_eq_some_iff.mp hr
  obtain ⟨r', hr', -⟩ := Option.map_eq_some_iff.mp hmap
  let lab' := { lab with
    physMap := lab.physMap.modify (edgeSlot id) fun rec => { rec with aItemptr := tid } }
  let g := db.graph.setEdgeLabel labelId lab'
  refine ⟨{ db with graph := g }, ?_, rfl, rfl, rfl, rfl, fun _ _ _ => rfl, rfl, ?_, ?_⟩
  · unfold writeAItemptr onGraph onEdgeLabel
    rw [Prog.runs_step_iff, Prog.exec_step, hlab]
    simp only [readItem_of_get hr']
    rfl
  · intro k l
    cases k with
    | vertex => rfl
    | edge =>
      unfold AnnotDb.pmapBlocks
      by_cases hl : l = labelId
      · subst hl
        simp [g, Db.setEdgeLabel, hlab, lab', PhysMap.modify]
      · simp [g, Db.setEdgeLabel, hl]
  · intro k l i
    cases k with
    | vertex => simp [AnnotDb.pmapRec, g, Db.setEdgeLabel]
    | edge =>
      unfold AnnotDb.pmapRec
      by_cases hl : l = labelId
      · subst hl
        simp only [g, Db.setEdgeLabel, Function.update_self, Option.bind_some, lab',
          PhysMap.modify, Table.get_modify, true_and, LabelKind.slot, hlab]
        split_ifs with hi
        · rw [hi, hr']
          rfl
        · rfl
      · simp [g, Db.setEdgeLabel, hl]

/-- The record of an entity is one of its kind. -/
theorem pmapRec_kind (h : db.pmapRec labelId id kind = some rec) :
    (kind = .vertex ∧ ∃ r, rec = .vertex r) ∨ kind = .edge ∧ ∃ r, rec = .edge r := by
  cases kind with
  | vertex =>
    obtain ⟨lab, -, hmap⟩ := Option.bind_eq_some_iff.mp h
    obtain ⟨r, -, rfl⟩ := Option.map_eq_some_iff.mp hmap
    exact .inl ⟨rfl, r, rfl⟩
  | edge =>
    obtain ⟨lab, -, hmap⟩ := Option.bind_eq_some_iff.mp h
    obtain ⟨r, -, rfl⟩ := Option.map_eq_some_iff.mp hmap
    exact .inr ⟨rfl, r, rfl⟩

/-- **Writing the pointer** changes the one record. -/
theorem writeAItemptr_runs (db : AnnotDb) (h : db.pmapRec labelId id kind = some rec)
    (tid : ItemPointer) :
    ∃ db', (writeAItemptr labelId id rec tid).Runs db () db' ∧
      db'.annotationsTbl = db.annotationsTbl ∧ Redirected db db' kind labelId id tid := by
  rcases pmapRec_kind h with ⟨rfl, r, rfl⟩ | ⟨rfl, r, rfl⟩
  · exact writeAItemptr_vertex h
  · exact writeAItemptr_edge h

/-! ## The call -/

/-- The bits a change starts from: those of the old bitset, which nobody else is changing, or none. -/
inductive StartBits (x : XactState) (own : List Nat) (tbl : Table AnnotTuple) (oldTid : ItemPointer)
    (byteSize : Nat) : List Nat → Prop
  | first (h : oldTid.isValid = false) : StartBits x own tbl oldTid byteSize (copyBits [] byteSize)
  /-- The line pointer of the old bitset is not normal. -/
  | lost (h : oldTid.isValid = true) (hblock : oldTid.block < tbl.nblocks)
      (hget : tbl.get oldTid = none) : StartBits x own tbl oldTid byteSize (copyBits [] byteSize)
  | old {t : AnnotTuple} (h : oldTid.isValid = true) (hget : tbl.get oldTid = some t)
      (hlive : npEntityTupleIsLive x own t.hdr.toRecordHeader = true)
      (hother : npEntityTupleXmaxOther x own t.hdr.toRecordHeader = false) :
      StartBits x own tbl oldTid byteSize (copyBits t.bits byteSize)

/-- **Everything a successful change did**: what it read, the bitset it appended, the pointer, and
the stamp on the old bitset. -/
structure AnnotChange (db db' : AnnotDb) (kind : LabelKind) (change : BitChange) (s : Session)
    (labelId id : Nat) (annot : String) (names : Names) (pos : Nat) (tbl tbl' : Table AnnotTuple)
    (oldTid newTid : ItemPointer) (bits : List Nat) : Prop where
  schema : ∃ row, (db.labels kind).find? (fun row => row.id = labelId) = some row ∧
    db.mapArray kind row = .ok (some names)
  position : bitPosition names annot = some pos
  table : db.annotationsTbl kind labelId = some tbl
  record : ∃ rec, db.pmapRec labelId id kind = some rec ∧
    oldTid = keptAnnotTid kind tbl rec.aItemptr
  start : StartBits db.graph.xacts s.own tbl oldTid (byteSizeOf names) bits
  write : tbl.write (annotTupleSize (byteSizeOf names))
    (newAnnotTuple s id oldTid (change.apply bits pos)) = some (tbl', newTid)
  redirect : Redirected db db' kind labelId id newTid
  stamp : db'.annotationsTbl kind labelId =
    some (if oldTid.isValid then tbl'.modify oldTid (stampAnnot s) else tbl')

theorem length_of_startBits {x : XactState} {own : List Nat} {oldTid : ItemPointer} {n : Nat}
    (h : StartBits x own tbl oldTid n bits) : bits.length = n := by
  cases h <;> exact ByteBits.length_resize ..

theorem requireAnnotatedLabel_runs_iff {row : LabelRow} :
    (requireAnnotatedLabel kind labelId).Runs db row db' ↔
      ((db.labels kind).find? (fun row => row.id = labelId) = some row ∧
        ∃ tbl, db.annotationsTbl kind labelId = some tbl) ∧ db' = db := by
  unfold requireAnnotatedLabel
  rw [Prog.runs_read_iff]
  refine and_congr_left fun _ => ?_
  split
  · next row' tbl hrow htbl => simp [hrow, htbl]
  · next hnone =>
    constructor
    · intro h
      cases h
    · rintro ⟨hrow, tbl, htbl⟩
      exact absurd htbl (hnone row tbl hrow)

theorem resolveBit_runs_iff {row : LabelRow} {pos : Nat} :
    (resolveBit kind row annot).Runs db (names, pos) db' ↔
      (db.mapArray kind row = .ok (some names) ∧ bitPosition names annot = some pos) ∧ db' = db := by
  unfold resolveBit
  rw [Prog.runs_read_iff]
  refine and_congr_left fun _ => ?_
  dsimp only [bind, Except.bind]
  cases hmap : db.mapArray kind row with
  | error e => simp
  | ok found =>
    cases found with
    | none => simp
    | some names' =>
      dsimp only
      cases hpos : bitPosition names' annot with
      | none =>
        simp only [reduceCtorEq, Except.ok.injEq, Option.some.injEq, false_iff, not_and]
        rintro rfl he
        rw [hpos] at he
        cases he
      | some pos' =>
        simp only [Except.ok.injEq, Prod.mk.injEq, Option.some.injEq]
        constructor
        · rintro ⟨rfl, rfl⟩
          exact ⟨rfl, hpos⟩
        · rintro ⟨rfl, he⟩
          exact ⟨rfl, Option.some.inj (hpos.symm.trans he)⟩

theorem readPmapRec_runs_iff :
    (readPmapRec kind labelId id).Runs db rec db' ↔
      db.pmapRec labelId id kind = some rec ∧ db' = db := by
  unfold readPmapRec
  rw [Prog.runs_read_iff]
  refine and_congr_left fun _ => ?_
  constructor
  · intro h
    split_ifs at h
    split at h
    · cases h
    · next rec' hrec => rw [hrec, Except.ok.inj h]
  · intro h
    rw [if_neg (Nat.not_le.mpr (lt_pmapBlocks h)), h]

theorem oldAnnotTid_runs_iff (htbl : db.annotationsTbl kind labelId = some tbl)
    {aItemptr oldTid : ItemPointer} :
    (oldAnnotTid kind labelId aItemptr).Runs db oldTid db' ↔
      oldTid = keptAnnotTid kind tbl aItemptr ∧ db' = db := by
  unfold oldAnnotTid
  rw [onAnnotations_runs_iff htbl]
  constructor
  · rintro ⟨tbl', he, rfl⟩
    cases he
    exact ⟨rfl, setAnnotations_self htbl⟩
  · rintro ⟨rfl, rfl⟩
    exact ⟨tbl, rfl, (setAnnotations_self htbl).symm⟩

/-- The bits read, and the check on them. -/
theorem oldBits_runs_iff (htbl : db.annotationsTbl kind labelId = some tbl) {own : List Nat}
    {oldTid : ItemPointer} {n : Nat} :
    (oldBits kind own labelId id n oldTid).Runs db bits db' ↔
      StartBits db.graph.xacts own tbl oldTid n bits ∧ db' = db := by
  unfold oldBits
  split_ifs with hvalid
  · rw [onAnnotations_runs_iff htbl]
    constructor
    · rintro ⟨tbl', he, rfl⟩
      dsimp only [bind, Except.bind] at he
      split at he
      · cases he
      · next found hread =>
        unfold readLinePointer at hread
        split_ifs at hread with hblock
        cases found with
        | none =>
          cases he
          exact ⟨.lost hvalid (Nat.lt_of_not_le hblock) (Except.ok.inj hread),
            setAnnotations_self htbl⟩
        | some old =>
          dsimp only at he
          split_ifs at he with hcheck
          cases he
          rw [Bool.or_eq_true, not_or, Bool.not_eq_true, Bool.not_eq_true, Bool.not_eq_false']
            at hcheck
          exact ⟨.old hvalid (Except.ok.inj hread) hcheck.1 hcheck.2, setAnnotations_self htbl⟩
    · rintro ⟨hstart, rfl⟩
      refine ⟨tbl, ?_, (setAnnotations_self htbl).symm⟩
      cases hstart with
      | first h =>
        rw [hvalid] at h
        cases h
      | lost _ hblock hget =>
        rw [readLinePointer_of_block hblock, hget]
        rfl
      | old _ hget hlive hother =>
        rw [readLinePointer_of_get hget]
        dsimp only [bind, Except.bind]
        rw [hlive, hother]
        rfl
  · rw [Prog.pure_eq, Prog.runs_ret_iff]
    rw [Bool.not_eq_true] at hvalid
    refine and_congr_left fun _ => ⟨fun h => h ▸ .first hvalid, fun h => ?_⟩
    cases h with
    | first _ => rfl
    | lost h _ _ => cases hvalid.symm.trans h
    | old h _ _ _ => cases hvalid.symm.trans h

theorem writeAnnotTuple_runs_iff (htbl : db.annotationsTbl kind labelId = some tbl)
    {tuple : AnnotTuple} :
    (writeAnnotTuple kind labelId tuple).Runs db tid db' ↔
      ∃ tbl', tbl.write (annotTupleSize tuple.bits.length) tuple = some (tbl', tid) ∧
        db' = db.setAnnotations kind labelId tbl' := by
  unfold writeAnnotTuple
  rw [onAnnotations_runs_iff htbl]
  refine exists_congr fun tbl' => and_congr_left fun _ => ?_
  cases hw : tbl.write (annotTupleSize tuple.bits.length) tuple with
  | none => simp
  | some x =>
    obtain ⟨t, tid'⟩ := x
    simp only [Except.ok.injEq, Prod.mk.injEq, Option.some.injEq]
    exact and_comm

theorem stampOldBitset_runs_iff (htbl : db.annotationsTbl kind labelId = some tbl)
    {oldTid : ItemPointer} :
    (stampOldBitset kind s labelId oldTid).Runs db u db' ↔
      (oldTid.isValid = true → ∃ t, tbl.get oldTid = some t) ∧
        db' = db.setAnnotations kind labelId
          (if oldTid.isValid then tbl.modify oldTid (stampAnnot s) else tbl) := by
  unfold stampOldBitset
  cases hvalid : oldTid.isValid with
  | true =>
    rw [if_pos rfl, onAnnotations_runs_iff htbl]
    cases hget : tbl.get oldTid with
    | none => simp
    | some t => simp
  | false =>
    rw [if_neg Bool.false_ne_true, Prog.pure_eq, Prog.runs_ret_iff, if_neg Bool.false_ne_true,
      setAnnotations_self htbl]
    simp

/-- **A call that returns has done everything.** -/
theorem changeAnnot_inv (h : (changeAnnot kind change s labelId id annot).Runs db u db') :
    ∃ names pos tbl tbl' oldTid newTid bits,
      AnnotChange db db' kind change s labelId id annot names pos tbl tbl' oldTid newTid bits := by
  unfold changeAnnot at h
  obtain ⟨row, db₁, hrow, h₁⟩ := Prog.runs_bind_iff.mp h
  obtain ⟨⟨hfind, tbl, htbl⟩, rfl⟩ := requireAnnotatedLabel_runs_iff.mp hrow
  obtain ⟨⟨names, pos⟩, db₂, hbit, h₂⟩ := Prog.runs_bind_iff.mp h₁
  obtain ⟨⟨hmap, hpos⟩, rfl⟩ := resolveBit_runs_iff.mp hbit
  obtain ⟨rec, db₃, hread, h₃⟩ := Prog.runs_bind_iff.mp h₂
  obtain ⟨hrec, rfl⟩ := readPmapRec_runs_iff.mp hread
  obtain ⟨oldTid, db₄, hkept, h₄⟩ := Prog.runs_bind_iff.mp h₃
  obtain ⟨hold, rfl⟩ := (oldAnnotTid_runs_iff htbl).mp hkept
  obtain ⟨bits, db₅, hbits, h₅⟩ := Prog.runs_bind_iff.mp h₄
  obtain ⟨hstart, rfl⟩ := (oldBits_runs_iff htbl).mp hbits
  obtain ⟨newTid, db₆, happend, h₆⟩ := Prog.runs_bind_iff.mp h₅
  obtain ⟨tbl', hwrite, rfl⟩ := (writeAnnotTuple_runs_iff htbl).mp happend
  obtain ⟨_, db₇, hptr, hstamp⟩ := Prog.runs_bind_iff.mp h₆
  obtain ⟨db₈, hrun, htbls, hrep⟩ := writeAItemptr_runs (db₅.setAnnotations kind labelId tbl') hrec
    newTid
  obtain ⟨-, rfl⟩ := hptr.det hrun
  have htbl' : db₇.annotationsTbl kind labelId = some tbl' := by
    rw [htbls, setAnnotations_tbl]
  obtain ⟨-, rfl⟩ := (stampOldBitset_runs_iff htbl').mp hstamp
  have hlen : (newAnnotTuple s id oldTid (change.apply bits pos)).bits.length = byteSizeOf names := by
    rw [← length_of_startBits hstart]
    exact List.length_modify ..
  rw [hlen] at hwrite
  refine ⟨names, pos, tbl, tbl', oldTid, newTid, bits, ⟨row, hfind, hmap⟩, hpos, htbl,
    ⟨rec, hrec, hold⟩, hstart, hwrite, ?_, setAnnotations_tbl ..⟩
  have hboth := hrep.setAnnotations tbl
    (if oldTid.isValid then tbl'.modify oldTid (stampAnnot s) else tbl')
  rwa [setAnnotations_again, setAnnotations_self htbl] at hboth

/-- **When a call returns**: the annotation is in the schema, the entity has a record, and the bitset
it names, if any, is live and nobody else's to change. -/
theorem changeAnnot_runs {row : LabelRow} {pos : Nat}
    (hrow : (db.labels kind).find? (fun row => row.id = labelId) = some row)
    (hmap : db.mapArray kind row = .ok (some names)) (hpos : bitPosition names annot = some pos)
    (htbl : db.annotationsTbl kind labelId = some tbl) (hrec : db.pmapRec labelId id kind = some rec)
    (hold : (keptAnnotTid kind tbl rec.aItemptr).isValid = true →
      ∃ t, tbl.get (keptAnnotTid kind tbl rec.aItemptr) = some t ∧
        npEntityTupleIsLive db.graph.xacts s.own t.hdr.toRecordHeader = true ∧
        npEntityTupleXmaxOther db.graph.xacts s.own t.hdr.toRecordHeader = false)
    (hfits : Fits (annotTupleSize (byteSizeOf names))) :
    ∃ db', (changeAnnot kind change s labelId id annot).Runs db () db' := by
  obtain ⟨bits, hstart⟩ : ∃ bits, StartBits db.graph.xacts s.own tbl
      (keptAnnotTid kind tbl rec.aItemptr) (byteSizeOf names) bits := by
    cases hvalid : (keptAnnotTid kind tbl rec.aItemptr).isValid with
    | false => exact ⟨_, .first hvalid⟩
    | true =>
      obtain ⟨t, hget, hlive, hother⟩ := hold hvalid
      exact ⟨_, .old hvalid hget hlive hother⟩
  let tuple := newAnnotTuple s id (keptAnnotTid kind tbl rec.aItemptr) (change.apply bits pos)
  have hlen : tuple.bits.length = byteSizeOf names := by
    rw [← length_of_startBits hstart]
    exact List.length_modify ..
  obtain ⟨tbl', newTid, hwrite⟩ := Table.write_of_fits tbl tuple hfits
  rw [← hlen] at hwrite
  obtain ⟨db₁, hptr, htbls, -⟩ := writeAItemptr_runs (db.setAnnotations kind labelId tbl') hrec newTid
  have htbl' : db₁.annotationsTbl kind labelId = some tbl' := by
    rw [htbls, setAnnotations_tbl]
  have hget' : (keptAnnotTid kind tbl rec.aItemptr).isValid = true →
      ∃ t, tbl'.get (keptAnnotTid kind tbl rec.aItemptr) = some t := by
    intro hvalid
    obtain ⟨t, hget, -⟩ := hold hvalid
    refine ⟨t, ?_⟩
    rw [Table.write_ne hwrite fun he => ?_, hget]
    rw [he, Table.write_fresh hwrite] at hget
    cases hget
  let kept := keptAnnotTid kind tbl rec.aItemptr
  refine ⟨db₁.setAnnotations kind labelId
    (if kept.isValid then tbl'.modify kept (stampAnnot s) else tbl'), ?_⟩
  refine (requireAnnotatedLabel_runs_iff.mpr ⟨⟨hrow, tbl, htbl⟩, rfl⟩).bind ?_
  refine (resolveBit_runs_iff.mpr ⟨⟨hmap, hpos⟩, rfl⟩).bind ?_
  refine (readPmapRec_runs_iff.mpr ⟨hrec, rfl⟩).bind ?_
  refine ((oldAnnotTid_runs_iff htbl).mpr ⟨rfl, rfl⟩).bind ?_
  refine ((oldBits_runs_iff htbl).mpr ⟨hstart, rfl⟩).bind ?_
  refine ((writeAnnotTuple_runs_iff htbl).mpr ⟨tbl', hwrite, rfl⟩).bind ?_
  exact hptr.bind ((stampOldBitset_runs_iff htbl').mpr ⟨hget', rfl⟩)

/-- **A call that fails has written nothing**, where the bitset the record names is stored. -/
theorem changeAnnot_error {e : AnnotErr}
    (hold : ∀ rec tbl, db.pmapRec labelId id kind = some rec →
      db.annotationsTbl kind labelId = some tbl →
        (keptAnnotTid kind tbl rec.aItemptr).isValid = true →
          ∃ t, tbl.get (keptAnnotTid kind tbl rec.aItemptr) = some t)
    (h : (changeAnnot kind change s labelId id annot).exec db = (.error e, db')) : db' = db := by
  rcases Prog.error_bind_cases h with hfail | ⟨row, db₁, hrow, h₁⟩
  · exact Prog.step_error hfail
  obtain ⟨⟨-, tbl, htbl⟩, rfl⟩ := requireAnnotatedLabel_runs_iff.mp hrow
  rcases Prog.error_bind_cases h₁ with hfail | ⟨⟨names, pos⟩, db₂, hbit, h₂⟩
  · exact Prog.step_error hfail
  obtain ⟨-, rfl⟩ := resolveBit_runs_iff.mp hbit
  rcases Prog.error_bind_cases h₂ with hfail | ⟨rec, db₃, hread, h₃⟩
  · exact Prog.step_error hfail
  obtain ⟨hrec, rfl⟩ := readPmapRec_runs_iff.mp hread
  rcases Prog.error_bind_cases h₃ with hfail | ⟨oldTid, db₄, hkept, h₄⟩
  · exact Prog.step_error hfail
  obtain ⟨htid, rfl⟩ := (oldAnnotTid_runs_iff htbl).mp hkept
  rcases Prog.error_bind_cases h₄ with hfail | ⟨bits, db₅, hbits, h₅⟩
  · unfold oldBits at hfail
    split_ifs at hfail
    · exact Prog.step_error hfail
    · cases hfail
  obtain ⟨-, rfl⟩ := (oldBits_runs_iff htbl).mp hbits
  rcases Prog.error_bind_cases h₅ with hfail | ⟨newTid, db₆, happend, h₆⟩
  · exact Prog.step_error hfail
  obtain ⟨tbl', hwrite, rfl⟩ := (writeAnnotTuple_runs_iff htbl).mp happend
  -- the pointer can be written and the old bitset stamped
  obtain ⟨db₇, hptr, htbls, -⟩ := writeAItemptr_runs (db₅.setAnnotations kind labelId tbl') hrec newTid
  have htbl' : db₇.annotationsTbl kind labelId = some tbl' := by
    rw [htbls, setAnnotations_tbl]
  have hstored : oldTid.isValid = true → ∃ t, tbl'.get oldTid = some t := fun hvalid => by
    rw [htid] at hvalid ⊢
    obtain ⟨t, ht⟩ := hold rec tbl hrec htbl hvalid
    refine ⟨t, ?_⟩
    rw [Table.write_ne hwrite fun he => ?_, ht]
    rw [he, Table.write_fresh hwrite] at ht
    cases ht
  have hstamp : (stampOldBitset kind s labelId oldTid).Runs db₇ () _ :=
    (stampOldBitset_runs_iff htbl').mpr ⟨hstored, rfl⟩
  rcases Prog.error_bind_cases h₆ with hfail | ⟨_, db₈, hptr', h₇⟩
  · cases hptr.symm.trans hfail
  · obtain ⟨-, rfl⟩ := hptr.det hptr'
    cases hstamp.symm.trans h₇

/-! ## After a call -/

section After

variable {pos : Nat} {oldTid newTid : ItemPointer}

/-- The array a call resolves the annotation in is the names of the label. -/
theorem SchemaOk.mapArray {row : LabelRow} {names' : Names} (h : SchemaOk db kind labelId names)
    (hrow : (db.labels kind).find? (fun row => row.id = labelId) = some row)
    (hmap : db.mapArray kind row = .ok (some names')) :
    names' = names ∧ db.HasSchemaBlock kind labelId := by
  obtain ⟨row', hrow', hid, hnames, -⟩ := h.row
  obtain rfl := Option.some.inj (hrow.symm.trans hrow')
  have hann (he : row.annotationMap = some names') : names' = names := by
    rw [he] at hnames
    exact hnames
  have hblock : db.HasSchemaBlock kind labelId := by
    cases kind with
    | edge => exact .inl rfl
    | vertex =>
      refine .inr (Nat.lt_of_not_le fun hle => ?_)
      unfold AnnotDb.mapArray readLinePointer at hmap
      rw [hid, if_pos hle] at hmap
      cases hmap
  refine ⟨?_, hblock⟩
  unfold AnnotDb.mapArray at hmap
  rw [hid, hblock.read] at hmap
  dsimp only [bind, Except.bind] at hmap
  have hlatest := latestSchemaTid_eq db labelId
  cases hrec : db.annotSchemaPhysMap.table.get (schemaSlot labelId) with
  | none =>
    rw [hrec] at hmap
    exact hann (Except.ok.inj hmap)
  | some r =>
    rw [hrec] at hmap hlatest
    dsimp only [Option.map_some, Option.getD_some] at hmap hlatest
    rw [hlatest] at hmap
    split_ifs at hmap with hvalid
    · obtain ⟨t, ht, -⟩ := h.walk hvalid
      rw [readLinePointer_of_get ht] at hmap
      have hread : db.readSchema labelId = some (db.latestSchemaTid labelId, t.names) := by
        unfold AnnotDb.readSchema
        simp [hvalid, ht]
      rw [← h.read _ _ hread]
      exact (Option.some.inj (Except.ok.inj hmap)).symm
    · exact hann (Except.ok.inj hmap)

/-- Where the schemas are the same, so are the names. -/
theorem SchemaOk.congr (h : SchemaOk db kind labelId names) (hlabels : db'.labels = db.labels)
    (htbl : db'.annotSchemaTbl = db.annotSchemaTbl)
    (hmap : db'.annotSchemaPhysMap = db.annotSchemaPhysMap) : SchemaOk db' kind labelId names := by
  have hlatest : db'.latestSchemaTid labelId = db.latestSchemaTid labelId := by
    unfold AnnotDb.latestSchemaTid
    rw [hmap]
  have hread : db'.readSchema labelId = db.readSchema labelId := by
    unfold AnnotDb.readSchema
    rw [hlatest, htbl]
  constructor
  · rw [hlabels, hread]
    exact h.row
  · rw [hread]
    exact h.read
  · rw [hlatest, htbl]
    exact h.walk

theorem Redirected.hasSchemaBlock (h : Redirected db db' kind labelId id tid)
    (hblock : db.HasSchemaBlock kind labelId) : db'.HasSchemaBlock kind labelId := by
  unfold AnnotDb.HasSchemaBlock
  rw [h.schemaMap]
  exact hblock

theorem Redirected.schemaOk (h : Redirected db db' kind labelId id tid)
    (hok : SchemaOk db kind labelId names) : SchemaOk db' kind labelId names :=
  hok.congr h.labels h.schemaTbl h.schemaMap

variable (h : AnnotChange db db' kind change s labelId id annot names pos tbl tbl' oldTid newTid bits)

include h

/-- The bitset that was appended is there. -/
theorem AnnotChange.get_new (hold : oldTid.isValid = true → (tbl.get oldTid).isSome) {t : Table AnnotTuple}
    (ht : db'.annotationsTbl kind labelId = some t) :
    t.get newTid = some (newAnnotTuple s id oldTid (change.apply bits pos)) := by
  obtain rfl := Option.some.inj (h.stamp.symm.trans ht)
  split_ifs with hvalid
  · rw [Table.get_modify_ne _ _ fun he => ?_, Table.write_get h.write]
    have hsome := hold hvalid
    rw [← he, Table.write_fresh h.write] at hsome
    cases hsome
  · exact Table.write_get h.write

/-- The old bitset is stamped. -/
theorem AnnotChange.get_old (hvalid : oldTid.isValid = true) {a : AnnotTuple}
    (hold : tbl.get oldTid = some a) {t : Table AnnotTuple}
    (ht : db'.annotationsTbl kind labelId = some t) : t.get oldTid = some (stampAnnot s a) := by
  obtain rfl := Option.some.inj (h.stamp.symm.trans ht)
  rw [if_pos hvalid]
  refine Table.get_modify_self _ ?_
  rw [Table.write_ne h.write fun he => ?_, hold]
  rw [he, Table.write_fresh h.write] at hold
  cases hold

/-- Every other bitset is as it was. -/
theorem AnnotChange.get_other {tid : ItemPointer} (hne : tid ≠ oldTid) (hnew : tid ≠ newTid)
    {t : Table AnnotTuple} (ht : db'.annotationsTbl kind labelId = some t) :
    t.get tid = tbl.get tid := by
  obtain rfl := Option.some.inj (h.stamp.symm.trans ht)
  split_ifs with hvalid
  · rw [Table.get_modify_ne _ _ hne, Table.write_ne h.write hnew]
  · rw [Table.write_ne h.write hnew]

/-- **The entity has the bitset that was appended.** -/
theorem AnnotChange.bitset_self (hold : oldTid.isValid = true → (tbl.get oldTid).isSome) {i : Nat}
    (hi : kind.slot i = kind.slot id) (hrec : (db.pmapRec labelId i kind).isSome) :
    db'.bitset kind labelId i =
      some (newTid, newAnnotTuple s id oldTid (change.apply bits pos)) := by
  obtain ⟨rec, hrec⟩ := Option.isSome_iff_exists.mp hrec
  have hrec' : db'.pmapRec labelId i kind = some (rec.setAItemptr newTid) := by
    rw [h.redirect.slots, if_pos ⟨rfl, rfl, hi⟩, hrec]
    rfl
  have haptr : (rec.setAItemptr newTid).aItemptr = newTid := by cases rec <;> rfl
  refine bitset_eq_some.mpr ⟨_, _, hrec', h.stamp, ?_, haptr, h.get_new hold h.stamp⟩
  rw [haptr]
  exact Table.write_valid h.write

end After

end NeoPostGraph
