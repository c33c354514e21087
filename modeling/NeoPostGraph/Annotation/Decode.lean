import NeoPostGraph.Annotation.Bitset
import NeoPostGraph.Annotation.Separation
import NeoPostGraph.Lib.ByteBits

/-!
# What is decoded

* `AnnotDb.bitset`: the tuple the record of an entity names.
* `AnnotDb.Decodes`: the annotations `vertex_out` or `edge_out` prints.
* `SchemaOk`: the map and the catalog agree on the names of a label.

Results:
* `bit_change`: the bits of a changed bitset, against those of the old one.
* `SchemaOk.decodingSchema`: a bitset is decoded against the names of its label, however old it is.
* `SchemaOk.decodes_iff`: an annotation is decoded exactly when the bitset is live and has its bit.
-/

namespace NeoPostGraph

open SlottedPage

variable {db db' : AnnotDb} {g : BytesBehind} {kind : LabelKind} {change : BitChange} {s : Session}
  {x : XactState} {own : List Nat} {labelId id : Nat} {annot : String} {names : Names}
  {tbl : Table AnnotTuple} {rec : PmapRec} {tid : ItemPointer} {bits : List Nat} {i pos : Nat}

/-! ## Bits -/

/-- A stored tuple has its bitset. -/
theorem le_ownBytes (n : Nat) : n ≤ ownBytes n := by
  unfold ownBytes annotTupleSize
  have := le_maxAlign (sizeOfNPEntityTupleHeader + (4 + n))
  omega

/-- Within the stored tuple, the padding reads as clear bits. -/
theorem bitAt_eq (h : i / 8 < ownBytes bits.length) :
    bitAt g tbl tid bits i = ByteBits.bit bits i := by
  unfold bitAt byteAt ByteBits.bit
  split_ifs with hlt
  · rfl
  · rw [List.getD_eq_default _ _ (Nat.le_of_not_lt hlt)]

theorem lt_byteSizeOf (h : i < names.length) : i / 8 < byteSizeOf names := by
  unfold byteSizeOf
  omega

theorem length_change (n : Nat) : (change.apply (copyBits bits n) pos).length = n := by
  unfold BitChange.apply copyBits
  rw [List.length_modify, ByteBits.length_resize]

/-- **The bits after a change**: the bit in question as wanted, the others as they were. -/
theorem bit_change (hpos : pos < names.length) :
    ByteBits.bit (change.apply (copyBits bits (byteSizeOf names)) pos) i =
      if i = pos then decide (change = .set)
      else ByteBits.bit bits i && decide (i / 8 < byteSizeOf names) := by
  have hlen : pos / 8 < (copyBits bits (byteSizeOf names)).length := by
    unfold copyBits
    rw [ByteBits.length_resize]
    exact lt_byteSizeOf hpos
  have hcopy : ByteBits.bit (copyBits bits (byteSizeOf names)) i =
      (ByteBits.bit bits i && decide (i / 8 < byteSizeOf names)) := ByteBits.bit_resize ..
  cases change with
  | set =>
    have hor := ByteBits.bit_modify_or (i := i) hlen
    unfold BitChange.apply BitChange.onByte
    dsimp only
    rw [hor, hcopy]
    split_ifs with hi <;> simp [hi]
  | clear =>
    have hand := ByteBits.bit_modify_and (i := i) hlen
    unfold BitChange.apply BitChange.onByte
    dsimp only
    rw [hand, hcopy]
    split_ifs with hi <;> simp [hi]

theorem lt_of_bitPosition (h : bitPosition names annot = some pos) : pos < names.length := by
  obtain ⟨hlt, -⟩ := List.idxOf?_eq_some_iff.mp h
  exact hlt

/-- The position of an annotation is one of its own. -/
theorem getElem?_of_bitPosition (h : bitPosition names annot = some pos) :
    names[pos]? = some (some annot) := by
  obtain ⟨hlt, hget, -⟩ := List.idxOf?_eq_some_iff.mp h
  rw [List.getElem?_eq_getElem hlt, hget]

/-- An annotation of the schema has a position. -/
theorem exists_bitPosition (h : some annot ∈ names) : ∃ pos, bitPosition names annot = some pos :=
  Option.isSome_iff_exists.mp (List.isSome_idxOf?.mpr h)

/-- The bits of a changed bitset at the positions of the names. -/
theorem bit_changed (hpos : bitPosition names annot = some pos) {a : String}
    (hi : names[i]? = some (some a)) :
    ByteBits.bit (change.apply (copyBits bits (byteSizeOf names)) pos) i =
      if i = pos then decide (change = .set) else ByteBits.bit bits i := by
  have hlt : i < names.length := (List.getElem?_eq_some_iff.mp hi).1
  rw [bit_change (lt_of_bitPosition hpos), decide_eq_true (lt_byteSizeOf hlt), Bool.and_true]

/-! ## Reading through pointers -/

theorem readLinePointer_of_block {α : Type} {t : Table α} (h : tid.block < t.nblocks) :
    readLinePointer kind t tid = .ok (t.get tid) := by
  unfold readLinePointer
  rw [if_neg (Nat.not_le.mpr h)]

theorem readLinePointer_of_get {α : Type} {t : Table α} {a : α} (h : t.get tid = some a) :
    readLinePointer kind t tid = .ok (some a) := by
  rw [readLinePointer_of_block (nblocks_of_get h), h]

/-- A pointer past the end is no error where the block is checked. -/
theorem readLinePointer_edge {α : Type} (t : Table α) (tid : ItemPointer) :
    readLinePointer .edge t tid = .ok (t.get tid) := by
  unfold readLinePointer
  split_ifs with h
  · cases hg : t.get tid with
    | none => rfl
    | some a => exact absurd (nblocks_of_get hg) (Nat.not_lt.mpr h)
  · rfl

/-- The bitset of an entity: the tuple its record names. -/
def AnnotDb.bitset (db : AnnotDb) (kind : LabelKind) (labelId id : Nat) :
    Option (ItemPointer × AnnotTuple) :=
  match db.pmapRec labelId id kind, db.annotationsTbl kind labelId with
  | some rec, some tbl =>
    if rec.aItemptr.isValid then (tbl.get rec.aItemptr).map fun t => (rec.aItemptr, t) else none
  | _, _ => none

/-- The annotations of an entity, as a session with the transaction ids `own` prints them: the walk
through the schema versions ends. -/
def AnnotDb.Decodes (db : AnnotDb) (g : BytesBehind) (kind : LabelKind) (x : XactState)
    (own : List Nat) (labelId id : Nat) (annot : String) : Prop :=
  ∃ n out, (∀ fuel, n ≤ fuel → db.annotationsOut g kind x own fuel labelId id = .ok out) ∧
    annot ∈ out

/-- The names of a label: what the map names and what the catalog says are the same array. -/
structure SchemaOk (db : AnnotDb) (kind : LabelKind) (labelId : Nat) (names : Names) : Prop where
  row : ∃ row, (db.labels kind).find? (fun row => row.id = labelId) = some row ∧
    row.id = labelId ∧ row.annotationMap.getD [] = names ∧
    (db.readSchema labelId ≠ none → row.annotationMap = some names)
  read : ∀ tid ns, db.readSchema labelId = some (tid, ns) → ns = names
  /-- The version the map names is stored, and points to no other. -/
  walk : (db.latestSchemaTid labelId).isValid →
    ∃ t, db.annotSchemaTbl.get (db.latestSchemaTid labelId) = some t ∧
      t.hdr.prevItemptr.isValid = false

/-- The block of the label's slot in the schema map exists, where a reader does not ask. -/
def AnnotDb.HasSchemaBlock (db : AnnotDb) (kind : LabelKind) (labelId : Nat) : Prop :=
  kind = .edge ∨ (schemaSlot labelId).block < db.annotSchemaPhysMap.table.nblocks

theorem AnnotDb.HasSchemaBlock.read (h : db.HasSchemaBlock kind labelId) :
    readLinePointer kind db.annotSchemaPhysMap.table (schemaSlot labelId) =
      .ok (db.annotSchemaPhysMap.table.get (schemaSlot labelId)) := by
  rcases h with rfl | h
  · exact readLinePointer_edge ..
  · exact readLinePointer_of_block h

theorem latestSchemaTid_eq (db : AnnotDb) (labelId : Nat) :
    ((db.annotSchemaPhysMap.table.get (schemaSlot labelId)).map
      NeoPhysMapRecord.vItemptr).getD .invalid = db.latestSchemaTid labelId := by
  unfold AnnotDb.latestSchemaTid
  cases db.annotSchemaPhysMap.table.get (schemaSlot labelId) <;> rfl

/-- **A bitset is decoded against the names of its label**, however old it is: the walk ends at the
version the map names, and the catalog has the same names. -/
theorem SchemaOk.decodingSchema (h : SchemaOk db kind labelId names)
    (hblock : db.HasSchemaBlock kind labelId) {row : LabelRow}
    (hrow : (db.labels kind).find? (fun row => row.id = labelId) = some row) {fuel : Nat}
    (hfuel : 2 ≤ fuel) (bitset : EntityHeader) :
    db.decodingSchema kind fuel row bitset = .ok names := by
  obtain ⟨row', hrow', hid, hnames, -⟩ := h.row
  obtain rfl := Option.some.inj (hrow.symm.trans hrow')
  obtain ⟨fuel, rfl⟩ := Nat.exists_eq_add_of_le' hfuel
  unfold AnnotDb.decodingSchema
  rw [hid, hblock.read]
  dsimp only [bind, Except.bind]
  rw [latestSchemaTid_eq]
  unfold AnnotDb.schemaWalk
  split_ifs with hvalid
  · obtain ⟨t, ht, hprev⟩ := h.walk hvalid
    have hread : db.readSchema labelId = some (db.latestSchemaTid labelId, t.names) := by
      unfold AnnotDb.readSchema
      simp [hvalid, ht]
    rw [readLinePointer_of_get ht]
    dsimp only [bind, Except.bind]
    split_ifs with hold
    · exact congrArg Except.ok (h.read _ _ hread)
    · unfold AnnotDb.schemaWalk
      rw [hprev]
      exact congrArg Except.ok hnames
  · exact congrArg Except.ok hnames

/-! ## The decoder -/

/-- The decoded names are those of the bits that are set. -/
theorem mem_decodeNames {bit : Nat → Bool} :
    annot ∈ decodeNames bit names ↔ ∃ i, names[i]? = some (some annot) ∧ bit i = true := by
  unfold decodeNames
  rw [List.mem_filterMap]
  constructor
  · rintro ⟨⟨name, i⟩, hmem, hname⟩
    have hget := List.mem_zipIdx_iff_getElem?.mp hmem
    dsimp only at hname hget
    split_ifs at hname with hbit
    exact ⟨i, by rw [hget, hname], hbit⟩
  · rintro ⟨i, hget, hbit⟩
    exact ⟨(some annot, i), List.mem_zipIdx_iff_getElem?.mpr hget, if_pos hbit⟩

/-- The bitset of an entity is a tuple of the label's annotation table, named by its record. -/
theorem bitset_eq_some {t : AnnotTuple} : db.bitset kind labelId id = some (tid, t) ↔
    ∃ rec tbl, db.pmapRec labelId id kind = some rec ∧ db.annotationsTbl kind labelId = some tbl ∧
      rec.aItemptr.isValid = true ∧ rec.aItemptr = tid ∧ tbl.get tid = some t := by
  unfold AnnotDb.bitset
  constructor
  · intro h
    split at h
    · next rec tbl hrec htbl =>
      split_ifs at h with hvalid
      obtain ⟨t', ht', he⟩ := Option.map_eq_some_iff.mp h
      cases he
      exact ⟨rec, tbl, hrec, htbl, hvalid, rfl, ht'⟩
    · cases h
  · rintro ⟨rec, tbl, hrec, htbl, hvalid, rfl, ht⟩
    rw [hrec, htbl]
    dsimp only
    rw [if_pos hvalid, ht]
    rfl

/-- A record is on a block of the map. -/
theorem lt_pmapBlocks (h : db.pmapRec labelId id kind = some rec) :
    (kind.slot id).block < db.pmapBlocks labelId kind := by
  cases kind with
  | vertex =>
    obtain ⟨lab, hlab, hmap⟩ := Option.bind_eq_some_iff.mp h
    obtain ⟨r, hr, -⟩ := Option.map_eq_some_iff.mp hmap
    have hlt := nblocks_of_get hr
    unfold AnnotDb.pmapBlocks
    rw [hlab]
    exact hlt
  | edge =>
    obtain ⟨lab, hlab, hmap⟩ := Option.bind_eq_some_iff.mp h
    obtain ⟨r, hr, -⟩ := Option.map_eq_some_iff.mp hmap
    have hlt := nblocks_of_get hr
    unfold AnnotDb.pmapBlocks
    rw [hlab]
    exact hlt

/-- What is printed for a bitset: the names of its bits, if it is live. -/
theorem SchemaOk.annotationsOut (h : SchemaOk db kind labelId names)
    (hblock : db.HasSchemaBlock kind labelId) {t : AnnotTuple}
    (hb : db.bitset kind labelId id = some (tid, t))
    (htbl : db.annotationsTbl kind labelId = some tbl) {fuel : Nat} (hfuel : 2 ≤ fuel) :
    db.annotationsOut g kind x own fuel labelId id =
      .ok (if npEntityTupleIsLive x own t.hdr.toRecordHeader then
        decodeNames (bitAt g tbl tid t.bits) names else []) := by
  obtain ⟨rec, tbl', hrec, htbl', hvalid, rfl, ht⟩ := bitset_eq_some.mp hb
  obtain rfl := Option.some.inj (htbl.symm.trans htbl')
  obtain ⟨row, hrow, -⟩ := h.row
  unfold AnnotDb.annotationsOut
  rw [hrow, htbl]
  dsimp only
  rw [if_neg (Nat.not_le.mpr (lt_pmapBlocks hrec)), hrec]
  dsimp only [Option.map_some, Option.getD_some]
  rw [if_pos hvalid, readLinePointer_of_get ht]
  dsimp only [bind, Except.bind]
  split_ifs with hlive
  · rw [h.decodingSchema hblock hrow hfuel]
    rfl
  · rfl

/-- The pointer of an entity without a bitset names no tuple. -/
theorem get_of_bitset_none (hb : db.bitset kind labelId id = none)
    (htbl : db.annotationsTbl kind labelId = some tbl)
    (hvalid : (((db.pmapRec labelId id kind).map PmapRec.aItemptr).getD .invalid).isValid = true) :
    tbl.get (((db.pmapRec labelId id kind).map PmapRec.aItemptr).getD .invalid) = none := by
  cases hrec : db.pmapRec labelId id kind with
  | none =>
    rw [hrec] at hvalid
    cases hvalid
  | some rec =>
    rw [hrec] at hvalid
    cases ht : tbl.get rec.aItemptr with
    | none => exact ht
    | some t =>
      rw [bitset_eq_some.mpr ⟨rec, tbl, hrec, htbl, hvalid, rfl, ht⟩] at hb
      cases hb

/-- An entity without a bitset has nothing decoded. -/
theorem annotationsOut_none (hb : db.bitset kind labelId id = none) {fuel : Nat}
    {out : List String} (h : db.annotationsOut g kind x own fuel labelId id = .ok out) : out = [] := by
  unfold AnnotDb.annotationsOut at h
  split at h
  · next row tbl hrow htbl =>
    split at h
    · cases kind with
      | vertex => cases h
      | edge => exact (Except.ok.inj h).symm
    · dsimp only at h
      by_cases hvalid :
          (((db.pmapRec labelId id kind).map PmapRec.aItemptr).getD .invalid).isValid = true
      · rw [if_pos hvalid] at h
        unfold readLinePointer at h
        rw [get_of_bitset_none hb htbl hvalid] at h
        cases kind with
        | vertex =>
          split_ifs at h
          · cases h
          · exact (Except.ok.inj h).symm
        | edge =>
          split_ifs at h <;> exact (Except.ok.inj h).symm
      · rw [if_neg hvalid] at h
        exact (Except.ok.inj h).symm
  · exact (Except.ok.inj h).symm

/-- **An annotation is decoded exactly when the bitset of the entity is live and has its bit.** -/
theorem SchemaOk.decodes_iff (h : SchemaOk db kind labelId names)
    (hblock : (db.bitset kind labelId id).isSome → db.HasSchemaBlock kind labelId)
    (htbl : db.annotationsTbl kind labelId = some tbl) :
    db.Decodes g kind x own labelId id annot ↔
      ∃ tid t, db.bitset kind labelId id = some (tid, t) ∧
        npEntityTupleIsLive x own t.hdr.toRecordHeader = true ∧
        ∃ i, names[i]? = some (some annot) ∧ bitAt g tbl tid t.bits i = true := by
  unfold AnnotDb.Decodes
  cases hb : db.bitset kind labelId id with
  | none =>
    constructor
    · rintro ⟨n, out, hout, hmem⟩
      rw [annotationsOut_none hb (hout n (Nat.le_refl n))] at hmem
      cases hmem
    · rintro ⟨tid, t, hb', -⟩
      cases hb'
  | some bs =>
    obtain ⟨tid, t⟩ := bs
    have hout {fuel : Nat} (hfuel : 2 ≤ fuel) : db.annotationsOut g kind x own fuel labelId id =
        .ok (if npEntityTupleIsLive x own t.hdr.toRecordHeader then
          decodeNames (bitAt g tbl tid t.bits) names else []) :=
      h.annotationsOut (hblock (by rw [hb]; rfl)) hb htbl hfuel
    constructor
    · rintro ⟨n, out, hrun, hmem⟩
      have he := (hrun (max n 2) (Nat.le_max_left n 2)).symm.trans (hout (Nat.le_max_right n 2))
      rw [Except.ok.inj he] at hmem
      split_ifs at hmem with hlive
      · exact ⟨tid, t, rfl, hlive, mem_decodeNames.mp hmem⟩
      · cases hmem
    · rintro ⟨tid', t', hb', hlive, hbit⟩
      cases hb'
      refine ⟨2, _, fun fuel hfuel => hout hfuel, ?_⟩
      rw [if_pos hlive]
      exact mem_decodeNames.mpr hbit

end NeoPostGraph
