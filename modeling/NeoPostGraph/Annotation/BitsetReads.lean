import NeoPostGraph.Annotation.Relabel

/-!
# Which bytes of a bitset are read

A bitset has as many bytes as the schema it is written under has need of. `vertex_out`, `edge_out`,
`set_vertex_label` and `remove_vertex_label` read a bit for each name of the schema they look up, which is
the schema of the label as it is now, and none of them asks how long the bitset is.

* `bytesRead`, `AnnotDb.outReads`, `AnnotDb.relabelReads`: the bytes the decoders read.
* `GrowRun kind labelId under db`: a label of either kind, while its schema grows, bitsets are written and
  anything happens elsewhere. `under tid` is the number of names of the label when the bitset there was
  written.
* `ReadsInBounds`: what is asked of the decoders.

Results:
* `addAnnotationLabel_grows`: a call on any text leaves the names of the label, or appends one.
* `GrowRun.inv`: every stored bitset has the length of its time.
* `readsInBounds_iff`: its bytes are read in bounds exactly as long as no name has come behind its last byte.
-/

namespace NeoPostGraph

open SlottedPage

/-! ## The bytes read -/

/-- `bits[i / 8]` for each name of a schema; the loop of a decoder goes on at a null. -/
def bytesRead (names : Names) : List Nat := names.zipIdx.filterMap fun x => x.1.map fun _ => x.2 / 8

/-- The bytes that `vertex_out` and `edge_out` read of a bitset with this header. -/
def AnnotDb.outReads (db : AnnotDb) (kind : LabelKind) (fuel labelId : Nat) (bitset : EntityHeader) :
    List Nat :=
  match (db.labels kind).find? fun row => row.id = labelId with
  | none => []
  | some row =>
    match db.decodingSchema kind fuel row bitset with
    | .error _ => []
    | .ok names => bytesRead names

/-- The bytes that `set_vertex_label` and `remove_vertex_label` read of the copy of a bitset. -/
def AnnotDb.relabelReads (db : AnnotDb) (labelId : Nat) : List Nat :=
  match (db.labels .vertex).find? fun row => row.id = labelId with
  | none => []
  | some row =>
    match db.mapArray .edge row with
    | .error _ => []
    | .ok names => bytesRead (names.getD [])

/-- **The decoders read only bytes of the bitset**, and nothing they return depends on what lies behind. -/
structure ReadsInBounds (db : AnnotDb) (kind : LabelKind) (labelId : Nat) (tid : ItemPointer)
    (t : AnnotTuple) : Prop where
  out : ∀ fuel, ∀ j ∈ db.outReads kind fuel labelId t.hdr, j < t.bits.length
  relabel : kind = .vertex → ∀ j ∈ db.relabelReads labelId, j < t.bits.length
  outUnset : ∀ g x own fuel id, db.bitset kind labelId id = some (tid, t) →
    db.annotationsOut g kind x own fuel labelId id =
      db.annotationsOut (fun _ _ _ => 0) kind x own fuel labelId id
  relabelUnset : kind = .vertex → ∀ behind, (extractAnnotations behind labelId tid).exec db =
    (extractAnnotations (fun _ => 0) labelId tid).exec db

/-! ## Runs -/

/-- How many names the label had when the bitset at a tid was written, after the writes of a step. -/
def AnnotDb.writtenUnder (db : AnnotDb) (kind : LabelKind) (labelId : Nat) (under : ItemPointer → Nat) :
    ItemPointer → Nat :=
  fun tid =>
    if ((db.annotationsTbl kind labelId).bind fun tbl => tbl.get tid).isSome then under tid
    else (db.labelNames kind labelId).length

/-- The states of a label with an annotation table, while bitsets are written and its schema grows. The text
of a growth may name the label or any other one, in either catalog; no other label that it goes over has the
label's slot. -/
inductive GrowRun (kind : LabelKind) (labelId : Nat) : (ItemPointer → Nat) → AnnotDb → Prop
  | fresh {db : AnnotDb} {names : Names} (hok : SchemaOk db kind labelId names)
      (hids : ((db.labels kind).map LabelRow.id).Nodup)
      (htbl : db.annotationsTbl kind labelId = some Table.empty) (under : ItemPointer → Nat) :
      GrowRun kind labelId under db
  | grow {under : ItemPointer → Nat} {db db' : AnnotDb} (h : GrowRun kind labelId under db) (s : Session)
      (text : DottedText) (annot : DottedText) (hslots : OtherSlots db kind labelId text)
      (hr : (addAnnotationLabel s text annot).Runs db () db') : GrowRun kind labelId under db'
  /-- `add_vertex_annotation_label` and the three functions like it. -/
  | change {under : ItemPointer → Nat} {db db' : AnnotDb} (h : GrowRun kind labelId under db) (s : Session)
      (change : BitChange) (id : Nat) (annot : String)
      (hr : (changeAnnot kind change s labelId id annot).Runs db () db') :
      GrowRun kind labelId (db.writtenUnder kind labelId under) db'
  /-- An insert of a vertex, also that of `set_vertex_label` and `remove_vertex_label`. -/
  | insert {under : ItemPointer → Nat} {db db' : AnnotDb} (h : GrowRun kind labelId under db) (s : Session)
      (hkind : kind = .vertex) (id dictionaryId : Nat) (props : Gtype) (inputAnnots : Option Names)
      (hr : (insertAnnotatedVertex s ⟨id, labelId, dictionaryId⟩ props inputAnnots).Runs db () db') :
      GrowRun kind labelId (db.writtenUnder kind labelId under) db'
  /-- Anything that leaves the names of the label and its bitsets alone. -/
  | other {under : ItemPointer → Nat} {db db' : AnnotDb} (h : GrowRun kind labelId under db)
      (hs : SameSchema kind labelId db db')
      (htbl : db'.annotationsTbl kind labelId = db.annotationsTbl kind labelId)
      (hids : ((db'.labels kind).map LabelRow.id).Nodup) : GrowRun kind labelId under db'

/-- What holds in every run: the names are what the map and the catalog say, and every stored bitset has the
length it was written with. -/
structure GrowInv (kind : LabelKind) (labelId : Nat) (under : ItemPointer → Nat) (names : Names)
    (tbl : Table AnnotTuple) (db : AnnotDb) : Prop where
  ok : SchemaOk db kind labelId names
  ids : ((db.labels kind).map LabelRow.id).Nodup
  table : db.annotationsTbl kind labelId = some tbl
  length : ∀ tid t, tbl.get tid = some t → t.bits.length = (under tid + 7) / 8
  block : (∃ tid t, tbl.get tid = some t) → db.HasSchemaBlock kind labelId

section

variable {db db' : AnnotDb} {kind k : LabelKind} {s : Session} {labelId id : Nat} {names names' : Names}
  {row : LabelRow} {annot : String} {text : DottedText} {under : ItemPointer → Nat}
  {tbl tbl' : Table AnnotTuple} {tid : ItemPointer} {t : AnnotTuple} {bit bit' : Nat → Bool} {i j n : Nat}

/-! ## A schema grows -/

theorem ids_of_paths (h : ∀ k, db'.paths k = db.paths k) :
    (db'.labels kind).map LabelRow.id = (db.labels kind).map LabelRow.id := by
  have hpaths := congrArg (List.map Prod.fst) (h kind)
  unfold AnnotDb.paths at hpaths
  rwa [List.map_map, List.map_map] at hpaths

/-- The part of a call in the catalog of the label: it goes over the label or it does not. -/
theorem cascade_grows {b : Bool} (hok : SchemaOk db kind labelId names)
    (htbl : (db.annotationsTbl kind labelId).isSome) (hids : ((db.labels kind).map LabelRow.id).Nodup)
    (hslots : OtherSlots db kind labelId text)
    (h : (cascade kind text fun _ row => npApplyAddAnnotationToTuple s kind row annot).Runs db b db') :
    ∃ names', (names' = names ∨ names' = addedNames names annot) ∧ LabelStep kind labelId names' db db' := by
  obtain ⟨row, hrow, hid, -⟩ := hok.row
  obtain ⟨target, db₁, hfind, h₁⟩ := Prog.runs_bind_iff.mp h
  obtain ⟨htarget, rfl⟩ := npFindStructLtree_runs_iff.mp hfind
  cases hfound : (db₁.labels kind).find? fun row => structuralText row.ltree = text with
  | none =>
    rw [hfound] at htarget
    subst htarget
    obtain ⟨-, rfl⟩ := Prog.runs_ret_iff.mp h₁
    exact ⟨names, Or.inl rfl, (SameLabel.refl ..).step hok⟩
  | some found =>
    rw [hfound] at htarget
    subst htarget
    obtain ⟨tups, db₂, hscan, h₂⟩ := Prog.runs_bind_iff.mp h₁
    obtain ⟨htups, rfl⟩ := Prog.runs_read_iff.mp hscan
    obtain ⟨n, db₃, hloop, h₃⟩ := Prog.runs_bind_iff.mp h₂
    obtain ⟨-, rfl⟩ := Prog.runs_ret_iff.mp h₃
    obtain rfl := Except.ok.inj htups
    have hother : ∀ other ∈ (db₂.labels kind).filter fun other => found.ltree.isPrefixOf other.ltree,
        other.id ≠ labelId → ∀ base, (npApplyAddAnnotationToTuple s kind other annot).Keeps
          (SameLabel kind labelId base) := by
      intro other ho hne base
      refine keepsSame_npApplyAddAnnotationToTuple (hslots kind other.id ?_ fun he => hne (Prod.mk.inj he).2)
      rw [reached_eq hfound]
      exact List.mem_map_of_mem ho
    by_cases hmem : row ∈ (db₂.labels kind).filter fun other => found.ltree.isPrefixOf other.ltree
    · refine ⟨addedNames names annot, Or.inr rfl, forEachRow_step hok hid hrow htbl hmem
        ((List.filter_sublist.map _).nodup hids) hother
        (fun _ _ _ hok hrow htbl => npApplyAddAnnotationToTuple_step hok hrow htbl) hloop⟩
    · refine ⟨names, Or.inl rfl, (forEachRow_same (fun other ho => hother other ho ?_ db₂) hloop
        (SameLabel.refl ..)).step hok⟩
      rintro he
      -- ids are unique, so this would be the label's own row
      have hsame := List.inj_on_of_nodup_map hids (List.mem_filter.mp ho).1
        (List.mem_of_find?_eq_some hrow) (he.trans hid.symm)
      rw [hsame] at ho
      exact hmem ho

/-- **A call on any text leaves the names of the label, or appends one.** -/
theorem addAnnotationLabel_grows (hok : SchemaOk db kind labelId names)
    (htbl : (db.annotationsTbl kind labelId).isSome) (hids : ((db.labels kind).map LabelRow.id).Nodup)
    (hslots : OtherSlots db kind labelId text) {annot : DottedText} {u : Unit}
    (h : (addAnnotationLabel s text annot).Runs db u db') :
    ∃ names', names <+: names' ∧ LabelStep kind labelId names' db db' := by
  match annot with
  | [] => exact absurd h Prog.runs_fail_iff.mp
  | _ :: _ :: _ => exact absurd h Prog.runs_fail_iff.mp
  | [annot] =>
    obtain ⟨v, db₁, hv, h₁⟩ := Prog.runs_bind_iff.mp h
    obtain ⟨e, db₂, he, h₂⟩ := Prog.runs_bind_iff.mp h₁
    have hrest : SameLabel kind labelId db₂ db' := by
      split_ifs at h₂
      · exact ((Prog.keeps_read ..).bind fun _ => keepsSame_enforceAndInsertLabelCatalog ..).runs h₂
          (SameLabel.refl ..)
      · exact absurd h₂ Prog.runs_fail_iff.mp
    have hboth : ∃ names', (names' = names ∨ names' = addedNames names annot) ∧
        LabelStep kind labelId names' db db₂ := by
      cases kind with
      | vertex =>
        obtain ⟨names', hnames, hstep⟩ := cascade_grows hok htbl hids hslots hv
        refine ⟨names', hnames, hstep.same (cascade_same (fun l hl => ?_)
          (fun _ _ hslot _ => keepsSame_npApplyAddAnnotationToTuple hslot) he)⟩
        rw [hstep.paths] at hl
        exact hslots .edge l hl (by simp)
      | edge =>
        have hsame : SameLabel .edge labelId db db₁ := cascade_same
          (fun l hl => hslots .vertex l hl (by simp))
          (fun _ _ hslot _ => keepsSame_npApplyAddAnnotationToTuple hslot) hv
        have hslots₁ : OtherSlots db₁ .edge labelId text := by
          intro k l hl
          rw [hsame.paths] at hl
          exact hslots k l hl
        obtain ⟨names', hnames, hstep⟩ := cascade_grows (hsame.schemaOk hok) (by rw [hsame.tbl]; exact htbl)
          (by rw [ids_of_paths hsame.paths]; exact hids) hslots₁ he
        exact ⟨names', hnames, hsame.before hstep⟩
    obtain ⟨names', hnames, hstep⟩ := hboth
    refine ⟨names', ?_, hstep.same hrest⟩
    rcases hnames with rfl | rfl
    · exact List.prefix_refl _
    · unfold addedNames
      split_ifs
      · exact List.prefix_refl _
      · exact List.prefix_append ..

/-! ## The length of a bitset -/

/-- A new bitset among the stored ones. -/
theorem GrowInv.write (h : GrowInv kind labelId under names tbl db) {n : Nat}
    (hw : tbl.write n t = some (tbl', tid)) (hlen : t.bits.length = byteSizeOf names) {tid' : ItemPointer}
    {t' : AnnotTuple} (ht' : tbl'.get tid' = some t') :
    t'.bits.length = (db.writtenUnder kind labelId under tid' + 7) / 8 := by
  unfold AnnotDb.writtenUnder
  rw [h.table, Option.bind_some, h.ok.labelNames]
  by_cases hnew : tid' = tid
  · subst hnew
    rw [Table.write_get hw] at ht'
    cases ht'
    rw [Table.write_fresh hw]
    exact hlen
  · rw [Table.write_ne hw hnew] at ht'
    rw [ht']
    exact h.length tid' t' ht'

/-- No new bitset. -/
theorem GrowInv.unwritten (h : GrowInv kind labelId under names tbl db) {tid' : ItemPointer}
    {t' : AnnotTuple} (ht' : tbl.get tid' = some t') :
    t'.bits.length = (db.writtenUnder kind labelId under tid' + 7) / 8 := by
  unfold AnnotDb.writtenUnder
  rw [h.table, Option.bind_some, ht']
  exact h.length tid' t' ht'

theorem GrowInv.change {c : BitChange} {u : Unit} (h : GrowInv kind labelId under names tbl db)
    (hr : (changeAnnot kind c s labelId id annot).Runs db u db') :
    ∃ tbl', GrowInv kind labelId (db.writtenUnder kind labelId under) names tbl' db' := by
  obtain ⟨names₁, pos, tbl₁, tbl', oldTid, newTid, bits, hc⟩ := changeAnnot_inv hr
  obtain ⟨row, hrow, hmap⟩ := hc.schema
  obtain ⟨rfl, hblock⟩ := h.ok.mapArray hrow hmap
  obtain rfl := Option.some.inj (hc.table.symm.trans h.table)
  refine ⟨_, hc.redirect.schemaOk h.ok, by rw [hc.redirect.labels]; exact h.ids, hc.stamp,
    fun tid t ht => ?_, fun _ => hc.redirect.hasSchemaBlock hblock⟩
  -- the stamp on the old bitset leaves its bits alone
  have hstamped : ∃ t', tbl'.get tid = some t' ∧ t'.bits = t.bits := by
    split_ifs at ht
    · by_cases hold : tid = oldTid
      · subst hold
        rw [Table.get_modify, if_pos rfl] at ht
        obtain ⟨t', ht', rfl⟩ := Option.map_eq_some_iff.mp ht
        exact ⟨t', ht', rfl⟩
      · rw [Table.get_modify_ne _ _ hold] at ht
        exact ⟨t, ht, rfl⟩
    · exact ⟨t, ht, rfl⟩
  obtain ⟨t', ht', hbits⟩ := hstamped
  rw [← hbits]
  refine h.write hc.write ?_ ht'
  show (c.apply bits pos).length = byteSizeOf names₁
  rw [← length_of_startBits hc.start]
  exact List.length_modify ..

theorem GrowInv.insert {under : ItemPointer → Nat} {u : Unit} {dictionaryId : Nat} {props : Gtype}
    {inputAnnots : Option Names} (h : GrowInv .vertex labelId under names tbl db)
    (hr : (insertAnnotatedVertex s ⟨id, labelId, dictionaryId⟩ props inputAnnots).Runs db u db') :
    ∃ tbl', GrowInv .vertex labelId (db.writtenUnder .vertex labelId under) names tbl' db' := by
  obtain ⟨vItemptr, db₁, hvertex, h₁⟩ := Prog.runs_bind_iff.mp hr
  obtain ⟨gr₁, -, rfl⟩ := onGraph_runs_iff.mp hvertex
  obtain ⟨newTid, db₂, hannots, h₂⟩ := Prog.runs_bind_iff.mp h₁
  obtain ⟨gr₂, -, rfl⟩ := onGraph_runs_iff.mp h₂
  have hok₁ : SchemaOk { db with graph := gr₁ } .vertex labelId names := h.ok.congr rfl rfl rfl
  rcases insertAnnotations_inv hok₁ hannots with ⟨-, rfl⟩ | ⟨tbl₁, tbl', b, htbl₁, hblock, hlen, hw, rfl⟩
  · exact ⟨tbl, h.ok.congr rfl rfl rfl, h.ids, h.table, fun _ _ => h.unwritten, h.block⟩
  · obtain rfl := Option.some.inj (htbl₁.symm.trans h.table)
    exact ⟨tbl', h.ok.congr rfl rfl rfl, h.ids, setAnnotations_tbl _ .vertex labelId tbl',
      fun _ _ => h.write hw hlen, fun _ => hblock⟩

/-- **Every stored bitset has the length it was written with**, in every run. -/
theorem GrowRun.inv (h : GrowRun kind labelId under db) :
    ∃ names tbl, GrowInv kind labelId under names tbl db := by
  induction h with
  | @fresh db names hok hids htbl under =>
    refine ⟨names, Table.empty, hok, hids, htbl, fun tid t ht => ?_, ?_⟩
    · rw [Table.get_empty] at ht
      cases ht
    · rintro ⟨tid, t, ht⟩
      rw [Table.get_empty] at ht
      cases ht
  | grow h s text annot hslots hr ih =>
    obtain ⟨names, tbl, hinv⟩ := ih
    obtain ⟨names', -, hstep⟩ := addAnnotationLabel_grows hinv.ok (by rw [hinv.table]; rfl) hinv.ids hslots hr
    exact ⟨names', tbl, hstep.ok, by rw [ids_of_paths hstep.paths]; exact hinv.ids,
      hstep.tbl.trans hinv.table, hinv.length, fun hsome => (hinv.block hsome).mono hstep.blocks⟩
  | change h s c id annot hr ih =>
    obtain ⟨names, tbl, hinv⟩ := ih
    exact ⟨names, hinv.change hr⟩
  | insert h s hkind id dictionaryId props inputAnnots hr ih =>
    subst hkind
    obtain ⟨names, tbl, hinv⟩ := ih
    exact ⟨names, hinv.insert hr⟩
  | other h hs htbl hids ih =>
    obtain ⟨names, tbl, hinv⟩ := ih
    exact ⟨names, tbl, hs.schemaOk hinv.ok, hids, htbl.trans hinv.table, hinv.length,
      fun hsome => (hinv.block hsome).mono hs.blocks⟩

/-! ## The names that are looked up -/

theorem mem_bytesRead : j ∈ bytesRead names ↔ ∃ i a, names[i]? = some (some a) ∧ i / 8 = j := by
  unfold bytesRead
  rw [List.mem_filterMap]
  constructor
  · rintro ⟨⟨name, i⟩, hmem, hj⟩
    have hget := List.mem_zipIdx_iff_getElem?.mp hmem
    obtain ⟨a, rfl, hj⟩ := Option.map_eq_some_iff.mp hj
    exact ⟨i, a, hget, hj⟩
  · rintro ⟨i, a, hget, rfl⟩
    exact ⟨(some a, i), List.mem_zipIdx_iff_getElem?.mpr hget, rfl⟩

/-- Only the bits of names are asked for. -/
theorem decodeNames_congr (h : ∀ i a, names[i]? = some (some a) → bit i = bit' i) :
    decodeNames bit names = decodeNames bit' names := by
  unfold decodeNames
  refine List.filterMap_congr fun x hx => ?_
  obtain ⟨name, i⟩ := x
  have hget := List.mem_zipIdx_iff_getElem?.mp hx
  cases name with
  | none => simp
  | some a => simp only [h i a hget]

/-- A walk that ends is no different with more fuel. -/
theorem schemaWalk_succ {bitset : EntityHeader} {r : Option Names} (n : Nat) (tid : ItemPointer)
    (h : db.schemaWalk kind bitset n tid = .ok r) : db.schemaWalk kind bitset (n + 1) tid = .ok r := by
  induction n generalizing tid with
  | zero => cases h
  | succ n ih =>
    unfold AnnotDb.schemaWalk at h ⊢
    split_ifs at h ⊢ with hvalid
    · cases hread : readLinePointer kind db.annotSchemaTbl tid with
      | error e =>
        rw [hread] at h
        cases h
      | ok found =>
        rw [hread] at h
        cases found with
        | none => exact h
        | some schema =>
          dsimp only [bind, Except.bind] at h ⊢
          split_ifs at h ⊢
          · exact h
          · exact ih _ h
    · exact h

/-- Whatever the walk finds in time is the names of the label. -/
theorem SchemaOk.eq_of_decodingSchema (h : SchemaOk db kind labelId names)
    (hblock : db.HasSchemaBlock kind labelId)
    (hrow : (db.labels kind).find? (fun row => row.id = labelId) = some row) {fuel : Nat}
    {bitset : EntityHeader} (hd : db.decodingSchema kind fuel row bitset = .ok names') : names' = names := by
  have hmore := h.decodingSchema hblock hrow (Nat.le_add_left 2 fuel) bitset
  unfold AnnotDb.decodingSchema at hd hmore
  cases hread : readLinePointer kind db.annotSchemaPhysMap.table (schemaSlot row.id) with
  | error e =>
    rw [hread] at hd
    cases hd
  | ok pmapRec =>
    rw [hread] at hd hmore
    dsimp only [bind, Except.bind] at hd hmore
    cases hwalk : db.schemaWalk kind bitset fuel
        ((pmapRec.map NeoPhysMapRecord.vItemptr).getD .invalid) with
    | error e =>
      rw [hwalk] at hd
      cases hd
    | ok r =>
      rw [schemaWalk_succ _ _ (schemaWalk_succ _ _ hwalk)] at hmore
      rw [hwalk] at hd
      exact Except.ok.inj (hd.symm.trans hmore)

/-- The array of the relabel functions is the names of the label, or nothing for no name. -/
theorem SchemaOk.mapArray_getD (h : SchemaOk db kind labelId names)
    (hrow : (db.labels kind).find? (fun row => row.id = labelId) = some row) {r : Option Names}
    (hmap : db.mapArray .edge row = .ok r) : r.getD [] = names := by
  obtain ⟨row', hrow', hid, hnames, -⟩ := h.row
  obtain rfl := Option.some.inj (hrow.symm.trans hrow')
  have hlatest := latestSchemaTid_eq db labelId
  unfold AnnotDb.mapArray at hmap
  rw [hid, readLinePointer_edge] at hmap
  dsimp only [bind, Except.bind] at hmap
  cases hrec : db.annotSchemaPhysMap.table.get (schemaSlot labelId) with
  | none =>
    rw [hrec] at hmap
    rw [← Except.ok.inj hmap]
    exact hnames
  | some rec =>
    rw [hrec] at hmap hlatest
    dsimp only [Option.map_some, Option.getD_some] at hmap hlatest
    rw [hlatest] at hmap
    split_ifs at hmap with hvalid
    · obtain ⟨t, ht, -⟩ := h.walk hvalid
      rw [readLinePointer_of_get ht] at hmap
      have hread : db.readSchema labelId = some (db.latestSchemaTid labelId, t.names) := by
        unfold AnnotDb.readSchema
        simp [hvalid, ht]
      rw [← Except.ok.inj hmap]
      exact h.read _ _ hread
    · rw [← Except.ok.inj hmap]
      exact hnames

/-! ## Reads in bounds -/

/-- The bytes of the names lie in the bitset. -/
def NamesWithin (names : Names) (n : Nat) : Prop := ∀ i a, names[i]? = some (some a) → i / 8 < n

theorem forall_mem_bytesRead : (∀ j ∈ bytesRead names, j < n) ↔ NamesWithin names n := by
  constructor
  · intro h i a hi
    exact h _ (mem_bytesRead.mpr ⟨i, a, hi, rfl⟩)
  · intro h j hj
    obtain ⟨i, a, hi, rfl⟩ := mem_bytesRead.mp hj
    exact h i a hi

/-- A bit of the bitset is the same whatever lies behind it. -/
theorem bitAt_of_lt {g g' : BytesBehind} {bits : List Nat} (h : i / 8 < bits.length) :
    bitAt g tbl tid bits i = bitAt g' tbl tid bits i := by
  unfold bitAt byteAt
  rw [if_pos h, if_pos h]

theorem copiedBit_of_lt {behind behind' : Nat → Nat} {bits : List Nat} (h : i / 8 < bits.length) :
    copiedBit behind bits i = copiedBit behind' bits i := by
  unfold copiedBit
  rw [if_pos h, if_pos h]

theorem SchemaOk.outReads (h : SchemaOk db kind labelId names) (hblock : db.HasSchemaBlock kind labelId)
    (hwithin : NamesWithin names n) (fuel : Nat) (bitset : EntityHeader) :
    ∀ j ∈ db.outReads kind fuel labelId bitset, j < n := by
  obtain ⟨row, hrow, -⟩ := h.row
  unfold AnnotDb.outReads
  rw [hrow]
  dsimp only
  cases hd : db.decodingSchema kind fuel row bitset with
  | error e => simp
  | ok names' =>
    obtain rfl := h.eq_of_decodingSchema hblock hrow hd
    exact forall_mem_bytesRead.mpr hwithin

theorem SchemaOk.relabelReads (h : SchemaOk db .vertex labelId names) (hwithin : NamesWithin names n) :
    ∀ j ∈ db.relabelReads labelId, j < n := by
  obtain ⟨row, hrow, -⟩ := h.row
  unfold AnnotDb.relabelReads
  rw [hrow]
  dsimp only
  cases hmap : db.mapArray .edge row with
  | error e => simp
  | ok r =>
    dsimp only
    rw [h.mapArray_getD hrow hmap]
    exact forall_mem_bytesRead.mpr hwithin

/-- What is printed does not depend on what lies behind the bitset. -/
theorem SchemaOk.annotationsOut_unset {g g' : BytesBehind} {x : XactState} {own : List Nat} {fuel : Nat}
    (h : SchemaOk db kind labelId names) (hblock : db.HasSchemaBlock kind labelId)
    (hb : db.bitset kind labelId id = some (tid, t)) (hwithin : NamesWithin names t.bits.length) :
    db.annotationsOut g kind x own fuel labelId id = db.annotationsOut g' kind x own fuel labelId id := by
  obtain ⟨rec, tbl, hrec, htbl, hvalid, rfl, ht⟩ := bitset_eq_some.mp hb
  obtain ⟨row, hrow, -⟩ := h.row
  unfold AnnotDb.annotationsOut
  rw [hrow, htbl]
  dsimp only
  rw [if_neg (Nat.not_le.mpr (lt_pmapBlocks hrec)), if_neg (Nat.not_le.mpr (lt_pmapBlocks hrec)), hrec]
  dsimp only [Option.map_some, Option.getD_some]
  rw [if_pos hvalid, if_pos hvalid, readLinePointer_of_get ht]
  dsimp only [bind, Except.bind]
  split_ifs
  · cases hd : db.decodingSchema kind fuel row t.hdr with
    | error e => rfl
    | ok names' =>
      obtain rfl := h.eq_of_decodingSchema hblock hrow hd
      exact congrArg Except.ok (decodeNames_congr fun i a hi => bitAt_of_lt (hwithin i a hi))
  · rfl

/-- What the relabel functions carry over does not depend on what lies behind the copy. -/
theorem SchemaOk.extractAnnotations_unset {behind behind' : Nat → Nat}
    (h : SchemaOk db .vertex labelId names) (htbl : db.annotationsTbl .vertex labelId = some tbl)
    (ht : tbl.get tid = some t) (hwithin : NamesWithin names t.bits.length) :
    (extractAnnotations behind labelId tid).exec db = (extractAnnotations behind' labelId tid).exec db := by
  obtain ⟨row, hrow, -⟩ := h.row
  have hlabel : (annotatedLabel labelId).exec db = (.ok (some row), db) := by
    unfold annotatedLabel
    rw [Prog.exec_read, htbl, Option.isSome_some, if_pos rfl, hrow]
  have hcopy : (copyOldBitset labelId tid).exec db = (.ok t.bits, db) := by
    unfold copyOldBitset
    rw [Prog.exec_read, htbl, Option.getD_some, readLinePointer_of_get ht]
    rfl
  unfold extractAnnotations
  rw [Prog.exec_bind_ok hlabel, Prog.exec_bind_ok hlabel]
  dsimp only
  split_ifs
  · rw [Prog.exec_bind_ok hcopy, Prog.exec_bind_ok hcopy]
    cases hmap : db.mapArray .edge row with
    | error e =>
      have hread : (relabelMapArray row).exec db = (.error e, db) := by
        unfold relabelMapArray
        rw [Prog.exec_read, hmap]
      rw [Prog.exec_bind_error hread, Prog.exec_bind_error hread]
    | ok r =>
      have hread : (relabelMapArray row).exec db = (.ok r, db) := by
        unfold relabelMapArray
        rw [Prog.exec_read, hmap]
      rw [Prog.exec_bind_ok hread, Prog.exec_bind_ok hread, h.mapArray_getD hrow hmap,
        decodeNames_congr fun i a hi => copiedBit_of_lt (hwithin i a hi)]
  · rfl

/-- **Every stored bitset is read in bounds exactly as long as no name of its label lies behind its last
byte**: a name may come to the label as long as there is room in the last byte the bitset was written
with. -/
theorem readsInBounds_iff (h : GrowRun kind labelId under db)
    (htbl : db.annotationsTbl kind labelId = some tbl) (ht : tbl.get tid = some t) :
    ReadsInBounds db kind labelId tid t ↔
      ∀ i a, (db.labelNames kind labelId)[i]? = some (some a) → i / 8 < (under tid + 7) / 8 := by
  obtain ⟨names, tbl', hinv⟩ := h.inv
  obtain rfl := Option.some.inj (htbl.symm.trans hinv.table)
  have hblock := hinv.block ⟨tid, t, ht⟩
  rw [hinv.ok.labelNames, ← hinv.length tid t ht]
  constructor
  · intro hreads
    obtain ⟨row, hrow, -⟩ := hinv.ok.row
    have hout := hreads.out 2
    unfold AnnotDb.outReads at hout
    rw [hrow] at hout
    dsimp only at hout
    rw [hinv.ok.decodingSchema hblock hrow (Nat.le_refl 2)] at hout
    exact forall_mem_bytesRead.mp hout
  · intro hwithin
    refine ⟨fun fuel => hinv.ok.outReads hblock hwithin fuel t.hdr, ?_, ?_, ?_⟩
    · rintro rfl
      exact hinv.ok.relabelReads hwithin
    · intro g x own fuel id hb
      exact hinv.ok.annotationsOut_unset hblock hb hwithin
    · rintro rfl behind
      exact hinv.ok.extractAnnotations_unset htbl ht hwithin

end

/-! ## A name behind the last byte -/

theorem exampleFull_growRun : GrowRun .vertex 2 (fun _ => 0) exampleFull := by
  obtain ⟨names, hok⟩ := exampleFull_fresh.ok
  exact .fresh hok (by decide +kernel) rfl _

/-- A vertex is inserted with the first of 32 names: its bitset has four bytes. -/
theorem exampleOneVertex_growRun :
    GrowRun .vertex 2 (exampleFull.writtenUnder .vertex 2 fun _ => 0) exampleOneVertex :=
  exampleFull_growRun.insert ⟨5, 1⟩ rfl 1 0 npEmptyGtypeObject (some [some "a"]) exampleOneVertex_runs

theorem readsInBounds_iff_example :
    ∃ t, (exampleOneVertex.annotationsTbl .vertex 2).bind (fun tbl => tbl.get ⟨0, 1⟩) = some t ∧
      ReadsInBounds exampleOneVertex .vertex 2 ⟨0, 1⟩ t := by
  have hstored : ((exampleOneVertex.annotationsTbl .vertex 2).bind fun tbl => tbl.get ⟨0, 1⟩).isSome := by
    decide +kernel
  obtain ⟨t, hsome⟩ := Option.isSome_iff_exists.mp hstored
  obtain ⟨tbl, htbl, ht⟩ := Option.bind_eq_some_iff.mp hsome
  refine ⟨t, hsome, (readsInBounds_iff exampleOneVertex_growRun htbl ht).mpr fun i a hi => ?_⟩
  have hnames : (exampleOneVertex.labelNames .vertex 2).length = 32 := by decide +kernel
  have hunder : exampleFull.writtenUnder .vertex 2 (fun _ => 0) ⟨0, 1⟩ = 32 := by decide +kernel
  obtain ⟨hlt, -⟩ := List.getElem?_eq_some_iff.mp hi
  rw [hunder]
  omega

/-- The label comes to have a 33rd name: all of its vertices are read one byte too far. -/
theorem readsInBounds_fails : ¬ ∀ kind labelId under db tbl tid t, GrowRun kind labelId under db →
    db.annotationsTbl kind labelId = some tbl → tbl.get tid = some t →
      ReadsInBounds db kind labelId tid t := by
  intro h
  have hslots : OtherSlots exampleTwoVertices .vertex 2 ["person"] := fun k => by
    cases k <;> decide +kernel
  have hrun := (exampleOneVertex_growRun.insert ⟨5, 2⟩ rfl 2 0 npEmptyGtypeObject (some [some "a"])
    exampleTwoVertices_runs).grow ⟨5, 3⟩ ["person"] ["G"] hslots exampleOutgrown_runs
  have hstored : ((exampleOutgrown.annotationsTbl .vertex 2).bind fun tbl => tbl.get ⟨0, 1⟩).any
      (fun t => t.bits.length = 4 ∧ 4 ∈ exampleOutgrown.outReads .vertex 2 2 t.hdr) = true := by
    decide +kernel
  obtain ⟨t, hsome, hread⟩ := (Option.any_eq_true ..).mp hstored
  obtain ⟨tbl, htbl, ht⟩ := Option.bind_eq_some_iff.mp hsome
  obtain ⟨hlen, hmem⟩ := of_decide_eq_true hread
  have hlt := (h _ _ _ _ _ _ _ hrun htbl ht).out 2 4 hmem
  omega

end NeoPostGraph
