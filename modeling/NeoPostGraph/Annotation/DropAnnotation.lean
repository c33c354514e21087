import NeoPostGraph.Annotation.Cascade
import NeoPostGraph.Annotation.Inheritance
import Mathlib.Data.List.Forall2

/-!
# Dropping an annotation from labels

`drop_annotation_label` (`np_label.c:2831-2931`) takes an annotation out of a label and of those under its
path, except where `np_other_parent_owns_annotation` finds another base label that owns it. It starts from
the array that the map of schemas has for the label's id, and it looks for owners among the rows as they
were before the call.

* `AnnotDropped`: what the call is to leave of the rows of a catalog.
* `DropsOwn`: the array it starts from is the label's own, as far as it matters.

Result: `annotDropped_iff_of_runs`, the call leaves that exactly if it starts from the labels' own arrays,
and drops from the root only what no label of several levels keeps.
-/

namespace NeoPostGraph

variable {db db' : AnnotDb} {s : Session} {kind : LabelKind} {rows : List LabelRow} {row target : LabelRow}
  {structLabel : DottedText} {annot : String}

/-! ## What the call is to leave -/

/-- Another label of the path has a base label that owns the annotation. A label of one level has no
other. -/
def OtherBaseOwns (rows : List LabelRow) (path : Ltree) (structLabel : DottedText) (annot : String) : Prop :=
  (structuralText path).length ≠ 1 ∧ ∃ token ∈ structuralText path, [token] ≠ structLabel ∧
    ∃ base, rows.find? (fun row => row.ltree = [catalogLtreeRootLabel, token]) = some base ∧
      annot ∈ base.annots

theorem otherBaseOwns_iff {path : Ltree} :
    npOtherParentOwnsAnnotation rows path structLabel annot = true ↔
      OtherBaseOwns rows path structLabel annot := by
  unfold npOtherParentOwnsAnnotation OtherBaseOwns
  dsimp only
  rw [Bool.and_eq_true, List.any_eq_true]
  refine and_congr (by simp) (exists_congr fun token => and_congr_right fun _ => ?_)
  rw [Bool.and_eq_true]
  refine and_congr (by simp) ?_
  cases hbase : rows.find? fun row => row.ltree = [catalogLtreeRootLabel, token] with
  | none => simp
  | some base => simp [mem_annots]

instance (rows : List LabelRow) (path : Ltree) (structLabel : DottedText) (annot : String) :
    Decidable (OtherBaseOwns rows path structLabel annot) := decidable_of_iff _ otherBaseOwns_iff

/-- The annotation is out of the row, and nothing else is. -/
structure AnnotTakenOut (annot : String) (row row' : LabelRow) : Prop where
  id : row'.id = row.id
  ltree : row'.ltree = row.ltree
  annots : row'.annots = row.annots.filter (· ≠ annot)

/-- The label of the call is the one found first. It and those under it lose the annotation, but for those
of which another base label owns it still, and all other rows are as they were. -/
def AnnotDropped (structLabel : DottedText) (annot : String) (rows rows' : List LabelRow) : Prop :=
  match rows.find? fun row => structuralText row.ltree = structLabel with
  | none => rows' = rows
  | some target => List.Forall₂ (fun row row' =>
      if target.ltree.isPrefixOf row.ltree = true ∧
          ¬ (target.ltree ≠ row.ltree ∧ OtherBaseOwns rows' row.ltree structLabel annot) then
        AnnotTakenOut annot row row'
      else row' = row) rows rows'

/-- The array that is read for a label has the label's own annotations, as far as a drop can tell. -/
def ReadsOwn (read : Option Names) (annot : String) (row : LabelRow) : Prop :=
  if some annot ∈ read.getD [] then (annotsOf read).filter (· ≠ annot) = row.annots.filter (· ≠ annot)
  else annot ∉ row.annots

/-- **When a drop leaves what it is to leave.** A base label loses the annotation with the root, so that a
label which keeps it for the base label's sake must not have it. -/
def DropsOwn (read : LabelRow → Option Names) (structLabel : DottedText) (annot : String)
    (rows : List LabelRow) : Prop :=
  ∀ target ∈ rows.find? fun row => structuralText row.ltree = structLabel,
    ∀ row ∈ rows, target.ltree.isPrefixOf row.ltree = true →
      if target.ltree ≠ row.ltree ∧ OtherBaseOwns rows row.ltree structLabel annot then
        target.ltree.isPrefixOf [catalogLtreeRootLabel] = true → annot ∉ row.annots
      else ReadsOwn (read row) annot row

instance (read : Option Names) (annot : String) (row : LabelRow) : Decidable (ReadsOwn read annot row) :=
  inferInstanceAs (Decidable (if some annot ∈ read.getD [] then
    (annotsOf read).filter (· ≠ annot) = row.annots.filter (· ≠ annot) else annot ∉ row.annots))

instance (read : LabelRow → Option Names) (structLabel : DottedText) (annot : String) (rows : List LabelRow) :
    Decidable (DropsOwn read structLabel annot rows) :=
  inferInstanceAs (Decidable (∀ target ∈ rows.find? fun row => structuralText row.ltree = structLabel,
    ∀ row ∈ rows, target.ltree.isPrefixOf row.ltree = true →
      if target.ltree ≠ row.ltree ∧ OtherBaseOwns rows row.ltree structLabel annot then
        target.ltree.isPrefixOf [catalogLtreeRootLabel] = true → annot ∉ row.annots
      else ReadsOwn (read row) annot row))

/-! ## One row -/

/-- What `np_apply_drop_annotation_to_tuple` does with a row, by its cases. -/
theorem dropAct_inv {path : Ltree} (hok : db.dropAct rows path structLabel annot row ≠ .fail) :
    (path ≠ row.ltree ∧ OtherBaseOwns rows row.ltree structLabel annot ∧
        db.dropAct rows path structLabel annot row = .skip) ∨
      ¬ (path ≠ row.ltree ∧ OtherBaseOwns rows row.ltree structLabel annot) ∧
        (some annot ∈ (db.schemaInForce row).getD [] ∧ db.dropAct rows path structLabel annot row =
            .write (((db.schemaInForce row).getD []).filter fun name => name.isSome ∧ name ≠ some annot) ∨
          some annot ∉ (db.schemaInForce row).getD [] ∧
            db.dropAct rows path structLabel annot row = .skip) := by
  unfold AnnotDb.dropAct at hok ⊢
  dsimp only at hok ⊢
  simp only [otherBaseOwns_iff] at hok ⊢
  by_cases howned : path ≠ row.ltree ∧ OtherBaseOwns rows row.ltree structLabel annot
  · rw [if_pos howned]
    exact Or.inl ⟨howned.1, howned.2, rfl⟩
  · rw [if_neg howned] at hok ⊢
    refine Or.inr ⟨howned, ?_⟩
    by_cases hmem : some annot ∈ (db.schemaInForce row).getD []
    · rw [if_pos hmem] at hok ⊢
      split_ifs at hok ⊢ with hfits
      · exact Or.inl ⟨hmem, rfl⟩
      · exact absurd rfl hok
    · rw [if_neg hmem]
      exact Or.inr ⟨hmem, rfl⟩

theorem annotsOf_filter (names : Option Names) :
    annotsOf (some ((names.getD []).filter fun name => name.isSome ∧ name ≠ some annot)) =
      (annotsOf names).filter (· ≠ annot) := by
  unfold annotsOf
  rw [Option.getD_some]
  induction names.getD [] with
  | nil => rfl
  | cons name rest ih =>
    cases name with
    | none => simpa using ih
    | some a =>
      by_cases ha : a = annot
      · simpa [ha] using ih
      · simpa [ha] using ih

/-- A row that is not kept for another base label's sake loses the annotation, and nothing else, exactly if
its own array is read. -/
theorem annotTakenOut_iff {path : Ltree} (hok : db.dropAct rows path structLabel annot row ≠ .fail)
    (hnot : ¬ (path ≠ row.ltree ∧ OtherBaseOwns rows row.ltree structLabel annot)) :
    AnnotTakenOut annot row ((db.dropAct rows path structLabel annot row).apply row) ↔
      ReadsOwn (db.schemaInForce row) annot row := by
  have hiff : AnnotTakenOut annot row ((db.dropAct rows path structLabel annot row).apply row) ↔
      ((db.dropAct rows path structLabel annot row).apply row).annots = row.annots.filter (· ≠ annot) :=
    ⟨AnnotTakenOut.annots, fun h => ⟨RowAct.apply_id .., RowAct.apply_ltree .., h⟩⟩
  rw [hiff]
  unfold ReadsOwn
  rcases dropAct_inv hok with ⟨hne, howned, -⟩ | ⟨-, ⟨hmem, hact⟩ | ⟨hmem, hact⟩⟩
  · exact absurd ⟨hne, howned⟩ hnot
  · rw [hact, if_pos hmem]
    exact iff_of_eq (congrArg (· = _) (annotsOf_filter _))
  · rw [hact, if_neg hmem]
    constructor
    · intro h hannot
      replace h : row.annots = row.annots.filter (· ≠ annot) := h
      rw [h] at hannot
      simpa using (List.mem_filter.mp hannot).2
    · intro hannot
      refine (List.filter_eq_self.mpr fun a ha => ?_).symm
      simpa using fun he : a = annot => hannot (he ▸ ha)

/-- A drop adds the annotation to no row. -/
theorem mem_annots_of_dropped {path : Ltree} (hok : db.dropAct rows path structLabel annot row ≠ .fail)
    (h : annot ∈ ((db.dropAct rows path structLabel annot row).apply row).annots) : annot ∈ row.annots := by
  rcases dropAct_inv hok with ⟨-, -, hact⟩ | ⟨-, ⟨-, hact⟩ | ⟨-, hact⟩⟩
  · rwa [hact] at h
  · rw [hact] at h
    have hnames : annot ∈ annotsOf (some (((db.schemaInForce row).getD []).filter
      fun name => name.isSome ∧ name ≠ some annot)) := h
    rw [annotsOf_filter] at hnames
    simpa using (List.mem_filter.mp hnames).2
  · rwa [hact] at h

/-! ## One catalog -/

/-- The labels under a path, in a catalog of these rows. -/
def rowsUnder (rows : List LabelRow) (path : Ltree) : List LabelRow :=
  rows.filter fun row => path.isPrefixOf row.ltree

/-- The row of a path, after a loop over some rows. -/
theorem find?_loopRows {act : LabelRow → RowAct} {tups : List LabelRow} {path : Ltree} :
    (loopRows act tups rows).find? (fun row => row.ltree = path) =
      (rows.find? fun row => row.ltree = path).map fun row =>
        if row ∈ tups then (act row).apply row else row := by
  unfold loopRows
  rw [List.find?_map]
  congr 2
  funext row
  simp [loopRow_ltree]

section

variable (hok : ∀ r ∈ rowsUnder rows target.ltree, db.dropAct rows target.ltree structLabel annot r ≠ .fail)
include hok

/-- No base label comes to own the annotation. -/
theorem otherBaseOwns_of_loopRows {path : Ltree}
    (h : OtherBaseOwns (loopRows (db.dropAct rows target.ltree structLabel annot)
      (rowsUnder rows target.ltree) rows) path structLabel annot) :
    OtherBaseOwns rows path structLabel annot := by
  obtain ⟨hlen, token, htoken, hne, base', hbase', hannot⟩ := h
  rw [find?_loopRows] at hbase'
  obtain ⟨base, hbase, rfl⟩ := Option.map_eq_some_iff.mp hbase'
  refine ⟨hlen, token, htoken, hne, base, hbase, ?_⟩
  split_ifs at hannot with hunder
  · exact mem_annots_of_dropped (hok base hunder) hannot
  · exact hannot

omit hok in
/-- The base labels of other names are not under a label that is not the root. -/
theorem otherBaseOwns_loopRows {path : Ltree} {act : LabelRow → RowAct}
    (htarget : structuralText target.ltree = structLabel)
    (hroot : ¬ target.ltree.isPrefixOf [catalogLtreeRootLabel] = true)
    (h : OtherBaseOwns rows path structLabel annot) :
    OtherBaseOwns (loopRows act (rowsUnder rows target.ltree) rows) path structLabel annot := by
  obtain ⟨hlen, token, htoken, hne, base, hbase, hannot⟩ := h
  have hltree : base.ltree = [catalogLtreeRootLabel, token] := by simpa using List.find?_some hbase
  have hnot : base ∉ rowsUnder rows target.ltree := by
    intro hunder
    have hbelow : target.ltree.isPrefixOf base.ltree = true := by
      simpa using (List.mem_filter.mp hunder).2
    rw [hltree] at hbelow
    obtain ⟨rest, hrest⟩ := List.isPrefixOf_iff_prefix.mp hbelow
    match hpath : target.ltree, hrest with
    | [], _ =>
      rw [hpath] at hroot
      exact hroot rfl
    | [x], hrest =>
      obtain rfl : x = catalogLtreeRootLabel := List.head_eq_of_cons_eq hrest
      rw [hpath] at hroot
      exact hroot (by simp)
    | [x, y], hrest =>
      obtain rfl : x = catalogLtreeRootLabel := List.head_eq_of_cons_eq hrest
      obtain rfl : y = token := List.head_eq_of_cons_eq (List.tail_eq_of_cons_eq hrest)
      rw [hpath] at htarget
      exact hne htarget
    | x :: y :: z :: l, hrest => simp at hrest
  refine ⟨hlen, token, htoken, hne, base, ?_, hannot⟩
  rw [find?_loopRows, hbase, Option.map_some, if_neg hnot]

/-- **What the loop over a catalog leaves is what it is to leave, exactly if it starts from the labels' own
arrays.** -/
theorem annotDropped_loopRows_iff
    (hfound : rows.find? (fun row => structuralText row.ltree = structLabel) = some target) :
    AnnotDropped structLabel annot rows (loopRows (db.dropAct rows target.ltree structLabel annot)
      (rowsUnder rows target.ltree) rows) ↔ DropsOwn db.schemaInForce structLabel annot rows := by
  have htarget : structuralText target.ltree = structLabel := by simpa using List.find?_some hfound
  have hback : ∀ path, OtherBaseOwns (loopRows (db.dropAct rows target.ltree structLabel annot)
      (rowsUnder rows target.ltree) rows) path structLabel annot →
      OtherBaseOwns rows path structLabel annot := fun path => otherBaseOwns_of_loopRows hok
  have hforth : ¬ target.ltree.isPrefixOf [catalogLtreeRootLabel] = true → ∀ path,
      OtherBaseOwns rows path structLabel annot →
      OtherBaseOwns (loopRows (db.dropAct rows target.ltree structLabel annot)
        (rowsUnder rows target.ltree) rows) path structLabel annot :=
    fun hroot path => otherBaseOwns_loopRows htarget hroot
  unfold AnnotDropped
  rw [hfound]
  dsimp only
  generalize hrows' : loopRows (db.dropAct rows target.ltree structLabel annot)
    (rowsUnder rows target.ltree) rows = rows' at hback hforth
  have hbases : ∀ path, OtherBaseOwns rows' path structLabel annot → ∃ base ∈ rows, ∃ token,
      base.ltree = [catalogLtreeRootLabel, token] ∧ annot ∈
        (if base ∈ rowsUnder rows target.ltree then
          (db.dropAct rows target.ltree structLabel annot base).apply base else base).annots := by
    rintro path ⟨-, token, -, -, base', hbase', hannot⟩
    rw [← hrows', find?_loopRows] at hbase'
    obtain ⟨base, hbase, rfl⟩ := Option.map_eq_some_iff.mp hbase'
    exact ⟨base, List.mem_of_find?_eq_some hbase, token, by simpa using List.find?_some hbase, hannot⟩
  have hall : ∀ R : LabelRow → LabelRow → Prop, List.Forall₂ R rows rows' ↔ ∀ row ∈ rows, R row
      (if row ∈ rowsUnder rows target.ltree then
        (db.dropAct rows target.ltree structLabel annot row).apply row else row) := fun R => by
    rw [← hrows', loopRows, List.forall₂_map_right_iff, List.forall₂_same]
  rw [hall]
  unfold DropsOwn
  rw [hfound]
  simp only [Option.mem_def, Option.some.injEq, forall_eq']
  have hunder : ∀ row ∈ rows, row ∈ rowsUnder rows target.ltree ↔
      target.ltree.isPrefixOf row.ltree = true := fun row hrow => by
    unfold rowsUnder
    rw [List.mem_filter]
    simp [hrow]
  -- a label that is not excepted before is not excepted after
  have hplain : ∀ row ∈ rows, target.ltree.isPrefixOf row.ltree = true →
      ¬ (target.ltree ≠ row.ltree ∧ OtherBaseOwns rows row.ltree structLabel annot) →
      ((if target.ltree.isPrefixOf row.ltree = true ∧
          ¬ (target.ltree ≠ row.ltree ∧ OtherBaseOwns rows' row.ltree structLabel annot) then
        AnnotTakenOut annot row (if row ∈ rowsUnder rows target.ltree then
          (db.dropAct rows target.ltree structLabel annot row).apply row else row)
      else (if row ∈ rowsUnder rows target.ltree then
          (db.dropAct rows target.ltree structLabel annot row).apply row else row) = row) ↔
        ReadsOwn (db.schemaInForce row) annot row) := by
    intro row hrow hbelow hnot
    have hmem := (hunder row hrow).mpr hbelow
    rw [if_pos ⟨hbelow, fun h => hnot ⟨h.1, hback _ h.2⟩⟩, if_pos hmem]
    exact annotTakenOut_iff (hok row hmem) hnot
  constructor
  · intro h row hrow hbelow
    split_ifs with howned
    · intro hroot hannot
      -- with the root every base label loses the annotation
      have hlost : ¬ OtherBaseOwns rows' row.ltree structLabel annot := by
        intro howns
        obtain ⟨base, hbase, token, hltree, hhas⟩ := hbases _ howns
        have hbaseUnder : target.ltree.isPrefixOf base.ltree = true := by
          rw [List.isPrefixOf_iff_prefix] at hroot ⊢
          rw [hltree]
          exact hroot.trans ⟨[token], rfl⟩
        have hbaseOut : ¬ OtherBaseOwns rows' base.ltree structLabel annot := by
          rintro ⟨hlen, -⟩
          rw [hltree] at hlen
          exact hlen rfl
        have hbaseRow := h base hbase
        rw [if_pos ⟨hbaseUnder, fun h => hbaseOut h.2⟩] at hbaseRow
        rw [hbaseRow.annots] at hhas
        simpa using (List.mem_filter.mp hhas).2
      have hmem := (hunder row hrow).mpr hbelow
      have hrowLaw := h row hrow
      rw [if_pos ⟨hbelow, fun h => hlost h.2⟩, if_pos hmem] at hrowLaw
      rcases dropAct_inv (hok row hmem) with ⟨-, -, hact⟩ | ⟨hnot, -⟩
      · rw [hact] at hrowLaw
        have hsame : row.annots = row.annots.filter (· ≠ annot) := hrowLaw.annots
        rw [hsame] at hannot
        simpa using (List.mem_filter.mp hannot).2
      · exact hnot howned
    · exact (hplain row hrow hbelow howned).mp (h row hrow)
  · intro h row hrow
    by_cases hbelow : target.ltree.isPrefixOf row.ltree = true
    · have hrowLaw := h row hrow hbelow
      have hmem := (hunder row hrow).mpr hbelow
      split_ifs at hrowLaw with howned
      · have hskip : (db.dropAct rows target.ltree structLabel annot row).apply row = row := by
          rcases dropAct_inv (hok row hmem) with ⟨-, -, hact⟩ | ⟨hnot, -⟩
          · rw [hact]
            rfl
          · exact absurd howned hnot
        rw [if_pos hmem, hskip]
        split_ifs with hafter
        · refine ⟨rfl, rfl, (List.filter_eq_self.mpr fun a ha => ?_).symm⟩
          have hroot : target.ltree.isPrefixOf [catalogLtreeRootLabel] = true := by
            by_contra hroot
            exact hafter.2 ⟨howned.1, hforth hroot _ howned.2⟩
          simpa using fun he : a = annot => hrowLaw hroot (he ▸ ha)
        · rfl
      · exact (hplain row hrow hbelow howned).mpr hrowLaw
    · rw [if_neg fun h => hbelow h.1, if_neg fun hmem => hbelow ((hunder row hrow).mp hmem)]

end

/-! ## The call -/

/-- The label ids of a kind, in an `int32` column that a sequence fills. -/
structure AnnotDb.LabelIds (db : AnnotDb) (kind : LabelKind) : Prop where
  nodup : ((db.labels kind).map LabelRow.id).Nodup
  range : ∀ row ∈ db.labels kind, 1 ≤ row.id ∧ row.id < 2 ^ 31

/-- The array in force for a label when the part of a kind is done: it may have written one to the label's
slot. -/
def AnnotDb.inForceAfterDrop (db : AnnotDb) (kind : LabelKind) (structLabel : DottedText) (annot : String)
    (r : LabelRow) : Option Names :=
  match (db.labels kind).find? fun row => structuralText row.ltree = structLabel with
  | none => db.schemaInForce r
  | some target => loopInForce (db.dropAct (db.labels kind) target.ltree structLabel annot) db
      (rowsUnder (db.labels kind) target.ltree) r

theorem AnnotDb.LabelIds.distinct (h : db.LabelIds kind) :
    ∀ r ∈ db.labels kind, ∀ r' ∈ db.labels kind, r.id = r'.id → r = r' :=
  fun _ hr _ hr' he => List.inj_on_of_nodup_map h.nodup hr hr' he

theorem AnnotDb.LabelIds.ownSlots (h : db.LabelIds kind) (path : Ltree) :
    OwnSlots (rowsUnder (db.labels kind) path) := by
  intro r hr r' hr' hslot
  obtain ⟨hr, -⟩ := List.mem_filter.mp hr
  obtain ⟨hr', -⟩ := List.mem_filter.mp hr'
  have hrange := h.range r hr
  have hrange' := h.range r' hr'
  refine h.distinct r hr r' hr' ?_
  unfold schemaSlot entitySlot at hslot
  have htpp : pmapTuplesPerPage sizeOfNeoPhysMapRecord = 314 := by decide
  rw [htpp, npIdToTid_eq_iff (by decide) (by decide), Nat.mod_eq_of_lt (by omega),
    Nat.mod_eq_of_lt (by omega)] at hslot
  omega

theorem dropAct_congr {base : AnnotDb} {path : Ltree} (h : db.schemaInForce row = base.schemaInForce row) :
    db.dropAct rows path structLabel annot row = base.dropAct rows path structLabel annot row := by
  unfold AnnotDb.dropAct
  rw [h]

/-- One row's part leaves in force what it wrote. -/
theorem npApplyDropAnnotationToTuple_inForce {base : AnnotDb} {path : Ltree} {b : Bool} (hinv : SchemaInv db)
    (hforce : db.schemaInForce row = base.schemaInForce row)
    (h : (npApplyDropAnnotationToTuple s kind rows row path structLabel annot).Runs db b db') :
    SchemaInv db' ∧
      ∀ r, db'.schemaInForce r = loopInForce (base.dropAct rows path structLabel annot) db [row] r := by
  refine ⟨((schemaInv_stepsKeep s).cascadeKeep kind).npApplyDropAnnotationToTuple .. |>.runs h hinv,
    fun r => ?_⟩
  have hskip : base.dropAct rows path structLabel annot row = .skip → db' = db →
      db'.schemaInForce r = loopInForce (base.dropAct rows path structLabel annot) db [row] r := by
    rintro hact rfl
    unfold loopInForce
    by_cases hslot : schemaSlot row.id = schemaSlot r.id
    · rw [List.find?_cons_of_pos (by simpa using hslot)]
      simp only [hact]
    · rw [List.find?_cons_of_neg (by simpa using hslot), List.find?_nil]
  rw [← dropAct_congr hforce] at hskip
  unfold npApplyDropAnnotationToTuple at h
  unfold AnnotDb.dropAct at hskip
  dsimp only at hskip
  by_cases howned : path ≠ row.ltree ∧ npOtherParentOwnsAnnotation rows row.ltree structLabel annot = true
  · rw [if_pos howned] at h hskip
    exact hskip rfl (Prog.runs_ret_iff.mp h).2
  · rw [if_neg howned] at h hskip
    obtain ⟨old, db₁, hread, h₁⟩ := Prog.runs_bind_iff.mp h
    rw [oldArray_eq] at hread
    obtain ⟨hold, rfl⟩ := Prog.runs_read_iff.mp hread
    obtain rfl := Except.ok.inj hold
    dsimp only at h₁
    by_cases hmem : some annot ∈ (db₁.schemaInForce row).getD []
    · rw [if_pos hmem] at h₁
      obtain ⟨u, db₂, hins, h₂⟩ := Prog.runs_bind_iff.mp h₁
      obtain ⟨u', db₃, hmap, h₃⟩ := Prog.runs_bind_iff.mp h₂
      obtain ⟨-, rfl⟩ := Prog.runs_ret_iff.mp h₃
      have hact : base.dropAct rows path structLabel annot row =
          .write (((db₁.schemaInForce row).getD []).filter fun name => name.isSome ∧ name ≠ some annot) := by
        rw [← dropAct_congr hforce]
        unfold AnnotDb.dropAct
        dsimp only
        rw [if_neg howned, if_pos hmem, if_pos (fits_of_insertAnnotationSchema hins)]
      have hsame : SameSchemas db₂ db' :=
        (keepsSchemas_updateAnnotationMap ..).runs hmap (SameSchemas.refl _)
      rw [hsame.unchanged.inForce r]
      unfold loopInForce
      by_cases hslot : schemaSlot row.id = schemaSlot r.id
      · rw [List.find?_cons_of_pos (by simpa using hslot)]
        simp only [hact]
        have hpages : SlotOnPage row.id ↔ SlotOnPage r.id := by
          unfold SlotOnPage
          rw [hslot]
        by_cases hpage : SlotOnPage r.id
        · rw [if_pos hpage]
          exact inForce_of_onPage hinv (hpages.mpr hpage) hslot hins
        · rw [if_neg hpage]
          exact (unchanged_of_offPage hinv (mt hpages.mp hpage) hins).inForce r
      · rw [List.find?_cons_of_neg (by simpa using hslot), List.find?_nil]
        exact inForce_of_otherSlot hinv hslot hins
    · rw [if_neg hmem] at h₁ hskip
      exact hskip rfl (Prog.runs_ret_iff.mp h₁).2

/-- **One catalog's part of the call.** -/
theorem dropCascade_iff {b : Bool} (hinv : SchemaInv db) (hids : db.LabelIds kind)
    (h : (cascade kind structLabel fun target row => npApplyDropAnnotationToTuple s kind (db.labels kind) row
      target structLabel annot).Runs db b db') :
    (AnnotDropped structLabel annot (db.labels kind) (db'.labels kind) ↔
      DropsOwn db.schemaInForce structLabel annot (db.labels kind)) ∧
    ∀ r, db'.schemaInForce r = db.inForceAfterDrop kind structLabel annot r := by
  unfold AnnotDb.inForceAfterDrop
  rcases cascade_inv h with ⟨hnone, rfl⟩ | ⟨target, count, hfound, hloop⟩
  · rw [hnone]
    refine ⟨iff_of_true ?_ ?_, fun r => rfl⟩
    · unfold AnnotDropped
      rw [hnone]
    · intro target hfound
      rw [hnone] at hfound
      exact absurd hfound (by simp)
  · have hnodup : (rowsUnder (db.labels kind) target.ltree).Nodup := (List.Nodup.of_map _ hids.nodup).filter _
    obtain ⟨hrows, hok⟩ := forEachRow_rows
      (fun _ _ hforce => npApplyDropAnnotationToTuple_law hforce ..)
      (fun row => ((schemaInv_stepsKeep s).cascadeKeep kind).npApplyDropAnnotationToTuple ..)
      hids.distinct (fun row hrow => (List.mem_filter.mp hrow).1) (hids.ownSlots target.ltree) hnodup hinv
      (fun _ _ => rfl) hloop
    have hforce := forEachRow_inForce (fun db₀ db₁ b row hinv₀ hsame hrun =>
      npApplyDropAnnotationToTuple_inForce hinv₀ hsame hrun) (hids.ownSlots target.ltree) hnodup hinv
      (fun _ _ => rfl) hloop
    rw [hfound]
    refine ⟨?_, hforce⟩
    rw [hrows]
    exact annotDropped_loopRows_iff hok hfound

/-- A part leaves the rows of the other kind alone. -/
theorem dropCascade_other {b : Bool} {k : LabelKind} (hk : k ≠ kind) {rows : List LabelRow}
    (h : (cascade kind structLabel fun target row => npApplyDropAnnotationToTuple s kind rows row
      target structLabel annot).Runs db b db') : db'.labels k = db.labels k := by
  have hkeep : CascadeKeep s kind fun db' => db'.labels k = db.labels k :=
    { insertAnnotationSchema := fun labelId names => Prog.keeps_write fun db₁ db' hI h => by
        dsimp only at h
        split at h <;> cases h
        exact hI
      createAnnotationTable := fun labelId => Prog.keeps_write fun db₁ db' hI h => by
        cases h
        exact hI
      updateAnnotationMap := fun labelId names => Prog.keeps_write fun db₁ db' hI h => by
        cases h
        exact (Function.update_of_ne hk ..).trans hI }
  exact (keeps_cascade kind structLabel fun _ _ => hkeep.npApplyDropAnnotationToTuple ..).runs h rfl

/-- **`drop_annotation_label`**: when the call has succeeded, both catalogs are as they are to be, exactly
if it has started from the labels' own arrays. -/
theorem annotDropped_iff_of_runs {u : Unit} (h : SchemaHistory db) (hids : ∀ kind, db.LabelIds kind)
    (hr : (dropAnnotationLabel s structLabel annot).Runs db u db') :
    (∀ kind, AnnotDropped structLabel annot (db.labels kind) (db'.labels kind)) ↔
      DropsOwn db.schemaInForce structLabel annot (db.labels .vertex) ∧
        DropsOwn (db.inForceAfterDrop .vertex structLabel annot) structLabel annot (db.labels .edge) := by
  have hinv := h.inv
  obtain ⟨vRows, db₀, hvRows, h₀⟩ := Prog.runs_bind_iff.mp hr
  obtain ⟨hv, rfl⟩ := scanLabels_runs_iff.mp hvRows
  obtain rfl := Except.ok.inj hv
  obtain ⟨v, db₁, hvertex, h₁⟩ := Prog.runs_bind_iff.mp h₀
  obtain ⟨eRows, db₂, heRows, h₂⟩ := Prog.runs_bind_iff.mp h₁
  obtain ⟨he, rfl⟩ := scanLabels_runs_iff.mp heRows
  obtain rfl := Except.ok.inj he
  obtain ⟨e, db₃, hedge, h₃⟩ := Prog.runs_bind_iff.mp h₂
  have hlabels : db'.labels = db₃.labels := by
    split_ifs at h₃
    · obtain rfl := Except.ok.inj (Prog.runs_write_iff.mp h₃)
      rfl
    · exact absurd h₃ Prog.runs_fail_iff.mp
  have hedges : db₂.labels .edge = db₀.labels .edge := dropCascade_other (by decide) hvertex
  have hvertices : db₃.labels .vertex = db₂.labels .vertex := dropCascade_other (by decide) hedge
  have hinv₂ : SchemaInv db₂ := (keeps_cascade .vertex structLabel fun _ _ =>
    ((schemaInv_stepsKeep s).cascadeKeep .vertex).npApplyDropAnnotationToTuple ..).runs hvertex hinv
  have hids₂ : db₂.LabelIds .edge := by
    obtain ⟨hnodup, hrange⟩ := hids .edge
    constructor <;> rw [hedges]
    · exact hnodup
    · exact hrange
  obtain ⟨hvertexIff, hforce⟩ := dropCascade_iff hinv (hids .vertex) hvertex
  obtain ⟨hedgeIff, -⟩ := dropCascade_iff hinv₂ hids₂ hedge
  have hread : db₂.schemaInForce = db₀.inForceAfterDrop .vertex structLabel annot := funext hforce
  rw [hedges, hread] at hedgeIff
  rw [← hvertexIff, ← hedgeIff, hlabels]
  constructor
  · intro hall
    have hv := hall .vertex
    rw [hvertices] at hv
    exact ⟨hv, hall .edge⟩
  · rintro ⟨hv, he⟩ kind
    cases kind with
    | vertex =>
      rw [hvertices]
      exact hv
    | edge => exact he

/-- The label and the one merged from it lose the annotation, and no edge label does. -/
theorem annotDropped_iff_of_runs_example :
    AnnotDropped ["A"] "x" (exampleMerged.labels .vertex)
        (((dropAnnotationLabel ⟨5, 3⟩ ["A"] "x").exec exampleMerged).2.labels .vertex) ∧
      AnnotDropped ["A"] "x" (exampleMerged.labels .edge)
        (((dropAnnotationLabel ⟨5, 3⟩ ["A"] "x").exec exampleMerged).2.labels .edge) := by
  have hids : ∀ kind, exampleMerged.LabelIds kind := fun kind => by
    cases kind <;> exact ⟨by decide, by decide⟩
  have hdropped : ∀ kind, AnnotDropped ["A"] "x" (exampleMerged.labels kind)
      (((dropAnnotationLabel ⟨5, 3⟩ ["A"] "x").exec exampleMerged).2.labels kind) :=
    (annotDropped_iff_of_runs (.call (.call (.call (.created ..) ..) ..) ..) hids
      (Prog.runs_of_ok (by rfl))).mpr ⟨by decide, by decide⟩
  exact ⟨hdropped .vertex, hdropped .edge⟩

/-- The schema of an edge label is in the place of the label's own, and the annotation stays. -/
theorem annotDropped_fails : ¬ ∀ db s structLabel annot u db', SchemaHistory db →
    (∀ kind, db.LabelIds kind) → (dropAnnotationLabel s structLabel annot).Runs db u db' →
      ∀ kind, AnnotDropped structLabel annot (db.labels kind) (db'.labels kind) := by
  intro h
  have hdropped := h exampleBothKinds ⟨5, 2⟩ ["a"] "x" () _ (.call (.call (.created ..) ..) ..)
    (fun kind => by cases kind <;> exact ⟨by decide, by decide⟩) (Prog.runs_of_ok (by rfl)) .vertex
  have hrows : exampleBothKinds.labels .vertex =
      [⟨1, ["_"], none⟩, ⟨2, ["_", "a"], some [some "x"]⟩] := by decide
  have hrows' : ((dropAnnotationLabel ⟨5, 2⟩ ["a"] "x").exec exampleBothKinds).2.labels .vertex =
      [⟨1, ["_"], none⟩, ⟨2, ["_", "a"], some [some "x"]⟩] := by decide
  rw [hrows, hrows'] at hdropped
  cases hdropped with
  | cons _ hrest =>
    cases hrest with
    | cons hrow _ =>
      rw [if_pos (by decide)] at hrow
      exact absurd hrow.annots (by decide)

end NeoPostGraph
