import NeoPostGraph.Annotation.LabelRows
import NeoPostGraph.Error
import NeoPostGraph.Lib.KeyedRows

/-!
# Dropping and renaming labels

`drop_vlabel`, `rename_vlabel` and their edge counterparts (`dml_labels.c:1186-1885`). They move no
entity: every path with the label is written anew, without it or with the other name, and the label's
name in `np_label_catalog` is deleted or changed. A drop of the last level of a path archives the row.

* `LabelDb`: the labels of a graph, and which of their rows are archived.
* `LabelOp`: a call, `SchemaOp` among them. `LabelOp.perform`: the call in a transaction of its own.
* `LabelDdlRun`: the states of a graph whose labels have been changed by such calls.
* `CatalogInv`: ids are drawn from the sequence, and the tuples of a catalog are its rows.

Result: `LabelDdlRun.inv`.
-/

namespace NeoPostGraph

open PartialIndex (Represents)

/-- A graph with its labels, and the ids of the rows whose `is_primary` is false. The column is written
by the drops and by the inserts, and read for the predicate of the index on the paths only. -/
structure LabelDb where
  annot : AnnotDb
  archived : LabelKind → List Nat

/-- The errors of `rename_vlabel` and `rename_elabel`. -/
inductive RenameErr where
  | labelEmpty
  | labelsContainDots
  | rootLabel
  | labelExists (newLabel : String)
  | labelMissing (kind : LabelKind) (oldLabel : String)
  /-- Raised by `ltree_in`. -/
  | ltree (message : String)
deriving DecidableEq, Repr

/-- How a message names a label of a kind. -/
def LabelKind.labelNoun : LabelKind → String
  | vertex => "vlabel"
  | edge => "elabel"

/-- The text of an error. -/
def RenameErr.message : RenameErr → String
  | labelEmpty => "label must not be empty"
  | labelsContainDots => "labels cannot contain dots"
  | rootLabel => "cannot rename the root label \"_\""
  | labelExists newLabel => "label \"" ++ newLabel ++ "\" already exists"
  | labelMissing kind oldLabel => kind.labelNoun ++ " \"" ++ oldLabel ++ "\" does not exist"
  | ltree message => message

/-! ## Writing paths anew -/

/-- The levels of a path that `strtok` finds for the array `tokens[256]`. -/
def tokens (path : Ltree) : List String := path.take 256

/-- The rows whose path is to change are updated, and come behind the rows that are as they were. -/
def rewriteRows (hit : Ltree → Prop) [DecidablePred hit] (f : Ltree → Ltree) (rows : List LabelRow) :
    List LabelRow :=
  (rows.filter fun row => ¬ hit row.ltree) ++
    (rows.filter fun row => hit row.ltree).map fun row => { row with ltree := f row.ltree }

/-- The tuples of the same update, with `is_primary = false` in those of the rows to archive. -/
def rewriteTuples (hit : Ltree → Prop) [DecidablePred hit] (f : Ltree → Ltree) (archive : Ltree → Bool)
    (rows : List LabelRow) (tuples : List (PartialIndex.Version LabelRow)) :
    List (PartialIndex.Version LabelRow) :=
  npCatalogUpdates (fun row => { row with ltree := f row.ltree }) (fun row => archive row.ltree)
    (rows.filter fun row => hit row.ltree) tuples

/-! ## Dropping a label -/

/-- The path of `drop_vlabel` without the label: its first level of this name is taken out. -/
def droppedPath (label : String) (path : Ltree) : Ltree :=
  let newPath := (tokens path).erase label
  if newPath = [] then [catalogLtreeRootLabel] else newPath

/-- `is_exact`: the level taken out was the last one. -/
def DroppedAsLeaf (label : String) (path : Ltree) : Prop :=
  (tokens path).idxOf label + 1 = (tokens path).length

instance (label : String) : DecidablePred (DroppedAsLeaf label) := fun path =>
  inferInstanceAs (Decidable ((tokens path).idxOf label + 1 = (tokens path).length))

/-- `drop_vlabel` and `drop_elabel` (`dml_labels.c:1186-1312, 1527-1655`). The levels that are left are
levels of an ltree, and no more of them, so that `ltree_in` takes the new path. -/
def dropLabel (kind : LabelKind) (label : String) (db : LabelDb) : LabelDb where
  annot := { db.annot with
    labels := Function.update db.annot.labels kind
      (rewriteRows (label ∈ tokens ·) (droppedPath label) (db.annot.labels kind))
    labelTuples := Function.update db.annot.labelTuples kind
      (rewriteTuples (label ∈ tokens ·) (droppedPath label) (fun path => DroppedAsLeaf label path)
        (db.annot.labels kind) (db.annot.labelTuples kind))
    labelCatalog := db.annot.labelCatalog.filter fun row => row ≠ (label, .structural) }
  archived := Function.update db.archived kind (db.archived kind ++
    ((db.annot.labels kind).filter fun row =>
      label ∈ tokens row.ltree ∧ DroppedAsLeaf label row.ltree).map LabelRow.id)

/-! ## Renaming a label -/

/-- The checks on the two names that `rename_vlabel` and `rename_elabel` begin with. -/
def renameArgs (oldLabel newLabel : DottedText) : Except RenameErr (String × String) :=
  if oldLabel = [""] ∨ newLabel = [""] then .error .labelEmpty
  else match oldLabel, newLabel with
    | [old], [new] =>
      if old = catalogLtreeRootLabel ∨ new = catalogLtreeRootLabel then .error .rootLabel
      else .ok (old, new)
    | _, _ => .error .labelsContainDots

/-- The path with the other name at every level that had the label. -/
def renamedPath (oldLabel newLabel : String) (path : Ltree) : Ltree :=
  (tokens path).map fun token => if token = oldLabel then newLabel else token

/-- The labels of a kind, with their paths under the new name. -/
def AnnotDb.withRenamed (db : AnnotDb) (kind : LabelKind) (oldLabel newLabel : String) : AnnotDb :=
  { db with
    labels := Function.update db.labels kind
      (rewriteRows (oldLabel ∈ tokens ·) (renamedPath oldLabel newLabel) (db.labels kind))
    labelTuples := Function.update db.labelTuples kind
      (rewriteTuples (oldLabel ∈ tokens ·) (renamedPath oldLabel newLabel) (fun _ => false)
        (db.labels kind) (db.labelTuples kind)) }

/-- The loop over the rows of a kind: `ltree_in` may refuse the new name. -/
def renameRows (kind : LabelKind) (oldLabel newLabel : String) (db : AnnotDb) :
    Except RenameErr AnnotDb := do
  let _ ← ((db.labels kind).filter fun row => oldLabel ∈ tokens row.ltree).mapM fun row =>
    (db.ltree.ltreeIn (renamedPath oldLabel newLabel row.ltree)).mapError .ltree
  return db.withRenamed kind oldLabel newLabel

/-- The row found first by the old name gets the new one. The index is not asked whether another row
has it. -/
def renameRegistered (found : String × LabelType) (newLabel : String)
    (catalog : List (String × LabelType)) : List (String × LabelType) :=
  catalog.erase found ++ [(newLabel, found.2)]

/-- `rename_vlabel` (`dml_labels.c:1314-1520`). -/
def renameVlabel (oldLabel newLabel : DottedText) (db : AnnotDb) : Except RenameErr AnnotDb :=
  (renameArgs oldLabel newLabel).bind fun (old, new) =>
    if old = new then .ok db
    else if new ∈ db.labelCatalog.map Prod.fst then .error (.labelExists new)
    else match db.labelCatalog.find? fun row => row.1 = old with
      | some (found, .structural) =>
        (renameRows .vertex old new db).map fun db' => { db' with
          labelCatalog := renameRegistered (found, .structural) new db.labelCatalog }
      | _ => .error (.labelMissing .vertex old)

/-- `rename_elabel` (`dml_labels.c:1684-1885`): it looks for both names among the paths, and changes
the row of the old name in `np_label_catalog`, whatever its type, if there is one. -/
def renameElabel (oldLabel newLabel : DottedText) (db : AnnotDb) : Except RenameErr AnnotDb :=
  (renameArgs oldLabel newLabel).bind fun (old, new) =>
    if old = new then .ok db
    else if ∀ row ∈ db.labels .edge, old ∉ row.ltree then .error (.labelMissing .edge old)
    else if ∃ row ∈ db.labels .edge, new ∈ row.ltree then .error (.labelExists new)
    else
      (renameRows .edge old new db).map fun db' => { db' with
        labelCatalog := match db.labelCatalog.find? fun row => row.1 = old with
          | some found => renameRegistered found new db.labelCatalog
          | none => db.labelCatalog }

/-! ## Histories -/

/-- A call that changes labels. -/
inductive LabelOp where
  | schema (o : SchemaOp)
  | dropVlabel (label : String)
  | dropElabel (label : String)
  | renameVlabel (oldLabel newLabel : DottedText)
  | renameElabel (oldLabel newLabel : DottedText)
deriving DecidableEq, Repr

/-- A renaming in a transaction of its own: it has drawn no id and written no page but the catalogs',
so that nothing is left of one that fails. -/
def LabelDb.renamed (rename : AnnotDb → Except RenameErr AnnotDb) (db : LabelDb) : LabelDb :=
  match rename db.annot with
  | .ok annot => { db with annot := annot }
  | .error _ => db

/-- A call in a transaction of its own. -/
def LabelOp.perform (s : Session) : LabelOp → LabelDb → LabelDb
  | schema o, db => { db with annot := o.perform s db.annot }
  | dropVlabel label, db => dropLabel .vertex label db
  | dropElabel label, db => dropLabel .edge label db
  | renameVlabel oldLabel newLabel, db => db.renamed (NeoPostGraph.renameVlabel oldLabel newLabel)
  | renameElabel oldLabel newLabel, db => db.renamed (NeoPostGraph.renameElabel oldLabel newLabel)

/-- A graph as `create_graph` leaves it: all rows are primary. -/
def LabelDb.created (ltree : LtreeModule) (xacts : XactState) (s : Session) : LabelDb :=
  ⟨AnnotDb.created ltree xacts s, fun _ => []⟩

/-- The states of a graph whose labels are changed by calls, one after the other. -/
inductive LabelDdlRun : LabelDb → Prop where
  | created (ltree : LtreeModule) (xacts : XactState) (s : Session) :
      LabelDdlRun (LabelDb.created ltree xacts s)
  | call {db : LabelDb} (h : LabelDdlRun db) (s : Session) (o : LabelOp) : LabelDdlRun (o.perform s db)

/-! ## What the calls do to the rows -/

variable {db db' : AnnotDb} {kind : LabelKind} {rows rows' : List LabelRow} {old new : String}
  {oldLabel newLabel : DottedText}

theorem renameArgs_inv {names : String × String} (h : renameArgs oldLabel newLabel = .ok names) :
    oldLabel = [names.1] ∧ newLabel = [names.2] ∧ names.1 ≠ catalogLtreeRootLabel ∧
      names.2 ≠ catalogLtreeRootLabel := by
  unfold renameArgs at h
  split_ifs at h with hempty
  split at h
  · split_ifs at h with hroot
    obtain rfl := Except.ok.inj h
    exact ⟨rfl, rfl, not_or.mp hroot⟩
  · cases h

theorem map_renameRows_inv {f : AnnotDb → AnnotDb} (h : (renameRows kind old new db).map f = .ok db') :
    db' = f (db.withRenamed kind old new) := by
  cases hrename : renameRows kind old new db with
  | error e =>
    rw [hrename] at h
    cases h
  | ok db₁ =>
    obtain ⟨paths, -, hret⟩ := bind_eq_ok hrename
    obtain rfl := Except.ok.inj hret
    rw [hrename] at h
    exact (Except.ok.inj h).symm

/-- **What `rename_vlabel` does** when it succeeds: nothing, or it writes the paths anew and the row
of the name in `np_label_catalog`. -/
theorem renameVlabel_inv (h : renameVlabel oldLabel newLabel db = .ok db') :
    (∃ name, oldLabel = [name] ∧ newLabel = [name]) ∧ db' = db ∨
      ∃ old new, oldLabel = [old] ∧ newLabel = [new] ∧ old ≠ new ∧
      old ≠ catalogLtreeRootLabel ∧ new ≠ catalogLtreeRootLabel ∧
      new ∉ db.labelCatalog.map Prod.fst ∧
      db.labelCatalog.find? (fun row => row.1 = old) = some (old, .structural) ∧
      db' = { db.withRenamed .vertex old new with
        labelCatalog := renameRegistered (old, .structural) new db.labelCatalog } := by
  obtain ⟨⟨old, new⟩, hargs, h⟩ := bind_eq_ok h
  obtain ⟨hold, hnew, holdRoot, hnewRoot⟩ := renameArgs_inv hargs
  dsimp only at h
  by_cases hsame : old = new
  · rw [if_pos hsame] at h
    subst hsame
    exact Or.inl ⟨⟨old, hold, hnew⟩, (Except.ok.inj h).symm⟩
  rw [if_neg hsame] at h
  by_cases hexists : new ∈ db.labelCatalog.map Prod.fst
  · rw [if_pos hexists] at h
    cases h
  rw [if_neg hexists] at h
  split at h
  · next found hfound =>
    have hname : found = old := by simpa using List.find?_some hfound
    subst hname
    exact Or.inr ⟨found, new, hold, hnew, hsame, holdRoot, hnewRoot, hexists, hfound,
      map_renameRows_inv h⟩
  · cases h

/-- **What `rename_elabel` does** when it succeeds. -/
theorem renameElabel_inv (h : renameElabel oldLabel newLabel db = .ok db') :
    (∃ name, oldLabel = [name] ∧ newLabel = [name]) ∧ db' = db ∨
      ∃ old new, oldLabel = [old] ∧ newLabel = [new] ∧ old ≠ new ∧
      old ≠ catalogLtreeRootLabel ∧ new ≠ catalogLtreeRootLabel ∧
      (∃ row ∈ db.labels .edge, old ∈ row.ltree) ∧ (∀ row ∈ db.labels .edge, new ∉ row.ltree) ∧
      db' = { db.withRenamed .edge old new with
        labelCatalog := match db.labelCatalog.find? fun row => row.1 = old with
          | some found => renameRegistered found new db.labelCatalog
          | none => db.labelCatalog } := by
  obtain ⟨⟨old, new⟩, hargs, h⟩ := bind_eq_ok h
  obtain ⟨hold, hnew, holdRoot, hnewRoot⟩ := renameArgs_inv hargs
  dsimp only at h
  by_cases hsame : old = new
  · rw [if_pos hsame] at h
    subst hsame
    exact Or.inl ⟨⟨old, hold, hnew⟩, (Except.ok.inj h).symm⟩
  rw [if_neg hsame] at h
  by_cases hmissing : ∀ row ∈ db.labels .edge, old ∉ row.ltree
  · rw [if_pos hmissing] at h
    cases h
  rw [if_neg hmissing] at h
  by_cases hexists : ∃ row ∈ db.labels .edge, new ∈ row.ltree
  · rw [if_pos hexists] at h
    cases h
  rw [if_neg hexists] at h
  push Not at hmissing hexists
  exact Or.inr ⟨old, new, hold, hnew, hsame, holdRoot, hnewRoot, hmissing, hexists,
    map_renameRows_inv h⟩

/-! ## The paths of the rows -/

/-- **A rewrite of the rows is one of their paths**, looked up by path. -/
theorem map_rewriteRows (hit : Ltree → Prop) [DecidablePred hit] (f : Ltree → Ltree) :
    (rewriteRows hit f rows).map (fun row => (row.id, row.ltree)) =
      KeyedRows.rewrite hit f (rows.map fun row => (row.id, row.ltree)) := by
  unfold rewriteRows KeyedRows.rewrite
  rw [List.map_append, List.map_map, List.filter_map, List.filter_map, List.map_map]
  rfl

theorem mem_rewriteRows {hit : Ltree → Prop} [DecidablePred hit] {f : Ltree → Ltree} {row : LabelRow} :
    row ∈ rewriteRows hit f rows ↔
      ∃ r ∈ rows, row = { r with ltree := if hit r.ltree then f r.ltree else r.ltree } := by
  unfold rewriteRows
  rw [List.mem_append, List.mem_filter, List.mem_map]
  constructor
  · rintro (⟨hrow, hnot⟩ | ⟨r, hr, rfl⟩)
    · exact ⟨row, hrow, by rw [if_neg (by simpa using hnot)]⟩
    · obtain ⟨hr, hhit⟩ := List.mem_filter.mp hr
      exact ⟨r, hr, by rw [if_pos (by simpa using hhit)]⟩
  · rintro ⟨r, hr, rfl⟩
    by_cases hhit : hit r.ltree
    · rw [if_pos hhit]
      exact Or.inr ⟨r, List.mem_filter.mpr ⟨hr, by simpa using hhit⟩, rfl⟩
    · rw [if_neg hhit]
      exact Or.inl ⟨hr, by simpa using hhit⟩

/-- Rows that are written anew keep their ids. -/
theorem RowIds.rewritten {hit : Ltree → Prop} [DecidablePred hit] {f : Ltree → Ltree}
    (h : RowIds db kind) (hlabels : db'.labels kind = rewriteRows hit f (db.labels kind))
    (hseq : db'.labelIdSeq kind = db.labelIdSeq kind) : RowIds db' kind := by
  refine ⟨fun row hrow => ?_, fun r hr r' hr' he => ?_, ?_⟩
  · rw [hlabels] at hrow
    obtain ⟨r, hr, rfl⟩ := mem_rewriteRows.mp hrow
    rw [hseq]
    exact h.below r hr
  · rw [hlabels] at hr hr'
    obtain ⟨x, hx, rfl⟩ := mem_rewriteRows.mp hr
    obtain ⟨x', hx', rfl⟩ := mem_rewriteRows.mp hr'
    rw [h.distinct x hx x' hx' he]
  · rw [hlabels]
    refine List.nodup_append.mpr ⟨h.nodup.filter _, ?_, fun r hr r' hr' he => ?_⟩
    · refine List.Nodup.map_on (fun x hx x' hx' he => ?_) (h.nodup.filter _)
      exact h.distinct x (List.mem_filter.mp hx).1 x' (List.mem_filter.mp hx').1
        (LabelRow.mk.inj he).1
    · -- a row that is not hit is none of those that are
      obtain ⟨x, hx, rfl⟩ := List.mem_map.mp hr'
      obtain ⟨hr, hnot⟩ := List.mem_filter.mp hr
      obtain ⟨hx, hhit⟩ := List.mem_filter.mp hx
      obtain rfl := h.distinct r hr x hx (by rw [he])
      simp only [decide_eq_true_eq] at hnot hhit
      exact hnot hhit

/-! ## The catalogs and their index -/

/-- **What holds of a catalog after any calls**: the ids of its rows are drawn from the sequence, and its
tuples are the rows, with the primary ones in the index. -/
structure CatalogInv (archived : List Nat) (db : AnnotDb) (kind : LabelKind) : Prop where
  ids : RowIds db kind
  below : ∀ id ∈ archived, id < db.labelIdSeq kind
  represents : Represents LabelRow.id (fun row => row.id ∉ archived) (db.labels kind)
    (db.labelTuples kind)

variable {s : Session} {archived archived' : List Nat}

theorem CatalogInv.same (h : CatalogInv archived db kind) (hlabels : db'.labels kind = db.labels kind)
    (htuples : db'.labelTuples kind = db.labelTuples kind)
    (hseq : db.labelIdSeq kind ≤ db'.labelIdSeq kind) : CatalogInv archived db' kind := by
  refine ⟨h.ids.same hlabels hseq, fun id hid => lt_of_lt_of_le (h.below id hid) hseq, ?_⟩
  rw [hlabels, htuples]
  exact h.represents

/-- A label is added: its id is none that has been archived. -/
theorem CatalogInv.added {k : LabelKind} {ltree : Ltree} {annotMap : Option Names}
    (h : CatalogInv archived db k) (hadd : RowAdded db db' kind ltree annotMap) :
    CatalogInv archived db' k := by
  by_cases hk : k = kind
  · subst hk
    refine ⟨h.ids.added hadd, fun id hid => ?_, ?_⟩
    · rw [hadd.seq, Function.update_self]
      exact Nat.lt_succ_of_lt (h.below id hid)
    · rw [hadd.rows, hadd.tuples, Function.update_self]
      exact h.represents.insert (fun r hr => h.ids.ne_seq hr)
        (decide_eq_true fun harch => Nat.lt_irrefl _ (h.below _ harch))
  · exact h.same (hadd.other hk) (by rw [hadd.tuples, Function.update_of_ne hk])
      (by rw [hadd.seq, Function.update_of_ne hk])

/-- **Rows are changed, and some of them archived**, by `np_catalog_update` for each. -/
theorem CatalogInv.changed {new : LabelRow → LabelRow} {archive : LabelRow → Bool}
    (h : CatalogInv archived db kind) (hit : LabelRow → Bool)
    (htuples : db'.labelTuples kind =
      npCatalogUpdates new archive ((db.labels kind).filter hit) (db.labelTuples kind))
    (hids : RowIds db' kind) (hid : ∀ row, (new row).id = row.id)
    (hrows : ∀ r', r' ∈ db'.labels kind ↔ ∃ r ∈ db.labels kind, r' = if hit r then new r else r)
    (hseq : db'.labelIdSeq kind = db.labelIdSeq kind)
    (harch : ∀ row ∈ db.labels kind,
      row.id ∈ archived' ↔ row.id ∈ archived ∨ hit row = true ∧ archive row = true)
    (hbelow : ∀ id ∈ archived', id < db.labelIdSeq kind) : CatalogInv archived' db' kind := by
  refine ⟨hids, by rwa [hseq], ?_⟩
  rw [htuples]
  refine h.represents.changeAll hid h.ids.distinct ?_ (fun r hr => (List.mem_filter.mp hr).1)
    (fun r' => ?_) (fun r hr => ?_) fun r hr hnot => ?_
  · refine List.Nodup.map_on (fun r hr r' hr' he => ?_) (h.ids.nodup.filter _)
    exact h.ids.distinct r (List.mem_filter.mp hr).1 r' (List.mem_filter.mp hr').1 he
  · rw [hrows]
    constructor
    · rintro ⟨r, hr, rfl⟩
      split_ifs with hhit
      · exact Or.inl ⟨r, List.mem_filter.mpr ⟨hr, hhit⟩, rfl⟩
      · exact Or.inr ⟨hr, fun hmem => hhit (List.mem_filter.mp hmem).2⟩
    · rintro (⟨r, hr, rfl⟩ | ⟨hr, hnot⟩)
      · obtain ⟨hr, hhit⟩ := List.mem_filter.mp hr
        exact ⟨r, hr, (if_pos hhit).symm⟩
      · exact ⟨r', hr, (if_neg fun hhit => hnot (List.mem_filter.mpr ⟨hr, hhit⟩)).symm⟩
  · obtain ⟨hr, hhit⟩ := List.mem_filter.mp hr
    have hiff := harch r hr
    rw [hid]
    cases harchive : archive r <;> simp [hiff, hhit, harchive]
  · have hiff := harch r hr
    have hhit : hit r = false := by
      simpa [hr] using hnot
    simp [hiff, hhit]

/-- The loops over a catalog change annotations only. -/
theorem CatalogInv.cascadeKeep (s : Session) (kind k : LabelKind) :
    CascadeKeep s kind fun db => CatalogInv archived db k where
  insertAnnotationSchema labelId names := Prog.keeps_write fun db db' h hr => by
    dsimp only at hr
    split at hr <;> cases hr
    exact h.same rfl rfl (Nat.le_refl _)
  createAnnotationTable labelId := Prog.keeps_write fun db db' h hr => by
    cases hr
    exact h.same rfl rfl (Nat.le_refl _)
  updateAnnotationMap labelId names := Prog.keeps_write fun db db' h hr => by
    cases hr
    by_cases hk : k = kind
    · subst hk
      have hid (row : LabelRow) :
          (if row.id = labelId then { row with annotationMap := some names } else row).id = row.id := by
        split_ifs <;> rfl
      refine h.changed (fun row => row.id = labelId) (Function.update_self ..)
        (h.ids.mapped (Function.update_self ..) (Nat.le_refl _) hid) (fun _ => rfl) (fun r' => ?_) rfl
        (fun row _ => by simp) h.below
      simp [eq_comm]
    · exact h.same (Function.update_of_ne hk ..) (Function.update_of_ne hk ..) (Nat.le_refl _)

theorem CatalogInv.addAnnotationLabel {k : LabelKind} (s : Session) (structLabel newAnnot : DottedText) :
    (addAnnotationLabel s structLabel newAnnot).Keeps fun db => CatalogInv archived db k := by
  unfold NeoPostGraph.addAnnotationLabel
  split
  · refine (keeps_cascade _ _ fun _ _ => (cascadeKeep s _ k).npApplyAddAnnotationToTuple ..).bind
      fun _ => (keeps_cascade _ _ fun _ _ => (cascadeKeep s _ k).npApplyAddAnnotationToTuple ..).bind
        fun _ => ?_
    split
    · refine (Prog.keeps_read ..).bind fun _ => Prog.keeps_write fun db₁ db' h hr => ?_
      split at hr <;> split_ifs at hr <;> cases hr <;> exact h.same rfl rfl (Nat.le_refl _)
    · exact Prog.keeps_fail ..
  · exact Prog.keeps_fail ..

theorem CatalogInv.dropAnnotationLabel {k : LabelKind} (s : Session) (structLabel : DottedText)
    (dropAnnot : String) :
    (dropAnnotationLabel s structLabel dropAnnot).Keeps fun db => CatalogInv archived db k := by
  refine (Prog.keeps_read ..).bind fun _ =>
    (keeps_cascade _ _ fun _ _ => (cascadeKeep s _ k).npApplyDropAnnotationToTuple ..).bind fun _ =>
      (Prog.keeps_read ..).bind fun _ =>
        (keeps_cascade _ _ fun _ _ => (cascadeKeep s _ k).npApplyDropAnnotationToTuple ..).bind
          fun _ => ?_
  split
  · refine Prog.keeps_write fun db₁ db' h hr => ?_
    cases hr
    exact h.same rfl rfl (Nat.le_refl _)
  · exact Prog.keeps_fail ..

theorem CatalogInv.registered {labelStr : String} {annotArray : Option Names} {u : Unit}
    (h : CatalogInv archived db kind)
    (hreg : (registerAndValidateLabels labelStr annotArray).Runs db u db') :
    CatalogInv archived db' kind := by
  have honly := registerAndValidateLabels_onlyRegisters hreg
  exact h.same (by rw [honly.labels]) (by rw [honly.tuples]) (by rw [honly.seq])

theorem CatalogInv.baseEnsured {newLabel : String} (h : CatalogInv archived db kind)
    (hbase : BaseEnsured s newLabel db db') : CatalogInv archived db' kind := by
  cases hbase with
  | found => exact h
  | made _ hreg hadd => exact (h.registered hreg).added hadd

/-- **A call of the older DDL.** -/
theorem CatalogInv.run {o : SchemaOp} {u : Unit} (h : CatalogInv archived db kind)
    (hr : (o.run s).Runs db u db') : CatalogInv archived db' kind := by
  cases o with
  | createVlabel label annotations =>
    obtain ⟨id, db₁, hcreate, h₁⟩ := Prog.runs_bind_iff.mp hr
    obtain ⟨-, rfl⟩ := Prog.runs_ret_iff.mp h₁
    obtain ⟨labelStr, level, db₁, -, -, hreg, -, hadd⟩ := createVlabel_inv hcreate
    exact (h.registered hreg).added hadd
  | mergeVlabels parentId childId =>
    obtain ⟨id, db₁, hmerge, h₁⟩ := Prog.runs_bind_iff.mp hr
    obtain ⟨-, rfl⟩ := Prog.runs_ret_iff.mp h₁
    obtain ⟨parent, child, -, -, -, hadd⟩ := mergeVlabels_inv hmerge
    exact h.added hadd
  | createElabel label annotations =>
    obtain ⟨id, db₁, hcreate, h₁⟩ := Prog.runs_bind_iff.mp hr
    obtain ⟨-, rfl⟩ := Prog.runs_ret_iff.mp h₁
    obtain ⟨levels, -, -, hadd⟩ := createElabel_inv hcreate
    exact h.added hadd
  | mergeElabels currentLabelId baseLabelId =>
    obtain ⟨id, db₁, hmerge, h₁⟩ := Prog.runs_bind_iff.mp hr
    obtain ⟨-, rfl⟩ := Prog.runs_ret_iff.mp h₁
    obtain ⟨-, base, -, -, hadd⟩ := mergeElabels_inv hmerge
    exact h.added hadd
  | setVertexLabel currentLabelId newLabel =>
    obtain ⟨level, current, id, rfl, -, hresolve⟩ := resolveFrom_inv hr
    obtain ⟨db₁, hbase, ⟨rfl, -⟩ | ⟨-, -, -, -, id', base, -, hmerge⟩⟩ :=
      resolveOrCreateTargetLabel_inv hresolve
    · exact h.baseEnsured hbase
    · obtain ⟨parent, child, -, -, -, hadd⟩ := mergeVlabels_inv hmerge
      exact (h.baseEnsured hbase).added hadd
  | removeVertexLabel currentLabelId labelToRemove =>
    obtain ⟨level, current, id, rfl, -, hresolve⟩ := resolveFrom_inv hr
    rcases resolveReducedTargetLabel_inv hresolve with ⟨rfl, -⟩ | ⟨-, -, -, hadd⟩
    · exact h
    · exact h.added hadd
  | setEdgeLabel currentLabelId newLabel =>
    obtain ⟨level, current, id, rfl, -, hresolve⟩ := resolveFrom_inv hr
    obtain ⟨db₁, hbase, htarget⟩ := resolveOrCreateTargetEdgeLabel_inv hresolve
    have hbase' : CatalogInv archived db₁ kind := by
      rcases hbase with rfl | ⟨-, hadd⟩
      · exact h
      · exact h.added hadd
    rcases htarget with ⟨rfl, -⟩ | ⟨-, -, -, -, annotMap, hadd⟩
    · exact hbase'
    · exact hbase'.added hadd
  | removeEdgeLabel currentLabelId labelToRemove =>
    have hfrom : (resolveFrom .edge currentLabelId (.edgeLabelIdNotFound currentLabelId) [labelToRemove]
      (resolveTargetEdgeLabelForRemoval s currentLabelId)).Runs db u db' := hr
    obtain ⟨level, current, id, -, -, hresolve⟩ := resolveFrom_inv hfrom
    rcases resolveTargetEdgeLabelForRemoval_inv hresolve with
      ⟨rfl, -⟩ | ⟨-, -, -, -, annotMap, hadd⟩
    · exact h
    · exact h.added hadd
  | addAnnotationLabel structLabel newAnnot =>
    exact (addAnnotationLabel s structLabel newAnnot).runs hr h
  | dropAnnotationLabel structLabel dropAnnot =>
    exact (dropAnnotationLabel s structLabel dropAnnot).runs hr h

/-- Paths are written anew. -/
theorem CatalogInv.rewritten {hit : Ltree → Prop} [DecidablePred hit] {f : Ltree → Ltree}
    (h : CatalogInv archived db kind) (leaf : Ltree → Prop) [DecidablePred leaf]
    (hlabels : db'.labels kind = rewriteRows hit f (db.labels kind))
    (htuples : db'.labelTuples kind =
      rewriteTuples hit f (fun path => leaf path) (db.labels kind) (db.labelTuples kind))
    (hseq : db'.labelIdSeq kind = db.labelIdSeq kind)
    (harch : ∀ row ∈ db.labels kind,
      row.id ∈ archived' ↔ row.id ∈ archived ∨ hit row.ltree ∧ leaf row.ltree)
    (hbelow : ∀ id ∈ archived', id < db.labelIdSeq kind) : CatalogInv archived' db' kind := by
  unfold rewriteTuples at htuples
  refine h.changed (fun row => hit row.ltree) htuples (h.ids.rewritten hlabels hseq) (fun _ => rfl)
    (fun r' => ?_) hseq (fun row hrow => ?_) hbelow
  · rw [hlabels, mem_rewriteRows]
    refine exists_congr fun r => and_congr_right fun _ => ?_
    by_cases hhit : hit r.ltree <;> simp [hhit]
  · rw [harch row hrow]
    simp

/-- **A drop.** -/
theorem CatalogInv.dropLabel {db : LabelDb} {k : LabelKind} (h : CatalogInv (db.archived k) db.annot k)
    (kind : LabelKind) (label : String) :
    CatalogInv ((dropLabel kind label db).archived k) (dropLabel kind label db).annot k := by
  unfold NeoPostGraph.dropLabel
  dsimp only
  by_cases hk : k = kind
  · subst hk
    rw [Function.update_self]
    refine h.rewritten (DroppedAsLeaf label) (Function.update_self ..) (Function.update_self ..) rfl (fun row hrow => ?_)
      fun id hid => ?_
    · rw [List.mem_append, List.mem_map]
      refine or_congr_right ⟨fun ⟨r, hr, he⟩ => ?_, fun hleaf => ⟨row, ?_, rfl⟩⟩
      · obtain ⟨hmem, hleaf⟩ := List.mem_filter.mp hr
        obtain rfl := h.ids.distinct r hmem row hrow he
        simpa using hleaf
      · exact List.mem_filter.mpr ⟨hrow, by simpa using hleaf⟩
    · rcases List.mem_append.mp hid with hold | hnew
      · exact h.below id hold
      · obtain ⟨r, hr, rfl⟩ := List.mem_map.mp hnew
        exact h.ids.below r (List.mem_filter.mp hr).1
  · rw [Function.update_of_ne hk]
    exact h.same (Function.update_of_ne hk ..) (Function.update_of_ne hk ..) (Nat.le_refl _)

/-- **A renaming**, of labels of one kind. -/
theorem CatalogInv.withRenamed {k : LabelKind} (h : CatalogInv archived db k) (kind : LabelKind)
    (old new : String) : CatalogInv archived (db.withRenamed kind old new) k := by
  unfold AnnotDb.withRenamed
  by_cases hk : k = kind
  · subst hk
    exact h.rewritten (fun _ => False) (Function.update_self ..) (Function.update_self ..) rfl
      (by simp) h.below
  · exact h.same (Function.update_of_ne hk ..) (Function.update_of_ne hk ..) (Nat.le_refl _)

/-- A renaming that fails changes nothing. -/
theorem CatalogInv.renamed {db : LabelDb} {rename : AnnotDb → Except RenameErr AnnotDb}
    (h : CatalogInv (db.archived kind) db.annot kind)
    (hok : ∀ annot', rename db.annot = .ok annot' → CatalogInv (db.archived kind) annot' kind) :
    CatalogInv ((db.renamed rename).archived kind) (db.renamed rename).annot kind := by
  unfold LabelDb.renamed
  split
  · next annot' hrename => exact hok annot' hrename
  · exact h

/-- **Every call** keeps the tuples of the catalogs what their rows are. -/
theorem CatalogInv.perform {db : LabelDb} (h : CatalogInv (db.archived kind) db.annot kind) (s : Session)
    (o : LabelOp) : CatalogInv ((o.perform s db).archived kind) (o.perform s db).annot kind := by
  cases o with
  | schema o =>
    have hseq := ((labelIdSeq_stepsKeep s kind (db.annot.labelIdSeq kind)).run o).exec (Nat.le_refl _)
    unfold LabelOp.perform SchemaOp.perform
    dsimp only
    cases hexec : (o.run s).exec db.annot with
    | mk res annot' =>
      rw [hexec] at hseq
      cases res with
      | ok u => exact h.run (hexec : (o.run s).Runs db.annot u annot')
      | error e => exact h.same rfl rfl hseq
  | dropVlabel label => exact h.dropLabel .vertex label
  | dropElabel label => exact h.dropLabel .edge label
  | renameVlabel oldLabel newLabel =>
    refine h.renamed fun annot' hrename => ?_
    rcases renameVlabel_inv hrename with ⟨-, rfl⟩ | ⟨old, new, -, -, -, -, -, -, -, rfl⟩
    · exact h
    · exact (h.withRenamed .vertex old new).same rfl rfl (Nat.le_refl _)
  | renameElabel oldLabel newLabel =>
    refine h.renamed fun annot' hrename => ?_
    rcases renameElabel_inv hrename with ⟨-, rfl⟩ | ⟨old, new, -, -, -, -, -, -, -, rfl⟩
    · exact h
    · exact (h.withRenamed .edge old new).same rfl rfl (Nat.le_refl _)

/-! ## Every run -/

/-- A graph just created has the root labels. -/
theorem labels_created (ltree : LtreeModule) (xacts : XactState) (s : Session) (kind : LabelKind) :
    (AnnotDb.created ltree xacts s).labels kind = [⟨1, [catalogLtreeRootLabel], none⟩] := by
  cases kind <;> rfl

theorem rowIds_created (ltree : LtreeModule) (xacts : XactState) (s : Session) (kind : LabelKind) :
    RowIds (AnnotDb.created ltree xacts s) kind := by
  have hseq : (AnnotDb.created ltree xacts s).labelIdSeq kind = 2 := by
    cases kind <;> rfl
  refine ⟨?_, ?_, ?_⟩ <;> rw [labels_created]
  · rw [hseq]
    simp
  · simp
  · simp

theorem catalogInv_created (ltree : LtreeModule) (xacts : XactState) (s : Session) (kind : LabelKind) :
    CatalogInv [] (AnnotDb.created ltree xacts s) kind := by
  have htuples : (AnnotDb.created ltree xacts s).labelTuples kind =
      PartialIndex.insert ⟨1, [catalogLtreeRootLabel], none⟩ [] := by
    cases kind <;> rfl
  refine ⟨rowIds_created ltree xacts s kind, by simp, ?_⟩
  rw [labels_created, htuples]
  have hnone : Represents LabelRow.id (fun row => row.id ∉ ([] : List Nat)) [] [] :=
    ⟨⟨by simp, by simp [PartialIndex.liveKeys]⟩, by simp [PartialIndex.current], by simp⟩
  exact hnone.insert (by simp) rfl

/-- **After any calls** the ids of the labels are drawn from their sequence, and the index has the
primary ones. -/
theorem LabelDdlRun.inv {db : LabelDb} (h : LabelDdlRun db) (kind : LabelKind) :
    CatalogInv (db.archived kind) db.annot kind := by
  induction h with
  | created ltree xacts s => exact catalogInv_created ltree xacts s kind
  | call h s o ih => exact ih.perform s o

theorem LabelDdlRun.rowIds {db : LabelDb} (h : LabelDdlRun db) (kind : LabelKind) :
    RowIds db.annot kind :=
  (h.inv kind).ids

theorem LabelDdlRun.calls {db : LabelDb} (h : LabelDdlRun db) (s : Session) (ops : List LabelOp) :
    LabelDdlRun (ops.foldl (fun db o => o.perform s db) db) := by
  induction ops generalizing db with
  | nil => exact h
  | cons o ops ih => exact ih (h.call s o)

end NeoPostGraph
