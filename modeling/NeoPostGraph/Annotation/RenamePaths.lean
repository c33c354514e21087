import NeoPostGraph.Annotation.LabelCatalog
import NeoPostGraph.Annotation.Separation
import Mathlib.Algebra.Order.BigOperators.Group.List

/-!
# Renaming in the paths

`rename_vlabel` and `rename_elabel` split each path into an array of 256 tokens (`dml_labels.c:1440, 1796`)
and join what the array has.

* `PathsRenamed`: the rows with every level of the old name renamed.
* `TokensFit`: no path with the old name is longer than the array.

Result: `rename_paths_iff`, the paths are renamed if and only if they fit.
-/

namespace NeoPostGraph

variable {db db' : AnnotDb} {rows : List LabelRow} {old new : String}

/-- Every level of the old name has the new one, at its place. -/
def renamedLevels (old new : String) (path : Ltree) : Ltree :=
  path.map fun level => if level = old then new else level

/-- The rows with their paths renamed. An update moves a row, so their order may be another. -/
def PathsRenamed (old new : String) (rows rows' : List LabelRow) : Prop :=
  rows'.Perm (rows.map fun row => { row with ltree := renamedLevels old new row.ltree })

/-- A path with the old name fits the array. -/
def TokensFit (old : String) (rows : List LabelRow) : Prop :=
  ∀ row ∈ rows, old ∈ row.ltree → row.ltree.length ≤ 256

/-- Nothing but the labels of a kind, with their tuples, and the names registered has changed. -/
structure LabelsOnly (kind : LabelKind) (db db' : AnnotDb) : Prop where
  same : db' =
    { db with labels := db'.labels, labelTuples := db'.labelTuples, labelCatalog := db'.labelCatalog }
  other : ∀ k, k ≠ kind → db'.labels k = db.labels k
  otherTuples : ∀ k, k ≠ kind → db'.labelTuples k = db.labelTuples k

theorem renamedLevels_of_not_mem {path : Ltree} (h : old ∉ path) : renamedLevels old new path = path := by
  unfold renamedLevels
  refine (List.map_congr_left fun level hlevel => ?_).trans (List.map_id path)
  have hne : level ≠ old := fun he => h (he ▸ hlevel)
  rw [if_neg hne]
  rfl

theorem not_mem_renamedLevels {path : Ltree} (hne : old ≠ new) : old ∉ renamedLevels old new path := by
  intro h
  obtain ⟨level, -, hlevel⟩ := List.mem_map.mp h
  split_ifs at hlevel with he
  · exact hne hlevel.symm
  · exact he hlevel

theorem length_renamedLevels (path : Ltree) : (renamedLevels old new path).length = path.length :=
  List.length_map ..

theorem length_renamedPath (path : Ltree) : (renamedPath old new path).length = min 256 path.length := by
  simp [renamedPath, tokens]

/-- What the loop makes of the rows, as one map. -/
theorem rewriteRows_perm (hit : Ltree → Prop) [DecidablePred hit] (f : Ltree → Ltree) (rows : List LabelRow) :
    (rewriteRows hit f rows).Perm
      (rows.map fun row => { row with ltree := if hit row.ltree then f row.ltree else row.ltree }) := by
  induction rows with
  | nil => exact .refl _
  | cons row rows ih =>
    unfold rewriteRows at ih ⊢
    rw [List.map_cons]
    by_cases hhit : hit row.ltree
    · simp only [List.filter_cons, hhit, not_true, decide_true, decide_false, Bool.false_eq_true, if_true,
        if_false, List.map_cons]
      exact List.perm_middle.trans (ih.cons _)
    · simp only [List.filter_cons, hhit, not_false_iff, decide_true, decide_false, Bool.false_eq_true, if_true,
        if_false, List.cons_append]
      exact ih.cons _

/-- **The loop renames the paths if and only if they fit.** -/
theorem rewriteRows_renamed_iff (hne : old ≠ new) :
    PathsRenamed old new rows (rewriteRows (old ∈ tokens ·) (renamedPath old new) rows) ↔
      TokensFit old rows := by
  have hperm := rewriteRows_perm (old ∈ tokens ·) (renamedPath old new) rows
  constructor
  · intro h row hrow hold
    have hall := hperm.symm.trans h
    -- a path that keeps the old name is none of the renamed ones
    have hhit : old ∈ tokens row.ltree := by
      by_contra hhit
      have hmem : row ∈ rows.map fun row => { row with ltree := renamedLevels old new row.ltree } := by
        refine hall.subset (List.mem_map.mpr ⟨row, hrow, ?_⟩)
        rw [if_neg hhit]
      obtain ⟨r, -, rfl⟩ := List.mem_map.mp hmem
      exact not_mem_renamedLevels hne hold
    -- a path that has lost levels makes all paths together too short
    by_contra hlong
    have hsum := (hall.map fun row => row.ltree.length).sum_eq
    rw [List.map_map, List.map_map] at hsum
    refine Nat.lt_irrefl _ (lt_of_lt_of_eq (List.sum_lt_sum _ _ (fun r _ => ?_) ⟨row, hrow, ?_⟩) hsum.symm)
    · simp only [Function.comp_apply]
      rw [length_renamedLevels]
      split_ifs
      · rw [length_renamedPath]
        exact Nat.min_le_right ..
      · exact Nat.le_refl _
    · simp only [Function.comp_apply]
      rw [length_renamedLevels, if_pos hhit, length_renamedPath]
      omega
  · intro h
    refine hperm.trans (List.Perm.of_eq (List.map_congr_left fun row hrow => ?_))
    by_cases hold : old ∈ row.ltree
    · have hall : tokens row.ltree = row.ltree := List.take_of_length_le (h row hrow hold)
      have hhit : old ∈ tokens row.ltree := hall.symm ▸ hold
      have hrenamed : renamedPath old new row.ltree = renamedLevels old new row.ltree := by
        rw [renamedPath, hall]
        rfl
      rw [if_pos hhit, hrenamed]
    · have hhit : old ∉ tokens row.ltree := fun hhit => hold (List.mem_of_mem_take hhit)
      rw [if_neg hhit, renamedLevels_of_not_mem hold]

/-- Nothing is renamed where the names are the same. -/
theorem pathsRenamed_self (name : String) (rows : List LabelRow) : PathsRenamed name name rows rows := by
  refine List.Perm.of_eq ((List.map_id rows).symm.trans (List.map_congr_left fun row _ => ?_))
  have hsame : renamedLevels name name row.ltree = row.ltree := by
    unfold renamedLevels
    refine (List.map_congr_left fun level _ => ?_).trans (List.map_id row.ltree)
    split_ifs with he
    · exact he.symm
    · rfl
  rw [hsame]
  rfl

/-- What both functions come to: the rows of a kind rewritten. -/
theorem pathsRenamed_iff_of_update {kind : LabelKind} {catalog : List (String × LabelType)} (hne : old ≠ new)
    (h : db' = { db.withRenamed kind old new with labelCatalog := catalog }) :
    LabelsOnly kind db db' ∧
      (PathsRenamed old new (db.labels kind) (db'.labels kind) ↔ old = new ∨ TokensFit old (db.labels kind)) := by
  subst h
  refine ⟨⟨rfl, fun k hk => Function.update_of_ne hk .., fun k hk => Function.update_of_ne hk ..⟩, ?_⟩
  unfold AnnotDb.withRenamed
  dsimp only
  rw [Function.update_self, rewriteRows_renamed_iff hne]
  simp [hne]

/-- Nothing has changed, and nothing had to. -/
theorem pathsRenamed_iff_self (kind : LabelKind) (name : String) (db : AnnotDb) : LabelsOnly kind db db ∧
    (PathsRenamed name name (db.labels kind) (db.labels kind) ↔ name = name ∨ TokensFit name (db.labels kind)) :=
  ⟨⟨rfl, fun _ _ => rfl, fun _ _ => rfl⟩, iff_of_true (pathsRenamed_self _ _) (Or.inl rfl)⟩

theorem renameVlabel_paths_iff {oldLabel newLabel : DottedText}
    (h : renameVlabel oldLabel newLabel db = .ok db') : ∃ old new, oldLabel = [old] ∧ newLabel = [new] ∧
      LabelsOnly .vertex db db' ∧ (PathsRenamed old new (db.labels .vertex) (db'.labels .vertex) ↔
        old = new ∨ TokensFit old (db.labels .vertex)) := by
  rcases renameVlabel_inv h with ⟨⟨name, hold, hnew⟩, rfl⟩ | ⟨old, new, hold, hnew, hne, -, -, -, -, hdb⟩
  · exact ⟨name, name, hold, hnew, pathsRenamed_iff_self .vertex name _⟩
  · exact ⟨old, new, hold, hnew, pathsRenamed_iff_of_update hne hdb⟩

theorem renameElabel_paths_iff {oldLabel newLabel : DottedText}
    (h : renameElabel oldLabel newLabel db = .ok db') : ∃ old new, oldLabel = [old] ∧ newLabel = [new] ∧
      LabelsOnly .edge db db' ∧ (PathsRenamed old new (db.labels .edge) (db'.labels .edge) ↔
        old = new ∨ TokensFit old (db.labels .edge)) := by
  rcases renameElabel_inv h with ⟨⟨name, hold, hnew⟩, rfl⟩ | ⟨old, new, hold, hnew, hne, -, -, -, -, hdb⟩
  · exact ⟨name, name, hold, hnew, pathsRenamed_iff_self .edge name _⟩
  · exact ⟨old, new, hold, hnew, pathsRenamed_iff_of_update hne hdb⟩

/-- **Renaming a label**: on success nothing but the paths of that kind and the names registered has
changed, and the paths are renamed if and only if each path with the old name has at most 256 levels. -/
theorem rename_paths_iff (oldLabel newLabel : DottedText) (db db' : AnnotDb) :
    (renameVlabel oldLabel newLabel db = .ok db' → ∃ old new, oldLabel = [old] ∧ newLabel = [new] ∧
      LabelsOnly .vertex db db' ∧ (PathsRenamed old new (db.labels .vertex) (db'.labels .vertex) ↔
        old = new ∨ TokensFit old (db.labels .vertex))) ∧
    (renameElabel oldLabel newLabel db = .ok db' → ∃ old new, oldLabel = [old] ∧ newLabel = [new] ∧
      LabelsOnly .edge db db' ∧ (PathsRenamed old new (db.labels .edge) (db'.labels .edge) ↔
        old = new ∨ TokensFit old (db.labels .edge))) :=
  ⟨renameVlabel_paths_iff, renameElabel_paths_iff⟩

/-- A label behind the root and `n` others. -/
def deepPath (n : Nat) : Ltree := catalogLtreeRootLabel :: List.replicate n "c" ++ ["a"]

theorem length_deepPath (n : Nat) : (deepPath n).length = n + 2 := by
  simp [deepPath]

theorem mem_deepPath (n : Nat) : "a" ∈ deepPath n := by
  simp [deepPath]

theorem not_mem_take_deepPath (n : Nat) : "a" ∉ (deepPath n).take (n + 1) := by
  have htake : (deepPath n).take (n + 1) = catalogLtreeRootLabel :: List.replicate n "c" :=
    List.take_left' (by simp)
  rw [htake]
  simp [catalogLtreeRootLabel]

/-- A graph whose label `a` is the last of a path with 257 levels. -/
def exampleDeep : AnnotDb :=
  { exampleCreated with
    labels := fun kind => exampleCreated.labels kind ++ [⟨2, deepPath 255, none⟩]
    labelTuples := fun kind => PartialIndex.insert ⟨2, deepPath 255, none⟩ (exampleCreated.labelTuples kind)
    labelCatalog := [("a", .structural), ("c", .structural)] }

/-- The label of the longer path is not renamed. -/
theorem rename_paths_fails : ¬ ∀ old new db db', renameVlabel [old] [new] db = .ok db' →
    PathsRenamed old new (db.labels .vertex) (db'.labels .vertex) := by
  intro h
  have hrows : exampleDeep.labels .vertex =
      [⟨1, [catalogLtreeRootLabel], none⟩, ⟨2, deepPath 255, none⟩] := rfl
  -- no row is found to have the name, so that `ltree_in` is not called
  have hnone : (exampleDeep.labels .vertex).filter (fun row => "a" ∈ tokens row.ltree) = [] := by
    refine List.filter_eq_nil_iff.mpr fun row hrow => ?_
    rw [hrows] at hrow
    rw [decide_eq_true_eq]
    rcases List.mem_pair.mp hrow with rfl | rfl
    · decide
    · exact not_mem_take_deepPath 255
  have hloop : renameRows .vertex "a" "b" exampleDeep = .ok (exampleDeep.withRenamed .vertex "a" "b") := by
    unfold renameRows
    rw [hnone]
    rfl
  have hrename : ∃ db', renameVlabel ["a"] ["b"] exampleDeep = .ok db' := by
    unfold renameVlabel
    have hargs : renameArgs ["a"] ["b"] = .ok ("a", "b") := by decide
    rw [hargs]
    simp only [Except.bind]
    rw [if_neg (by decide), if_neg (by decide)]
    have hfind : (exampleDeep.labelCatalog.find? fun row => row.1 = "a") = some ("a", .structural) := by decide
    simp only [hfind, hloop]
    exact ⟨_, rfl⟩
  obtain ⟨db', hrename⟩ := hrename
  have hrenamed := h "a" "b" exampleDeep db' hrename
  obtain ⟨old, new, hold, hnew, -, hiff⟩ := renameVlabel_paths_iff hrename
  obtain rfl := List.head_eq_of_cons_eq hold
  obtain rfl := List.head_eq_of_cons_eq hnew
  rcases hiff.mp hrenamed with heq | hfit
  · exact absurd heq (by decide)
  · have hlen := hfit ⟨2, deepPath 255, none⟩ (hrows ▸ List.mem_cons_of_mem _ List.mem_cons_self)
      (mem_deepPath 255)
    rw [length_deepPath] at hlen
    omega

end NeoPostGraph
