import Mathlib.Data.Nat.Init
import Mathlib.Tactic.SplitIfs

/-!
# Label paths

The type `ltree` of the extension of that name: a path of labels, separated by dots in its text. Which
characters a label may have is up to the locale of the database (`ISLABEL`: its letters and digits, `_`
and `-`), and how long labels and paths may be is up to the version of the extension.

* `Ltree`, `DottedText`: a path, and a text split at its dots.
* `LtreeModule`: the extension of a database, with what its callers rely on.
* `asciiLtree`: the extension where the letters are those of ASCII.

Results: `ltreeIn_append`, `ltreeIn_append_ltreeOut`, `ltreeIn_base`, `readUnder_inv`, for texts that
callers put together.
-/

namespace NeoPostGraph

/-- A path of labels, from the root. -/
abbrev Ltree := List String

/-- A text with the dots taken out: `""` is `[""]`, and no text is `[]`. -/
abbrev DottedText := List String

/-- `ltree_out`. -/
def ltreeOut (path : Ltree) : DottedText := if path = [] then [""] else path

/-- A text that can be one level of a path. -/
def IsLabel (isLabelChar : Char → Bool) (maxChars : Nat) (level : String) : Prop :=
  level ≠ "" ∧ level.toList.length ≤ maxChars ∧ ∀ c ∈ level.toList, isLabelChar c = true

instance (isLabelChar : Char → Bool) (maxChars : Nat) (level : String) :
    Decidable (IsLabel isLabelChar maxChars level) :=
  decidable_of_iff
    (level ≠ "" ∧ level.toList.length ≤ maxChars ∧ level.toList.all isLabelChar = true)
    (by simp [IsLabel])

/-- The extension `ltree` of a database: its two functions, which raise an error with some message, and
**what callers may rely on**. -/
structure LtreeModule where
  /-- `ISLABEL`. -/
  isLabelChar : Char → Bool
  /-- `LTREE_LABEL_MAX_CHARS`. -/
  labelMaxChars : Nat
  /-- `LTREE_MAX_LEVELS`. -/
  maxLevels : Nat
  ltreeIn : DottedText → Except String Ltree
  ltreeAddltree : Ltree → Ltree → Except String Ltree
  /-- The empty text is the path without levels. -/
  ltreeIn_empty : ltreeIn [""] = .ok []
  /-- Any other text is read as it is, if it has labels between its dots, and not too many. -/
  ltreeIn_ok_iff : ∀ {text path}, text ≠ [""] → (ltreeIn text = .ok path ↔
    path = text ∧ text.length ≤ maxLevels ∧ ∀ level ∈ text, IsLabel isLabelChar labelMaxChars level)
  /-- Paths are joined, if that gives not too many levels. -/
  ltreeAddltree_ok_iff : ∀ {a b path}, ltreeAddltree a b = .ok path ↔
    path = a ++ b ∧ a.length + b.length ≤ maxLevels

namespace LtreeModule

variable {L : LtreeModule} {text path : List String}

/-- What is read is the text, without the empty level of the empty text. -/
theorem eq_of_ltreeIn (h : L.ltreeIn text = .ok path) :
    text = [""] ∧ path = [] ∨ path = text ∧ ∀ level ∈ text, level ≠ "" := by
  by_cases hempty : text = [""]
  · subst hempty
    rw [L.ltreeIn_empty] at h
    exact Or.inl ⟨rfl, (Except.ok.inj h).symm⟩
  · obtain ⟨hpath, -, hlabels⟩ := (L.ltreeIn_ok_iff hempty).mp h
    exact Or.inr ⟨hpath, fun level hlevel => (hlabels level hlevel).1⟩

theorem ltreeOut_ne_nil (path : Ltree) : ltreeOut path ≠ [] := by
  unfold ltreeOut
  split_ifs with hnil
  · simp
  · exact hnil

/-- **The text of a path with more behind a dot** is read as the path with more levels, and the path has
levels itself. -/
theorem ltreeIn_append {a : Ltree} {b : DottedText} (hb : b ≠ [])
    (h : L.ltreeIn (ltreeOut a ++ b) = .ok path) : path = a ++ b := by
  rcases eq_of_ltreeIn h with ⟨he, -⟩ | ⟨he, hlabels⟩
  · -- the text of a path is never empty as a list, so that two levels would be one
    have hlen := congrArg List.length he
    have ha := List.length_pos_iff.mpr (ltreeOut_ne_nil a)
    have hb' := List.length_pos_iff.mpr hb
    rw [List.length_append, List.length_singleton] at hlen
    omega
  · unfold ltreeOut at he hlabels
    split_ifs at he hlabels with hnil
    · exact absurd rfl (hlabels "" (by simp))
    · exact he

/-- So it is with the text of another path. -/
theorem ltreeIn_append_ltreeOut {a b : Ltree} (h : L.ltreeIn (ltreeOut a ++ ltreeOut b) = .ok path) :
    path = a ++ b := by
  have hpath := ltreeIn_append (ltreeOut_ne_nil b) h
  by_cases hb : b = []
  · -- the last level of the text would be empty
    rcases eq_of_ltreeIn h with ⟨-, rfl⟩ | ⟨-, hlabels⟩
    · exact absurd hpath.symm (List.append_ne_nil_of_right_ne_nil _ (ltreeOut_ne_nil b))
    · exact absurd rfl (hlabels "" (List.mem_append_right _ (by simp [ltreeOut, hb])))
  · rwa [ltreeOut, if_neg hb] at hpath

/-- `ltree_addltree` on a path of one label and the path that is read from a text. -/
def readUnder (L : LtreeModule) (root : String) (text : DottedText) : Except String Ltree := do
  let levels ← L.ltreeIn text
  L.ltreeAddltree [root] levels

theorem readUnder_inv {root : String} (h : L.readUnder root text = .ok path) :
    ∃ levels, L.ltreeIn text = .ok levels ∧ path = root :: levels := by
  unfold readUnder at h
  cases hlevels : L.ltreeIn text with
  | error e =>
    rw [hlevels] at h
    cases h
  | ok levels =>
    rw [hlevels] at h
    exact ⟨levels, rfl, (L.ltreeAddltree_ok_iff.mp h).1⟩

/-- A label behind the root is read as such, and so it is by itself. -/
theorem ltreeIn_base {root newLabel : String} (h : L.ltreeIn [root, newLabel] = .ok path) :
    path = [root, newLabel] ∧ ∀ level, L.ltreeIn [newLabel] = .ok level → level = [newLabel] := by
  rcases eq_of_ltreeIn h with ⟨he, -⟩ | ⟨he, hlabels⟩
  · cases he
  · refine ⟨he, fun level hlevel => ?_⟩
    rcases eq_of_ltreeIn hlevel with ⟨hempty, -⟩ | ⟨hlevel, -⟩
    · exact absurd (List.singleton_inj.mp hempty) (hlabels newLabel (by simp))
    · exact hlevel

end LtreeModule

/-- A letter or a digit of ASCII, `_` or `-`. -/
def isAsciiLabelChar (c : Char) : Bool := c.isAlphanum || c == '_' || c == '-'

/-- The extension in a database whose letters are those of ASCII. -/
def asciiLtree : LtreeModule where
  isLabelChar := isAsciiLabelChar
  labelMaxChars := 1000
  maxLevels := 65535
  ltreeIn text :=
    if text = [""] then .ok []
    else if 65535 < text.length then .error "number of ltree labels exceeds the maximum allowed"
    else if ∀ level ∈ text, IsLabel isAsciiLabelChar 1000 level then .ok text
    else .error "ltree syntax error"
  ltreeAddltree a b :=
    if a.length + b.length ≤ 65535 then .ok (a ++ b)
    else .error "number of ltree labels exceeds the maximum allowed"
  ltreeIn_empty := if_pos rfl
  ltreeIn_ok_iff := by
    intro text path hempty
    rw [if_neg hempty]
    split_ifs with hlen hlabels
    · exact iff_of_false nofun fun h => absurd h.2.1 (Nat.not_le.mpr hlen)
    · rw [Except.ok.injEq]
      exact ⟨fun h => ⟨h.symm, Nat.not_lt.mp hlen, hlabels⟩, fun h => h.1.symm⟩
    · exact iff_of_false nofun fun h => hlabels h.2.2
  ltreeAddltree_ok_iff := by
    intro a b path
    split_ifs with hlen
    · rw [Except.ok.injEq]
      exact ⟨fun h => ⟨h.symm, hlen⟩, fun h => h.1.symm⟩
    · exact iff_of_false nofun fun h => hlen h.2

end NeoPostGraph
