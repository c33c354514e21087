import Mathlib.Data.List.Nodup

/-!
# The names of a graph's relations

Every relation and sequence made for a graph has a name in which the id of the graph stands, with those
of the label and the linked-list partition where it is one of theirs.

* `RelName`: a name. `RelName.text`: as the functions print it.
* `RelName.graph`: the graph it is made for.

Result: `RelName.text_injective`, different relations have different names.
-/

namespace NeoPostGraph

/-- The relations of a graph that are none of a label's (`label_commands.c:114-141, 289-384`). -/
inductive GraphRel where
  | vertexLabelIdSeq
  | vertexLabel
  | vertexLabelBtreeIdx
  | vertexLabelGistIdx
  | edgeLabelIdSeq
  | edgeLabel
  | edgeLabelBtreeIdx
  | edgeLabelGistIdx
  | annotationSchema
  | annotationSchemaPhysMap
  | labelCatalog
  | labelCatalogIdx
deriving DecidableEq, Repr

/-- The relations of a vertex label (`label_commands.c:184-241`). -/
inductive VertexRel where
  | tbl
  | physMap
  | arraylist
  | linkedListSeq
  | linkedList (partitionId : Nat)
  | linkedListMeta
  | annotations
  | idSeq
  | dictionary
  | dictionarySeq
  | dictionaryIndex
deriving DecidableEq, Repr

/-- The relations of an edge label. -/
inductive EdgeRel where
  | tbl
  | physMap
  | annotations
  | idSeq
deriving DecidableEq, Repr

/-- The name of a relation of a graph. -/
inductive RelName where
  | graph (graphId : Nat) (rel : GraphRel)
  | vertex (graphId labelId : Nat) (rel : VertexRel)
  | edge (graphId labelId : Nat) (rel : EdgeRel)
deriving DecidableEq, Repr

/-- The graph a relation is made for. -/
def RelName.graphId : RelName → Nat
  | graph g _ => g
  | vertex g _ _ => g
  | edge g _ _ => g

/-- What stands between two underscores of a name. -/
inductive NameToken where
  | word (text : String)
  | num (n : Nat)
deriving DecidableEq, Repr

namespace NameToken

def text : NameToken → String
  | word text => text
  | num n => n.repr

/-- A word has no underscore and a letter. -/
def Ok : NameToken → Prop
  | word text => '_' ∉ text.toList ∧ ∃ c ∈ text.toList, c.isDigit = false
  | num _ => True

instance : DecidablePred Ok := fun t => match t with
  | word text => decidable_of_iff ('_' ∉ text.toList ∧ text.toList.any (fun c => !c.isDigit) = true)
      (by simp [Ok])
  | num _ => inferInstanceAs (Decidable True)

theorem isDigit_of_mem_num {n : Nat} {c : Char} (h : c ∈ (num n).text.toList) : c.isDigit = true :=
  Nat.isDigit_of_mem_toDigits (b := 10) (by decide) (by decide) (by simpa [text] using h)

theorem Ok.no_underscore {t : NameToken} (h : t.Ok) : '_' ∉ t.text.toList := by
  cases t with
  | word text => exact h.1
  | num n =>
    intro hmem
    have := isDigit_of_mem_num hmem
    revert this
    decide

theorem text_inj {a b : NameToken} (ha : a.Ok) (hb : b.Ok) (h : a.text = b.text) : a = b := by
  cases a with
  | word u =>
    cases b with
    | word v => rw [show u = v from h]
    | num n =>
      obtain ⟨c, hc, hdigit⟩ := ha.2
      rw [show u = (num n).text from h] at hc
      rw [isDigit_of_mem_num hc] at hdigit
      cases hdigit
  | num m =>
    cases b with
    | word v =>
      obtain ⟨c, hc, hdigit⟩ := hb.2
      rw [← show (num m).text = v from h] at hc
      rw [isDigit_of_mem_num hc] at hdigit
      cases hdigit
    | num n =>
      have hlist : Nat.toDigits 10 m = Nat.toDigits 10 n := by
        simpa [text] using congrArg String.toList h
      have hnum : m = n := by
        calc
          m = Nat.ofDigitChars 10 (Nat.toDigits 10 m) 0 := Nat.ofDigitChars_ten_toDigits.symm
          _ = Nat.ofDigitChars 10 (Nat.toDigits 10 n) 0 := by rw [hlist]
          _ = n := Nat.ofDigitChars_ten_toDigits
      rw [hnum]

end NameToken

open NameToken in
/-- The tokens of a name, in the order they are printed. -/
def RelName.tokens : RelName → List NameToken
  | graph g .vertexLabelIdSeq => [word "vertex", word "label", word "id", word "seq", num g]
  | graph g .vertexLabel => [word "np", word "vertex", word "label", num g]
  | graph g .vertexLabelBtreeIdx =>
    [word "np", word "vertex", word "label", num g, word "btree", word "idx"]
  | graph g .vertexLabelGistIdx =>
    [word "np", word "vertex", word "label", num g, word "gist", word "idx"]
  | graph g .edgeLabelIdSeq => [word "edge", word "label", word "id", word "seq", num g]
  | graph g .edgeLabel => [word "np", word "edge", word "label", num g]
  | graph g .edgeLabelBtreeIdx => [word "np", word "edge", word "label", num g, word "btree", word "idx"]
  | graph g .edgeLabelGistIdx => [word "np", word "edge", word "label", num g, word "gist", word "idx"]
  | graph g .annotationSchema => [word "np", word "annotation", word "schema", num g]
  | graph g .annotationSchemaPhysMap =>
    [word "np", word "annotation", word "schema", word "phys", word "map", num g]
  | graph g .labelCatalog => [word "np", word "label", word "catalog", num g]
  | graph g .labelCatalogIdx => [word "np", word "label", word "catalog", num g, word "idx"]
  | vertex g l .tbl => [word "np", word "vertex", num g, num l]
  | vertex g l .physMap => [word "np", word "vertex", num g, num l, word "phys", word "map"]
  | vertex g l .arraylist => [word "np", word "vertex", num g, num l, word "arraylist"]
  | vertex g l .linkedListSeq =>
    [word "np", word "vertex", num g, num l, word "linked", word "list", word "seq"]
  | vertex g l (.linkedList p) =>
    [word "np", word "vertex", num g, num l, num p, word "linked", word "list"]
  | vertex g l .linkedListMeta =>
    [word "np", word "vertex", num g, num l, word "linked", word "list", word "meta"]
  | vertex g l .annotations => [word "np", word "vertex", num g, num l, word "annotations"]
  | vertex g l .idSeq => [word "np", word "vertex", word "id", word "seq", num g, num l]
  | vertex g l .dictionary => [word "np", word "vertex", word "property", word "dictionary", num g, num l]
  | vertex g l .dictionarySeq =>
    [word "np", word "vertex", word "property", word "dictionary", word "seq", num g, num l]
  | vertex g l .dictionaryIndex =>
    [word "np", word "vertex", word "property", word "dictionary", word "index", num g, num l]
  | edge g l .tbl => [word "np", word "edge", num g, num l]
  | edge g l .physMap => [word "np", word "edge", num g, num l, word "phys", word "map"]
  | edge g l .annotations => [word "np", word "edge", word "annotations", num g, num l]
  | edge g l .idSeq => [word "np", word "edge", word "id", word "seq", num g, num l]

/-- A name as it is printed. -/
def RelName.text (name : RelName) : String :=
  String.intercalate "_" (name.tokens.map NameToken.text)

open NameToken in
/-- The name of which these are the tokens. -/
def RelName.ofTokens : List NameToken → Option RelName
  | [word "vertex", word "label", word "id", word "seq", num g] => some (graph g .vertexLabelIdSeq)
  | [word "np", word "vertex", word "label", num g] => some (graph g .vertexLabel)
  | [word "np", word "vertex", word "label", num g, word "btree", word "idx"] =>
    some (graph g .vertexLabelBtreeIdx)
  | [word "np", word "vertex", word "label", num g, word "gist", word "idx"] =>
    some (graph g .vertexLabelGistIdx)
  | [word "edge", word "label", word "id", word "seq", num g] => some (graph g .edgeLabelIdSeq)
  | [word "np", word "edge", word "label", num g] => some (graph g .edgeLabel)
  | [word "np", word "edge", word "label", num g, word "btree", word "idx"] =>
    some (graph g .edgeLabelBtreeIdx)
  | [word "np", word "edge", word "label", num g, word "gist", word "idx"] =>
    some (graph g .edgeLabelGistIdx)
  | [word "np", word "annotation", word "schema", num g] => some (graph g .annotationSchema)
  | [word "np", word "annotation", word "schema", word "phys", word "map", num g] =>
    some (graph g .annotationSchemaPhysMap)
  | [word "np", word "label", word "catalog", num g] => some (graph g .labelCatalog)
  | [word "np", word "label", word "catalog", num g, word "idx"] => some (graph g .labelCatalogIdx)
  | [word "np", word "vertex", num g, num l] => some (vertex g l .tbl)
  | [word "np", word "vertex", num g, num l, word "phys", word "map"] => some (vertex g l .physMap)
  | [word "np", word "vertex", num g, num l, word "arraylist"] => some (vertex g l .arraylist)
  | [word "np", word "vertex", num g, num l, word "linked", word "list", word "seq"] =>
    some (vertex g l .linkedListSeq)
  | [word "np", word "vertex", num g, num l, num p, word "linked", word "list"] =>
    some (vertex g l (.linkedList p))
  | [word "np", word "vertex", num g, num l, word "linked", word "list", word "meta"] =>
    some (vertex g l .linkedListMeta)
  | [word "np", word "vertex", num g, num l, word "annotations"] => some (vertex g l .annotations)
  | [word "np", word "vertex", word "id", word "seq", num g, num l] => some (vertex g l .idSeq)
  | [word "np", word "vertex", word "property", word "dictionary", num g, num l] =>
    some (vertex g l .dictionary)
  | [word "np", word "vertex", word "property", word "dictionary", word "seq", num g, num l] =>
    some (vertex g l .dictionarySeq)
  | [word "np", word "vertex", word "property", word "dictionary", word "index", num g, num l] =>
    some (vertex g l .dictionaryIndex)
  | [word "np", word "edge", num g, num l] => some (edge g l .tbl)
  | [word "np", word "edge", num g, num l, word "phys", word "map"] => some (edge g l .physMap)
  | [word "np", word "edge", word "annotations", num g, num l] => some (edge g l .annotations)
  | [word "np", word "edge", word "id", word "seq", num g, num l] => some (edge g l .idSeq)
  | _ => none

namespace RelName

theorem ofTokens_tokens (name : RelName) : ofTokens name.tokens = some name := by
  cases name with
  | graph g rel => cases rel <;> rfl
  | vertex g l rel => cases rel <;> rfl
  | edge g l rel => cases rel <;> rfl

theorem tokens_ok (name : RelName) : ∀ t ∈ name.tokens, t.Ok := by
  have hword : ∀ w ∈ ["np", "vertex", "edge", "label", "id", "seq", "btree", "gist", "idx", "annotation",
      "annotations", "schema", "phys", "map", "catalog", "arraylist", "linked", "list", "meta",
      "property", "dictionary", "index"], (NameToken.word w).Ok := by simp [NameToken.Ok]
  have hnum : ∀ n, (NameToken.num n).Ok := fun _ => trivial
  cases name with
  | graph g rel => cases rel <;> simp [tokens, hnum, hword]
  | vertex g l rel => cases rel <;> simp [tokens, hnum, hword]
  | edge g l rel => cases rel <;> simp [tokens, hnum, hword]

theorem tokens_ne_nil (name : RelName) : name.tokens ≠ [] := by
  intro h
  have := ofTokens_tokens name
  rw [h] at this
  cases this

/-- The texts between the underscores of a name. -/
theorem splitOn_text (name : RelName) :
    name.text.toList.splitOn '_' = name.tokens.map fun t => t.text.toList := by
  have hsep : ("_" : String).toList = ['_'] := by decide
  unfold text
  rw [String.toList_intercalate, hsep, List.map_map]
  refine List.splitOn_intercalate '_' (fun l hl => ?_) fun h => name.tokens_ne_nil (List.map_eq_nil_iff.mp h)
  obtain ⟨t, ht, rfl⟩ := List.mem_map.mp hl
  exact (name.tokens_ok t ht).no_underscore

/-- **Different relations have different names.** -/
theorem text_injective {a b : RelName} (h : a.text = b.text) : a = b := by
  have htexts : (a.tokens.map fun t => t.text.toList) = b.tokens.map fun t => t.text.toList := by
    rw [← splitOn_text, ← splitOn_text, h]
  have htokens : a.tokens = b.tokens := by
    have hok : ∀ (s t : List NameToken), (∀ x ∈ s, x.Ok) → (∀ x ∈ t, x.Ok) →
        (s.map fun x => x.text.toList) = (t.map fun x => x.text.toList) → s = t := by
      intro s
      induction s with
      | nil =>
        intro t _ _ he
        exact (List.map_eq_nil_iff.mp he.symm).symm
      | cons x s ih =>
        intro t hs ht he
        cases t with
        | nil => simp at he
        | cons y t =>
          obtain ⟨hx, hrest⟩ := List.cons.inj he
          rw [NameToken.text_inj (hs x List.mem_cons_self) (ht y List.mem_cons_self)
              (String.toList_inj.mp hx),
            ih t (fun z hz => hs z (List.mem_cons_of_mem _ hz))
              (fun z hz => ht z (List.mem_cons_of_mem _ hz)) hrest]
    exact hok _ _ a.tokens_ok b.tokens_ok htexts
  have := ofTokens_tokens a
  rw [htokens, ofTokens_tokens] at this
  exact (Option.some.inj this).symm

end RelName

end NeoPostGraph
