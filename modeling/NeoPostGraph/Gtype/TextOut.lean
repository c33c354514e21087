import NeoPostGraph.Gtype.LexNumber
import NeoPostGraph.Gtype.LexString
import NeoPostGraph.Gtype.Value

/-!
# `gtype_to_cstring`

`utils/adt/gtype.c:150-222, 442-570`. A gtype is printed from the tokens of its iterator. The state of the
loop is `first`, which says whether a comma is due, and `raw_scalar`, which is set by the array around a
scalar and leaves its brackets out. Nothing calls the worker with `indent` set.

* `ScalarOut`: PostgreSQL's output functions of the scalar types.
* `gtypePutEscapedValue`, `gtypeToCstringWorker`: the printer. `GtypeValue.text`: what it prints.

Result:
* `gtypeToCstringWorker_tokens`: a value without a raw scalar in it is printed, whatever comes behind it.
-/

namespace NeoPostGraph

/-- `elog(ERROR, …)` of the printer. -/
inductive GtypeOutErr where
  /-- `gtype_put_escaped_value`. -/
  | unknownScalarType
  /-- `gtype_to_cstring_worker`. -/
  | unknownTokenType
deriving DecidableEq, Repr

def GtypeOutErr.message : GtypeOutErr → String
  | unknownScalarType => "unknown gtype scalar type"
  | unknownTokenType => "unknown gtype iterator token type"

/-- The output functions of PostgreSQL's types, from the bits of a value to its text. -/
structure ScalarOut where
  numericOut : List UInt8 → List UInt8
  float8out : UInt64 → List UInt8
  timestampOut : UInt64 → List UInt8
  timestamptzOut : UInt64 → List UInt8
  dateOut : UInt32 → List UInt8
  timeOut : UInt64 → List UInt8
  timetzOut : UInt64 → UInt32 → List UInt8
  intervalOut : UInt64 → UInt32 → UInt32 → List UInt8
  inetOut : List UInt8 → List UInt8
  cidrOut : List UInt8 → List UInt8
  macaddrOut : List UInt8 → List UInt8
  macaddr8Out : List UInt8 → List UInt8

/-- The decimal digits of a number. -/
def decimalText (n : Nat) : List UInt8 := (Nat.toDigits 10 n).map fun c => UInt8.ofNat c.toNat

/-- `int8out`, of the bits of an `int64`. -/
def int8out (val : UInt64) : List UInt8 :=
  if val.toNat < 2 ^ 63 then decimalText val.toNat else 45 :: decimalText (2 ^ 64 - val.toNat)

/-- `gtype_put_escaped_value` (`gtype.c:150-222`). -/
def gtypePutEscapedValue (o : ScalarOut) : GtypeScalar → List UInt8
  | .null => ascii "null"
  | .string val => escapeGtype val
  | .numeric val => o.numericOut val
  | .integer val => int8out val
  | .float val => o.float8out val
  | .bool val => if val then ascii "true" else ascii "false"
  | .timestamp val => o.timestampOut val
  | .timestamptz val => o.timestamptzOut val
  | .date val => o.dateOut val
  | .time val => o.timeOut val
  | .timetz time zone => o.timetzOut time zone
  | .interval time day month => o.intervalOut time day month
  | .inet val => o.inetOut val
  | .cidr val => o.cidrOut val
  | .mac val => o.macaddrOut val
  | .mac8 val => o.macaddr8Out val

/-- `, ` unless it is the first. -/
def comma (first : Bool) : List UInt8 := if first then [] else [44, 32]

/-- `gtype_to_cstring_worker` (`gtype.c:459-562`), with `indent` false. Behind a key the next token is
taken at once if it is a scalar; the switch is redone for another one. -/
def gtypeToCstringWorker (o : ScalarOut) : Bool → Bool → List GtypeToken → Except GtypeOutErr (List UInt8)
  | _, _, [] => .ok []
  | first, rawScalar, .beginArray _ raw :: ts =>
    (gtypeToCstringWorker o true (rawScalar || raw) ts).map fun text =>
      comma first ++ (if raw then [] else [91]) ++ text
  | first, rawScalar, .beginObject _ :: ts =>
    (gtypeToCstringWorker o true rawScalar ts).map fun text => comma first ++ [123] ++ text
  | first, rawScalar, .key val :: .value s :: ts =>
    (gtypeToCstringWorker o false rawScalar ts).map fun text =>
      comma first ++ escapeGtype val ++ [58, 32] ++ gtypePutEscapedValue o s ++ text
  | first, rawScalar, .key val :: ts =>
    (gtypeToCstringWorker o true rawScalar ts).map fun text =>
      comma first ++ escapeGtype val ++ [58, 32] ++ text
  | first, rawScalar, .elem s :: ts =>
    (gtypeToCstringWorker o false rawScalar ts).map fun text =>
      comma first ++ gtypePutEscapedValue o s ++ text
  | _, rawScalar, .endArray :: ts =>
    (gtypeToCstringWorker o false rawScalar ts).map fun text => (if rawScalar then [] else [93]) ++ text
  | _, rawScalar, .endObject :: ts =>
    (gtypeToCstringWorker o false rawScalar ts).map fun text => [125] ++ text
  | _, _, .value _ :: _ => .error .unknownTokenType

/-- `gtype_to_cstring`, of a container. -/
def gtypeToCstring (o : ScalarOut) (v : GtypeValue) : Except GtypeOutErr (List UInt8) :=
  gtypeToCstringWorker o true false (v.tokens .elem)

mutual

/-- The text of a value. -/
def GtypeValue.text (o : ScalarOut) : GtypeValue → List UInt8
  | .scalar s => gtypePutEscapedValue o s
  | .array _ elems => [91] ++ elemsText o true elems ++ [93]
  | .object pairs => [123] ++ pairsText o true pairs ++ [125]

def elemsText (o : ScalarOut) (first : Bool) : List GtypeValue → List UInt8
  | [] => []
  | v :: vs => comma first ++ v.text o ++ elemsText o false vs

def pairsText (o : ScalarOut) (first : Bool) : List (List UInt8 × GtypeValue) → List UInt8
  | [] => []
  | (key, v) :: pairs => comma first ++ escapeGtype key ++ [58, 32] ++ v.text o ++ pairsText o false pairs

end

mutual

/-- No array of the value is the one around a raw scalar. -/
def GtypeValue.NoRawScalar : GtypeValue → Prop
  | .scalar _ => True
  | .array rawScalar elems => rawScalar = false ∧ ElemsNoRawScalar elems
  | .object pairs => PairsNoRawScalar pairs

def ElemsNoRawScalar : List GtypeValue → Prop
  | [] => True
  | v :: vs => v.NoRawScalar ∧ ElemsNoRawScalar vs

def PairsNoRawScalar : List (List UInt8 × GtypeValue) → Prop
  | [] => True
  | (_, v) :: pairs => v.NoRawScalar ∧ PairsNoRawScalar pairs

end

section

variable {o : ScalarOut} {first : Bool} {rest : List GtypeToken} {key : List UInt8}

theorem map_map_ok {ε α β γ : Type} (x : Except ε α) (f : α → β) (g : β → γ) :
    (x.map f).map g = x.map fun a => g (f a) := by
  cases x <;> rfl

/-- Behind a key, a container is printed as one that comes first. -/
theorem worker_key_container {v : GtypeValue} (hv : v.IsContainer) :
    gtypeToCstringWorker o first false (.key key :: (v.tokens .value ++ rest)) =
      (gtypeToCstringWorker o true false (v.tokens .elem ++ rest)).map fun text =>
        comma first ++ escapeGtype key ++ [58, 32] ++ text := by
  cases v with
  | scalar s => cases hv
  | array rawScalar elems =>
    simp only [GtypeValue.tokens, List.cons_append]
    rfl
  | object pairs =>
    simp only [GtypeValue.tokens, List.cons_append]
    rfl

mutual

/-- **A value is printed as its text**, and then what comes behind it. -/
theorem gtypeToCstringWorker_tokens (o : ScalarOut) (first : Bool) (rest : List GtypeToken) :
    (v : GtypeValue) → v.NoRawScalar →
    gtypeToCstringWorker o first false (v.tokens .elem ++ rest) =
      (gtypeToCstringWorker o false false rest).map fun text => comma first ++ v.text o ++ text
  | .scalar s, _ => by
    rw [GtypeValue.tokens, GtypeValue.text, List.singleton_append, gtypeToCstringWorker]
  | .array rawScalar elems, h => by
    obtain ⟨rfl, helems⟩ := h
    rw [GtypeValue.tokens, GtypeValue.text, List.cons_append, List.cons_append, gtypeToCstringWorker,
      Bool.or_false, List.append_assoc, List.singleton_append, worker_elems o true _ elems helems]
    simp only [map_map_ok, Bool.false_eq_true, if_false, List.append_assoc]
  | .object pairs, h => by
    rw [GtypeValue.tokens, GtypeValue.text, List.cons_append, List.cons_append, gtypeToCstringWorker,
      List.append_assoc, List.singleton_append, worker_pairs o true _ pairs h]
    simp only [map_map_ok, List.append_assoc]

theorem worker_elems (o : ScalarOut) (first : Bool) (rest : List GtypeToken) :
    (vs : List GtypeValue) → ElemsNoRawScalar vs →
    gtypeToCstringWorker o first false (elemTokens vs ++ .endArray :: rest) =
      (gtypeToCstringWorker o false false rest).map fun text => elemsText o first vs ++ [93] ++ text
  | [], _ => by
    rw [elemTokens, elemsText, List.nil_append, gtypeToCstringWorker]
    rfl
  | v :: vs, h => by
    rw [elemTokens, elemsText, List.append_assoc, gtypeToCstringWorker_tokens o first _ v h.1,
      worker_elems o false rest vs h.2]
    simp only [map_map_ok, List.append_assoc]

theorem worker_pairs (o : ScalarOut) (first : Bool) (rest : List GtypeToken) :
    (pairs : List (List UInt8 × GtypeValue)) → PairsNoRawScalar pairs →
    gtypeToCstringWorker o first false (pairTokens pairs ++ .endObject :: rest) =
      (gtypeToCstringWorker o false false rest).map fun text => pairsText o first pairs ++ [125] ++ text
  | [], _ => by
    rw [pairTokens, pairsText, List.nil_append, gtypeToCstringWorker]
    rfl
  | (key, .scalar s) :: pairs, h => by
    rw [pairTokens, pairsText, GtypeValue.tokens, GtypeValue.text, List.cons_append, List.singleton_append,
      List.cons_append, List.cons_append, gtypeToCstringWorker, worker_pairs o false rest pairs h.2]
    simp only [map_map_ok, List.append_assoc]
  | (key, .array rawScalar elems) :: pairs, h => by
    have hv : (GtypeValue.array rawScalar elems).IsContainer := trivial
    rw [pairTokens, pairsText]
    simp only [List.cons_append, List.append_assoc]
    rw [worker_key_container hv, gtypeToCstringWorker_tokens o true _ _ h.1,
      worker_pairs o false rest pairs h.2]
    simp only [map_map_ok, List.append_assoc]
    rfl
  | (key, .object ps) :: pairs, h => by
    have hv : (GtypeValue.object ps).IsContainer := trivial
    rw [pairTokens, pairsText]
    simp only [List.cons_append, List.append_assoc]
    rw [worker_key_container hv, gtypeToCstringWorker_tokens o true _ _ h.1,
      worker_pairs o false rest pairs h.2]
    simp only [map_map_ok, List.append_assoc]
    rfl

end

/-- The text of a container without a raw scalar in it. -/
theorem gtypeToCstring_eq_text {v : GtypeValue} (h : v.NoRawScalar) :
    gtypeToCstring o v = .ok (v.text o) := by
  have htokens := gtypeToCstringWorker_tokens o true [] v h
  rw [List.append_nil] at htokens
  unfold gtypeToCstring
  rw [htokens, gtypeToCstringWorker]
  show Except.ok ([] ++ v.text o ++ []) = Except.ok _
  rw [List.append_nil, List.nil_append]

end

end NeoPostGraph
