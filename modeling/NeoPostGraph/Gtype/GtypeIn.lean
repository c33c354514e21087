import NeoPostGraph.Gtype.Encode
import NeoPostGraph.Gtype.Parse
import NeoPostGraph.Gtype.Uniqueify

/-!
# `gtype_in`

`utils/adt/gtype.c:46-145, 269-439` and `utils/adt/gtype_util.c:192-397`. The callbacks of the parser push
what they are called with on a stack of the containers that are being built; the end of a container hands it
to the one around it. A scalar that stands alone becomes the only element of a raw scalar array.

* `ScalarIn`: PostgreSQL's input functions of the scalar types.
* `ParseFrame`: a container that is being built. `pushGtypeValue`: a push.
* `gtypeInAction`: the callbacks. Those for the ends of fields and for elements are NULL.
* `gtypeIn`: from the text to the bytes.
-/

namespace NeoPostGraph

/-! ## Scalars -/

/-- The input functions of PostgreSQL's types, from a C string to the bits of a value, or an error. -/
structure ScalarIn where
  /-- `pg_strtoint64_safe`. -/
  strtoint64 : List UInt8 → Option UInt64
  /-- `float8in_internal`. -/
  float8in : List UInt8 → Option UInt64
  numericIn : List UInt8 → Option (List UInt8)
  timestampIn : List UInt8 → Option UInt64
  timestamptzIn : List UInt8 → Option UInt64
  dateIn : List UInt8 → Option UInt32
  timeIn : List UInt8 → Option UInt64
  timetzIn : List UInt8 → Option (UInt64 × UInt32)
  intervalIn : List UInt8 → Option (UInt64 × UInt32 × UInt32)
  inetIn : List UInt8 → Option (List UInt8)
  cidrIn : List UInt8 → Option (List UInt8)
  macaddrIn : List UInt8 → Option (List UInt8)
  macaddr8In : List UInt8 → Option (List UInt8)

/-- What the callbacks raise. -/
inductive GtypeInErr where
  /-- `check_string_length`. -/
  | stringTooLong
  /-- `append_element`. -/
  | tooManyElems
  /-- `append_key`. -/
  | tooManyPairs
  /-- `repalloc`. -/
  | invalidAllocSize (size : Nat)
  /-- `gtype_in_scalar`. -/
  | invalidAnnotation
  /-- `gtype_in_scalar`. -/
  | invalidTokenType
  /-- The input function of a type. -/
  | invalidInput (tokentype : TokenType)
  /-- Not raised: a key or a value where there is none in the grammar, against an assertion. -/
  | misplaced
deriving DecidableEq, Repr

/-- `sizeof(gtype_value)`. -/
def sizeofGtypeValue : Nat := 32

/-- `sizeof(gtype_pair)`. -/
def sizeofGtypePair : Nat := 72

/-- `GTYPE_MAX_ELEMS`. -/
def gtypeMaxElems : Nat := min (maxAllocSize / sizeofGtypeValue) 0x07FFFFFF

/-- `GTYPE_MAX_PAIRS`. -/
def gtypeMaxPairs : Nat := min (maxAllocSize / sizeofGtypePair) 0x07FFFFFF

/-- The text of an error; that of an input function is PostgreSQL's. -/
def GtypeInErr.message : GtypeInErr → String
  | stringTooLong => "string too long to represent as gtype string"
  | tooManyElems => s!"number of gtype array elements exceeds the maximum allowed ({gtypeMaxElems})"
  | tooManyPairs => s!"number of gtype object pairs exceeds the maximum allowed ({gtypeMaxPairs})"
  | invalidAllocSize size => s!"invalid memory alloc request size {size}"
  | invalidAnnotation => "invalid annotation value for scalar"
  | invalidTokenType => "invalid gtype token type"
  | invalidInput _ => ""
  | misplaced => ""

/-- `check_string_length`, of the string. -/
def checkStringLength (str : List UInt8) : Except GtypeInErr (List UInt8) :=
  if gtentryOfflenmask < str.length then .error .stringTooLong else .ok str

/-- The type that an annotation names. -/
def annotationType ( annotation : List UInt8) : Except GtypeInErr TokenType :=
  if eqIgnoreCase annotation (ascii "numeric") then .ok .numeric
  else if eqIgnoreCase annotation (ascii "integer") || eqIgnoreCase annotation (ascii "int") then .ok .integer
  else if eqIgnoreCase annotation (ascii "float") then .ok .float
  else if eqIgnoreCase annotation (ascii "timestamp") then .ok .timestamp
  else if eqIgnoreCase annotation (ascii "timestamptz") then .ok .timestamptz
  else if eqIgnoreCase annotation (ascii "date") then .ok .date
  else if eqIgnoreCase annotation (ascii "time") then .ok .time
  else if eqIgnoreCase annotation (ascii "timetz") then .ok .timetz
  else if eqIgnoreCase annotation (ascii "interval") then .ok .interval
  else if eqIgnoreCase annotation (ascii "inet") then .ok .inet
  else if eqIgnoreCase annotation (ascii "cidr") then .ok .cidr
  else if eqIgnoreCase annotation (ascii "macaddr") then .ok .macaddr
  else if eqIgnoreCase annotation (ascii "macaddr8") then .ok .macaddr8
  else if eqIgnoreCase annotation (ascii "text") then .ok .string
  else .error GtypeInErr.invalidAnnotation

/-- The typecast of `gtype_in_scalar`; a null stays a null. -/
def castType (tokentype : TokenType) : Option (List UInt8) → Except GtypeInErr TokenType
  | none => .ok tokentype
  | some annotation => if tokentype = .nullToken then .ok tokentype else annotationType annotation

/-- What an input function makes of a token. -/
def inputScalar {α : Type} (tokentype : TokenType) (make : α → GtypeScalar) (val : Option α) :
    Except GtypeInErr GtypeScalar :=
  match val with
  | some val => .ok (make val)
  | none => .error (.invalidInput tokentype)

/-- The switch of `gtype_in_scalar` over the token type. -/
def scalarOfToken (io : ScalarIn) (token : List UInt8) : TokenType → Except GtypeInErr GtypeScalar
  | .string => (checkStringLength token).map .string
  | .integer => inputScalar .integer .integer (io.strtoint64 token)
  | .float => inputScalar .float .float (io.float8in token)
  | .numeric => inputScalar .numeric .numeric (io.numericIn token)
  | .timestamp => inputScalar .timestamp .timestamp (io.timestampIn token)
  | .timestamptz => inputScalar .timestamptz .timestamptz (io.timestamptzIn token)
  | .date => inputScalar .date .date (io.dateIn token)
  | .time => inputScalar .time .time (io.timeIn token)
  | .timetz => inputScalar .timetz (fun t => .timetz t.1 t.2) (io.timetzIn token)
  | .interval => inputScalar .interval (fun t => .interval t.1 t.2.1 t.2.2) (io.intervalIn token)
  | .inet => inputScalar .inet .inet (io.inetIn token)
  | .cidr => inputScalar .cidr .cidr (io.cidrIn token)
  | .macaddr => inputScalar .macaddr .mac (io.macaddrIn token)
  | .macaddr8 => inputScalar .macaddr8 .mac8 (io.macaddr8In token)
  | .trueToken => .ok (.bool true)
  | .falseToken => .ok (.bool false)
  | .nullToken => .ok .null
  | _ => .error .invalidTokenType

/-! ## The stack -/

/-- `gtype_parse_state`: a container that is being built, with the size of its array. An object may have a
key whose value is still to come. -/
inductive ParseFrame where
  | array (rawScalar : Bool) (elems : List GtypeValue) (size : Nat)
  | object (pairs : List GtypePair) (key : Option (List UInt8)) (size : Nat)

/-- The `cont_val` of a frame. -/
def ParseFrame.contVal : ParseFrame → GtypeValue
  | array rawScalar elems _ => .array rawScalar elems
  | object pairs _ _ => .object (pairs.map fun p => (p.key, p.value))

/-- The `repalloc` of an array that is full. -/
def growSize (width num size : Nat) : Except GtypeInErr Nat :=
  if num < size then .ok size
  else if maxAllocSize < width * (size * 2) then .error (.invalidAllocSize (width * (size * 2)))
  else .ok (size * 2)

/-- `append_key` (`gtype_util.c:341-363`). -/
def appendKey (frame : ParseFrame) (string : List UInt8) : Except GtypeInErr ParseFrame :=
  match frame with
  | .object pairs _ size =>
    if gtypeMaxPairs ≤ pairs.length then .error .tooManyPairs
    else (growSize sizeofGtypePair pairs.length size).map (.object pairs (some string))
  | .array .. => .error .misplaced

/-- `append_value` (`gtype_util.c:365-375`). -/
def appendValue (frame : ParseFrame) (val : GtypeValue) : Except GtypeInErr ParseFrame :=
  match frame with
  | .object pairs (some key) size => .ok (.object (pairs ++ [⟨key, val, pairs.length⟩]) none size)
  | _ => .error .misplaced

/-- `append_element` (`gtype_util.c:377-397`). -/
def appendElement (frame : ParseFrame) (val : GtypeValue) : Except GtypeInErr ParseFrame :=
  match frame with
  | .array rawScalar elems size =>
    if gtypeMaxElems ≤ elems.length then .error .tooManyElems
    else (growSize sizeofGtypeValue elems.length size).map (.array rawScalar (elems ++ [val]))
  | .object .. => .error .misplaced

/-- By the type of the container, an element or a value. -/
def appendChild (frame : ParseFrame) (val : GtypeValue) : Except GtypeInErr ParseFrame :=
  match frame with
  | .array .. => appendElement frame val
  | .object .. => appendValue frame val

/-- What is pushed. `WGT_BEGIN_ARRAY` may come with a pseudo array: its `raw_scalar` and its `num_elems`. -/
inductive PushToken where
  | key (val : List UInt8)
  | value (val : GtypeValue)
  | elem (val : GtypeValue)
  | beginArray (array : Option (Bool × Nat))
  | endArray
  | beginObject
  | endObject

section

variable (qsortArg : (n : Nat) → Sorter (Fin n))

/-- `uniqueify_gtype_object`, of the container of a frame. -/
def ParseFrame.uniqueify : ParseFrame → ParseFrame
  | object pairs key size => object (uniqueifyGtypeObject qsortArg pairs) key size
  | frame => frame

/-- The end of a container: it becomes a child of the one around it. -/
def popState (frame : ParseFrame) : List ParseFrame →
    Except GtypeInErr (List ParseFrame × Option GtypeValue)
  | [] => .ok ([], some frame.contVal)
  | parent :: frames => (appendChild parent frame.contVal).map fun parent =>
    (parent :: frames, some frame.contVal)

/-- `push_gtype_value` (`gtype_util.c:215-330`): the stack, and the container that begins or ends. -/
def pushGtypeValue (frames : List ParseFrame) (seq : PushToken) :
    Except GtypeInErr (List ParseFrame × Option GtypeValue) :=
  match seq, frames with
  | .beginArray array, frames =>
    let rawScalar := (array.map Prod.fst).getD false
    let numElems := (array.map Prod.snd).getD 0
    .ok (.array rawScalar [] (if 0 < numElems then numElems else 4) :: frames, some (.array rawScalar []))
  | .beginObject, frames => .ok (.object [] none 4 :: frames, some (.object []))
  | .key val, frame :: frames => (appendKey frame val).map fun frame => (frame :: frames, none)
  | .value val, frame :: frames => (appendValue frame val).map fun frame => (frame :: frames, none)
  | .elem val, frame :: frames => (appendElement frame val).map fun frame => (frame :: frames, none)
  | .endObject, frame :: frames => popState (frame.uniqueify qsortArg) frames
  | .endArray, frame :: frames => popState frame frames
  | _, [] => .error .misplaced

/-! ## The callbacks -/

/-- `gtype_in_state`. -/
structure GtypeInState where
  parseState : List ParseFrame
  res : Option GtypeValue

/-- A push, with the result in `res`. -/
def GtypeInState.push (st : GtypeInState) (seq : PushToken) : Except GtypeInErr GtypeInState :=
  (pushGtypeValue qsortArg st.parseState seq).map fun pushed => ⟨pushed.1, pushed.2⟩

/-- `gtype_in_scalar` (`gtype.c:269-439`). -/
def gtypeInScalar (io : ScalarIn) (st : GtypeInState) (token : List UInt8) (tokentype : TokenType)
    ( annotation : Option (List UInt8)) : Except GtypeInErr GtypeInState := do
  let tokentype ← castType tokentype annotation
  let v ← scalarOfToken io token tokentype
  match st.parseState with
  | [] =>
    let st ← st.push qsortArg (.beginArray (some (true, 1)))
    let st ← st.push qsortArg (.elem (.scalar v))
    st.push qsortArg .endArray
  | .array .. :: _ => st.push qsortArg (.elem (.scalar v))
  | .object .. :: _ => st.push qsortArg (.value (.scalar v))

/-- The callbacks (`gtype.c:63-145`). -/
def gtypeInAction (io : ScalarIn) (event : SemEvent) (st : GtypeInState) :
    Except GtypeInErr GtypeInState :=
  match event with
  | .objectStart => st.push qsortArg .beginObject
  | .objectEnd => st.push qsortArg .endObject
  | .arrayStart => st.push qsortArg (.beginArray none)
  | .arrayEnd => st.push qsortArg .endArray
  | .objectFieldStart fname _ => (checkStringLength fname).bind fun fname => st.push qsortArg (.key fname)
  | .objectFieldEnd .. => .ok st
  | .arrayElementStart _ => .ok st
  | .arrayElementEnd _ => .ok st
  | .scalar token tokentype annot => gtypeInScalar qsortArg io st token tokentype annot

/-! ## From text to bytes -/

/-- What `gtype_in` raises. -/
inductive GtypeTextErr where
  | parse (e : ParseErr GtypeInErr)
  | convert (e : GtypeErr)
  /-- Not raised: a parse that ends has pushed a value. -/
  | noResult

/-- What is stored for a value: a scalar is the element of a raw scalar array. -/
def GtypeValue.stored : GtypeValue → GtypeValue
  | scalar s => .array true [.scalar s]
  | v => v

/-- `gtype_value_to_gtype` (`gtype_util.c:59-88`). -/
def gtypeValueToGtype (g : Memory) (val : GtypeValue) : Except GtypeErr (List UInt8) :=
  convertToGtype g val.stored

/-- `gtype_in`, with `gtype_from_cstring` (`gtype.c:46-86`): `str` is what stands before the NUL. -/
def gtypeIn (g : Memory) (utf8 : Bool) (io : ScalarIn) (str : List UInt8) :
    Except GtypeTextErr (List UInt8) := do
  let st ← (parseGtype utf8 (gtypeInAction qsortArg io) str ⟨[], none⟩).mapError GtypeTextErr.parse
  match st.res with
  | some res => (gtypeValueToGtype g res).mapError GtypeTextErr.convert
  | none => .error .noResult

end

end NeoPostGraph
