import NeoPostGraph.Lib.Bytes

/-!
# Gtype values and their tokens

`utils/gtype.h`: the trees that `convert_to_gtype` serializes, and the tokens an iterator yields.

* `GtypeScalar`, `GtypeValue`: a value. A member of a fixed width is its bits, a `Numeric` is the whole
  varlena.
* `GtypeToken`: a token with the value that comes with it. `GtypeValue.tokens`: the token stream.
* `GtypeErr`: the errors of the codec.
* The masks of a `gtentry` and of a container's header are fields of consecutive bits, so they are read
  with `/` and `%` here.

`GTV_BINARY` is what the iterator makes of a nested container; the encoder is never given one.
-/

namespace NeoPostGraph

open Bytes

/-! ## Values -/

/-- A scalar, by its kind in `gtype_value_type`. -/
inductive GtypeScalar where
  | null
  | string (val : List UInt8)
  | numeric (val : List UInt8)
  | integer (val : UInt64)
  | float (val : UInt64)
  | bool (val : Bool)
  | timestamp (val : UInt64)
  | timestamptz (val : UInt64)
  | date (val : UInt32)
  | time (val : UInt64)
  | timetz (time : UInt64) (zone : UInt32)
  | interval (time : UInt64) (day month : UInt32)
  | inet (val : List UInt8)
  | cidr (val : List UInt8)
  | mac (val : List UInt8)
  | mac8 (val : List UInt8)
deriving DecidableEq, Repr

/-- The number of the kind. -/
def GtypeScalar.type : GtypeScalar → Nat
  | null => 0
  | string _ => 1
  | numeric _ => 2
  | integer _ => 3
  | float _ => 4
  | bool _ => 5
  | timestamp _ => 6
  | timestamptz _ => 7
  | date _ => 8
  | time _ => 9
  | timetz .. => 10
  | interval .. => 11
  | inet _ => 12
  | cidr _ => 13
  | mac _ => 14
  | mac8 _ => 15

/-- `GTV_BINARY`. -/
def gtvBinary : Nat := 18

/-- A tree of values. The pairs of an object are in the order `uniqueify_gtype_object` leaves. -/
inductive GtypeValue where
  | scalar (s : GtypeScalar)
  | array (rawScalar : Bool) (elems : List GtypeValue)
  | object (pairs : List (List UInt8 × GtypeValue))

/-- An array or an object. -/
def GtypeValue.IsContainer : GtypeValue → Prop
  | scalar _ => False
  | array .. => True
  | object _ => True

/-- `sizeof(inet)`, with the 4 bytes of its varlena header. -/
def sizeofInet : Nat := 22

/-- `sizeof(macaddr)`. -/
def sizeofMacaddr : Nat := 6

/-- `sizeof(macaddr8)`. -/
def sizeofMacaddr8 : Nat := 8

/-- `VARSIZE` of a varlena with a 4-byte header, from the header. -/
def varsize (header : Nat) : Nat := header / 4 % 2 ^ 30

/-- A string is a C string, a numeric says how long it is and has at least its own header, an address
has its width. -/
def GtypeScalar.WellFormed : GtypeScalar → Prop
  | string val => 0 ∉ val
  | numeric val => 4 < val.length ∧ varsize (value (val.take 4)) = val.length
  | inet val | cidr val => val.length = sizeofInet
  | mac val => val.length = sizeofMacaddr
  | mac8 val => val.length = sizeofMacaddr8
  | _ => True

mutual

/-- Every scalar and every key of the tree is well formed. -/
def GtypeValue.WellFormed : GtypeValue → Prop
  | .scalar s => s.WellFormed
  | .array _ elems => ElemsWellFormed elems
  | .object pairs => PairsWellFormed pairs

def ElemsWellFormed : List GtypeValue → Prop
  | [] => True
  | v :: vs => v.WellFormed ∧ ElemsWellFormed vs

def PairsWellFormed : List (List UInt8 × GtypeValue) → Prop
  | [] => True
  | (key, v) :: pairs => 0 ∉ key ∧ v.WellFormed ∧ PairsWellFormed pairs

end

/-! ## Tokens -/

/-- `gtype_iterator_token`, with the value set for the caller. -/
inductive GtypeToken where
  | key (val : List UInt8)
  | value (s : GtypeScalar)
  | elem (s : GtypeScalar)
  | beginArray (numElems : Nat) (rawScalar : Bool)
  | endArray
  | beginObject (numPairs : Nat)
  | endObject
deriving DecidableEq, Repr

mutual

/-- The token stream of a value; a scalar is an element or a value, by where it stands. -/
def GtypeValue.tokens (scalarToken : GtypeScalar → GtypeToken) : GtypeValue → List GtypeToken
  | .scalar s => [scalarToken s]
  | .array rawScalar elems => .beginArray elems.length rawScalar :: elemTokens elems ++ [.endArray]
  | .object pairs => .beginObject pairs.length :: pairTokens pairs ++ [.endObject]

def elemTokens : List GtypeValue → List GtypeToken
  | [] => []
  | v :: vs => v.tokens .elem ++ elemTokens vs

def pairTokens : List (List UInt8 × GtypeValue) → List GtypeToken
  | [] => []
  | (key, v) :: pairs => .key key :: v.tokens .value ++ pairTokens pairs

end

/-! ## Entries and headers -/

/-- `GTENTRY_OFFLENMASK`. -/
def gtentryOfflenmask : Nat := 0x0FFFFFFF

/-- `GTENTRY_HAS_OFF`. -/
def gtentryHasOff : Nat := 0x80000000

def gtentryIsString : Nat := 0x00000000
def gtentryIsNumeric : Nat := 0x10000000
def gtentryIsBoolFalse : Nat := 0x20000000
def gtentryIsBoolTrue : Nat := 0x30000000
def gtentryIsNull : Nat := 0x40000000
def gtentryIsContainer : Nat := 0x50000000
def gtentryIsGtype : Nat := 0x60000000

/-- `GTE_OFFLENFLD`. -/
def gteOfflenfld (entry : Nat) : Nat := entry % 2 ^ 28

/-- `entry & GTENTRY_TYPEMASK`. -/
def gteTypeBits (entry : Nat) : Nat := entry / 2 ^ 28 % 8 * 2 ^ 28

/-- `GTE_HAS_OFF`. -/
def gteHasOff (entry : Nat) : Bool := decide (entry / 2 ^ 31 % 2 = 1)

/-- `GT_OFFSET_STRIDE`. -/
def gtOffsetStride : Nat := 32

def gtFscalar : Nat := 0x10000000
def gtFobject : Nat := 0x20000000
def gtFarray : Nat := 0x40000000

/-- `header & GT_CMASK`. -/
def containerSize (header : Nat) : Nat := header % 2 ^ 27

/-- `GTYPE_CONTAINER_IS_SCALAR`. -/
def containerIsScalar (header : Nat) : Bool := decide (header / 2 ^ 28 % 2 = 1)

/-- `header & (GT_FARRAY | GT_FOBJECT)`. -/
def containerFlags (header : Nat) : Nat := header / 2 ^ 29 % 4 * 2 ^ 29

def gtHeaderInteger : Nat := 0x0
def gtHeaderFloat : Nat := 0x1
def gtHeaderTimestamp : Nat := 0x2
def gtHeaderTimestamptz : Nat := 0x3
def gtHeaderDate : Nat := 0x4
def gtHeaderTime : Nat := 0x5
def gtHeaderTimetz : Nat := 0x6
def gtHeaderInterval : Nat := 0x7
def gtHeaderInet : Nat := 0x9
def gtHeaderCidr : Nat := 0xA
def gtHeaderMac : Nat := 0xB
def gtHeaderMac8 : Nat := 0xC

/-- `INTALIGN`. -/
def intAlign (n : Nat) : Nat := (n + 3) / 4 * 4

/-! ## Errors -/

/-- The errors of the codec. -/
inductive GtypeErr where
  /-- `enlargeStringInfo`. -/
  | stringBufferTooLong (length needed : Nat)
  /-- `convert_gtype_array`. -/
  | arrayTooLarge
  /-- `convert_gtype_object`. -/
  | objectTooLarge
  /-- `convert_gtype_scalar`. -/
  | invalidScalar (type : Nat)
  /-- `iterator_from_container`. -/
  | unknownContainer (flags : Nat)
  /-- `gtype_iterator_next`. -/
  | unexpectedKey (type : Nat)
  /-- `np_deserialize_extended_type`. -/
  | invalidHeader
  /-- Not raised: a read goes past the end of the buffer. -/
  | pastEnd
deriving DecidableEq, Repr

/-- The text of an error. -/
def GtypeErr.message : GtypeErr → String
  | stringBufferTooLong .. => "string buffer exceeds maximum allowed length (1073741823 bytes)"
  | arrayTooLarge =>
    s!"total size of gtype array elements exceeds the maximum of {gtentryOfflenmask} bytes"
  | objectTooLarge =>
    s!"total size of gtype object elements exceeds the maximum of {gtentryOfflenmask} bytes"
  | invalidScalar type => s!"invalid gtype scalar type {type} to convert"
  | unknownContainer flags => s!"unknown type of gtype container {flags}"
  | unexpectedKey type => s!"unexpected gtype type as object key {type}"
  | invalidHeader => "Invalid AGT header value."
  | pastEnd => ""

end NeoPostGraph
