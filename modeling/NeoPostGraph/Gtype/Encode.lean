import NeoPostGraph.Gtype.Value
import NeoPostGraph.Postgres.Varlena

/-!
# `convert_to_gtype`

`utils/adt/gtype_util.c:565-1051` and `utils/adt/gtype_ext.c:39-167`. A value is appended to a string
buffer: a container reserves room for its entries, converts its children behind them, and fills in one
entry after the other with the length that the child's conversion reports.

Reserved bytes hold what memory held before they are written: `g` gives it, by the place in the buffer.
-/

namespace NeoPostGraph

open Bytes

/-- The bytes of a string buffer in use. -/
abbrev StringInfo := List UInt8

/-- What the memory behind a buffer holds. -/
abbrev Memory := Nat → UInt8

variable (g : Memory)

/-! ## The buffer -/

/-- `reserve_from_buffer` (`gtype_util.c:656-676`), with `enlargeStringInfo`; the offset it returns is
the length before. -/
def reserveFromBuffer (buffer : StringInfo) (len : Nat) : Except GtypeErr StringInfo :=
  if maxAllocSize - buffer.length ≤ len then .error (.stringBufferTooLong buffer.length len)
  else .ok (buffer ++ (List.range len).map fun k => g (buffer.length + k))

/-- `copy_to_buffer` (`gtype_util.c:681-684`). -/
def copyToBuffer (buffer : StringInfo) (offset : Nat) (data : List UInt8) : StringInfo :=
  buffer.take offset ++ (data ++ buffer.drop (offset + data.length))

/-- `append_to_buffer` (`gtype_util.c:689-695`). -/
def appendToBuffer (buffer : StringInfo) (data : List UInt8) : Except GtypeErr StringInfo := do
  let reserved ← reserveFromBuffer g buffer data.length
  return copyToBuffer reserved buffer.length data

/-- `pad_buffer_to_int` (`gtype_util.c:701-716`), with the number of padding bytes. -/
def padBufferToInt (buffer : StringInfo) : Except GtypeErr (StringInfo × Nat) := do
  let padlen := intAlign buffer.length - buffer.length
  let reserved ← reserveFromBuffer g buffer padlen
  return (copyToBuffer reserved buffer.length (List.replicate padlen 0), padlen)

/-! ## Scalars -/

/-- `np_serialize_header` (`gtype_ext.c:23-33`). -/
def npSerializeHeader (buffer : StringInfo) (type : Nat) : Except GtypeErr (StringInfo × Nat) := do
  let (padded, padlen) ← padBufferToInt g buffer
  let reserved ← reserveFromBuffer g padded 4
  return (copyToBuffer reserved padded.length (le 4 type), padlen)

/-- The part the kinds of `np_serialize_extended_type` share: the header, room for `numlen` bytes, and
the data at its start. -/
def serializeData (buffer : StringInfo) (type numlen : Nat) (data : List UInt8) :
    Except GtypeErr (StringInfo × Nat) := do
  let (header, padlen) ← npSerializeHeader g buffer type
  let reserved ← reserveFromBuffer g header numlen
  return (copyToBuffer reserved header.length data, padlen)

/-- `np_serialize_extended_type` (`gtype_ext.c:39-167`). The length of a timestamp leaves out the
padding. -/
def npSerializeExtendedType (buffer : StringInfo) : GtypeScalar → Except GtypeErr (StringInfo × Nat)
  | .integer val => do
    let (buffer, padlen) ← serializeData g buffer gtHeaderInteger 8 (le 8 val.toNat)
    return (buffer, gtentryIsGtype ||| (padlen + 8 + 4))
  | .float val => do
    let (buffer, padlen) ← serializeData g buffer gtHeaderFloat 8 (le 8 val.toNat)
    return (buffer, gtentryIsGtype ||| (padlen + 8 + 4))
  | .timestamp val => do
    let (buffer, _) ← serializeData g buffer gtHeaderTimestamp 8 (le 8 val.toNat)
    return (buffer, gtentryIsGtype ||| (8 + 4))
  | .timestamptz val => do
    let (buffer, padlen) ← serializeData g buffer gtHeaderTimestamptz 8 (le 8 val.toNat)
    return (buffer, gtentryIsGtype ||| (padlen + 8 + 4))
  | .date val => do
    let (buffer, padlen) ← serializeData g buffer gtHeaderDate 4 (le 4 val.toNat)
    return (buffer, gtentryIsGtype ||| (padlen + 4 + 4))
  | .time val => do
    let (buffer, padlen) ← serializeData g buffer gtHeaderTime 8 (le 8 val.toNat)
    return (buffer, gtentryIsGtype ||| (padlen + 8 + 4))
  | .timetz time zone => do
    -- `sizeof(TimeTzADT)` counts the padding of the struct
    let (buffer, padlen) ←
      serializeData g buffer gtHeaderTimetz 16 (le 8 time.toNat ++ le 4 zone.toNat)
    return (buffer, gtentryIsGtype ||| (padlen + 16 + 4))
  | .interval time day month => do
    let (buffer, padlen) ← serializeData g buffer gtHeaderInterval 16
      (le 8 time.toNat ++ (le 4 day.toNat ++ le 4 month.toNat))
    return (buffer, gtentryIsGtype ||| (padlen + 16 + 4))
  | .inet val => do
    let (buffer, padlen) ← serializeData g buffer gtHeaderInet 22 val
    return (buffer, gtentryIsGtype ||| (padlen + 22 + 4))
  | .cidr val => do
    let (buffer, padlen) ← serializeData g buffer gtHeaderCidr 22 val
    return (buffer, gtentryIsGtype ||| (padlen + 22 + 4))
  | .mac val => do
    let (buffer, padlen) ← serializeData g buffer gtHeaderMac 6 val
    return (buffer, gtentryIsGtype ||| (padlen + 6 + 4))
  | .mac8 val => do
    let (buffer, padlen) ← serializeData g buffer gtHeaderMac8 8 val
    return (buffer, gtentryIsGtype ||| (padlen + 8 + 4))
  | s => .error (.invalidScalar s.type)

/-- `convert_gtype_scalar` (`gtype_util.c:986-1026`): the buffer, and the child's entry. -/
def convertGtypeScalar (buffer : StringInfo) : GtypeScalar → Except GtypeErr (StringInfo × Nat)
  | .null => return (buffer, gtentryIsNull)
  | .string val => do
    let buffer ← appendToBuffer g buffer val
    return (buffer, val.length)
  | .numeric val => do
    let (buffer, padlen) ← padBufferToInt g buffer
    let buffer ← appendToBuffer g buffer val
    return (buffer, gtentryIsNumeric ||| (padlen + val.length))
  | .bool val => return (buffer, if val then gtentryIsBoolTrue else gtentryIsBoolFalse)
  | s => npSerializeExtendedType g buffer s

/-! ## Containers -/

/-- The start of a container: padding, the header, and room for the entries. -/
def beginContainer (buffer : StringInfo) (header numEntries : Nat) : Except GtypeErr StringInfo := do
  let (buffer, _) ← padBufferToInt g buffer
  let buffer ← appendToBuffer g buffer (le 4 header)
  reserveFromBuffer g buffer (4 * numEntries)

/-- The end of an iteration of the loops over children: add up the lengths, and fill in the entry, every
32nd with the end of the child in place of its length. -/
def storeEntry (e : GtypeErr) (buffer : StringInfo) (entryOffset i totallen entry : Nat) :
    Except GtypeErr (StringInfo × Nat) :=
  let totallen := totallen + gteOfflenfld entry
  if gtentryOfflenmask < totallen then .error e
  else
    let entry := if i % gtOffsetStride = 0 then gteTypeBits entry ||| totallen ||| gtentryHasOff
      else entry
    .ok (copyToBuffer buffer entryOffset (le 4 entry), totallen)

/-- The end of a container: its entry, with everything that was appended as its length. -/
def endContainer (e : GtypeErr) (baseOffset : Nat) (buffer : StringInfo) :
    Except GtypeErr (StringInfo × Nat) :=
  let totallen := buffer.length - baseOffset
  if gtentryOfflenmask < totallen then .error e
  else .ok (buffer, gtentryIsContainer ||| totallen)

/-- The loop of `convert_gtype_object` over the keys. -/
def convertKeys : StringInfo → Nat → Nat → Nat → List (List UInt8) →
    Except GtypeErr (StringInfo × Nat)
  | buffer, _, _, totallen, [] => .ok (buffer, totallen)
  | buffer, entryOffset, i, totallen, key :: keys => do
    let (buffer, entry) ← convertGtypeScalar g buffer (.string key)
    let (buffer, totallen) ← storeEntry .objectTooLarge buffer entryOffset i totallen entry
    convertKeys buffer (entryOffset + 4) (i + 1) totallen keys

mutual

/-- `convert_gtype_value` (`gtype_util.c:760-788`), with `convert_gtype_array` and
`convert_gtype_object` (`gtype_util.c:808-984`). -/
def convertGtypeValue (buffer : StringInfo) : GtypeValue → Except GtypeErr (StringInfo × Nat)
  | .scalar s => convertGtypeScalar g buffer s
  | .array rawScalar elems => do
    let header := elems.length ||| gtFarray ||| (if rawScalar then gtFscalar else 0)
    let start ← beginContainer g buffer header elems.length
    let filled ← convertElems start (start.length - 4 * elems.length) 0 0 elems
    endContainer .arrayTooLarge buffer.length filled
  | .object pairs => do
    let header := pairs.length ||| gtFobject
    let start ← beginContainer g buffer header (pairs.length * 2)
    let entries := start.length - 4 * (pairs.length * 2)
    let (keys, totallen) ← convertKeys g start entries 0 0 (pairs.map Prod.fst)
    let filled ← convertValues keys (entries + 4 * pairs.length) pairs.length totallen pairs
    endContainer .objectTooLarge buffer.length filled

/-- The loop of `convert_gtype_array`. -/
def convertElems : StringInfo → Nat → Nat → Nat → List GtypeValue → Except GtypeErr StringInfo
  | buffer, _, _, _, [] => .ok buffer
  | buffer, entryOffset, i, totallen, v :: vs => do
    let (buffer, entry) ← convertGtypeValue buffer v
    let (buffer, totallen) ← storeEntry .arrayTooLarge buffer entryOffset i totallen entry
    convertElems buffer (entryOffset + 4) (i + 1) totallen vs

/-- The loop of `convert_gtype_object` over the values. -/
def convertValues : StringInfo → Nat → Nat → Nat → List (List UInt8 × GtypeValue) →
    Except GtypeErr StringInfo
  | buffer, _, _, _, [] => .ok buffer
  | buffer, entryOffset, i, totallen, (_, v) :: pairs => do
    let (buffer, entry) ← convertGtypeValue buffer v
    let (buffer, totallen) ← storeEntry .objectTooLarge buffer entryOffset i totallen entry
    convertValues buffer (entryOffset + 4) (i + 1) totallen pairs

end

/-- `convert_to_gtype` (`gtype_util.c:719-744`). -/
def convertToGtype (val : GtypeValue) : Except GtypeErr StringInfo := do
  let buffer ← reserveFromBuffer g [] varhdrsz
  let (buffer, _) ← convertGtypeValue g buffer val
  -- `SET_VARSIZE`
  return copyToBuffer buffer 0 (le 4 (4 * buffer.length))

end NeoPostGraph
