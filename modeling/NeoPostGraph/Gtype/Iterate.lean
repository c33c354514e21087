import NeoPostGraph.Gtype.Value
import NeoPostGraph.Lib.OffsetTable

/-!
# `gtype_iterator_next`

`utils/adt/gtype_util.c:85-198, 402-645` and `utils/adt/gtype_ext.c:174-230`. An iterator holds where
its container is and how far it has come; the iterators of the containers around it are behind it. A
pointer into the buffer is a place in it.

* `gtypeIteratorNext`: one call, with nested containers expanded.
* `Yields buf its tokens`: the calls up to `WGT_DONE` return these tokens.
-/

namespace NeoPostGraph

open Bytes

/-! ## Reading -/

/-- The bytes at a place. -/
def readBytes (buf : List UInt8) (p n : Nat) : Except GtypeErr (List UInt8) :=
  match slice buf p n with
  | some bytes => .ok bytes
  | none => .error .pastEnd

/-- A number of this many bytes. -/
def readNumber (buf : List UInt8) (p n : Nat) : Except GtypeErr Nat := (readBytes buf p n).map value

/-- `container->children[index]`. -/
def readEntry (buf : List UInt8) (container index : Nat) : Except GtypeErr Nat :=
  readNumber buf (container + 4 + 4 * index) 4

/-- What `GTE_ADVANCE_OFFSET` and the walk back look at. -/
def gteOffset (entry : Nat) : Bool × Nat := (gteHasOff entry, gteOfflenfld entry)

/-- `GTE_ADVANCE_OFFSET`. -/
def gteAdvanceOffset (offset entry : Nat) : Nat := OffsetTable.advance offset (gteOffset entry) % 2 ^ 32

/-- `get_gtype_offset` (`gtype_util.c:90-107`). -/
def getGtypeOffset (buf : List UInt8) (container : Nat) : Nat → Except GtypeErr Nat
  | 0 => .ok 0
  | index + 1 => do
    let entry ← readEntry buf container index
    if gteHasOff entry then return gteOfflenfld entry
    else return ((← getGtypeOffset buf container index) + gteOfflenfld entry) % 2 ^ 32

/-- `get_gtype_length` (`gtype_util.c:113-133`). -/
def getGtypeLength (buf : List UInt8) (container index : Nat) : Except GtypeErr Nat := do
  let entry ← readEntry buf container index
  if gteHasOff entry then do
    let off ← getGtypeOffset buf container index
    return (gteOfflenfld entry + 2 ^ 32 - off) % 2 ^ 32
  else return gteOfflenfld entry

/-- `np_deserialize_extended_type` (`gtype_ext.c:174-230`). -/
def npDeserializeExtendedType (buf : List UInt8) (baseAddr offset : Nat) :
    Except GtypeErr GtypeScalar := do
  let base := baseAddr + intAlign offset
  let header ← readNumber buf base 4
  let data := base + 4
  if header = gtHeaderInteger then return .integer (.ofNat (← readNumber buf data 8))
  else if header = gtHeaderFloat then return .float (.ofNat (← readNumber buf data 8))
  else if header = gtHeaderTimestamp then return .timestamp (.ofNat (← readNumber buf data 8))
  else if header = gtHeaderTimestamptz then return .timestamptz (.ofNat (← readNumber buf data 8))
  else if header = gtHeaderDate then return .date (.ofNat (← readNumber buf data 4))
  else if header = gtHeaderTime then return .time (.ofNat (← readNumber buf data 8))
  else if header = gtHeaderTimetz then
    return .timetz (.ofNat (← readNumber buf data 8)) (.ofNat (← readNumber buf (data + 8) 4))
  else if header = gtHeaderInterval then
    return .interval (.ofNat (← readNumber buf data 8)) (.ofNat (← readNumber buf (data + 8) 4))
      (.ofNat (← readNumber buf (data + 12) 4))
  else if header = gtHeaderInet then return .inet (← readBytes buf data sizeofInet)
  else if header = gtHeaderCidr then return .cidr (← readBytes buf data sizeofInet)
  else if header = gtHeaderMac then return .mac (← readBytes buf data sizeofMacaddr)
  else if header = gtHeaderMac8 then return .mac8 (← readBytes buf data sizeofMacaddr8)
  else .error .invalidHeader

/-- A value as `fill_gtype_value` sets it: a container is left in the buffer. -/
inductive FilledValue where
  | scalar (s : GtypeScalar)
  | binary (data : Nat) (len : Int)
deriving DecidableEq, Repr

/-- The number of the kind. -/
def FilledValue.type : FilledValue → Nat
  | scalar s => s.type
  | binary .. => gtvBinary

/-- `fill_gtype_value` (`gtype_util.c:146-198`). `pnstrdup` stops at a zero byte. -/
def fillGtypeValue (buf : List UInt8) (container index baseAddr offset : Nat) :
    Except GtypeErr FilledValue := do
  let entry ← readEntry buf container index
  let type := gteTypeBits entry
  if type = gtentryIsNull then return .scalar .null
  else if type = gtentryIsString then do
    let stringLen ← getGtypeLength buf container index
    let bytes ← readBytes buf (baseAddr + offset) stringLen
    return .scalar (.string (bytes.takeWhile (· ≠ 0)))
  else if type = gtentryIsNumeric then do
    let numeric := baseAddr + intAlign offset
    let header ← readNumber buf numeric 4
    return .scalar (.numeric (← readBytes buf numeric (varsize header)))
  else if type = gtentryIsGtype then
    return .scalar (← npDeserializeExtendedType buf baseAddr offset)
  else if type = gtentryIsBoolTrue then return .scalar (.bool true)
  else if type = gtentryIsBoolFalse then return .scalar (.bool false)
  else do
    let len ← getGtypeLength buf container index
    return .binary (baseAddr + intAlign offset) (len - (intAlign offset - offset))

/-! ## Iterators -/

/-- `gt_iterator_state`. -/
inductive GtIteratorState where
  | arrayStart
  | arrayElem
  | objectStart
  | objectKey
  | objectValue
deriving DecidableEq, Repr

/-- `gtype_iterator`, without its parent. -/
structure GtypeIterator where
  container : Nat
  numElems : Nat
  isScalar : Bool
  dataProper : Nat
  currIndex : Nat
  currDataOffset : Nat
  currValueOffset : Nat
  state : GtIteratorState
deriving DecidableEq, Repr

/-- `iterator_from_container` (`gtype_util.c:602-641`). -/
def iteratorFromContainer (buf : List UInt8) (container : Nat) : Except GtypeErr GtypeIterator := do
  let header ← readNumber buf container 4
  let numElems := containerSize header
  let children := container + 4
  if containerFlags header = gtFarray then
    return {
      container := container
      numElems := numElems
      isScalar := containerIsScalar header
      dataProper := children + 4 * numElems
      currIndex := 0
      currDataOffset := 0
      currValueOffset := 0
      state := .arrayStart }
  else if containerFlags header = gtFobject then
    return {
      container := container
      numElems := numElems
      isScalar := false
      dataProper := children + 4 * numElems * 2
      currIndex := 0
      currDataOffset := 0
      currValueOffset := 0
      state := .objectStart }
  else .error (.unknownContainer (containerFlags header))

/-- `GTI_ARRAY_START`, `GTI_OBJECT_START`: the first token of a container, and its iterator behind it. -/
def beginIteration (buf : List UInt8) (it : GtypeIterator) :
    Except GtypeErr (GtypeToken × GtypeIterator) :=
  if it.state = .arrayStart then
    .ok (.beginArray it.numElems it.isScalar, { it with
      currIndex := 0, currDataOffset := 0, currValueOffset := 0, state := .arrayElem })
  else do
    let currValueOffset ← getGtypeOffset buf it.container it.numElems
    return (.beginObject it.numElems, { it with
      currIndex := 0, currDataOffset := 0, currValueOffset := currValueOffset, state := .objectKey })

/-- A scalar is returned, a container is stepped into. -/
def returnOrRecurse (buf : List UInt8) (val : FilledValue) (scalarToken : GtypeScalar → GtypeToken)
    (its : List GtypeIterator) : Except GtypeErr (Option GtypeToken × List GtypeIterator) :=
  match val with
  | .scalar s => .ok (some (scalarToken s), its)
  | .binary data _ => do
    let child ← iteratorFromContainer buf data
    let (token, child) ← beginIteration buf child
    return (some token, child :: its)

/-- `gtype_iterator_next` (`gtype_util.c:441-586`), with `skip_nested` false. No token is `WGT_DONE`. -/
def gtypeIteratorNext (buf : List UInt8) :
    List GtypeIterator → Except GtypeErr (Option GtypeToken × List GtypeIterator)
  | [] => .ok (none, [])
  | it :: parents =>
    match it.state with
    | .arrayStart | .objectStart => do
      let (token, it) ← beginIteration buf it
      return (some token, it :: parents)
    | .arrayElem =>
      if it.numElems ≤ it.currIndex then .ok (some .endArray, parents)
      else do
        let val ← fillGtypeValue buf it.container it.currIndex it.dataProper it.currDataOffset
        let entry ← readEntry buf it.container it.currIndex
        returnOrRecurse buf val .elem ({ it with
          currDataOffset := gteAdvanceOffset it.currDataOffset entry
          currIndex := it.currIndex + 1 } :: parents)
    | .objectKey =>
      if it.numElems ≤ it.currIndex then .ok (some .endObject, parents)
      else do
        let val ← fillGtypeValue buf it.container it.currIndex it.dataProper it.currDataOffset
        match val with
        | .scalar (.string key) => return (some (.key key), { it with state := .objectValue } :: parents)
        | val => .error (.unexpectedKey val.type)
    | .objectValue => do
      let val ← fillGtypeValue buf it.container (it.currIndex + it.numElems) it.dataProper
        it.currValueOffset
      let keyEntry ← readEntry buf it.container it.currIndex
      let entry ← readEntry buf it.container (it.currIndex + it.numElems)
      returnOrRecurse buf val .value ({ it with
        state := .objectKey
        currDataOffset := gteAdvanceOffset it.currDataOffset keyEntry
        currValueOffset := gteAdvanceOffset it.currValueOffset entry
        currIndex := it.currIndex + 1 } :: parents)

/-- The calls up to `WGT_DONE` return these tokens. -/
inductive Yields (buf : List UInt8) : List GtypeIterator → List GtypeToken → Prop
  | done : Yields buf [] []
  | next {its its' : List GtypeIterator} {token : GtypeToken} {tokens : List GtypeToken}
      (h : gtypeIteratorNext buf its = .ok (some token, its')) (rest : Yields buf its' tokens) :
      Yields buf its (token :: tokens)

/-- `gtype_iterator_init` on the root of a gtype, and the calls. -/
def IteratesTo (buf : List UInt8) (tokens : List GtypeToken) : Prop :=
  ∃ it, iteratorFromContainer buf 4 = .ok it ∧ Yields buf [it] tokens

end NeoPostGraph
