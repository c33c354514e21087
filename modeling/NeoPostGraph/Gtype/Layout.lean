import NeoPostGraph.Gtype.Encode

/-!
# What the encoder writes

The bytes a value takes at a place in the buffer, without the buffer around them, and the entry its
container gets for it.

* `GtypeScalar.extended`: the header and the data of the kinds of `np_serialize_extended_type`.
* `layout g pos v`: the bytes of `v` at `pos`, padding included, and its entry.
* `containerBytes`: a container from its header, the entries of its children and their bytes.

Results:
* `convertGtypeValue_ok`: the encoder appends the layout and returns the entry, and the lengths in the
  entries of a container add up to what fits.
-/

namespace NeoPostGraph

open Bytes

variable {g : Memory} {buffer buffer' : StringInfo} {n padlen : Nat}

theorem ok_bind_iff {α β : Type} {x : Except GtypeErr α} {f : α → Except GtypeErr β} {b : β} :
    (x >>= f) = .ok b ↔ ∃ a, x = .ok a ∧ f a = .ok b := by
  cases x with
  | error e =>
    constructor
    · intro h
      cases h
    · rintro ⟨a, ha, -⟩
      cases ha
  | ok a =>
    constructor
    · intro h
      exact ⟨a, rfl, h⟩
    · rintro ⟨a', ha, hf⟩
      cases ha
      exact hf

/-! ## The buffer -/

/-- Bytes that are in use and not written. -/
def memoryAt (g : Memory) (pos len : Nat) : List UInt8 := (List.range len).map fun k => g (pos + k)

/-- Padding. -/
def padding (pos : Nat) : List UInt8 := List.replicate (intAlign pos - pos) 0

@[simp] theorem length_memoryAt (g : Memory) (pos len : Nat) : (memoryAt g pos len).length = len := by
  simp [memoryAt]

theorem memoryAt_add (g : Memory) (pos m len : Nat) :
    memoryAt g pos (m + len) = memoryAt g pos m ++ memoryAt g (pos + m) len := by
  unfold memoryAt
  rw [List.range_add, List.map_append, List.map_map]
  congr 2
  funext k
  simp only [Function.comp]
  rw [Nat.add_assoc]

theorem le_intAlign (pos : Nat) : pos ≤ intAlign pos := by
  unfold intAlign
  omega

@[simp] theorem length_padding (pos : Nat) : (padding pos).length = intAlign pos - pos := by
  simp [padding]

theorem reserveFromBuffer_ok (h : reserveFromBuffer g buffer n = .ok buffer') :
    buffer' = buffer ++ memoryAt g buffer.length n := by
  unfold reserveFromBuffer at h
  split_ifs at h
  exact (Except.ok.inj h).symm

/-- Data over reserved bytes. -/
theorem copyToBuffer_append {a r c d : List UInt8} (h : r.length = d.length) :
    copyToBuffer (a ++ (r ++ c)) a.length d = a ++ (d ++ c) := by
  unfold copyToBuffer
  rw [List.take_left, ← h, ← List.drop_drop, List.drop_left, List.drop_left]

theorem appendToBuffer_ok {data : List UInt8} (h : appendToBuffer g buffer data = .ok buffer') :
    buffer' = buffer ++ data := by
  obtain ⟨reserved, hr, h⟩ := ok_bind_iff.mp h
  cases h
  have hcopy := copyToBuffer_append (a := buffer) (r := memoryAt g buffer.length data.length)
    (c := []) (length_memoryAt ..)
  rw [reserveFromBuffer_ok hr]
  simpa using hcopy

theorem padBufferToInt_ok (h : padBufferToInt g buffer = .ok (buffer', padlen)) :
    padlen = intAlign buffer.length - buffer.length ∧ buffer' = buffer ++ padding buffer.length := by
  obtain ⟨reserved, hr, h⟩ := ok_bind_iff.mp h
  cases h
  refine ⟨rfl, ?_⟩
  have hcopy := copyToBuffer_append (a := buffer) (c := [])
    (r := memoryAt g buffer.length (intAlign buffer.length - buffer.length))
    (d := padding buffer.length) (by simp)
  rw [reserveFromBuffer_ok hr]
  simpa [padding] using hcopy

theorem npSerializeHeader_ok {type : Nat}
    (h : npSerializeHeader g buffer type = .ok (buffer', padlen)) :
    padlen = intAlign buffer.length - buffer.length ∧
      buffer' = buffer ++ (padding buffer.length ++ le 4 type) := by
  obtain ⟨⟨padded, padlen'⟩, hpad, h⟩ := ok_bind_iff.mp h
  obtain ⟨reserved, hr, h⟩ := ok_bind_iff.mp h
  cases h
  obtain ⟨hlen, rfl⟩ := padBufferToInt_ok hpad
  refine ⟨hlen, ?_⟩
  have hcopy := copyToBuffer_append (a := buffer ++ padding buffer.length) (c := [])
    (r := memoryAt g (buffer ++ padding buffer.length).length 4) (d := le 4 type) (by simp)
  rw [reserveFromBuffer_ok hr]
  simpa using hcopy

theorem serializeData_ok {type numlen : Nat} {data : List UInt8} (hlen : data.length ≤ numlen)
    (h : serializeData g buffer type numlen data = .ok (buffer', padlen)) :
    padlen = intAlign buffer.length - buffer.length ∧
      buffer' = buffer ++ (padding buffer.length ++ (le 4 type ++ (data ++
        memoryAt g (intAlign buffer.length + 4 + data.length) (numlen - data.length)))) := by
  obtain ⟨⟨header, padlen'⟩, hheader, h⟩ := ok_bind_iff.mp h
  obtain ⟨reserved, hr, h⟩ := ok_bind_iff.mp h
  cases h
  obtain ⟨hpadlen, rfl⟩ := npSerializeHeader_ok hheader
  refine ⟨hpadlen, ?_⟩
  have hplace : (buffer ++ (padding buffer.length ++ le 4 type)).length =
      intAlign buffer.length + 4 := by
    have hle := le_intAlign buffer.length
    simp only [List.length_append, length_padding, length_le]
    omega
  have hsplit := memoryAt_add g (intAlign buffer.length + 4) data.length (numlen - data.length)
  rw [Nat.add_sub_cancel' hlen] at hsplit
  have hcopy := copyToBuffer_append (a := buffer ++ (padding buffer.length ++ le 4 type))
    (r := memoryAt g (intAlign buffer.length + 4) data.length) (d := data)
    (c := memoryAt g (intAlign buffer.length + 4 + data.length) (numlen - data.length)) (by simp)
  rw [reserveFromBuffer_ok hr, hplace, hsplit, ← hplace]
  rw [hplace] at hcopy ⊢
  simpa using hcopy

/-! ## Scalars -/

/-- The kinds of `np_serialize_extended_type`: the header, the bytes behind it, and those of them that
are written. -/
def GtypeScalar.extended : GtypeScalar → Option (Nat × Nat × List UInt8)
  | integer val => some (gtHeaderInteger, 8, le 8 val.toNat)
  | float val => some (gtHeaderFloat, 8, le 8 val.toNat)
  | timestamp val => some (gtHeaderTimestamp, 8, le 8 val.toNat)
  | timestamptz val => some (gtHeaderTimestamptz, 8, le 8 val.toNat)
  | date val => some (gtHeaderDate, 4, le 4 val.toNat)
  | time val => some (gtHeaderTime, 8, le 8 val.toNat)
  | timetz t zone => some (gtHeaderTimetz, 16, le 8 t.toNat ++ le 4 zone.toNat)
  | interval t day month =>
    some (gtHeaderInterval, 16, le 8 t.toNat ++ (le 4 day.toNat ++ le 4 month.toNat))
  | inet val => some (gtHeaderInet, 22, val)
  | cidr val => some (gtHeaderCidr, 22, val)
  | mac val => some (gtHeaderMac, 6, val)
  | mac8 val => some (gtHeaderMac8, 8, val)
  | _ => none

/-- The type bits of a scalar's entry. -/
def GtypeScalar.typeBits : GtypeScalar → Nat
  | null => gtentryIsNull
  | string _ => gtentryIsString
  | numeric _ => gtentryIsNumeric
  | bool val => if val then gtentryIsBoolTrue else gtentryIsBoolFalse
  | _ => gtentryIsGtype

/-- The bytes of a scalar at a place. -/
def GtypeScalar.bytes (g : Memory) (pos : Nat) (s : GtypeScalar) : List UInt8 :=
  match s with
  | null | bool _ => []
  | string val => val
  | numeric val => padding pos ++ val
  | s =>
    match s.extended with
    | some (header, numlen, data) => padding pos ++ (le 4 header ++ (data ++
        memoryAt g (intAlign pos + 4 + data.length) (numlen - data.length)))
    | none => []

/-- How many bytes a scalar takes at a place. -/
def GtypeScalar.size (pos : Nat) : GtypeScalar → Nat
  | null | bool _ => 0
  | string val => val.length
  | numeric val => intAlign pos - pos + val.length
  | date _ => intAlign pos - pos + 4 + 4
  | timetz .. | interval .. => intAlign pos - pos + 16 + 4
  | inet _ | cidr _ => intAlign pos - pos + 22 + 4
  | mac _ => intAlign pos - pos + 6 + 4
  | _ => intAlign pos - pos + 8 + 4

/-- The length the encoder reports for it. -/
def GtypeScalar.reported (pos : Nat) : GtypeScalar → Nat
  | timestamp _ => 8 + 4
  | s => s.size pos

/-- The entry of a scalar. -/
def GtypeScalar.entry (pos : Nat) (s : GtypeScalar) : Nat := s.typeBits ||| s.reported pos

theorem GtypeScalar.WellFormed.data_le {s : GtypeScalar} (h : s.WellFormed) {header numlen : Nat}
    {data : List UInt8} (he : s.extended = some (header, numlen, data)) : data.length ≤ numlen := by
  cases s <;> cases he <;>
    simp [GtypeScalar.WellFormed, sizeofInet, sizeofMacaddr, sizeofMacaddr8] at h ⊢ <;> omega

theorem GtypeScalar.length_bytes {s : GtypeScalar} (h : s.WellFormed) (pos : Nat) :
    (s.bytes g pos).length = s.size pos := by
  cases s <;>
    simp [GtypeScalar.bytes, GtypeScalar.extended, GtypeScalar.size, GtypeScalar.WellFormed,
      sizeofInet, sizeofMacaddr, sizeofMacaddr8] at h ⊢ <;> omega

/-- The kinds of `np_serialize_extended_type`. -/
theorem serialized_ok {s : GtypeScalar} {header numlen entry : Nat} {data : List UInt8} {f : Nat → Nat}
    (hwf : s.WellFormed) (he : s.extended = some (header, numlen, data))
    (hbytes : s.bytes g buffer.length = padding buffer.length ++ (le 4 header ++ (data ++
      memoryAt g (intAlign buffer.length + 4 + data.length) (numlen - data.length))))
    (hf : f (intAlign buffer.length - buffer.length) = s.entry buffer.length)
    (h : (do
      let (buffer, padlen) ← serializeData g buffer header numlen data
      return (buffer, f padlen)) = .ok (buffer', entry)) :
    buffer' = buffer ++ s.bytes g buffer.length ∧ entry = s.entry buffer.length := by
  obtain ⟨⟨written, padlen⟩, hdata, h⟩ := ok_bind_iff.mp h
  cases h
  obtain ⟨rfl, rfl⟩ := serializeData_ok (hwf.data_le he) hdata
  exact ⟨by rw [hbytes], hf⟩

/-- **A scalar is appended with its padding**, and its entry has its kind and the length reported. -/
theorem convertGtypeScalar_ok {s : GtypeScalar} {entry : Nat} (hwf : s.WellFormed)
    (h : convertGtypeScalar g buffer s = .ok (buffer', entry)) :
    buffer' = buffer ++ s.bytes g buffer.length ∧ entry = s.entry buffer.length := by
  cases s with
  | null =>
    cases h
    exact ⟨(List.append_nil _).symm, (Nat.or_zero _).symm⟩
  | bool val =>
    cases h
    exact ⟨(List.append_nil _).symm, (Nat.or_zero _).symm⟩
  | string val =>
    obtain ⟨appended, happ, h⟩ := ok_bind_iff.mp h
    cases h
    refine ⟨appendToBuffer_ok happ, ?_⟩
    simp [GtypeScalar.entry, GtypeScalar.typeBits, GtypeScalar.reported, GtypeScalar.size,
      gtentryIsString]
  | numeric val =>
    obtain ⟨⟨padded, padlen⟩, hpad, h⟩ := ok_bind_iff.mp h
    obtain ⟨appended, happ, h⟩ := ok_bind_iff.mp h
    cases h
    obtain ⟨rfl, rfl⟩ := padBufferToInt_ok hpad
    rw [appendToBuffer_ok happ, List.append_assoc]
    exact ⟨rfl, rfl⟩
  | timestamp val =>
    exact serialized_ok (f := fun _ => gtentryIsGtype ||| (8 + 4)) hwf rfl rfl rfl h
  | integer val | float val | timestamptz val | time val | mac8 val =>
    exact serialized_ok (f := fun padlen => gtentryIsGtype ||| (padlen + 8 + 4)) hwf rfl rfl rfl h
  | date val =>
    exact serialized_ok (f := fun padlen => gtentryIsGtype ||| (padlen + 4 + 4)) hwf rfl rfl rfl h
  | timetz time zone =>
    exact serialized_ok (f := fun padlen => gtentryIsGtype ||| (padlen + 16 + 4)) hwf rfl rfl rfl h
  | interval time day month =>
    exact serialized_ok (f := fun padlen => gtentryIsGtype ||| (padlen + 16 + 4)) hwf rfl rfl rfl h
  | inet val | cidr val =>
    exact serialized_ok (f := fun padlen => gtentryIsGtype ||| (padlen + 22 + 4)) hwf rfl rfl rfl h
  | mac val =>
    exact serialized_ok (f := fun padlen => gtentryIsGtype ||| (padlen + 6 + 4)) hwf rfl rfl rfl h

/-! ## Containers -/

/-- An entry as the loop fills it in. -/
def storedEntry (i totallen entry : Nat) : Nat :=
  if i % gtOffsetStride = 0 then gteTypeBits entry ||| totallen ||| gtentryHasOff else entry

/-- The entries of a container, from the `i`-th on. -/
def entryBytes : Nat → Nat → List Nat → List UInt8
  | _, _, [] => []
  | i, totallen, entry :: entries =>
    le 4 (storedEntry i (totallen + gteOfflenfld entry) entry) ++
      entryBytes (i + 1) (totallen + gteOfflenfld entry) entries

/-- A container from its header, the entries of its children and their bytes. -/
def containerBytes (pos header : Nat) (entries : List Nat) (data : List UInt8) : List UInt8 :=
  padding pos ++ (le 4 header ++ (entryBytes 0 0 entries ++ data))

/-- The header of an array. -/
def arrayHeader (rawScalar : Bool) (numElems : Nat) : Nat :=
  numElems ||| gtFarray ||| (if rawScalar then gtFscalar else 0)

/-- The header of an object. -/
def objectHeader (numPairs : Nat) : Nat := numPairs ||| gtFobject

mutual

/-- **The bytes of a value at a place, and its entry.** -/
def layout (g : Memory) (pos : Nat) : GtypeValue → List UInt8 × Nat
  | .scalar s => (s.bytes g pos, s.entry pos)
  | .array rawScalar elems =>
    let children := layouts g (intAlign pos + 4 + 4 * elems.length) elems
    let bytes := containerBytes pos (arrayHeader rawScalar elems.length) children.2 children.1
    (bytes, gtentryIsContainer ||| bytes.length)
  | .object pairs =>
    let keys := (pairs.map Prod.fst).flatten
    let children := pairLayouts g (intAlign pos + 4 + 4 * (pairs.length * 2) + keys.length) pairs
    let bytes := containerBytes pos (objectHeader pairs.length)
      (pairs.map (fun pair => pair.1.length) ++ children.2) (keys ++ children.1)
    (bytes, gtentryIsContainer ||| bytes.length)

/-- The children of an array, one behind the other. -/
def layouts (g : Memory) (pos : Nat) : List GtypeValue → List UInt8 × List Nat
  | [] => ([], [])
  | v :: vs =>
    let head := layout g pos v
    let rest := layouts g (pos + head.1.length) vs
    (head.1 ++ rest.1, head.2 :: rest.2)

/-- The values of an object. -/
def pairLayouts (g : Memory) (pos : Nat) : List (List UInt8 × GtypeValue) → List UInt8 × List Nat
  | [] => ([], [])
  | (_, v) :: pairs =>
    let head := layout g pos v
    let rest := pairLayouts g (pos + head.1.length) pairs
    (head.1 ++ rest.1, head.2 :: rest.2)

end

theorem pairLayouts_eq (g : Memory) (pos : Nat) (pairs : List (List UInt8 × GtypeValue)) :
    pairLayouts g pos pairs = layouts g pos (pairs.map Prod.snd) := by
  induction pairs generalizing pos with
  | nil => rfl
  | cons pair pairs ih =>
    rw [List.map_cons, pairLayouts, layouts, ih]

@[simp] theorem length_entryBytes (i totallen : Nat) (entries : List Nat) :
    (entryBytes i totallen entries).length = 4 * entries.length := by
  induction entries generalizing i totallen with
  | nil => rfl
  | cons entry entries ih =>
    rw [entryBytes, List.length_append, length_le, ih, List.length_cons]
    omega

theorem entryBytes_append (i totallen : Nat) (as bs : List Nat) :
    entryBytes i totallen (as ++ bs) = entryBytes i totallen as ++
      entryBytes (i + as.length) (totallen + (as.map gteOfflenfld).sum) bs := by
  induction as generalizing i totallen with
  | nil => rfl
  | cons a as ih =>
    rw [List.cons_append, entryBytes, entryBytes, ih, List.append_assoc, List.length_cons,
      List.map_cons, List.sum_cons, Nat.add_assoc i, Nat.add_comm 1, Nat.add_assoc totallen]

/-- The end of an iteration: the first of the reserved entries is filled in. -/
theorem storeEntry_ok {e : GtypeErr} {before reserved behind bytes : List UInt8}
    {entryOffset i m totallen totallen' entry : Nat} (hlen : reserved.length = 4 * (m + 1))
    (hoff : before.length = entryOffset)
    (h : storeEntry e (before ++ (reserved ++ behind) ++ bytes) entryOffset i totallen entry =
      .ok (buffer', totallen')) :
    totallen' = totallen + gteOfflenfld entry ∧ ∃ rest : List UInt8, rest.length = 4 * m ∧
      buffer' = (before ++ le 4 (storedEntry i totallen' entry)) ++ (rest ++ (behind ++ bytes)) := by
  subst hoff
  unfold storeEntry at h
  dsimp only at h
  split at h
  · cases h
  · cases h
    refine ⟨rfl, reserved.drop 4, by rw [List.length_drop, hlen]; omega, ?_⟩
    have htake : (reserved.take 4).length = 4 := by
      rw [List.length_take, hlen]
      omega
    have hsplit : before ++ (reserved ++ behind) ++ bytes =
        before ++ (reserved.take 4 ++ (reserved.drop 4 ++ (behind ++ bytes))) := by
      rw [List.append_assoc, List.append_assoc, ← List.append_assoc (reserved.take 4),
        List.take_append_drop]
    rw [hsplit, copyToBuffer_append (by rw [htake, length_le]), List.append_assoc]
    rfl

theorem endContainer_ok {e : GtypeErr} {baseOffset entry : Nat}
    (h : endContainer e baseOffset buffer = .ok (buffer', entry)) :
    buffer' = buffer ∧ buffer.length - baseOffset ≤ gtentryOfflenmask ∧
      entry = gtentryIsContainer ||| (buffer.length - baseOffset) := by
  unfold endContainer at h
  dsimp only at h
  split at h
  · cases h
  · next hle =>
    cases h
    exact ⟨rfl, Nat.not_lt.mp hle, rfl⟩

theorem beginContainer_ok {header numEntries : Nat}
    (h : beginContainer g buffer header numEntries = .ok buffer') :
    ∃ reserved, reserved.length = 4 * numEntries ∧
      buffer' = (buffer ++ (padding buffer.length ++ le 4 header)) ++ reserved := by
  obtain ⟨⟨padded, padlen⟩, hpad, h⟩ := ok_bind_iff.mp h
  obtain ⟨started, happ, h⟩ := ok_bind_iff.mp h
  obtain ⟨-, rfl⟩ := padBufferToInt_ok hpad
  obtain rfl := appendToBuffer_ok happ
  have hr := reserveFromBuffer_ok h
  rw [List.append_assoc buffer (padding buffer.length) (le 4 header)] at hr
  exact ⟨_, length_memoryAt .., hr⟩

theorem string_entry (pos : Nat) (key : List UInt8) :
    (GtypeScalar.string key).entry pos = key.length := by
  simp [GtypeScalar.entry, GtypeScalar.typeBits, GtypeScalar.reported, GtypeScalar.size,
    gtentryIsString]

@[simp] theorem string_bytes (pos : Nat) (key : List UInt8) :
    (GtypeScalar.string key).bytes g pos = key := rfl

/-- **The loop over the keys.** -/
theorem convertKeys_ok {keys : List (List UInt8)} {before reserved behind : List UInt8}
    {entryOffset i totallen totallen' : Nat} (hwf : ∀ key ∈ keys, 0 ∉ key)
    (hlen : reserved.length = 4 * keys.length) (hoff : before.length = entryOffset)
    (h : convertKeys g (before ++ (reserved ++ behind)) entryOffset i totallen keys =
      .ok (buffer', totallen')) :
    buffer' = before ++ (entryBytes i totallen (keys.map List.length) ++ (behind ++ keys.flatten)) ∧
      totallen' = totallen + ((keys.map List.length).map gteOfflenfld).sum := by
  induction keys generalizing before reserved behind entryOffset i totallen with
  | nil =>
    cases h
    have hnil : reserved = [] := List.eq_nil_of_length_eq_zero (by simpa using hlen)
    simp [hnil, entryBytes]
  | cons key keys ih =>
    obtain ⟨⟨appended, entry⟩, hkey, h⟩ := ok_bind_iff.mp h
    obtain ⟨⟨stored, total⟩, hstore, h⟩ := ok_bind_iff.mp h
    obtain ⟨rfl, rfl⟩ := convertGtypeScalar_ok (s := .string key) (hwf key List.mem_cons_self) hkey
    rw [string_entry] at hstore
    obtain ⟨rfl, rest, hrest, rfl⟩ := storeEntry_ok (hlen.trans (by rw [List.length_cons])) hoff hstore
    obtain ⟨rfl, rfl⟩ := ih (fun key hkey => hwf key (List.mem_cons_of_mem _ hkey)) hrest
      (by rw [List.length_append, length_le, hoff]) h
    simp [entryBytes, Nat.add_assoc, Function.comp_def]

theorem keys_wellFormed {pairs : List (List UInt8 × GtypeValue)} (h : PairsWellFormed pairs) :
    ∀ key ∈ pairs.map Prod.fst, 0 ∉ key := by
  induction pairs with
  | nil =>
    intro key hkey
    cases hkey
  | cons pair pairs ih =>
    intro key hkey
    rcases List.mem_cons.mp hkey with rfl | hkey
    · exact h.1
    · exact ih h.2.2 key hkey

/-- The buffer behind an iteration is as long as the buffer before it and the child. -/
theorem length_behind {before reserved behind bytes rest filled : List UInt8} {m pos : Nat}
    (hlen : reserved.length = 4 * (m + 1)) (hrest : rest.length = 4 * m)
    (hfilled : filled.length = 4) (hpos : (before ++ (reserved ++ behind)).length = pos) :
    (before ++ filled ++ (rest ++ (behind ++ bytes))).length = pos + bytes.length := by
  simp only [List.length_append] at hpos ⊢
  omega

mutual

/-- **The encoder appends the layout of a value, and returns its entry.** -/
theorem convertGtypeValue_ok {buffer buffer' : StringInfo} {entry : Nat} :
    (v : GtypeValue) → v.WellFormed → convertGtypeValue g buffer v = .ok (buffer', entry) →
      buffer' = buffer ++ (layout g buffer.length v).1 ∧ entry = (layout g buffer.length v).2
  | .scalar s, hwf, h => convertGtypeScalar_ok hwf h
  | .array rawScalar elems, hwf, h => by
    obtain ⟨start, hstart, hloop⟩ := ok_bind_iff.mp h
    obtain ⟨filled, hfilled, hend⟩ := ok_bind_iff.mp hloop
    obtain ⟨reserved, hlen, rfl⟩ := beginContainer_ok hstart
    have hle := le_intAlign buffer.length
    rw [← List.append_nil reserved] at hfilled
    have hpos : (buffer ++ (padding buffer.length ++ le 4 (elems.length ||| gtFarray |||
        if rawScalar = true then gtFscalar else 0)) ++ (reserved ++ [])).length =
        intAlign buffer.length + 4 + 4 * elems.length := by
      simp only [List.length_append, length_padding, length_le, hlen, List.length_nil]
      omega
    have hkids := convertElems_ok elems hwf hlen (by
      rw [hpos]
      simp only [List.length_append, length_padding, length_le]
      omega) hpos hfilled
    obtain ⟨rfl, -, rfl⟩ := endContainer_ok hend
    have hbytes : buffer' = buffer ++ (layout g buffer.length (.array rawScalar elems)).1 := by
      rw [hkids, layout]
      simp only [containerBytes, arrayHeader, List.append_assoc, List.nil_append]
    refine ⟨hbytes, ?_⟩
    rw [hbytes, List.length_append, Nat.add_sub_cancel_left]
    rfl
  | .object pairs, hwf, h => by
    obtain ⟨start, hstart, hloop⟩ := ok_bind_iff.mp h
    obtain ⟨⟨keysFilled, totallen⟩, hkeys, hloop⟩ := ok_bind_iff.mp hloop
    obtain ⟨filled, hfilled, hend⟩ := ok_bind_iff.mp hloop
    obtain ⟨reserved, hlen, rfl⟩ := beginContainer_ok hstart
    have hle := le_intAlign buffer.length
    -- the first half of the entries is the keys', the second half the values'
    obtain ⟨forKeys, forValues, rfl, hk, hv⟩ : ∃ forKeys forValues, reserved = forKeys ++ forValues ∧
        forKeys.length = 4 * pairs.length ∧ forValues.length = 4 * pairs.length := by
      refine ⟨reserved.take (4 * pairs.length), reserved.drop (4 * pairs.length),
        (List.take_append_drop ..).symm, ?_, ?_⟩
      · rw [List.length_take, hlen]
        omega
      · rw [List.length_drop, hlen]
        omega
    have hentries : (buffer ++ (padding buffer.length ++ le 4 (pairs.length ||| gtFobject))).length =
        (buffer ++ (padding buffer.length ++ le 4 (pairs.length ||| gtFobject)) ++
          (forKeys ++ forValues)).length - 4 * (pairs.length * 2) := by
      rw [@List.length_append _ _ (forKeys ++ forValues), hlen, Nat.add_sub_cancel]
    obtain ⟨rfl, rfl⟩ := convertKeys_ok (keys_wellFormed hwf) (by rw [List.length_map, hk]) hentries
      hkeys
    rw [← List.append_assoc] at hfilled
    have hvalues := convertValues_ok pairs hwf hv (by
      rw [List.length_append, ← hentries, length_entryBytes, List.length_map, List.length_map]) rfl
      hfilled
    obtain ⟨rfl, -, rfl⟩ := endContainer_ok hend
    have hpos : (buffer ++ (padding buffer.length ++ le 4 (pairs.length ||| gtFobject)) ++
        entryBytes 0 0 ((pairs.map Prod.fst).map List.length) ++
        (forValues ++ (pairs.map Prod.fst).flatten)).length =
        intAlign buffer.length + 4 + 4 * (pairs.length * 2) + (pairs.map Prod.fst).flatten.length := by
      rw [List.length_append, List.length_append, List.length_append, List.length_append,
        List.length_append, length_padding, length_le, length_entryBytes, hv, List.length_map,
        List.length_map]
      omega
    rw [hpos] at hvalues
    have hbytes : buffer' = buffer ++ (layout g buffer.length (.object pairs)).1 := by
      rw [hvalues, layout]
      simp only [containerBytes, objectHeader, List.append_assoc, entryBytes_append, List.map_map,
        List.length_map, Function.comp_def, Nat.zero_add]
    refine ⟨hbytes, ?_⟩
    rw [hbytes, List.length_append, Nat.add_sub_cancel_left]
    rfl

/-- The loop over the elements. -/
theorem convertElems_ok {buffer' : StringInfo} {before reserved behind : List UInt8}
    {entryOffset i totallen pos : Nat} : (vs : List GtypeValue) → ElemsWellFormed vs →
    reserved.length = 4 * vs.length → before.length = entryOffset →
    (before ++ (reserved ++ behind)).length = pos →
    convertElems g (before ++ (reserved ++ behind)) entryOffset i totallen vs = .ok buffer' →
      buffer' = before ++ (entryBytes i totallen (layouts g pos vs).2 ++
        (behind ++ (layouts g pos vs).1))
  | [], _, hlen, _, _, h => by
    cases h
    have hnil : reserved = [] := List.eq_nil_of_length_eq_zero (by simpa using hlen)
    simp [hnil, layouts, entryBytes]
  | v :: vs, hwf, hlen, hoff, hpos, h => by
    obtain ⟨⟨appended, entry⟩, hv, h⟩ := ok_bind_iff.mp h
    obtain ⟨⟨stored, total⟩, hstore, h⟩ := ok_bind_iff.mp h
    obtain ⟨rfl, rfl⟩ := convertGtypeValue_ok v hwf.1 hv
    obtain ⟨rfl, rest, hrest, rfl⟩ := storeEntry_ok hlen hoff hstore
    have hvs := convertElems_ok vs hwf.2 hrest (by rw [List.length_append, length_le, hoff])
      (length_behind hlen hrest (length_le ..) hpos) h
    rw [hpos] at hvs
    rw [hvs]
    simp only [layouts, entryBytes, List.append_assoc]

/-- The loop over the values. -/
theorem convertValues_ok {buffer' : StringInfo} {before reserved behind : List UInt8}
    {entryOffset i totallen pos : Nat} : (pairs : List (List UInt8 × GtypeValue)) →
    PairsWellFormed pairs → reserved.length = 4 * pairs.length → before.length = entryOffset →
    (before ++ (reserved ++ behind)).length = pos →
    convertValues g (before ++ (reserved ++ behind)) entryOffset i totallen pairs = .ok buffer' →
      buffer' = before ++ (entryBytes i totallen (pairLayouts g pos pairs).2 ++
        (behind ++ (pairLayouts g pos pairs).1))
  | [], _, hlen, _, _, h => by
    cases h
    have hnil : reserved = [] := List.eq_nil_of_length_eq_zero (by simpa using hlen)
    simp [hnil, pairLayouts, entryBytes]
  | (key, v) :: pairs, hwf, hlen, hoff, hpos, h => by
    obtain ⟨⟨appended, entry⟩, hv, h⟩ := ok_bind_iff.mp h
    obtain ⟨⟨stored, total⟩, hstore, h⟩ := ok_bind_iff.mp h
    obtain ⟨rfl, rfl⟩ := convertGtypeValue_ok v hwf.2.1 hv
    obtain ⟨rfl, rest, hrest, rfl⟩ := storeEntry_ok hlen hoff hstore
    have hvs := convertValues_ok pairs hwf.2.2 hrest (by rw [List.length_append, length_le, hoff])
      (length_behind hlen hrest (length_le ..) hpos) h
    rw [hpos] at hvs
    rw [hvs]
    simp only [pairLayouts, entryBytes, List.append_assoc]

end

/-- A container that was converted fits in the length field of an entry. -/
theorem convertGtypeValue_fits {entry : Nat} {v : GtypeValue} (hwf : v.WellFormed)
    (hv : v.IsContainer) (h : convertGtypeValue g buffer v = .ok (buffer', entry)) :
    (layout g buffer.length v).1.length ≤ gtentryOfflenmask := by
  have hend : buffer'.length - buffer.length ≤ gtentryOfflenmask := by
    cases v with
    | scalar s => exact hv.elim
    | array rawScalar elems =>
      obtain ⟨start, -, hloop⟩ := ok_bind_iff.mp h
      obtain ⟨filled, -, hend⟩ := ok_bind_iff.mp hloop
      obtain ⟨rfl, hle, -⟩ := endContainer_ok hend
      exact hle
    | object pairs =>
      obtain ⟨start, -, hloop⟩ := ok_bind_iff.mp h
      obtain ⟨⟨keys, totallen⟩, -, hloop⟩ := ok_bind_iff.mp hloop
      obtain ⟨filled, -, hend⟩ := ok_bind_iff.mp hloop
      obtain ⟨rfl, hle, -⟩ := endContainer_ok hend
      exact hle
  rw [(convertGtypeValue_ok v hwf h).1, List.length_append, Nat.add_sub_cancel_left] at hend
  exact hend

/-- **A gtype holds the layout of its root container behind the varlena header.** -/
theorem convertToGtype_ok {v : GtypeValue} {buf : List UInt8} (hwf : v.WellFormed)
    (hv : v.IsContainer) (h : convertToGtype g v = .ok buf) :
    Holds buf 4 (layout g 4 v).1 ∧ (layout g 4 v).1.length ≤ gtentryOfflenmask := by
  obtain ⟨reserved, hr, h⟩ := ok_bind_iff.mp h
  obtain ⟨⟨converted, entry⟩, hc, h⟩ := ok_bind_iff.mp h
  cases h
  have hlen : reserved.length = 4 := by
    rw [reserveFromBuffer_ok hr, List.nil_append, length_memoryAt]
    rfl
  have hfits := convertGtypeValue_fits hwf hv hc
  obtain ⟨rfl, -⟩ := convertGtypeValue_ok v hwf hc
  rw [hlen] at hfits ⊢
  refine ⟨⟨le 4 (4 * (reserved ++ (layout g 4 v).1).length), [], ?_, length_le ..⟩, hfits⟩
  have hcopy := copyToBuffer_append (a := []) (r := reserved) (c := (layout g 4 v).1)
    (d := le 4 (4 * (reserved ++ (layout g 4 v).1).length)) (by rw [hlen, length_le])
  simpa using hcopy

end NeoPostGraph
