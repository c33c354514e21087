import NeoPostGraph.Gtype.Layout
import NeoPostGraph.Gtype.Placement

/-!
# What memory shows through

`convert_to_gtype` reserves bytes before it writes them, and a time with a zone is reserved by the size of
its struct and written without the padding of it (`gtype_ext.c:101-111`).

* `GoAlike`: two conversions go alike, with one error or to as many bytes.
* `GtypeScalar.IsTimetz`: a time with a zone, the one scalar with padding in its struct.

Results:
* `convertToGtype_goAlike`: whether a value is converted, and to how many bytes, does not depend on memory.
* `convertToGtype_reproducible`: the bytes do exactly if there is a time with a zone in it.
-/

namespace NeoPostGraph

open Bytes

/-! ## Two conversions -/

/-- Two computations go alike, as far as `shape` tells. -/
def GoAlike {α β : Type} (shape : α → β) (x y : Except GtypeErr α) : Prop := x.map shape = y.map shape

/-- What the encoder goes by: how long the buffer is, and what is returned with it. -/
def bufferShape {α : Type} (r : StringInfo × α) : Nat × α := (r.1.length, r.2)

section

variable {α β γ δ : Type} {shape : α → β} {shape' : γ → δ} {g g' : Memory} {a b : StringInfo}

theorem GoAlike.ok {x y : α} (h : shape x = shape y) : GoAlike shape (.ok x) (.ok y) :=
  congrArg Except.ok h

theorem GoAlike.bind {x y : Except GtypeErr α} {f f' : α → Except GtypeErr γ} (h : GoAlike shape x y)
    (hf : ∀ p q, shape p = shape q → GoAlike shape' (f p) (f' q)) : GoAlike shape' (x >>= f) (y >>= f') := by
  cases x with
  | error e =>
    cases y with
    | error e' =>
      obtain rfl : e = e' := Except.error.inj h
      rfl
    | ok q => cases h
  | ok p =>
    cases y with
    | error e' => cases h
    | ok q => exact hf p q (Except.ok.inj h)

theorem GoAlike.bindBuffer {x y : Except GtypeErr (StringInfo × α)} {f f' : StringInfo × α → Except GtypeErr γ}
    (h : GoAlike bufferShape x y)
    (hf : ∀ a b r, a.length = b.length → GoAlike shape' (f (a, r)) (f' (b, r))) :
    GoAlike shape' (x >>= f) (y >>= f') := by
  refine h.bind ?_
  rintro ⟨a, r⟩ ⟨b, r'⟩ hab
  obtain ⟨hlen, rfl⟩ := Prod.mk.inj hab
  exact hf a b r hlen

theorem length_copyToBuffer (buffer data : List UInt8) (offset : Nat) :
    (copyToBuffer buffer offset data).length =
      min offset buffer.length + (data.length + (buffer.length - (offset + data.length))) := by
  unfold copyToBuffer
  rw [List.length_append, List.length_append, List.length_take, List.length_drop]

theorem reserveFromBuffer_goAlike (h : a.length = b.length) (len : Nat) :
    GoAlike List.length (reserveFromBuffer g a len) (reserveFromBuffer g' b len) := by
  unfold reserveFromBuffer
  rw [h]
  split_ifs
  · rfl
  · exact .ok (by simp [h])

theorem appendToBuffer_goAlike (h : a.length = b.length) (data : List UInt8) :
    GoAlike List.length (appendToBuffer g a data) (appendToBuffer g' b data) := by
  refine (reserveFromBuffer_goAlike h data.length).bind fun p q hpq => .ok ?_
  rw [length_copyToBuffer, length_copyToBuffer, hpq, h]

theorem padBufferToInt_goAlike (h : a.length = b.length) :
    GoAlike bufferShape (padBufferToInt g a) (padBufferToInt g' b) := by
  unfold padBufferToInt
  rw [h]
  refine (reserveFromBuffer_goAlike h _).bind fun p q hpq => .ok ?_
  unfold bufferShape
  rw [length_copyToBuffer, length_copyToBuffer, hpq]

theorem npSerializeHeader_goAlike (h : a.length = b.length) (type : Nat) :
    GoAlike bufferShape (npSerializeHeader g a type) (npSerializeHeader g' b type) := by
  refine (padBufferToInt_goAlike h).bindBuffer fun p q padlen hpq => ?_
  refine (reserveFromBuffer_goAlike hpq 4).bind fun r s hrs => .ok ?_
  unfold bufferShape
  rw [length_copyToBuffer, length_copyToBuffer, hrs, hpq]

theorem serializeData_goAlike (h : a.length = b.length) (type numlen : Nat) (data : List UInt8) :
    GoAlike bufferShape (serializeData g a type numlen data) (serializeData g' b type numlen data) := by
  refine (npSerializeHeader_goAlike h type).bindBuffer fun p q padlen hpq => ?_
  refine (reserveFromBuffer_goAlike hpq numlen).bind fun r s hrs => .ok ?_
  unfold bufferShape
  rw [length_copyToBuffer, length_copyToBuffer, hrs, hpq]

theorem npSerializeExtendedType_goAlike (h : a.length = b.length) (s : GtypeScalar) :
    GoAlike bufferShape (npSerializeExtendedType g a s) (npSerializeExtendedType g' b s) := by
  cases s with
  | null | string _ | numeric _ | bool _ => rfl
  | _ => exact (serializeData_goAlike h _ _ _).bindBuffer fun p q padlen hpq => .ok (congrArg (·, _) hpq)

theorem convertGtypeScalar_goAlike (h : a.length = b.length) (s : GtypeScalar) :
    GoAlike bufferShape (convertGtypeScalar g a s) (convertGtypeScalar g' b s) := by
  cases s with
  | null => exact .ok (congrArg (·, gtentryIsNull) h)
  | bool val => exact .ok (congrArg (·, if val then gtentryIsBoolTrue else gtentryIsBoolFalse) h)
  | string val =>
    exact (appendToBuffer_goAlike h val).bind fun p q hpq => .ok (congrArg (·, val.length) hpq)
  | numeric val =>
    refine (padBufferToInt_goAlike h).bindBuffer fun p q padlen hpq => ?_
    exact (appendToBuffer_goAlike hpq val).bind fun r s hrs => .ok (congrArg (·, _) hrs)
  | _ =>
    unfold convertGtypeScalar
    exact npSerializeExtendedType_goAlike h _

theorem beginContainer_goAlike (h : a.length = b.length) (header numEntries : Nat) :
    GoAlike List.length (beginContainer g a header numEntries) (beginContainer g' b header numEntries) := by
  refine (padBufferToInt_goAlike h).bindBuffer fun p q padlen hpq => ?_
  refine (appendToBuffer_goAlike hpq _).bind fun r s hrs => ?_
  exact reserveFromBuffer_goAlike hrs _

theorem storeEntry_goAlike (h : a.length = b.length) (e : GtypeErr) (entryOffset i totallen entry : Nat) :
    GoAlike bufferShape (storeEntry e a entryOffset i totallen entry)
      (storeEntry e b entryOffset i totallen entry) := by
  unfold storeEntry
  dsimp only
  split_ifs
  · rfl
  · refine .ok ?_
    unfold bufferShape
    rw [length_copyToBuffer, length_copyToBuffer, h]
  · refine .ok ?_
    unfold bufferShape
    rw [length_copyToBuffer, length_copyToBuffer, h]

theorem endContainer_goAlike {a' b' : StringInfo} (h : a.length = b.length) (h' : a'.length = b'.length)
    (e : GtypeErr) : GoAlike bufferShape (endContainer e a.length a') (endContainer e b.length b') := by
  unfold endContainer
  rw [h, h']
  dsimp only
  split_ifs
  · rfl
  · refine .ok ?_
    unfold bufferShape
    rw [h']

theorem convertKeys_goAlike {entryOffset i totallen : Nat} (h : a.length = b.length) (keys : List (List UInt8)) :
    GoAlike bufferShape (convertKeys g a entryOffset i totallen keys)
      (convertKeys g' b entryOffset i totallen keys) := by
  induction keys generalizing a b entryOffset i totallen with
  | nil => exact .ok (congrArg (·, totallen) h)
  | cons key keys ih =>
    refine (convertGtypeScalar_goAlike h _).bindBuffer fun p q entry hpq => ?_
    exact (storeEntry_goAlike hpq _ _ _ _ _).bindBuffer fun r s totallen hrs => ih hrs

mutual

/-- **A conversion does not look at the bytes of the buffer.** -/
theorem convertGtypeValue_goAlike (g g' : Memory) : (a b : StringInfo) → (v : GtypeValue) → a.length = b.length →
    GoAlike bufferShape (convertGtypeValue g a v) (convertGtypeValue g' b v)
  | a, b, .scalar s, h => convertGtypeScalar_goAlike h s
  | a, b, .array rawScalar elems, h => by
    refine (beginContainer_goAlike h _ _).bind fun p q hpq => ?_
    rw [hpq]
    refine (convertElems_goAlike g g' p q elems _ _ _ hpq).bind fun r s hrs => ?_
    exact endContainer_goAlike h hrs _
  | a, b, .object pairs, h => by
    refine (beginContainer_goAlike h _ _).bind fun p q hpq => ?_
    dsimp only
    rw [hpq]
    refine (convertKeys_goAlike hpq _).bindBuffer fun k l totallen hkl => ?_
    refine (convertValues_goAlike g g' k l pairs _ _ _ hkl).bind fun r s hrs => ?_
    exact endContainer_goAlike h hrs _

theorem convertElems_goAlike (g g' : Memory) : (a b : StringInfo) → (vs : List GtypeValue) →
    (entryOffset i totallen : Nat) → a.length = b.length →
    GoAlike List.length (convertElems g a entryOffset i totallen vs) (convertElems g' b entryOffset i totallen vs)
  | a, b, [], _, _, _, h => .ok h
  | a, b, v :: vs, entryOffset, i, totallen, h => by
    refine (convertGtypeValue_goAlike g g' a b v h).bindBuffer fun p q entry hpq => ?_
    exact (storeEntry_goAlike hpq _ _ _ _ _).bindBuffer fun r s totallen hrs =>
      convertElems_goAlike g g' r s vs _ _ _ hrs

theorem convertValues_goAlike (g g' : Memory) : (a b : StringInfo) → (pairs : List (List UInt8 × GtypeValue)) →
    (entryOffset i totallen : Nat) → a.length = b.length →
    GoAlike List.length (convertValues g a entryOffset i totallen pairs)
      (convertValues g' b entryOffset i totallen pairs)
  | a, b, [], _, _, _, h => .ok h
  | a, b, (_, v) :: pairs, entryOffset, i, totallen, h => by
    refine (convertGtypeValue_goAlike g g' a b v h).bindBuffer fun p q entry hpq => ?_
    exact (storeEntry_goAlike hpq _ _ _ _ _).bindBuffer fun r s totallen hrs =>
      convertValues_goAlike g g' r s pairs _ _ _ hrs

end

/-- **Whether a value is converted, and to how many bytes, does not depend on memory.** -/
theorem convertToGtype_goAlike (g g' : Memory) (v : GtypeValue) :
    GoAlike List.length (convertToGtype g v) (convertToGtype g' v) := by
  refine (reserveFromBuffer_goAlike rfl _).bind fun p q hpq => ?_
  refine (convertGtypeValue_goAlike g g' p q v hpq).bindBuffer fun r s entry hrs => .ok ?_
  rw [length_copyToBuffer, length_copyToBuffer, hrs]

end

/-! ## The bytes -/

mutual

/-- The scalars of a value. -/
def GtypeValue.scalars : GtypeValue → List GtypeScalar
  | .scalar s => [s]
  | .array _ elems => elemScalars elems
  | .object pairs => pairScalars pairs

def elemScalars : List GtypeValue → List GtypeScalar
  | [] => []
  | v :: vs => v.scalars ++ elemScalars vs

def pairScalars : List (List UInt8 × GtypeValue) → List GtypeScalar
  | [] => []
  | (_, v) :: pairs => v.scalars ++ pairScalars pairs

end

/-- A time with a zone: of the 16 bytes of its struct 12 are written. -/
def GtypeScalar.IsTimetz (s : GtypeScalar) : Prop := ∃ t zone, s = .timetz t zone

/-- The bytes do not depend on memory. -/
def Fixed (bytes : Memory → List UInt8) : Prop := ∀ g g', bytes g = bytes g'

section

variable {g g' : Memory} {p : Nat}

theorem fixed_append {a b : Memory → List UInt8} (hlen : ∀ g g', (a g).length = (a g').length) :
    Fixed (fun g => a g ++ b g) ↔ Fixed a ∧ Fixed b := by
  constructor
  · intro h
    exact ⟨fun g g' => (List.append_inj (h g g') (hlen g g')).1,
      fun g g' => (List.append_inj (h g g') (hlen g g')).2⟩
  · rintro ⟨ha, hb⟩ g g'
    dsimp only
    rw [ha g g', hb g g']

theorem fixed_const (a : List UInt8) : Fixed fun _ => a := fun _ _ => rfl

/-- Memory shows through a scalar exactly if it is a time with a zone. -/
theorem fixed_scalar {s : GtypeScalar} (hwf : s.WellFormed) : Fixed (fun g => s.bytes g p) ↔ ¬ s.IsTimetz := by
  cases s with
  | timetz t zone =>
    refine iff_of_false (fun h => ?_) fun h => h ⟨t, zone, rfl⟩
    have hlast := congrArg List.getLast? (h (fun _ => 0) fun _ => 1)
    simp [GtypeScalar.bytes, GtypeScalar.extended, memoryAt, List.range_succ] at hlast
  | inet val | cidr val | mac val | mac8 val =>
    refine iff_of_true (fun g g' => ?_) (by rintro ⟨t, zone, ⟨⟩⟩)
    have hlen : val.length = _ := hwf
    simp [GtypeScalar.bytes, GtypeScalar.extended, memoryAt, hlen, sizeofInet, sizeofMacaddr, sizeofMacaddr8]
  | _ =>
    refine iff_of_true (fun g g' => ?_) (by rintro ⟨t, zone, ⟨⟩⟩)
    simp [GtypeScalar.bytes, GtypeScalar.extended, memoryAt]

/-- Two layouts have as many bytes, and the same entries. -/
def SameShape {α : Type} (x y : List UInt8 × α) : Prop := x.1.length = y.1.length ∧ x.2 = y.2

mutual

/-- **The shape of a layout does not depend on memory.** -/
theorem layout_sameShape (g g' : Memory) (p : Nat) : (v : GtypeValue) → v.WellFormed →
    SameShape (layout g p v) (layout g' p v)
  | .scalar s, hwf => ⟨(s.length_bytes hwf p).trans (s.length_bytes hwf p).symm, rfl⟩
  | .array rawScalar elems, hwf => by
    obtain ⟨hlen, hentries⟩ := layouts_sameShape g g' (intAlign p + 4 + 4 * elems.length) elems hwf
    have hbytes : (layout g p (.array rawScalar elems)).1.length =
        (layout g' p (.array rawScalar elems)).1.length := by
      rw [layout, layout, length_containerBytes, length_containerBytes, hlen, hentries]
    exact ⟨hbytes, congrArg (gtentryIsContainer ||| ·) hbytes⟩
  | .object pairs, hwf => by
    obtain ⟨hlen, hentries⟩ := pairLayouts_sameShape g g'
      (intAlign p + 4 + 4 * (pairs.length * 2) + (pairs.map Prod.fst).flatten.length) pairs hwf
    have hbytes : (layout g p (.object pairs)).1.length = (layout g' p (.object pairs)).1.length := by
      rw [layout, layout, length_containerBytes, length_containerBytes, hentries, List.length_append,
        List.length_append, hlen]
      simp only [List.length_append]
    exact ⟨hbytes, congrArg (gtentryIsContainer ||| ·) hbytes⟩

theorem layouts_sameShape (g g' : Memory) (p : Nat) : (vs : List GtypeValue) → ElemsWellFormed vs →
    SameShape (layouts g p vs) (layouts g' p vs)
  | [], _ => ⟨rfl, rfl⟩
  | v :: vs, hwf => by
    obtain ⟨hlen, hentry⟩ := layout_sameShape g g' p v hwf.1
    obtain ⟨hlens, hentries⟩ := layouts_sameShape g g' (p + (layout g' p v).1.length) vs hwf.2
    unfold SameShape
    rw [layouts, layouts, hlen, hentry, hentries, List.length_append, List.length_append, hlen, hlens]
    exact ⟨rfl, rfl⟩

theorem pairLayouts_sameShape (g g' : Memory) (p : Nat) : (pairs : List (List UInt8 × GtypeValue)) →
    PairsWellFormed pairs → SameShape (pairLayouts g p pairs) (pairLayouts g' p pairs)
  | [], _ => ⟨rfl, rfl⟩
  | (key, v) :: pairs, hwf => by
    obtain ⟨hlen, hentry⟩ := layout_sameShape g g' p v hwf.2.1
    obtain ⟨hlens, hentries⟩ := pairLayouts_sameShape g g' (p + (layout g' p v).1.length) pairs hwf.2.2
    unfold SameShape
    rw [pairLayouts, pairLayouts, hlen, hentry, hentries, List.length_append, List.length_append, hlen, hlens]
    exact ⟨rfl, rfl⟩

end

/-- Memory shows through a container where it shows through its data. -/
theorem fixed_containerBytes {header : Nat} (keyEntries : List Nat) (keys : List UInt8)
    (children : Memory → List UInt8 × List Nat) {entries : List Nat} (hentries : ∀ g, (children g).2 = entries) :
    Fixed (fun g => containerBytes p header (keyEntries ++ (children g).2) (keys ++ (children g).1)) ↔
      Fixed fun g => (children g).1 := by
  unfold Fixed containerBytes
  simp only [hentries, List.append_cancel_left_eq]

mutual

/-- **Memory shows through a value exactly at its times with a zone.** -/
theorem fixed_layout : (p : Nat) → (v : GtypeValue) → v.WellFormed →
    (Fixed (fun g => (layout g p v).1) ↔ ∀ s ∈ v.scalars, ¬ s.IsTimetz)
  | p, .scalar s, hwf => by
    rw [GtypeValue.scalars, List.forall_mem_singleton]
    exact fixed_scalar hwf
  | p, .array rawScalar elems, hwf => by
    refine Iff.trans ?_ (fixed_layouts (intAlign p + 4 + 4 * elems.length) elems hwf)
    exact fixed_containerBytes [] [] (fun g => layouts g (intAlign p + 4 + 4 * elems.length) elems) fun g =>
      (layouts_sameShape g (fun _ => 0) _ elems hwf).2
  | p, .object pairs, hwf => by
    refine Iff.trans ?_ (fixed_pairLayouts
      (intAlign p + 4 + 4 * (pairs.length * 2) + (pairs.map Prod.fst).flatten.length) pairs hwf)
    exact fixed_containerBytes _ _ (fun g => pairLayouts g
      (intAlign p + 4 + 4 * (pairs.length * 2) + (pairs.map Prod.fst).flatten.length) pairs) fun g =>
      (pairLayouts_sameShape g (fun _ => 0) _ pairs hwf).2

theorem fixed_layouts : (p : Nat) → (vs : List GtypeValue) → ElemsWellFormed vs →
    (Fixed (fun g => (layouts g p vs).1) ↔ ∀ s ∈ elemScalars vs, ¬ s.IsTimetz)
  | p, [], _ => iff_of_true (fixed_const []) fun s h => absurd h List.not_mem_nil
  | p, v :: vs, hwf => by
    have hlen : ∀ g g', (layout g p v).1.length = (layout g' p v).1.length :=
      fun g g' => (layout_sameShape g g' p v hwf.1).1
    rw [elemScalars, List.forall_mem_append, ← fixed_layout p v hwf.1,
      ← fixed_layouts (p + (layout (fun _ => 0) p v).1.length) vs hwf.2, ← fixed_append hlen]
    simp only [layouts, hlen _ fun _ => 0]

theorem fixed_pairLayouts : (p : Nat) → (pairs : List (List UInt8 × GtypeValue)) → PairsWellFormed pairs →
    (Fixed (fun g => (pairLayouts g p pairs).1) ↔ ∀ s ∈ pairScalars pairs, ¬ s.IsTimetz)
  | p, [], _ => iff_of_true (fixed_const []) fun s h => absurd h List.not_mem_nil
  | p, (key, v) :: pairs, hwf => by
    have hlen : ∀ g g', (layout g p v).1.length = (layout g' p v).1.length :=
      fun g g' => (layout_sameShape g g' p v hwf.2.1).1
    rw [pairScalars, List.forall_mem_append, ← fixed_layout p v hwf.2.1,
      ← fixed_pairLayouts (p + (layout (fun _ => 0) p v).1.length) pairs hwf.2.2, ← fixed_append hlen]
    simp only [pairLayouts, hlen _ fun _ => 0]

end

/-- What is stored: the length, and the layout of the value. -/
theorem convertToGtype_bytes {v : GtypeValue} {datum : List UInt8} (hwf : v.WellFormed)
    (h : convertToGtype g v = .ok datum) :
    datum = le 4 (4 * (4 + (layout g 4 v).1.length)) ++ (layout g 4 v).1 := by
  obtain ⟨reserved, hr, h⟩ := ok_bind_iff.mp h
  obtain ⟨⟨converted, entry⟩, hc, h⟩ := ok_bind_iff.mp h
  cases h
  have hlen : reserved.length = 4 := by
    rw [reserveFromBuffer_ok hr, List.nil_append, length_memoryAt]
    rfl
  obtain ⟨rfl, -⟩ := convertGtypeValue_ok v hwf hc
  rw [List.length_append, hlen]
  have hcopy := copyToBuffer_append (a := []) (r := reserved) (c := (layout g 4 v).1)
    (d := le 4 (4 * (4 + (layout g 4 v).1.length))) (by rw [hlen, length_le])
  simpa using hcopy

/-- A value without a time with a zone is converted alike on any memory. -/
theorem convertToGtype_fixed {v : GtypeValue} {datum : List UInt8} (hwf : v.WellFormed)
    (hzone : ∀ s ∈ v.scalars, ¬ s.IsTimetz) (h : convertToGtype g v = .ok datum) (g' : Memory) :
    convertToGtype g' v = .ok datum := by
  have halike := convertToGtype_goAlike g g' v
  unfold GoAlike at halike
  rw [h] at halike
  cases h' : convertToGtype g' v with
  | error e =>
    rw [h'] at halike
    cases halike
  | ok datum' =>
    have hlayout : (layout g' 4 v).1 = (layout g 4 v).1 := (fixed_layout 4 v hwf).mpr hzone g' g
    rw [convertToGtype_bytes hwf h, convertToGtype_bytes hwf h', hlayout]

end

/-- **What `convert_to_gtype` stores**: whether it stores anything, and how much, does not depend on what
memory held before; what it stores does not either, unless there is a time with a zone in the value. -/
theorem convertToGtype_reproducible (v : GtypeValue) :
    (∀ g g', (convertToGtype g v).map List.length = (convertToGtype g' v).map List.length) ∧
    ∀ g datum, v.WellFormed → convertToGtype g v = .ok datum →
      ((∀ g', convertToGtype g' v = .ok datum) ↔ ∀ t zone, GtypeScalar.timetz t zone ∉ v.scalars) := by
  refine ⟨fun g g' => convertToGtype_goAlike g g' v, fun g datum hwf h => ⟨fun hall t zone hmem => ?_, fun hzone g' => ?_⟩⟩
  · have hfixed : Fixed fun g => (layout g 4 v).1 := by
      intro g₁ g₂
      have hbytes := (convertToGtype_bytes hwf (hall g₁)).symm.trans (convertToGtype_bytes hwf (hall g₂))
      exact (List.append_inj hbytes (by rw [length_le, length_le])).2
    exact (fixed_layout 4 v hwf).mp hfixed _ hmem ⟨t, zone, rfl⟩
  · refine convertToGtype_fixed hwf (fun s hs => ?_) h g'
    rintro ⟨t, zone, rfl⟩
    exact hzone t zone hs

/-- An array of a string and a time with a zone: the padding of the time is what memory held. -/
theorem convertToGtype_reproducible_example :
    ¬ ∀ g', convertToGtype g' (.array false [.scalar (.string [97]), .scalar (.timetz 1 2)]) =
      convertToGtype (fun _ => 0) (.array false [.scalar (.string [97]), .scalar (.timetz 1 2)]) := by
  intro h
  have hwf : (GtypeValue.array false [.scalar (.string [97]), .scalar (.timetz 1 2)]).WellFormed :=
    ⟨show 0 ∉ [97] by decide, trivial, trivial⟩
  have hok : convertToGtype (fun _ => 0) (.array false [.scalar (.string [97]), .scalar (.timetz 1 2)]) =
      .ok (le 4 (4 * 40) ++ le 4 0x40000002 ++ le 4 0x80000001 ++ le 4 0x60000017 ++ [97, 0, 0, 0] ++
        le 4 6 ++ le 8 1 ++ le 4 2 ++ [0, 0, 0, 0]) := by rfl
  have hfixed := ((convertToGtype_reproducible _).2 _ _ hwf hok).mp fun g' => (h g').trans hok
  exact hfixed 1 2 (by simp [GtypeValue.scalars, elemScalars])

end NeoPostGraph
