import NeoPostGraph.Gtype.Stored

/-!
# The binary round trip

The iterator goes over what the encoder wrote. Its place in a container is the sum of the lengths the
entries report, the child's place is the sum of what the children take.

* `Descends buf p v`: an iterator on the container at `p` yields the tokens of `v`, then goes on with
  the iterators around it.
* `RoundTrips g v`: the tokens of a converted value are its own.

Results:
* `container_descends`: a container that is placed is descended into.
* `roundTrips_of_placed`: so it round-trips. `roundTrips_fails`: behind the padding of a timestamp a
  string is read from somewhere else.
-/

namespace NeoPostGraph

open Bytes

variable {g : Memory} {buf : List UInt8}

/-! ## Steps of the iterator -/

theorem yields_iff {its its' : List GtypeIterator} {token : GtypeToken} {tokens : List GtypeToken}
    (h : gtypeIteratorNext buf its = .ok (some token, its')) :
    Yields buf its (token :: tokens) ↔ Yields buf its' tokens := by
  constructor
  · intro hy
    cases hy with
    | next h' rest =>
      rw [h] at h'
      cases h'
      exact rest
  · exact .next h

/-- An iterator on the container at `p` yields the tokens of `v`, and goes on. -/
def Descends (buf : List UInt8) (p : Nat) (v : GtypeValue) : Prop :=
  ∀ scalarToken, ∃ it token it' tail, iteratorFromContainer buf p = .ok it ∧
    beginIteration buf it = .ok (token, it') ∧ v.tokens scalarToken = token :: tail ∧
    ∀ its rest, Yields buf (it' :: its) (tail ++ rest) ↔ Yields buf its rest

section

variable {container i t d n : Nat} {rawScalar : Bool} {entries : List Nat} {v : GtypeValue}

/-- **What a child yields**, from `fill_gtype_value` on. -/
theorem child_yields {base : Nat} (h : ChildAt g buf container base i t entries v)
    (hwf : v.WellFormed) (hplaced : v.Placed t d) (hd : d ≤ t)
    (hdescends : v.IsContainer → Descends buf (base + intAlign t) v)
    (scalarToken : GtypeScalar → GtypeToken) :
    ∃ val token tail, fillGtypeValue buf container i base d = .ok val ∧
      v.tokens scalarToken = token :: tail ∧
      ∀ its, ∃ its', returnOrRecurse buf val scalarToken its = .ok (some token, its') ∧
        ∀ rest, Yields buf its' (tail ++ rest) ↔ Yields buf its rest := by
  have hcontainer : v.IsContainer → ∃ val token tail, fillGtypeValue buf container i base d = .ok val ∧
      v.tokens scalarToken = token :: tail ∧
      ∀ its, ∃ its', returnOrRecurse buf val scalarToken its = .ok (some token, its') ∧
        ∀ rest, Yields buf its' (tail ++ rest) ↔ Yields buf its rest := by
    intro hv
    obtain ⟨len, hfill⟩ := h.fillGtypeValue_container hv hplaced
    obtain ⟨it, token, it', tail, hit, hbegin, htokens, hyields⟩ := hdescends hv scalarToken
    refine ⟨_, token, tail, hfill, htokens, fun its => ⟨it' :: its, ?_, hyields its⟩⟩
    simp only [returnOrRecurse, hit, hbegin, ok_bind_eq]
    rfl
  cases v with
  | scalar s =>
    exact ⟨.scalar s, scalarToken s, [], h.fillGtypeValue_scalar hwf hplaced hd, rfl,
      fun its => ⟨its, rfl, fun rest => Iff.rfl⟩⟩
  | array rawScalar elems => exact hcontainer trivial
  | object pairs => exact hcontainer trivial

/-- The first call on a container. -/
theorem next_begin {p : Nat} {it it' : GtypeIterator} {token : GtypeToken}
    (hit : iteratorFromContainer buf p = .ok it) (hbegin : beginIteration buf it = .ok (token, it'))
    (its : List GtypeIterator) : gtypeIteratorNext buf (it :: its) = .ok (some token, it' :: its) := by
  have hstate : it.state = .arrayStart ∨ it.state = .objectStart := by
    obtain ⟨header, -, hit⟩ := ok_bind_iff.mp hit
    split_ifs at hit
    · cases hit
      exact .inl rfl
    · cases hit
      exact .inr rfl
  unfold gtypeIteratorNext
  rcases hstate with hstate | hstate
  · simp only [hstate, hbegin, ok_bind_eq]
    rfl
  · simp only [hstate, hbegin, ok_bind_eq]
    rfl

/-- A call in the elements of an array. -/
theorem next_elem {val : FilledValue} {its : List GtypeIterator} {entry : Nat} (hi : i < n)
    (hfill : fillGtypeValue buf container i (container + 4 + 4 * n) d = .ok val)
    (hread : readEntry buf container i = .ok entry) :
    gtypeIteratorNext buf (elemIterator container n rawScalar i d :: its) =
      returnOrRecurse buf val .elem
        (elemIterator container n rawScalar (i + 1) (gteAdvanceOffset d entry) :: its) := by
  unfold gtypeIteratorNext elemIterator
  simp only [Nat.not_le.mpr hi, if_false, hfill, hread, ok_bind_eq]

theorem next_endArray (its : List GtypeIterator) :
    gtypeIteratorNext buf (elemIterator container n rawScalar n d :: its) =
      .ok (some .endArray, its) := by
  unfold gtypeIteratorNext elemIterator
  simp only [Nat.le_refl, if_true]

/-- An iterator before a value of an object. -/
def valueIterator (container numPairs : Nat) (i offset valueOffset : Nat) : GtypeIterator :=
  { keyIterator container numPairs i offset valueOffset with state := .objectValue }

/-- A call before a key. -/
theorem next_key {key : List UInt8} {w : Nat} (its : List GtypeIterator) (hi : i < n)
    (hfill : fillGtypeValue buf container i (container + 4 + 4 * n * 2) d =
      .ok (.scalar (.string key))) :
    gtypeIteratorNext buf (keyIterator container n i d w :: its) =
      .ok (some (.key key), valueIterator container n i d w :: its) := by
  unfold gtypeIteratorNext keyIterator
  simp only [Nat.not_le.mpr hi, if_false, hfill, ok_bind_eq]
  rfl

/-- A call before a value. -/
theorem next_value {val : FilledValue} {keyEntry entry w : Nat} (its : List GtypeIterator)
    (hfill : fillGtypeValue buf container (i + n) (container + 4 + 4 * n * 2) w = .ok val)
    (hkey : readEntry buf container i = .ok keyEntry)
    (hread : readEntry buf container (i + n) = .ok entry) :
    gtypeIteratorNext buf (valueIterator container n i d w :: its) =
      returnOrRecurse buf val .value (keyIterator container n (i + 1) (gteAdvanceOffset d keyEntry)
        (gteAdvanceOffset w entry) :: its) := by
  unfold gtypeIteratorNext valueIterator keyIterator
  simp only [hfill, hkey, hread, ok_bind_eq]

theorem next_endObject {w : Nat} (its : List GtypeIterator) :
    gtypeIteratorNext buf (keyIterator container n n d w :: its) = .ok (some .endObject, its) := by
  unfold gtypeIteratorNext keyIterator
  simp only [Nat.le_refl, if_true]

end

/-! ## Containers -/

theorem reportedLens_getD {entries : List Nat} {i t : Nat} {v : GtypeValue}
    (h : entries.getD i 0 = v.entry t) (hfits : v.reported t ≤ gtentryOfflenmask) :
    OffsetTable.start (reportedLens entries) (i + 1) =
      OffsetTable.start (reportedLens entries) i + v.reported t := by
  rw [OffsetTable.start_succ, EntriesAt.getD_reportedLens, h, entry_offlen hfits]

theorem getD_of_drop {entries rest : List Nat} {i entry : Nat} (h : entries.drop i = entry :: rest) :
    i < entries.length ∧ entries.getD i 0 = entry ∧ entries.drop (i + 1) = rest := by
  have hi : i < entries.length := by
    by_contra hge
    rw [List.drop_eq_nil_of_le (Nat.not_lt.mp hge)] at h
    cases h
  rw [List.drop_eq_getElem_cons hi] at h
  obtain ⟨hentry, hrest⟩ := List.cons.inj h
  exact ⟨hi, by rw [List.getD_eq_getElem _ _ hi, hentry], hrest⟩

theorem sum_keys (pairs : List (List UInt8 × GtypeValue)) :
    (pairs.map fun pair => pair.1.length).sum = (pairs.map Prod.fst).flatten.length := by
  rw [List.length_flatten, List.map_map]
  rfl

mutual

/-- **A container that is placed is descended into.** -/
theorem container_descends {p t d : Nat} : (v : GtypeValue) → v.IsContainer → v.WellFormed →
    Holds buf p (layout g p v).1 → (layout g p v).1.length ≤ gtentryOfflenmask → v.Placed t d →
    Descends buf (intAlign p) v
  | .scalar s, hv, _, _, _, _ => hv.elim
  | .array rawScalar elems, _, hwf, hholds, hfits, hplaced => by
    intro scalarToken
    have hstored := storedAt_of_holds (v := .array rawScalar elems) trivial hwf hholds hfits
    have hbase : 4 ∣ intAlign p + 4 + 4 * elems.length := dvd_start
    have htable : EntriesAt buf (intAlign p) (entriesFrom 0 elems) := hstored.entries
    have hdata : Holds buf (intAlign p + 4 + 4 * elems.length + 0)
        (layouts g (intAlign p + 4 + 4 * elems.length + 0) elems).1 := by
      simpa [GtypeValue.keys, GtypeValue.children, GtypeValue.dataProper] using hstored.childBytes
    have hfits : 4 + 4 * elems.length + elemsSize 0 elems ≤ gtentryOfflenmask := by
      simpa [GtypeValue.keys, GtypeValue.children] using hstored.fits
    have helems := elems_yield rawScalar (i := 0) (t := 0) elems hwf htable (length_entriesFrom 0 elems)
      rfl (Nat.zero_le _) hbase hdata (by omega) hplaced.2 (Nat.le_refl 0)
    unfold gtentryOfflenmask at hfits
    refine ⟨_, _, elemIterator (intAlign p) elems.length rawScalar 0 0,
      elemTokens elems ++ [.endArray], iteratorFromContainer_array hstored.header (by omega), rfl, rfl, ?_⟩
    intro its rest
    rw [List.append_assoc]
    exact helems its rest
  | .object pairs, _, hwf, hholds, hfits, hplaced => by
    intro scalarToken
    have hstored := storedAt_of_holds (v := .object pairs) trivial hwf hholds hfits
    have hbase : 4 ∣ intAlign p + 4 + 4 * (pairs.length * 2) := dvd_start
    have hat : EntriesAt buf (intAlign p) (pairs.map (fun pair => pair.1.length) ++
        entriesFrom (pairs.map Prod.fst).flatten.length (pairs.map Prod.snd)) := by
      simpa [GtypeValue.childEntries, GtypeValue.keys, GtypeValue.children, Function.comp_def] using
        hstored.entries
    have hkeyBytes : Holds buf (intAlign p + 4 + 4 * (pairs.length * 2))
        (pairs.map Prod.fst).flatten := by
      simpa [GtypeValue.dataProper, GtypeValue.keys, GtypeValue.children, Nat.mul_two] using
        hstored.keyBytes
    have hvalueBytes : Holds buf (intAlign p + 4 + 4 * (pairs.length * 2) + (pairs.map Prod.fst).flatten.length)
        (layouts g (intAlign p + 4 + 4 * (pairs.length * 2) + (pairs.map Prod.fst).flatten.length)
          (pairs.map Prod.snd)).1 := by
      simpa [GtypeValue.dataProper, GtypeValue.keys, GtypeValue.children, Nat.mul_two] using
        hstored.childBytes
    have hfits : 4 + 4 * (pairs.length + pairs.length) + (pairs.map Prod.fst).flatten.length +
        elemsSize (pairs.map Prod.fst).flatten.length (pairs.map Prod.snd) ≤ gtentryOfflenmask := by
      simpa [GtypeValue.keys, GtypeValue.children] using hstored.fits
    obtain ⟨hkeys, hlens⟩ := reportedLens_keys
      (show (pairs.map Prod.fst).flatten.length ≤ gtentryOfflenmask by omega)
    have hstart : OffsetTable.start (reportedLens (pairs.map (fun pair => pair.1.length) ++
        entriesFrom (pairs.map Prod.fst).flatten.length (pairs.map Prod.snd))) pairs.length =
        (pairs.map Prod.fst).flatten.length := by
      rw [List.map_map] at hlens
      unfold OffsetTable.start reportedLens at *
      rw [List.map_append, List.take_left' (by rw [List.length_map, List.length_map])]
      exact (congrArg List.sum hlens).trans (sum_keys pairs)
    have hpairs := pairs_yield (n := pairs.length) (i := 0) (j := pairs.length)
      (t := (pairs.map Prod.fst).flatten.length) pairs hwf hat rfl
      (List.drop_left' (List.length_map _)) (Nat.zero_add _) (by rwa [Nat.mul_assoc])
      (by rw [Nat.mul_assoc]; exact hkeyBytes) (by rw [Nat.mul_assoc]; exact hvalueBytes) (by omega)
      (fun pair hpair => hkeys pair.1 (List.mem_map_of_mem hpair))
      (by rw [hstart]; exact hplaced.2) (Nat.le_of_eq hstart)
    unfold gtentryOfflenmask at hfits
    have hoffset := hat.getGtypeOffset_eq (i := pairs.length)
      (by rw [List.length_append, List.length_map]; omega)
    rw [hstart] at hoffset
    refine ⟨_, .beginObject pairs.length, keyIterator (intAlign p) pairs.length 0 0
      (pairs.map Prod.fst).flatten.length, pairTokens pairs ++ [.endObject],
      iteratorFromContainer_object hstored.header (by omega), ?_, rfl, ?_⟩
    · unfold beginIteration keyIterator
      dsimp only
      rw [if_neg GtIteratorState.noConfusion, hoffset]
      rfl
    · intro its rest
      have hpairs := hpairs (Nat.zero_add _) its rest
      rw [hstart] at hpairs
      rw [List.append_assoc]
      exact hpairs

/-- The elements of an array, from one on. -/
theorem elems_yield {container n i t : Nat} (rawScalar : Bool) {entries : List Nat} :
    (vs : List GtypeValue) → ElemsWellFormed vs → EntriesAt buf container entries →
    entries.length = n → entries.drop i = entriesFrom t vs → i ≤ n →
    4 ∣ container + 4 + 4 * n →
    Holds buf (container + 4 + 4 * n + t) (layouts g (container + 4 + 4 * n + t) vs).1 →
    elemsSize t vs ≤ gtentryOfflenmask →
    ElemsPlaced t (OffsetTable.start (reportedLens entries) i) vs →
    OffsetTable.start (reportedLens entries) i ≤ t → ∀ its rest,
    (Yields buf (elemIterator container n rawScalar i
        (OffsetTable.start (reportedLens entries) i) :: its) (elemTokens vs ++ .endArray :: rest) ↔
      Yields buf its rest)
  | [], _, _, hn, hdrop, hi, _, _, _, _, _ => by
    intro its rest
    have hge := List.drop_eq_nil_iff.mp hdrop
    obtain rfl : i = n := by omega
    exact yields_iff (next_endArray its)
  | v :: vs, hwf, htable, hn, hdrop, hi, hbase, hholds, hfits, hplaced, hd => by
    intro its rest
    obtain ⟨hlt, hentry, hrest⟩ := getD_of_drop hdrop
    unfold elemsSize at hfits
    rw [layouts, holds_append_iff] at hholds
    have hsize := layout_size (g := g) (p := t) hbase v hwf.1
    have hchild : ChildAt g buf container (container + 4 + 4 * n) i t entries v :=
      ⟨htable, hlt, hentry, hbase, hholds.1, by omega⟩
    obtain ⟨entry, hread, -, hoffset⟩ := hchild.readEntry_spec
    obtain ⟨val, token, tail, hfill, htokens, hyields⟩ := child_yields hchild hwf.1 hplaced.1 hd
      (fun hv => by
        rw [← intAlign_add hbase]
        exact container_descends v hv hwf.1 hholds.1 (by omega) hplaced.1) .elem
    obtain ⟨its', hreturn, hyields⟩ := hyields (elemIterator container n rawScalar (i + 1)
      (gteAdvanceOffset (OffsetTable.start (reportedLens entries) i) entry) :: its)
    have hstart := reportedLens_getD hentry hchild.reported_fits
    have hreported := v.reported_le t
    rw [htable.gteAdvanceOffset_eq hoffset] at hreturn hyields
    rw [hsize, Nat.add_assoc _ t] at hholds
    have hplaced' := hplaced.2
    rw [← hstart] at hplaced'
    have hvs := elems_yield rawScalar (i := i + 1) (t := t + v.size t) vs hwf.2 htable
      hn hrest (by omega) hbase hholds.2 (by omega) hplaced' (by omega) its rest
    rw [elemTokens, htokens, List.cons_append, List.cons_append,
      yields_iff ((next_elem (by omega) hfill hread).trans
        ((congrArg _ (by rw [htable.gteAdvanceOffset_eq hoffset])).trans hreturn)),
      List.append_assoc, hyields]
    exact hvs

/-- The pairs of an object, from one on. -/
theorem pairs_yield {container n i j t : Nat} {entries values : List Nat} :
    (pairs : List (List UInt8 × GtypeValue)) → PairsWellFormed pairs →
    EntriesAt buf container entries →
    entries.drop i = pairs.map (fun pair => pair.1.length) ++ values →
    entries.drop j = entriesFrom t (pairs.map Prod.snd) → i + n = j →
    4 ∣ container + 4 + 4 * n * 2 →
    Holds buf (container + 4 + 4 * n * 2 + OffsetTable.start (reportedLens entries) i)
      (pairs.map Prod.fst).flatten →
    Holds buf (container + 4 + 4 * n * 2 + t)
      (layouts g (container + 4 + 4 * n * 2 + t) (pairs.map Prod.snd)).1 →
    elemsSize t (pairs.map Prod.snd) ≤ gtentryOfflenmask →
    (∀ pair ∈ pairs, pair.1.length ≤ gtentryOfflenmask) →
    PairsPlaced t (OffsetTable.start (reportedLens entries) j) pairs →
    OffsetTable.start (reportedLens entries) j ≤ t → i + pairs.length = n → ∀ its rest,
    (Yields buf (keyIterator container n i (OffsetTable.start (reportedLens entries) i)
        (OffsetTable.start (reportedLens entries) j) :: its) (pairTokens pairs ++ .endObject :: rest) ↔
      Yields buf its rest)
  | [], _, _, _, _, _, _, _, _, _, _, _, _, hn => by
    intro its rest
    obtain rfl : i = n := hn
    exact yields_iff (next_endObject its)
  | (key, v) :: pairs, hwf, htable, hkeys, hdrop, hj, hbase, hkeyBytes, hholds, hfits, hlens, hplaced,
      hd, hn => by
    intro its rest
    obtain ⟨hltk, hkey, hkeys⟩ := getD_of_drop hkeys
    obtain ⟨hlt, hentry, hrest⟩ := getD_of_drop hdrop
    rw [List.map_cons, List.flatten_cons, holds_append_iff] at hkeyBytes
    rw [List.map_cons] at hholds hfits
    unfold elemsSize at hfits
    rw [layouts, holds_append_iff] at hholds
    have hsize := layout_size (g := g) (p := t) hbase v hwf.2.1
    have hkeyFits : key.length ≤ gtentryOfflenmask := hlens (key, v) List.mem_cons_self
    dsimp only at hkey hentry hrest hfits hkeyBytes hholds
    have hkeyEntry : entries.getD i 0 = (GtypeValue.scalar (.string key)).entry
        (OffsetTable.start (reportedLens entries) i) := by
      rw [hkey]
      exact (string_entry (OffsetTable.start (reportedLens entries) i) key).symm
    have hkeyChild : ChildAt g buf container (container + 4 + 4 * n * 2) i
        (OffsetTable.start (reportedLens entries) i) entries (.scalar (.string key)) :=
      ⟨htable, hltk, hkeyEntry, hbase, hkeyBytes.1, hkeyFits⟩
    have hchild : ChildAt g buf container (container + 4 + 4 * n * 2) j t entries v :=
      ⟨htable, hlt, hentry, hbase, hholds.1, by omega⟩
    have hkeyFill := hkeyChild.fillGtypeValue_scalar hwf.1 (.inr rfl) (Nat.le_refl _)
    obtain ⟨keyEntry, hkeyRead, -, hkeyOffset⟩ := hkeyChild.readEntry_spec
    obtain ⟨entry, hread, -, hoffset⟩ := hchild.readEntry_spec
    obtain ⟨val, token, tail, hfill, htokens, hyields⟩ := child_yields hchild hwf.2.1 hplaced.1 hd
      (fun hv => by
        rw [← intAlign_add hbase]
        exact container_descends v hv hwf.2.1 hholds.1 (by omega) hplaced.1) .value
    obtain ⟨its', hreturn, hyields⟩ := hyields (keyIterator container n (i + 1)
      (OffsetTable.start (reportedLens entries) (i + 1))
      (OffsetTable.start (reportedLens entries) (j + 1)) :: its)
    have hkeyStart : OffsetTable.start (reportedLens entries) (i + 1) =
        OffsetTable.start (reportedLens entries) i + key.length :=
      reportedLens_getD hkeyEntry hkeyChild.reported_fits
    have hstart := reportedLens_getD hentry hchild.reported_fits
    have hreported := v.reported_le t
    rw [hsize, Nat.add_assoc _ t] at hholds
    rw [Nat.add_assoc _ (OffsetTable.start (reportedLens entries) i), ← hkeyStart] at hkeyBytes
    have hplaced' := hplaced.2
    rw [← hstart] at hplaced'
    rw [List.length_cons] at hn
    have hpairs := pairs_yield (i := i + 1) (j := j + 1) (t := t + v.size t) pairs hwf.2.2 htable
      hkeys hrest (by omega) hbase hkeyBytes.2 hholds.2 (by omega)
      (fun pair hpair => hlens pair (List.mem_cons_of_mem _ hpair)) hplaced' (by omega) (by omega)
      its rest
    have hvalue := next_value (d := OffsetTable.start (reportedLens entries) i) its (by rw [hj]; exact hfill) hkeyRead (by rw [hj]; exact hread)
    rw [htable.gteAdvanceOffset_eq hkeyOffset, htable.gteAdvanceOffset_eq hoffset, hreturn] at hvalue
    simp only [pairTokens, htokens, List.cons_append, List.append_assoc]
    rw [yields_iff (next_key its (by omega) hkeyFill), yields_iff hvalue, hyields]
    exact hpairs

end

/-! ## The round trip -/

/-- The tokens of a converted value are its own. -/
def RoundTrips (g : Memory) (v : GtypeValue) : Prop :=
  ∀ buf, convertToGtype g v = .ok buf → IteratesTo buf (v.tokens .elem)

/-- **A container in which every value is found where it is stored round-trips.** -/
theorem roundTrips_of_placed {v : GtypeValue} (hv : v.IsContainer) (hwf : v.WellFormed)
    (hplaced : v.Placed 0 0) : RoundTrips g v := by
  intro buf hconvert
  obtain ⟨hholds, hfits⟩ := convertToGtype_ok hwf hv hconvert
  obtain ⟨it, token, it', tail, hit, hbegin, htokens, hyields⟩ :=
    container_descends v hv hwf hholds hfits hplaced .elem
  refine ⟨it, hit, ?_⟩
  rw [htokens, ← List.append_nil tail, yields_iff (next_begin hit hbegin []), hyields]
  exact .done

/-- An array of a string, a timestamp and a string. -/
def exampleTimestamps : GtypeValue :=
  .array false [.scalar (.string [97]), .scalar (.timestamp 5), .scalar (.string [98, 99])]

/-- What it is converted to, on memory that is zero. -/
def exampleTimestampsBytes : List UInt8 :=
  [152, 0, 0, 0, 3, 0, 0, 64] ++ [1, 0, 0, 128, 12, 0, 0, 96, 2, 0, 0, 0] ++
    [97, 0, 0, 0, 2, 0, 0, 0, 5, 0, 0, 0, 0, 0, 0, 0, 98, 99]

/-- **The string behind the timestamp is read 3 bytes too early**, where a zero byte ends it. -/
theorem roundTrips_fails : ¬ ∀ g v, GtypeValue.IsContainer v → v.WellFormed → RoundTrips g v := by
  intro h
  have hwf : exampleTimestamps.WellFormed := by
    refine ⟨?_, trivial, ?_, trivial⟩
    · show 0 ∉ [97]
      decide
    · show 0 ∉ [98, 99]
      decide
  obtain ⟨it, hit, hyields⟩ := h (fun _ => 0) exampleTimestamps trivial hwf exampleTimestampsBytes
    (by rfl)
  have hroot : iteratorFromContainer exampleTimestampsBytes 4 =
      .ok { elemIterator 4 3 false 0 0 with state := .arrayStart } := by decide +kernel
  rw [hroot] at hit
  cases hit
  have hbegin : gtypeIteratorNext exampleTimestampsBytes
      [{ elemIterator 4 3 false 0 0 with state := .arrayStart }] =
      .ok (some (.beginArray 3 false), [elemIterator 4 3 false 0 0]) := by rfl
  have hstring : gtypeIteratorNext exampleTimestampsBytes [elemIterator 4 3 false 0 0] =
      .ok (some (.elem (.string [97])), [elemIterator 4 3 false 1 1]) := by decide +kernel
  have htimestamp : gtypeIteratorNext exampleTimestampsBytes [elemIterator 4 3 false 1 1] =
      .ok (some (.elem (.timestamp 5)), [elemIterator 4 3 false 2 13]) := by decide +kernel
  have hmisread : gtypeIteratorNext exampleTimestampsBytes [elemIterator 4 3 false 2 13] =
      .ok (some (.elem (.string [])), [elemIterator 4 3 false 3 15]) := by decide +kernel
  cases (yields_iff htimestamp).mp ((yields_iff hstring).mp ((yields_iff hbegin).mp hyields)) with
  | next hnext rest =>
    rw [hmisread] at hnext
    cases hnext

/-- A nested value round-trips when its timestamp starts at a multiple of 4. -/
theorem roundTrips_of_placed_example : RoundTrips (fun _ => 0) (.object
    [([97], .array false [.scalar (.timestamp 5), .scalar (.string [98]), .scalar (.integer 7)])]) :=
  roundTrips_of_placed trivial
    ⟨by decide, ⟨trivial, show 0 ∉ [98] by decide, trivial, trivial⟩, trivial⟩
    ⟨rfl, ⟨rfl, rfl, .inr rfl, rfl, trivial⟩, trivial⟩

end NeoPostGraph
