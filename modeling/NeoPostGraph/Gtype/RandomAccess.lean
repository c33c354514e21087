import NeoPostGraph.Gtype.RoundTrip
import Mathlib.Logic.Relation

/-!
# Random access and iteration

`get_gtype_offset` and `get_gtype_length` (`gtype_util.c:90-133`) walk back over the entries of a container,
the iterator (`gtype_util.c:441-586`) goes forward over them.

* `EncodedAt g buf p v`: the container is in what `convert_to_gtype` has made, as the root or deeper.
* `gtypeIteratorSkip`: a call with `skip_nested`. `IteratorMove`: a call of either kind.
* `GtypeIterator.InStep`: the offsets an iterator holds are those of random access at its index.

Results:
* `move_inStep`: a call keeps the iterator of a container in step, whatever it does to those inside.
* `container_reaches`: an iterator comes to every child, if the calls come to their end.
* `random_access_agrees`: so the two agree for every child of every container.
-/

namespace NeoPostGraph

open Bytes

variable {g : Memory} {buf : List UInt8} {p : Nat} {v : GtypeValue}

/-! ## Containers in a gtype -/

/-- The container `v` has its header at `p` in what `convert_to_gtype` has made. -/
inductive EncodedAt (g : Memory) (buf : List UInt8) : Nat → GtypeValue → Prop
  | root {v : GtypeValue} (hwf : v.WellFormed) (hv : v.IsContainer) (h : convertToGtype g v = .ok buf) :
      EncodedAt g buf varhdrsz v
  | child {p : Nat} {v w : GtypeValue} {front back : List GtypeValue} (h : EncodedAt g buf p v)
      (hsplit : v.children = front ++ w :: back) (hw : w.IsContainer) :
      EncodedAt g buf (v.dataProper p + intAlign (v.childOffset front)) w

theorem EncodedAt.stored (h : EncodedAt g buf p v) : StoredAt g buf p v := by
  induction h with
  | root hwf hv h => exact storedAt_root hwf hv h
  | child h hsplit hw ih => exact ih.child hsplit hw

/-! ## The iterator -/

/-- `gtype_iterator_next` with `skip_nested` true: a child that is a container is returned as it is. The
value is what the caller gets, if the call sets one. -/
def gtypeIteratorSkip (buf : List UInt8) :
    List GtypeIterator → Except GtypeErr (Option FilledValue × List GtypeIterator)
  | [] => .ok (none, [])
  | it :: parents =>
    match it.state with
    | .arrayStart | .objectStart => do
      let (_, it) ← beginIteration buf it
      return (none, it :: parents)
    | .arrayElem =>
      if it.numElems ≤ it.currIndex then .ok (none, parents)
      else do
        let val ← fillGtypeValue buf it.container it.currIndex it.dataProper it.currDataOffset
        let entry ← readEntry buf it.container it.currIndex
        return (some val, { it with
          currDataOffset := gteAdvanceOffset it.currDataOffset entry
          currIndex := it.currIndex + 1 } :: parents)
    | .objectKey =>
      if it.numElems ≤ it.currIndex then .ok (none, parents)
      else do
        let val ← fillGtypeValue buf it.container it.currIndex it.dataProper it.currDataOffset
        match val with
        | .scalar (.string key) =>
          return (some (.scalar (.string key)), { it with state := .objectValue } :: parents)
        | val => .error (.unexpectedKey val.type)
    | .objectValue => do
      let val ← fillGtypeValue buf it.container (it.currIndex + it.numElems) it.dataProper
        it.currValueOffset
      let keyEntry ← readEntry buf it.container it.currIndex
      let entry ← readEntry buf it.container (it.currIndex + it.numElems)
      return (some val, { it with
        state := .objectKey
        currDataOffset := gteAdvanceOffset it.currDataOffset keyEntry
        currValueOffset := gteAdvanceOffset it.currValueOffset entry
        currIndex := it.currIndex + 1 } :: parents)

/-- A call that returns, with either value of `skip_nested`. -/
inductive IteratorMove (buf : List UInt8) : List GtypeIterator → List GtypeIterator → Prop
  | next {its its' : List GtypeIterator} {token : Option GtypeToken}
      (h : gtypeIteratorNext buf its = .ok (token, its')) : IteratorMove buf its its'
  | skip {its its' : List GtypeIterator} {val : Option FilledValue}
      (h : gtypeIteratorSkip buf its = .ok (val, its')) : IteratorMove buf its its'

/-- What one call does to the iterator on top that goes on: it starts, takes a key, or goes on to the next
child. -/
inductive Moves (buf : List UInt8) (it : GtypeIterator) : GtypeIterator → Prop
  | start {token : GtypeToken} {it' : GtypeIterator} (hstate : it.state = .arrayStart ∨ it.state = .objectStart)
      (h : beginIteration buf it = .ok (token, it')) : Moves buf it it'
  | elem {entry : Nat} (hstate : it.state = .arrayElem) (hi : it.currIndex < it.numElems)
      (h : readEntry buf it.container it.currIndex = .ok entry) :
      Moves buf it { it with
        currDataOffset := gteAdvanceOffset it.currDataOffset entry, currIndex := it.currIndex + 1 }
  | key (hstate : it.state = .objectKey) (hi : it.currIndex < it.numElems) :
      Moves buf it { it with state := .objectValue }
  | value {keyEntry entry : Nat} (hstate : it.state = .objectValue)
      (hkey : readEntry buf it.container it.currIndex = .ok keyEntry)
      (h : readEntry buf it.container (it.currIndex + it.numElems) = .ok entry) :
      Moves buf it { it with
        state := .objectKey
        currDataOffset := gteAdvanceOffset it.currDataOffset keyEntry
        currValueOffset := gteAdvanceOffset it.currValueOffset entry
        currIndex := it.currIndex + 1 }

theorem returnOrRecurse_keeps {val : FilledValue} {scalarToken : GtypeScalar → GtypeToken}
    {its its' : List GtypeIterator} {token : Option GtypeToken}
    (h : returnOrRecurse buf val scalarToken its = .ok (token, its')) :
    ∃ above, its' = above ++ its := by
  cases val with
  | scalar s =>
    cases h
    exact ⟨[], rfl⟩
  | binary data len =>
    obtain ⟨child, -, h⟩ := ok_bind_iff.mp h
    obtain ⟨⟨begun, child'⟩, -, h⟩ := ok_bind_iff.mp h
    cases h
    exact ⟨[child'], rfl⟩

/-- **One call**: the iterator on top is given back at its end, or it goes on, with what it steps into on top
of it. -/
theorem move_cases {its parents : List GtypeIterator} {it : GtypeIterator}
    (h : IteratorMove buf (it :: parents) its) :
    (its = parents ∧ it.numElems ≤ it.currIndex) ∨
      ∃ above it', its = above ++ it' :: parents ∧ Moves buf it it' := by
  cases h with
  | next h =>
    unfold gtypeIteratorNext at h
    dsimp only at h
    split at h
    · next hstate =>
      obtain ⟨⟨token, it'⟩, hbegin, h⟩ := ok_bind_iff.mp h
      cases h
      exact Or.inr ⟨[], it', rfl, .start (.inl hstate) hbegin⟩
    · next hstate =>
      obtain ⟨⟨token, it'⟩, hbegin, h⟩ := ok_bind_iff.mp h
      cases h
      exact Or.inr ⟨[], it', rfl, .start (.inr hstate) hbegin⟩
    · next hstate =>
      split_ifs at h with hi
      · cases h
        exact Or.inl ⟨rfl, hi⟩
      · obtain ⟨val, -, h⟩ := ok_bind_iff.mp h
        obtain ⟨entry, hread, h⟩ := ok_bind_iff.mp h
        obtain ⟨above, rfl⟩ := returnOrRecurse_keeps h
        exact Or.inr ⟨above, _, rfl, .elem hstate (Nat.not_le.mp hi) hread⟩
    · next hstate =>
      split_ifs at h with hi
      · cases h
        exact Or.inl ⟨rfl, hi⟩
      · obtain ⟨val, -, h⟩ := ok_bind_iff.mp h
        split at h
        · cases h
          exact Or.inr ⟨[], _, rfl, .key hstate (Nat.not_le.mp hi)⟩
        · cases h
    · next hstate =>
      obtain ⟨val, -, h⟩ := ok_bind_iff.mp h
      obtain ⟨keyEntry, hkey, h⟩ := ok_bind_iff.mp h
      obtain ⟨entry, hread, h⟩ := ok_bind_iff.mp h
      obtain ⟨above, rfl⟩ := returnOrRecurse_keeps h
      exact Or.inr ⟨above, _, rfl, .value hstate hkey hread⟩
  | skip h =>
    unfold gtypeIteratorSkip at h
    dsimp only at h
    split at h
    · next hstate =>
      obtain ⟨⟨token, it'⟩, hbegin, h⟩ := ok_bind_iff.mp h
      cases h
      exact Or.inr ⟨[], it', rfl, .start (.inl hstate) hbegin⟩
    · next hstate =>
      obtain ⟨⟨token, it'⟩, hbegin, h⟩ := ok_bind_iff.mp h
      cases h
      exact Or.inr ⟨[], it', rfl, .start (.inr hstate) hbegin⟩
    · next hstate =>
      split_ifs at h with hi
      · cases h
        exact Or.inl ⟨rfl, hi⟩
      · obtain ⟨val, -, h⟩ := ok_bind_iff.mp h
        obtain ⟨entry, hread, h⟩ := ok_bind_iff.mp h
        cases h
        exact Or.inr ⟨[], _, rfl, .elem hstate (Nat.not_le.mp hi) hread⟩
    · next hstate =>
      split_ifs at h with hi
      · cases h
        exact Or.inl ⟨rfl, hi⟩
      · obtain ⟨val, -, h⟩ := ok_bind_iff.mp h
        split at h
        · cases h
          exact Or.inr ⟨[], _, rfl, .key hstate (Nat.not_le.mp hi)⟩
        · cases h
    · next hstate =>
      obtain ⟨val, -, h⟩ := ok_bind_iff.mp h
      obtain ⟨keyEntry, hkey, h⟩ := ok_bind_iff.mp h
      obtain ⟨entry, hread, h⟩ := ok_bind_iff.mp h
      cases h
      exact Or.inr ⟨[], _, rfl, .value hstate hkey hread⟩

/-- A call while the iterators on top of these parents go on. -/
def MoveAbove (buf : List UInt8) (parents its its' : List GtypeIterator) : Prop :=
  its ≠ [] ∧ IteratorMove buf (its ++ parents) (its' ++ parents)

/-- The lowest iterator is given back at its end, or it waits or goes on. -/
theorem moveAbove_cases {parents its its' : List GtypeIterator} {last : GtypeIterator}
    (h : MoveAbove buf parents its its') (hlast : its.getLast? = some last) :
    (its' = [] ∧ last.numElems ≤ last.currIndex) ∨
      ∃ last', its'.getLast? = some last' ∧ (last' = last ∨ Moves buf last last') := by
  obtain ⟨hne, h⟩ := h
  cases its with
  | nil => exact absurd rfl hne
  | cons it rest =>
    rcases move_cases h with ⟨hgone, hend⟩ | ⟨above, it', hon, hmoves⟩
    · obtain rfl : its' = rest := List.append_cancel_right hgone
      cases its' with
      | nil =>
        cases hlast
        exact Or.inl ⟨rfl, hend⟩
      | cons next rest =>
        rw [List.getLast?_cons_cons] at hlast
        exact Or.inr ⟨last, hlast, Or.inl rfl⟩
    · obtain rfl : its' = above ++ it' :: rest := by
        refine (List.append_left_inj parents).mp ?_
        rw [hon, List.append_assoc, List.cons_append]
        rfl
      cases rest with
      | nil =>
        cases hlast
        exact Or.inr ⟨it', List.getLast?_concat, Or.inr hmoves⟩
      | cons next rest =>
        rw [List.getLast?_cons_cons] at hlast
        refine Or.inr ⟨last, ?_, Or.inl rfl⟩
        rw [List.getLast?_append, List.getLast?_cons_cons, hlast]
        rfl

/-- It has returned the start of its container. -/
def GtypeIterator.Begun (it : GtypeIterator) : Prop :=
  it.state = .arrayElem ∨ it.state = .objectKey ∨ it.state = .objectValue

/-- An iterator leaves out no index. -/
theorem Moves.begun {it it' : GtypeIterator} (h : Moves buf it it') :
    it'.Begun ∧ it'.numElems = it.numElems ∧ it'.currIndex ≤ it.currIndex + 1 ∧
      (it.Begun ∨ it'.currIndex = 0) := by
  cases h with
  | start hstate hbegin =>
    unfold beginIteration at hbegin
    split_ifs at hbegin with harrayStart
    · cases hbegin
      exact ⟨.inl rfl, rfl, Nat.zero_le _, .inr rfl⟩
    · obtain ⟨valueOffset, -, hbegin⟩ := ok_bind_iff.mp hbegin
      cases hbegin
      exact ⟨.inr (.inl rfl), rfl, Nat.zero_le _, .inr rfl⟩
  | elem hstate => exact ⟨.inl hstate, rfl, Nat.le_refl _, .inl (.inl hstate)⟩
  | key hstate => exact ⟨.inr (.inr rfl), rfl, Nat.le_succ _, .inl (.inr (.inl hstate))⟩
  | value hstate => exact ⟨.inr (.inl rfl), rfl, Nat.le_refl _, .inl (.inr (.inr hstate))⟩

/-- **The lowest of the iterators comes to every child**, if the calls come to their end. -/
theorem yields_reaches {its : List GtypeIterator} {tokens : List GtypeToken} {last : GtypeIterator} {i : Nat}
    (h : Yields buf its tokens) (hlast : its.getLast? = some last) (hbegun : last.Begun)
    (hle : last.currIndex ≤ i) (hi : i < last.numElems) :
    ∃ its' last', Relation.ReflTransGen (MoveAbove buf []) its its' ∧ its'.getLast? = some last' ∧
      last'.Begun ∧ last'.currIndex = i := by
  induction h generalizing last with
  | done => cases hlast
  | @next its its₁ token tokens hnext rest ih =>
    rcases Nat.eq_or_lt_of_le hle with heq | hlt
    · exact ⟨its, last, .refl, hlast, hbegun, heq⟩
    · have hmove : MoveAbove buf [] its its₁ := by
        refine ⟨fun hnil => ?_, ?_⟩
        · rw [hnil] at hlast
          cases hlast
        · rw [List.append_nil, List.append_nil]
          exact .next hnext
      rcases moveAbove_cases hmove hlast with ⟨-, hend⟩ | ⟨last₁, hlast₁, rfl | hmoves⟩
      · omega
      · obtain ⟨its', last', hrun, hreached⟩ := ih hlast₁ hbegun hle hi
        exact ⟨its', last', hrun.head hmove, hreached⟩
      · obtain ⟨hbegun₁, hnum, hnext, -⟩ := hmoves.begun
        obtain ⟨its', last', hrun, hreached⟩ := ih hlast₁ hbegun₁ (by omega) (by omega)
        exact ⟨its', last', hrun.head hmove, hreached⟩

/-- So does an iterator that is made for a container. -/
theorem container_reaches {container i : Nat} {it : GtypeIterator} {tokens : List GtypeToken}
    (hit : iteratorFromContainer buf container = .ok it) (h : Yields buf [it] tokens) (hi : i < it.numElems) :
    ∃ its' last', Relation.ReflTransGen (MoveAbove buf []) [it] its' ∧ its'.getLast? = some last' ∧
      last'.Begun ∧ last'.currIndex = i := by
  have hfresh : ¬ it.Begun ∧ it.currIndex = 0 := by
    obtain ⟨header, -, hit⟩ := ok_bind_iff.mp hit
    split_ifs at hit <;> cases hit <;>
    · refine ⟨?_, rfl⟩
      rintro (hs | hs | hs) <;> cases hs
  cases h with
  | @next _ its₁ token tokens hnext rest =>
    have hmove : MoveAbove buf [] [it] its₁ := ⟨List.cons_ne_nil _ _, by
      rw [List.append_nil, List.append_nil]
      exact .next hnext⟩
    rcases move_cases (.next hnext) with ⟨-, hend⟩ | ⟨above, it₁, rfl, hmoves⟩
    · omega
    · obtain ⟨hbegun₁, hnum, -, hzero⟩ := hmoves.begun
      have hzero := hzero.resolve_left hfresh.1
      have hlast : (above ++ [it₁]).getLast? = some it₁ := List.getLast?_concat
      have hle : it₁.currIndex ≤ i := by omega
      obtain ⟨its', last', hrun, hreached⟩ := yields_reaches rest hlast hbegun₁ hle (by omega)
      exact ⟨its', last', hrun.head hmove, hreached⟩

/-! ## In step -/

/-- The offsets an iterator on the container holds are those of random access at its index. -/
structure GtypeIterator.InStep (buf : List UInt8) (p : Nat) (v : GtypeValue) (it : GtypeIterator) : Prop where
  container : it.container = p
  numElems : it.numElems = v.children.length
  dataProper : it.dataProper = v.dataProper p
  index : it.currIndex ≤ v.children.length
  array : it.state = .arrayElem → getGtypeOffset buf p it.currIndex = .ok it.currDataOffset
  object : it.state = .objectKey ∨ it.state = .objectValue →
    getGtypeOffset buf p it.currIndex = .ok it.currDataOffset ∧
      getGtypeOffset buf p (it.currIndex + v.children.length) = .ok it.currValueOffset
  hasKeys : it.state = .objectStart ∨ it.state = .objectKey ∨ it.state = .objectValue →
    v.keys.length = v.children.length
  key : it.state = .objectValue → it.currIndex < v.children.length

theorem length_childEntries (v : GtypeValue) : v.childEntries.length = v.keys.length + v.children.length := by
  unfold GtypeValue.childEntries
  rw [List.length_append, List.length_map, length_entriesFrom]

/-- **Going on from the offset of a child gives that of the next.** -/
theorem StoredAt.advance (h : StoredAt g buf p v) {i offset entry : Nat}
    (hi : i < v.keys.length + v.children.length) (hoffset : getGtypeOffset buf p i = .ok offset)
    (hread : readEntry buf p i = .ok entry) :
    getGtypeOffset buf p (i + 1) = .ok (gteAdvanceOffset offset entry) := by
  rw [← length_childEntries] at hi
  obtain ⟨entry', hread', -, hentry⟩ := h.entries.readEntry_spec hi
  rw [hread] at hread'
  cases hread'
  rw [h.entries.getGtypeOffset_eq (Nat.le_of_lt hi)] at hoffset
  cases hoffset
  rw [h.entries.getGtypeOffset_eq hi, h.entries.gteAdvanceOffset_eq hentry]

/-- **A call keeps the iterator of a container in step.** -/
theorem move_inStep (h : StoredAt g buf p v) {it it' : GtypeIterator} (hit : it.InStep buf p v)
    (hmoves : Moves buf it it') : it'.InStep buf p v := by
  obtain ⟨hcontainer, hnum, hproper, hindex, harray, hobject, hhasKeys, hkeyLt⟩ := hit
  cases hmoves with
  | start hstate hbegin =>
    unfold beginIteration at hbegin
    split_ifs at hbegin with harrayStart
    · cases hbegin
      refine ⟨hcontainer, hnum, hproper, Nat.zero_le _, fun _ => rfl, ?_, ?_, ?_⟩
      · rintro (hs | hs) <;> cases hs
      · rintro (hs | hs | hs) <;> cases hs
      · rintro hs
        cases hs
    · obtain ⟨valueOffset, hoffset, hbegin⟩ := ok_bind_iff.mp hbegin
      cases hbegin
      have hobjectStart := hstate.resolve_left harrayStart
      refine ⟨hcontainer, hnum, hproper, Nat.zero_le _, ?_, fun _ => ⟨rfl, ?_⟩, fun _ => hhasKeys (.inl hobjectStart), ?_⟩
      · rintro hs
        cases hs
      · rw [hcontainer, hnum] at hoffset
        simpa using hoffset
      · rintro hs
        cases hs
  | elem hstate hi hread =>
    rw [hcontainer] at hread
    rw [hnum] at hi
    refine ⟨hcontainer, hnum, hproper, hi, fun _ => h.advance (by omega) (harray hstate) hread, ?_, ?_, ?_⟩
    · rintro (hs | hs) <;> cases hstate.symm.trans hs
    · rintro (hs | hs | hs) <;> cases hstate.symm.trans hs
    · rintro hs
      cases hstate.symm.trans hs
  | key hstate hi =>
    rw [hnum] at hi
    refine ⟨hcontainer, hnum, hproper, hindex, ?_, fun _ => hobject (.inl hstate),
      fun _ => hhasKeys (.inr (.inl hstate)), fun _ => hi⟩
    rintro hs
    cases hs
  | value hstate hkey hread =>
    obtain ⟨hoffset, hvalueOffset⟩ := hobject (.inr hstate)
    have hkeys := hhasKeys (.inr (.inr hstate))
    have hi := hkeyLt hstate
    rw [hcontainer] at hkey
    rw [hcontainer, hnum] at hread
    refine ⟨hcontainer, hnum, hproper, hi, ?_, fun _ => ⟨h.advance (by omega) hoffset hkey, ?_⟩, fun _ => hkeys, ?_⟩
    · rintro hs
      cases hs
    · have hnext := h.advance (by omega) hvalueOffset hread
      rwa [Nat.add_right_comm] at hnext
    · rintro hs
      cases hs

/-- A new iterator is in step. -/
theorem StoredAt.init (h : StoredAt g buf p v) :
    ∃ it, iteratorFromContainer buf p = .ok it ∧ it.InStep buf p v := by
  have hfits := h.fits
  have hheader := h.header
  unfold gtentryOfflenmask at hfits
  cases v with
  | scalar s => exact h.isContainer.elim
  | array rawScalar elems =>
    refine ⟨_, iteratorFromContainer_array hheader (by simp only [GtypeValue.children] at hfits; omega), ?_⟩
    refine ⟨rfl, rfl, ?_, Nat.zero_le _, ?_, ?_, ?_, ?_⟩
    · simp [elemIterator, GtypeValue.dataProper, GtypeValue.keys, GtypeValue.children]
    · rintro hs
      cases hs
    · rintro (hs | hs) <;> cases hs
    · rintro (hs | hs | hs) <;> cases hs
    · rintro hs
      cases hs
  | object pairs =>
    have hlen : pairs.length < 2 ^ 27 := by
      simp only [GtypeValue.children, List.length_map] at hfits
      omega
    refine ⟨_, iteratorFromContainer_object hheader hlen, ?_⟩
    refine ⟨rfl, ?_, ?_, Nat.zero_le _, ?_, ?_, fun _ => ?_, ?_⟩
    · simp [keyIterator, GtypeValue.children]
    · simp only [keyIterator, GtypeValue.dataProper, GtypeValue.keys, GtypeValue.children, List.length_map]
      omega
    · rintro hs
      cases hs
    · rintro (hs | hs) <;> cases hs
    · simp [GtypeValue.keys, GtypeValue.children]
    · rintro hs
      cases hs

/-! ## Keys and values -/

theorem StoredAt.reportedLens_eq (h : StoredAt g buf p v) :
    reportedLens v.childEntries =
      v.keys.map List.length ++ reportedLens (entriesFrom v.keys.flatten.length v.children) := by
  have hfits := h.fits
  obtain ⟨-, hlens⟩ := reportedLens_keys (show v.keys.flatten.length ≤ gtentryOfflenmask by omega)
  unfold GtypeValue.childEntries reportedLens at *
  rw [List.map_append, hlens]

/-- The offset of a key is the length of the keys before it. -/
theorem StoredAt.start_key (h : StoredAt g buf p v) {i : Nat} (hi : i ≤ v.keys.length) :
    OffsetTable.start (reportedLens v.childEntries) i = (v.keys.take i).flatten.length := by
  rw [h.reportedLens_eq, OffsetTable.start, List.take_append_of_le_length (by rwa [List.length_map]),
    ← List.map_take, ← List.length_flatten]

/-- **A key is where random access says.** -/
theorem StoredAt.key_at (h : StoredAt g buf p v) {i : Nat} (hi : i < v.keys.length) :
    getGtypeOffset buf p i = .ok (v.keys.take i).flatten.length ∧
      getGtypeLength buf p i = .ok v.keys[i].length ∧
      Holds buf (v.dataProper p + (v.keys.take i).flatten.length) v.keys[i] := by
  have hlt : i < v.childEntries.length := by
    rw [length_childEntries]
    omega
  refine ⟨?_, ?_, ?_⟩
  · rw [h.entries.getGtypeOffset_eq (Nat.le_of_lt hlt), h.start_key (Nat.le_of_lt hi)]
  · rw [h.entries.getGtypeLength_eq hlt, ← EntriesAt.getD_reportedLens, h.reportedLens_eq,
      List.getD_append _ _ _ _ (by rwa [List.length_map]),
      List.getD_eq_getElem _ _ (by rwa [List.length_map]), List.getElem_map]
  · have hbytes := h.keyBytes
    rw [← List.take_append_drop i v.keys, List.drop_eq_getElem_cons hi, List.flatten_append,
      List.flatten_cons, holds_append_iff, holds_append_iff] at hbytes
    exact hbytes.2.1

/-- The values come behind the keys. -/
theorem StoredAt.value_behind (h : StoredAt g buf p v) {i j : Nat} (hi : i < v.keys.length)
    (hj : j < v.children.length) : ∃ valueOffset,
      getGtypeOffset buf p (v.keys.length + j) = .ok valueOffset ∧
        (v.keys.take i).flatten.length + v.keys[i].length ≤ valueOffset := by
  refine ⟨_, h.entries.getGtypeOffset_eq (by rw [length_childEntries]; omega), ?_⟩
  have hmono := OffsetTable.start_mono (reportedLens v.childEntries)
    (show i + 1 ≤ v.keys.length + j by omega)
  rw [h.start_key hi, List.take_add_one, List.flatten_append, List.length_append,
    List.getElem?_eq_getElem hi] at hmono
  simpa using hmono

/-! ## Agreement -/

/-- The offset of a child for a reader that has gone over the children before it with
`GTE_ADVANCE_OFFSET`. -/
def runningOffset (buf : List UInt8) (container : Nat) : Nat → Except GtypeErr Nat
  | 0 => .ok 0
  | i + 1 => do
    let offset ← runningOffset buf container i
    let entry ← readEntry buf container i
    return gteAdvanceOffset offset entry

/-- **The running offset is that of random access.** -/
theorem StoredAt.runningOffset_eq (h : StoredAt g buf p v) {i : Nat}
    (hi : i ≤ v.keys.length + v.children.length) : runningOffset buf p i = getGtypeOffset buf p i := by
  induction i with
  | zero => rfl
  | succ i ih =>
    have hlt : i < v.childEntries.length := by
      rw [length_childEntries]
      omega
    have hoffset := h.entries.getGtypeOffset_eq (Nat.le_of_lt hlt)
    obtain ⟨entry, hread, -⟩ := h.entries.readEntry_spec hlt
    rw [runningOffset, ih (Nat.le_of_succ_le hi), hoffset, ok_bind_eq, hread, ok_bind_eq,
      h.advance hi hoffset hread]
    rfl

/-- **Random access agrees with iteration**, in every container of what `convert_to_gtype` has made.

An iterator on it, below whatever it steps into and on top of whatever has stepped into it, holds at each
child the offset that `get_gtype_offset` returns, and it comes to every child if the calls come to their end,
as they do for what round-trips. The offset of each child is the running one, and its
length, from `get_gtype_length`, leads to the next. The keys of an object are where their offsets say, and
every value starts behind them. -/
theorem random_access_agrees (h : EncodedAt g buf p v) :
    (∃ it, iteratorFromContainer buf p = .ok it ∧
      (∀ parents its it', Relation.ReflTransGen (MoveAbove buf parents) [it] its → its.getLast? = some it' →
        it'.InStep buf p v) ∧
      ∀ tokens, Yields buf [it] tokens → ∀ i < v.children.length, ∃ its it',
        Relation.ReflTransGen (MoveAbove buf []) [it] its ∧ its.getLast? = some it' ∧ it'.Begun ∧
          it'.currIndex = i) ∧
    (∀ i < v.keys.length + v.children.length, ∃ offset len,
      getGtypeOffset buf p i = .ok offset ∧ getGtypeLength buf p i = .ok len ∧
        runningOffset buf p i = .ok offset ∧ runningOffset buf p (i + 1) = .ok (offset + len)) ∧
    ∀ i (hi : i < v.keys.length), ∃ offset,
      getGtypeOffset buf p i = .ok offset ∧ getGtypeLength buf p i = .ok v.keys[i].length ∧
        Holds buf (v.dataProper p + offset) v.keys[i] ∧
        ∀ j < v.children.length, ∃ valueOffset,
          getGtypeOffset buf p (v.keys.length + j) = .ok valueOffset ∧
            offset + v.keys[i].length ≤ valueOffset := by
  have hstored := h.stored
  refine ⟨?_, ?_, ?_⟩
  · obtain ⟨it, hit, hinit⟩ := hstored.init
    refine ⟨it, hit, fun parents its it' hrun => ?_, fun tokens hyields i hi => ?_⟩
    · -- the lowest of the iterators is in step in every state of the run
      induction hrun generalizing it' with
      | refl =>
        intro hlast
        cases hlast
        exact hinit
      | @tail its its' _ hmove ih =>
        intro hlast
        obtain ⟨last, hits⟩ := Option.ne_none_iff_exists'.mp (mt List.getLast?_eq_none_iff.mp hmove.1)
        rcases moveAbove_cases hmove hits with ⟨rfl, -⟩ | ⟨last', hits', hcase⟩
        · cases hlast
        · obtain rfl := Option.some.inj (hits'.symm.trans hlast)
          rcases hcase with rfl | hmoves
          · exact ih _ hits
          · exact move_inStep hstored (ih _ hits) hmoves
    · exact container_reaches hit hyields (by rwa [hinit.numElems])
  · intro i hi
    have hlt : i < v.childEntries.length := by
      rw [length_childEntries]
      exact hi
    refine ⟨_, _, hstored.entries.getGtypeOffset_eq (Nat.le_of_lt hlt),
      hstored.entries.getGtypeLength_eq hlt, ?_, ?_⟩
    · rw [hstored.runningOffset_eq (Nat.le_of_lt hi)]
      exact hstored.entries.getGtypeOffset_eq (Nat.le_of_lt hlt)
    · rw [hstored.runningOffset_eq hi, hstored.entries.getGtypeOffset_eq hlt, OffsetTable.start_succ,
        EntriesAt.getD_reportedLens]
  · intro i hi
    obtain ⟨hoffset, hlength, hbytes⟩ := hstored.key_at hi
    exact ⟨_, hoffset, hlength, hbytes, fun j hj => hstored.value_behind hi hj⟩

/-- An object with an array behind a string of three bytes. -/
def exampleNested : GtypeValue :=
  .object [([97], .scalar (.bool true)),
    ([98, 99], .array false [.scalar (.string [100]), .scalar (.integer 7)])]

/-- What it is converted to, on memory that is zero. -/
def exampleNestedBytes : List UInt8 :=
  [224, 0, 0, 0, 2, 0, 0, 32] ++ [1, 0, 0, 128, 2, 0, 0, 0, 0, 0, 0, 48, 29, 0, 0, 80] ++ [97, 98, 99, 0] ++
    [2, 0, 0, 64, 1, 0, 0, 128, 15, 0, 0, 96, 100, 0, 0, 0, 0, 0, 0, 0, 7, 0, 0, 0, 0, 0, 0, 0]

theorem exampleNested_encodedAt : EncodedAt (fun _ => 0) exampleNestedBytes 28
    (.array false [.scalar (.string [100]), .scalar (.integer 7)]) := by
  have hwf : exampleNested.WellFormed := by
    refine ⟨?_, trivial, ?_, ⟨?_, trivial, trivial⟩, trivial⟩
    · decide
    · decide
    · show 0 ∉ [100]
      decide
  have hroot : EncodedAt (fun _ => 0) exampleNestedBytes 4 exampleNested := .root hwf trivial (by decide +kernel)
  have hsplit : exampleNested.children = [.scalar (.bool true)] ++
      .array false [.scalar (.string [100]), .scalar (.integer 7)] :: [] := rfl
  exact hroot.child hsplit trivial

/-- An array of forty strings: the entry of the 33rd has an offset. -/
def exampleLong : GtypeValue := .array false (List.replicate 40 (.scalar (.string [97, 98])))

/-- What it is converted to. -/
def exampleLongBytes : List UInt8 :=
  le 4 992 ++ le 4 0x40000028 ++ le 4 0x80000002 ++ (List.replicate 31 (le 4 2)).flatten ++
    le 4 0x80000042 ++ (List.replicate 7 (le 4 2)).flatten ++ (List.replicate 40 [97, 98]).flatten

theorem exampleLong_convert : convertToGtype (fun _ => 0) exampleLong = .ok exampleLongBytes := by
  decide +kernel

theorem exampleLong_wellFormed : exampleLong.WellFormed := by
  unfold exampleLong
  simp [GtypeValue.WellFormed, ElemsWellFormed, List.replicate, GtypeScalar.WellFormed]

theorem exampleLong_encodedAt : EncodedAt (fun _ => 0) exampleLongBytes varhdrsz exampleLong :=
  .root exampleLong_wellFormed trivial exampleLong_convert

theorem elemsPlaced_replicate (n t : Nat) :
    ElemsPlaced t t (List.replicate n (.scalar (.string [97, 98]))) := by
  induction n generalizing t with
  | zero => trivial
  | succ n ih => exact ⟨.inr rfl, ih (t + 2)⟩

theorem exampleLong_roundTrips : RoundTrips (fun _ => 0) exampleLong :=
  roundTrips_of_placed trivial exampleLong_wellFormed ⟨rfl, elemsPlaced_replicate 40 0⟩

/-- The integer in the inner array is behind its string, and an iterator on the strings is at the 36th with
its offset. -/
theorem random_access_agrees_example :
    (∃ offset len, getGtypeOffset exampleNestedBytes 28 1 = .ok offset ∧
      getGtypeLength exampleNestedBytes 28 1 = .ok len ∧ runningOffset exampleNestedBytes 28 1 = .ok offset ∧
        runningOffset exampleNestedBytes 28 2 = .ok (offset + len)) ∧
      ∃ it its it', iteratorFromContainer exampleLongBytes varhdrsz = .ok it ∧
        Relation.ReflTransGen (MoveAbove exampleLongBytes []) [it] its ∧ its.getLast? = some it' ∧
          it'.currIndex = 35 ∧ it'.InStep exampleLongBytes varhdrsz exampleLong := by
  refine ⟨(random_access_agrees exampleNested_encodedAt).2.1 1 (by decide), ?_⟩
  obtain ⟨it, hit, hstep, hreach⟩ := (random_access_agrees exampleLong_encodedAt).1
  obtain ⟨it₁, hit₁, hyields⟩ := exampleLong_roundTrips _ exampleLong_convert
  obtain rfl := Except.ok.inj (hit.symm.trans hit₁)
  obtain ⟨its, it', hrun, hlast, -, hindex⟩ := hreach _ hyields 35 (by decide)
  exact ⟨it, its, it', hit, hrun, hlast, hindex, hstep [] its it' hrun hlast⟩

end NeoPostGraph
