import NeoPostGraph.Gtype.Decode

/-!
# The parts of a stored container

An array and an object are stored alike: the header, the entries of the keys and of the children, the bytes
of the keys one behind the other, and the children behind them. An array has no keys.

* `GtypeValue.keys`, `GtypeValue.children`, `GtypeValue.childEntries`: what a container consists of.
* `StoredAt g buf p v`: the container is in the buffer, its header at `p`.

Results:
* `storedAt_of_holds`: the layout of a container that fits is one. `StoredAt.child`: so is each child that
  is a container.
* `storedAt_root`: what `convert_to_gtype` makes starts with one.
-/

namespace NeoPostGraph

open Bytes

variable {g : Memory} {buf : List UInt8} {p : Nat}

/-! ## The parts -/

/-- The keys of an object. -/
def GtypeValue.keys : GtypeValue → List (List UInt8)
  | .object pairs => pairs.map Prod.fst
  | _ => []

/-- The elements of an array, the values of an object. -/
def GtypeValue.children : GtypeValue → List GtypeValue
  | .scalar _ => []
  | .array _ elems => elems
  | .object pairs => pairs.map Prod.snd

/-- The header of a container. -/
def GtypeValue.header : GtypeValue → Nat
  | .scalar _ => 0
  | .array rawScalar elems => arrayHeader rawScalar elems.length
  | .object pairs => objectHeader pairs.length

/-- The entries of a container, before the loop fills them in. -/
def GtypeValue.childEntries (v : GtypeValue) : List Nat :=
  v.keys.map List.length ++ entriesFrom v.keys.flatten.length v.children

/-- Where the data of a container starts, from where its header is. -/
def GtypeValue.dataProper (p : Nat) (v : GtypeValue) : Nat :=
  p + 4 + 4 * (v.keys.length + v.children.length)

/-- The entries of children that fit are entries, and their lengths are no more than the children. -/
theorem entriesFrom_fits {vs : List GtypeValue} {t : Nat} (h : elemsSize t vs ≤ gtentryOfflenmask) :
    (∀ entry ∈ entriesFrom t vs, entry < 2 ^ 31) ∧
      (reportedLens (entriesFrom t vs)).sum ≤ elemsSize t vs := by
  induction vs generalizing t with
  | nil =>
    refine ⟨?_, Nat.le_refl _⟩
    intro entry hentry
    cases hentry
  | cons v vs ih =>
    unfold elemsSize at h
    have hsize := v.reported_le t
    obtain ⟨hlt, hsum⟩ := ih (t := t + v.size t) (by omega)
    refine ⟨?_, ?_⟩
    · intro entry hentry
      rcases List.mem_cons.mp hentry with rfl | hentry
      · exact entry_lt (by omega)
      · exact hlt entry hentry
    · have hoffset := entry_offlen (v := v) (p := t) (by omega)
      show gteOfflenfld (v.entry t) + (reportedLens (entriesFrom (t + v.size t) vs)).sum ≤
        v.size t + elemsSize (t + v.size t) vs
      omega

theorem length_entriesFrom (t : Nat) (vs : List GtypeValue) :
    (entriesFrom t vs).length = vs.length := by
  induction vs generalizing t with
  | nil => rfl
  | cons v vs ih => rw [entriesFrom, List.length_cons, List.length_cons, ih]

/-- The parts of a container. -/
theorem containerBytes_holds {p header : Nat} {entries : List Nat} {data : List UInt8}
    (h : Holds buf p (containerBytes p header entries data)) :
    Holds buf (intAlign p) (le 4 header) ∧ Holds buf (intAlign p + 4) (entryBytes 0 0 entries) ∧
      Holds buf (intAlign p + 4 + 4 * entries.length) data := by
  have hle := le_intAlign p
  obtain ⟨-, h⟩ := holds_append_iff.mp h
  rw [length_padding, Nat.add_sub_cancel' hle] at h
  obtain ⟨hheader, h⟩ := holds_append_iff.mp h
  obtain ⟨hentries, hdata⟩ := holds_append_iff.mp h
  rw [length_le] at hentries hdata
  rw [length_entryBytes] at hdata
  exact ⟨hheader, hentries, hdata⟩

/-- The entries of keys that fit are their lengths. -/
theorem reportedLens_keys {keys : List (List UInt8)} (h : keys.flatten.length ≤ gtentryOfflenmask) :
    (∀ key ∈ keys, key.length ≤ gtentryOfflenmask) ∧
      reportedLens (keys.map List.length) = keys.map List.length := by
  induction keys with
  | nil =>
    refine ⟨?_, rfl⟩
    intro key hkey
    cases hkey
  | cons key keys ih =>
    simp only [List.flatten_cons, List.length_append] at h
    obtain ⟨hle, hlens⟩ := ih (by omega)
    refine ⟨?_, ?_⟩
    · intro other hother
      rcases List.mem_cons.mp hother with rfl | hother
      · omega
      · exact hle other hother
    · have hkey : gteOfflenfld key.length = key.length := by
        unfold gtentryOfflenmask at h
        unfold gteOfflenfld
        omega
      show gteOfflenfld key.length :: _ = _
      rw [hkey]
      exact congrArg _ hlens

/-! ## Stored containers -/

/-- The container is in the buffer, its header at `p`. -/
structure StoredAt (g : Memory) (buf : List UInt8) (p : Nat) (v : GtypeValue) : Prop where
  isContainer : v.IsContainer
  keysWellFormed : ∀ key ∈ v.keys, 0 ∉ key
  wellFormed : ElemsWellFormed v.children
  aligned : 4 ∣ p
  header : Holds buf p (le 4 v.header)
  entries : EntriesAt buf p v.childEntries
  keyBytes : Holds buf (v.dataProper p) v.keys.flatten
  childBytes : Holds buf (v.dataProper p + v.keys.flatten.length)
    (layouts g (v.dataProper p + v.keys.flatten.length) v.children).1
  fits : 4 + 4 * (v.keys.length + v.children.length) + v.keys.flatten.length +
    elemsSize v.keys.flatten.length v.children ≤ gtentryOfflenmask

theorem layout_container (q : Nat) {v : GtypeValue} (hv : v.IsContainer) :
    (layout g q v).1 = containerBytes q v.header
      (v.keys.map List.length ++
        (layouts g (v.dataProper (intAlign q) + v.keys.flatten.length) v.children).2)
      (v.keys.flatten ++ (layouts g (v.dataProper (intAlign q) + v.keys.flatten.length) v.children).1) := by
  cases v with
  | scalar s => exact hv.elim
  | array rawScalar elems =>
    rw [layout]
    simp [GtypeValue.keys, GtypeValue.children, GtypeValue.dataProper, GtypeValue.header]
  | object pairs =>
    rw [layout, pairLayouts_eq]
    simp [GtypeValue.keys, GtypeValue.children, GtypeValue.dataProper, GtypeValue.header, Nat.mul_two,
      Function.comp_def]

theorem wellFormed_parts {v : GtypeValue} (hv : v.IsContainer) (hwf : v.WellFormed) :
    (∀ key ∈ v.keys, 0 ∉ key) ∧ ElemsWellFormed v.children := by
  cases v with
  | scalar s => exact hv.elim
  | array rawScalar elems =>
    refine ⟨?_, hwf⟩
    intro key hkey
    cases hkey
  | object pairs => exact ⟨keys_wellFormed hwf, elemsWellFormed_values hwf⟩

theorem dataProper_dvd (v : GtypeValue) (h : 4 ∣ p) : 4 ∣ v.dataProper p :=
  Nat.dvd_add (Nat.dvd_add h (Nat.dvd_refl 4)) (Nat.dvd_mul_right 4 _)

/-- **The layout of a container that fits is a stored container.** -/
theorem storedAt_of_holds {q : Nat} {v : GtypeValue} (hv : v.IsContainer) (hwf : v.WellFormed)
    (hholds : Holds buf q (layout g q v).1) (hfits : (layout g q v).1.length ≤ gtentryOfflenmask) :
    StoredAt g buf (intAlign q) v := by
  obtain ⟨hkeysWf, hchildrenWf⟩ := wellFormed_parts hv hwf
  have hbase := dataProper_dvd v (intAlign_dvd q)
  have hentries := layouts_entries (g := g) (p := v.keys.flatten.length) hbase hchildrenWf
  have hsize := layouts_size (g := g) (p := v.keys.flatten.length) hbase _ hchildrenWf
  rw [layout_container q hv] at hholds hfits
  rw [length_containerBytes, List.length_append, List.length_append, hsize, hentries, List.length_map,
    length_entriesFrom] at hfits
  obtain ⟨hheader, htable, hdata⟩ := containerBytes_holds hholds
  rw [hentries] at htable hdata
  rw [List.length_append, List.length_map, length_entriesFrom, holds_append_iff] at hdata
  obtain ⟨hkeys, hlens⟩ := reportedLens_keys (show v.keys.flatten.length ≤ gtentryOfflenmask by omega)
  obtain ⟨hlt, hsum⟩ := entriesFrom_fits
    (show elemsSize v.keys.flatten.length v.children ≤ gtentryOfflenmask by omega)
  refine ⟨hv, hkeysWf, hchildrenWf, intAlign_dvd q, hheader, ⟨htable, ?_, ?_⟩, hdata.1, hdata.2, by omega⟩
  · intro entry hentry
    rcases List.mem_append.mp hentry with hkey | hvalue
    · obtain ⟨key, hmem, rfl⟩ := List.mem_map.mp hkey
      have hle := hkeys key hmem
      unfold gtentryOfflenmask at hle
      omega
    · exact hlt entry hvalue
  · unfold GtypeValue.childEntries reportedLens at *
    rw [List.map_append, hlens, List.sum_append, ← List.length_flatten]
    omega

/-- **What `convert_to_gtype` makes starts with a stored container.** -/
theorem storedAt_root {v : GtypeValue} (hwf : v.WellFormed) (hv : v.IsContainer)
    (h : convertToGtype g v = .ok buf) : StoredAt g buf 4 v := by
  obtain ⟨hholds, hfits⟩ := convertToGtype_ok hwf hv h
  exact storedAt_of_holds (q := 4) hv hwf hholds hfits

/-! ## Children -/

theorem layouts_append (pos : Nat) (front back : List GtypeValue) :
    (layouts g pos (front ++ back)).1 =
      (layouts g pos front).1 ++ (layouts g (pos + (layouts g pos front).1.length) back).1 := by
  induction front generalizing pos with
  | nil => simp [layouts]
  | cons v front ih =>
    rw [List.cons_append, layouts, layouts, ih, List.append_assoc, List.length_append, Nat.add_assoc]

theorem elemsSize_append (pos : Nat) (front back : List GtypeValue) :
    elemsSize pos (front ++ back) = elemsSize pos front + elemsSize (pos + elemsSize pos front) back := by
  induction front generalizing pos with
  | nil => simp [elemsSize]
  | cons v front ih =>
    rw [List.cons_append, elemsSize, elemsSize, ih, Nat.add_assoc, Nat.add_assoc]

theorem elemsWellFormed_append {front back : List GtypeValue} :
    ElemsWellFormed (front ++ back) ↔ ElemsWellFormed front ∧ ElemsWellFormed back := by
  induction front with
  | nil => simp [ElemsWellFormed]
  | cons v front ih =>
    rw [List.cons_append, ElemsWellFormed, ElemsWellFormed, ih, and_assoc]

/-- Where a child starts, in the data of its container. -/
def GtypeValue.childOffset (v : GtypeValue) (front : List GtypeValue) : Nat :=
  v.keys.flatten.length + elemsSize v.keys.flatten.length front

/-- **A child that is a container is stored behind its padding.** -/
theorem StoredAt.child {v w : GtypeValue} {front back : List GtypeValue} (h : StoredAt g buf p v)
    (hsplit : v.children = front ++ w :: back) (hw : w.IsContainer) :
    StoredAt g buf (v.dataProper p + intAlign (v.childOffset front)) w := by
  have hbase := dataProper_dvd v h.aligned
  have hwf := h.wellFormed
  have hbytes := h.childBytes
  have hfits := h.fits
  rw [hsplit] at hwf hbytes hfits
  obtain ⟨hfrontWf, hwWf, -⟩ := elemsWellFormed_append.mp hwf
  rw [layouts_append, holds_append_iff, layouts_size hbase front hfrontWf, layouts, holds_append_iff,
    Nat.add_assoc (v.dataProper p)] at hbytes
  rw [elemsSize_append, elemsSize] at hfits
  have hsize := layout_size (g := g) (p := v.childOffset front) hbase w hwWf
  rw [← intAlign_add hbase]
  refine storedAt_of_holds hw hwWf hbytes.2.1 ?_
  rw [hsize]
  unfold GtypeValue.childOffset
  omega

end NeoPostGraph
