import NeoPostGraph.Gtype.Layout

/-!
# Where the decoder looks

The encoder keeps the place in the buffer, the decoder adds up the lengths in the entries. The two
agree as long as every child reports what it takes; a timestamp reports 12 bytes, and takes the padding
before it too. Places here are from the start of the container's data, which is aligned.

* `GtypeValue.size pos v`: how many bytes a value takes. `GtypeValue.reported`: what its entry says.
* `GtypeValue.Placed t d v`: a value stored at `t` is found from `d`. A string has to be exactly there,
  the other kinds are looked for at the next multiple of 4, and inside a container it starts anew.

Results:
* `layout_size`, `layout_entry`: the layout has this size and this entry.
* `reported_le`: no child reports more than it takes.
-/

namespace NeoPostGraph

open Bytes

/-! ## Sizes -/

mutual

/-- How many bytes a value takes at a place. -/
def GtypeValue.size (pos : Nat) : GtypeValue → Nat
  | .scalar s => s.size pos
  | .array _ elems => intAlign pos - pos + 4 + 4 * elems.length + elemsSize 0 elems
  | .object pairs =>
    intAlign pos - pos + 4 + 4 * (pairs.length * 2) + (pairs.map Prod.fst).flatten.length +
      pairsSize (pairs.map Prod.fst).flatten.length pairs

def elemsSize (pos : Nat) : List GtypeValue → Nat
  | [] => 0
  | v :: vs => v.size pos + elemsSize (pos + v.size pos) vs

def pairsSize (pos : Nat) : List (List UInt8 × GtypeValue) → Nat
  | [] => 0
  | (_, v) :: pairs => v.size pos + pairsSize (pos + v.size pos) pairs

end

/-- The length the encoder reports for a value. -/
def GtypeValue.reported (pos : Nat) : GtypeValue → Nat
  | .scalar s => s.reported pos
  | v => v.size pos

/-- The type bits of a value's entry. -/
def GtypeValue.typeBits : GtypeValue → Nat
  | .scalar s => s.typeBits
  | _ => gtentryIsContainer

/-- The entry of a value. -/
def GtypeValue.entry (pos : Nat) (v : GtypeValue) : Nat := v.typeBits ||| v.reported pos

/-- The entries of children that stand one behind the other. -/
def entriesFrom (pos : Nat) : List GtypeValue → List Nat
  | [] => []
  | v :: vs => v.entry pos :: entriesFrom (pos + v.size pos) vs

/-! ## Places -/

/-- A scalar stored at `t` is found from `d`. -/
def GtypeScalar.Placed (t d : Nat) : GtypeScalar → Prop
  | null | bool _ => True
  | string val => val = [] ∨ t = d
  | _ => intAlign t = intAlign d

mutual

/-- **A value stored at `t` is found from `d`**, with everything in it. -/
def GtypeValue.Placed (t d : Nat) : GtypeValue → Prop
  | .scalar s => s.Placed t d
  | .array _ elems => intAlign t = intAlign d ∧ ElemsPlaced 0 0 elems
  | .object pairs =>
    intAlign t = intAlign d ∧
      PairsPlaced (pairs.map Prod.fst).flatten.length (pairs.map Prod.fst).flatten.length pairs

def ElemsPlaced (t d : Nat) : List GtypeValue → Prop
  | [] => True
  | v :: vs => v.Placed t d ∧ ElemsPlaced (t + v.size t) (d + v.reported t) vs

def PairsPlaced (t d : Nat) : List (List UInt8 × GtypeValue) → Prop
  | [] => True
  | (_, v) :: pairs => v.Placed t d ∧ PairsPlaced (t + v.size t) (d + v.reported t) pairs

end

/-! ## The layout -/

theorem intAlign_add {base pos : Nat} (h : 4 ∣ base) : intAlign (base + pos) = base + intAlign pos := by
  obtain ⟨k, rfl⟩ := h
  unfold intAlign
  omega

theorem intAlign_dvd (pos : Nat) : 4 ∣ intAlign pos := ⟨(pos + 3) / 4, Nat.mul_comm ..⟩

theorem padding_add {base pos : Nat} (h : 4 ∣ base) :
    intAlign (base + pos) - (base + pos) = intAlign pos - pos := by
  rw [intAlign_add h]
  omega

theorem GtypeScalar.size_add {base : Nat} (h : 4 ∣ base) (pos : Nat) (s : GtypeScalar) :
    s.size (base + pos) = s.size pos := by
  cases s <;> simp only [GtypeScalar.size, padding_add h]

theorem GtypeScalar.entry_add {base : Nat} (h : 4 ∣ base) (pos : Nat) (s : GtypeScalar) :
    s.entry (base + pos) = s.entry pos := by
  unfold GtypeScalar.entry
  cases s <;> simp only [GtypeScalar.reported, GtypeScalar.size_add h]

theorem length_containerBytes (pos header : Nat) (entries : List Nat) (data : List UInt8) :
    (containerBytes pos header entries data).length =
      intAlign pos - pos + 4 + 4 * entries.length + data.length := by
  simp only [containerBytes, List.length_append, length_padding, length_le, length_entryBytes]
  omega

theorem length_layouts_snd (g : Memory) (pos : Nat) (vs : List GtypeValue) :
    (layouts g pos vs).2.length = vs.length := by
  induction vs generalizing pos with
  | nil => rfl
  | cons v vs ih =>
    rw [layouts, List.length_cons, List.length_cons, ih]

theorem length_pairLayouts_snd (g : Memory) (pos : Nat) (pairs : List (List UInt8 × GtypeValue)) :
    (pairLayouts g pos pairs).2.length = pairs.length := by
  rw [pairLayouts_eq, length_layouts_snd, List.length_map]

theorem dvd_start {p n : Nat} : 4 ∣ intAlign p + 4 + 4 * n :=
  Nat.dvd_add (Nat.dvd_add (intAlign_dvd p) (Nat.dvd_refl 4)) (Nat.dvd_mul_right 4 n)

mutual

/-- **The layout of a value has its size**, wherever the data of its container starts. -/
theorem layout_size {g : Memory} {base p : Nat} (h : 4 ∣ base) :
    (v : GtypeValue) → v.WellFormed → (layout g (base + p) v).1.length = v.size p
  | .scalar s, hwf => (s.length_bytes hwf _).trans (s.size_add h p)
  | .array rawScalar elems, hwf => by
    have hkids := layouts_size (g := g) (p := 0) (dvd_start (p := base + p) (n := elems.length))
      elems hwf
    rw [Nat.add_zero] at hkids
    rw [layout, length_containerBytes, hkids, length_layouts_snd, padding_add h]
    rfl
  | .object pairs, hwf => by
    have hkids := pairLayouts_size (g := g) (p := (pairs.map Prod.fst).flatten.length)
      (dvd_start (p := base + p) (n := pairs.length * 2)) pairs hwf
    rw [layout, length_containerBytes, List.length_append, List.length_append, List.length_map, hkids,
      length_pairLayouts_snd, padding_add h, GtypeValue.size]
    omega

theorem layouts_size {g : Memory} {base p : Nat} (h : 4 ∣ base) :
    (vs : List GtypeValue) → ElemsWellFormed vs →
      (layouts g (base + p) vs).1.length = elemsSize p vs
  | [], _ => rfl
  | v :: vs, hwf => by
    rw [layouts, List.length_append, layout_size h v hwf.1, Nat.add_assoc base,
      layouts_size h vs hwf.2]
    rfl

theorem pairLayouts_size {g : Memory} {base p : Nat} (h : 4 ∣ base) :
    (pairs : List (List UInt8 × GtypeValue)) → PairsWellFormed pairs →
      (pairLayouts g (base + p) pairs).1.length = pairsSize p pairs
  | [], _ => rfl
  | (_, v) :: pairs, hwf => by
    rw [pairLayouts, List.length_append, layout_size h v hwf.2.1, Nat.add_assoc base,
      pairLayouts_size h pairs hwf.2.2]
    rfl

end

/-- **The entry of a value**, wherever the data of its container starts. -/
theorem layout_entry {g : Memory} {base pos : Nat} (h : 4 ∣ base) {v : GtypeValue}
    (hwf : v.WellFormed) : (layout g (base + pos) v).2 = v.entry pos := by
  have hsize := layout_size (g := g) (p := pos) h v hwf
  cases v with
  | scalar s => exact s.entry_add h pos
  | array rawScalar elems =>
    rw [GtypeValue.entry, GtypeValue.reported, ← hsize]
    · rfl
    · intro s hs
      cases hs
  | object pairs =>
    rw [GtypeValue.entry, GtypeValue.reported, ← hsize]
    · rfl
    · intro s hs
      cases hs

theorem layouts_entries {g : Memory} {base p : Nat} (h : 4 ∣ base) {vs : List GtypeValue}
    (hwf : ElemsWellFormed vs) : (layouts g (base + p) vs).2 = entriesFrom p vs := by
  induction vs generalizing p with
  | nil => rfl
  | cons v vs ih =>
    rw [layouts, entriesFrom, layout_entry h hwf.1, layout_size h v hwf.1, Nat.add_assoc base,
      ih hwf.2]

theorem elemsWellFormed_values {pairs : List (List UInt8 × GtypeValue)} (h : PairsWellFormed pairs) :
    ElemsWellFormed (pairs.map Prod.snd) := by
  induction pairs with
  | nil => trivial
  | cons pair pairs ih => exact ⟨h.2.1, ih h.2.2⟩

/-! ## Reported lengths -/

theorem GtypeScalar.reported_le (pos : Nat) (s : GtypeScalar) : s.reported pos ≤ s.size pos := by
  cases s with
  | timestamp val =>
    simp only [GtypeScalar.reported, GtypeScalar.size]
    omega
  | _ => exact Nat.le_refl _

theorem GtypeValue.reported_le (pos : Nat) (v : GtypeValue) : v.reported pos ≤ v.size pos := by
  cases v with
  | scalar s => exact s.reported_le pos
  | array rawScalar elems => exact Nat.le_refl _
  | object pairs => exact Nat.le_refl _

end NeoPostGraph
