import Mathlib.Data.List.Find

/-!
# Lookups among rows of which some are archived

A table lists rows of an id and a key. A lookup by key takes the first row that has it and looks at no
flag, so an archived row in front of the others is found in their place.

* `lookup`: the first row of a key.
* `Fronted`: a lookup of a key in use finds a row that is not archived, and such rows have different
  keys.
* `rewrite`: the rows with certain keys get other keys, and are listed behind the rest.
* `Apart`: when a rewrite keeps lookups right.

Results:
* `Fronted.append`: a new row of a new key.
* `Fronted.rewrite`: a rewrite, with some of its rows archived.
-/

namespace KeyedRows

variable {ι κ : Type} [DecidableEq κ] {rows : List (ι × κ)} {archived archived' : ι → Prop}

/-- The first row of a key. -/
def lookup (rows : List (ι × κ)) (k : κ) : Option (ι × κ) := rows.find? fun r => r.2 = k

/-- **Lookups find rows that are not archived**, and two of those have different keys. -/
structure Fronted (rows : List (ι × κ)) (archived : ι → Prop) : Prop where
  front : ∀ r ∈ rows, ∃ first, lookup rows r.2 = some first ∧ ¬ archived first.1
  unique : ∀ r ∈ rows, ∀ r' ∈ rows, ¬ archived r.1 → ¬ archived r'.1 → r.2 = r'.2 → r = r'

theorem lookup_append {more : List (ι × κ)} {k : κ} :
    lookup (rows ++ more) k = (lookup rows k).or (lookup more k) :=
  List.find?_append

theorem lookup_mem {k : κ} {r : ι × κ} (h : lookup rows k = some r) : r ∈ rows ∧ r.2 = k :=
  ⟨List.mem_of_find?_eq_some h, by simpa using List.find?_some h⟩

theorem lookup_eq_none {k : κ} (h : ∀ r ∈ rows, r.2 ≠ k) : lookup rows k = none :=
  List.find?_eq_none.mpr fun r hr => by simpa using h r hr

/-- What a lookup of a key in use finds. -/
theorem Fronted.lookup_live (h : Fronted rows archived) {k : κ} {r : ι × κ}
    (hr : lookup rows k = some r) : ¬ archived r.1 := by
  obtain ⟨hmem, rfl⟩ := lookup_mem hr
  obtain ⟨first, hfirst, hlive⟩ := h.front r hmem
  obtain rfl := Option.some.inj (hr.symm.trans hfirst)
  exact hlive

/-- **A new row of a new key.** -/
theorem Fronted.append (h : Fronted rows archived) {i : ι} {k : κ} (hnew : ∀ r ∈ rows, r.2 ≠ k)
    (hlive : ¬ archived i) : Fronted (rows ++ [(i, k)]) archived := by
  refine ⟨fun r hr => ?_, fun r hr r' hr' hl hl' he => ?_⟩
  · rw [lookup_append]
    rcases List.mem_append.mp hr with hold | hmem
    · obtain ⟨first, hfirst, hf⟩ := h.front r hold
      exact ⟨first, by rw [hfirst, Option.some_or], hf⟩
    · obtain rfl := List.mem_singleton.mp hmem
      refine ⟨(i, k), ?_, hlive⟩
      rw [lookup_eq_none hnew, Option.none_or]
      simp [lookup]
  · rcases List.mem_append.mp hr with hold | hmem <;> rcases List.mem_append.mp hr' with hold' | hmem'
    · exact h.unique r hold r' hold' hl hl' he
    · obtain rfl := List.mem_singleton.mp hmem'
      exact absurd he (hnew r hold)
    · obtain rfl := List.mem_singleton.mp hmem
      exact absurd he.symm (hnew r' hold')
    · rw [List.mem_singleton.mp hmem, List.mem_singleton.mp hmem']

section Rewrite

variable {hit leaf : κ → Prop} [DecidablePred hit] {f : κ → κ}

/-- The rows with the keys that are hit get new keys, and go to the end. -/
def rewrite (hit : κ → Prop) [DecidablePred hit] (f : κ → κ) (rows : List (ι × κ)) : List (ι × κ) :=
  (rows.filter fun r => ¬ hit r.2) ++ (rows.filter fun r => hit r.2).map fun r => (r.1, f r.2)

/-- **When a rewrite keeps lookups right**: a key that is hit and stays in use becomes one that no other
key becomes, and a key whose rows are archived becomes one in front of them. -/
structure Apart (rows : List (ι × κ)) (hit : κ → Prop) [DecidablePred hit] (f : κ → κ)
    (leaf : κ → Prop) : Prop where
  moved : ∀ r ∈ rows, hit r.2 → ¬ leaf r.2 → ∀ r' ∈ rows, r'.2 ≠ r.2 →
    (if hit r'.2 then f r'.2 else r'.2) ≠ f r.2
  left : ∀ r ∈ rows, hit r.2 → leaf r.2 → ∃ q ∈ rows, ¬ hit q.2 ∧ q.2 = f r.2

omit [DecidableEq κ] in
theorem mem_rewrite {x : ι × κ} : x ∈ rewrite hit f rows ↔
    ∃ r ∈ rows, x = (r.1, if hit r.2 then f r.2 else r.2) := by
  unfold rewrite
  rw [List.mem_append, List.mem_filter, List.mem_map]
  constructor
  · rintro (⟨hx, hnot⟩ | ⟨r, hr, rfl⟩)
    · exact ⟨x, hx, by rw [if_neg (by simpa using hnot)]⟩
    · obtain ⟨hr, hhit⟩ := List.mem_filter.mp hr
      exact ⟨r, hr, by rw [if_pos (by simpa using hhit)]⟩
  · rintro ⟨r, hr, rfl⟩
    by_cases hhit : hit r.2
    · rw [if_pos hhit]
      exact Or.inr ⟨r, List.mem_filter.mpr ⟨hr, by simpa using hhit⟩, rfl⟩
    · rw [if_neg hhit]
      exact Or.inl ⟨hr, by simpa using hhit⟩

/-- The rows that are not hit are found as before. -/
theorem lookup_kept {k : κ} (h : ¬ hit k) :
    lookup (rows.filter fun r => ¬ hit r.2) k = lookup rows k := by
  unfold lookup
  rw [List.find?_filter]
  refine List.find?_congr fun r _ => ?_
  by_cases hk : r.2 = k
  · simp [hk, h]
  · simp [hk]

/-- The rows of a key that is hit, where no other key becomes the same. -/
theorem lookup_moved {k : κ} (hk : hit k) (h : ∀ r ∈ rows, hit r.2 → r.2 ≠ k → f r.2 ≠ f k) :
    lookup ((rows.filter fun r => hit r.2).map fun r => (r.1, f r.2)) (f k) =
      (lookup rows k).map fun r => (r.1, f r.2) := by
  unfold lookup
  rw [List.find?_map, List.find?_filter]
  congr 1
  refine List.find?_congr fun r hr => ?_
  by_cases he : r.2 = k
  · simp [he, hk]
  · by_cases hhit : hit r.2
    · simp [he, hhit, h r hr hhit he]
    · simp [he, hhit]

theorem lookup_rewrite_kept {k : κ} {first : ι × κ} (hk : ¬ hit k) (h : lookup rows k = some first) :
    lookup (rewrite hit f rows) k = some first := by
  unfold rewrite
  rw [lookup_append, lookup_kept hk, h, Option.some_or]

/-- **A rewrite keeps lookups right** where its keys stay apart. -/
theorem Fronted.rewrite (h : Fronted rows archived) (hok : Apart rows hit f leaf)
    (harch : ∀ r ∈ rows, archived' r.1 ↔ archived r.1 ∨ hit r.2 ∧ leaf r.2) :
    Fronted (rewrite hit f rows) archived' := by
  have hkept {first : ι × κ} (hmem : first ∈ rows) (hlive : ¬ archived first.1)
      (hnot : ¬ (hit first.2 ∧ leaf first.2)) : ¬ archived' first.1 := fun ha =>
    ((harch first hmem).mp ha).elim hlive hnot
  refine ⟨fun x hx => ?_, fun x hx x' hx' hl hl' he => ?_⟩
  · obtain ⟨r, hr, rfl⟩ := mem_rewrite.mp hx
    obtain ⟨first, hfirst, hlive⟩ := h.front r hr
    obtain ⟨hmem, hkey⟩ := lookup_mem hfirst
    by_cases hhit : hit r.2
    · dsimp only
      rw [if_pos hhit]
      by_cases hleaf : leaf r.2
      · -- the key in front of the archived rows
        obtain ⟨q, hq, hqhit, hqe⟩ := hok.left r hr hhit hleaf
        obtain ⟨qfirst, hqfirst, hqlive⟩ := h.front q hq
        obtain ⟨hqmem, hqkey⟩ := lookup_mem hqfirst
        rw [← hqe]
        refine ⟨qfirst, lookup_rewrite_kept hqhit hqfirst, hkept hqmem hqlive fun hq' => ?_⟩
        rw [hqkey] at hq'
        exact hqhit hq'.1
      · have hnone : lookup (rows.filter fun r => ¬ hit r.2) (f r.2) = none := by
          refine lookup_eq_none fun r' hr' he => ?_
          obtain ⟨hr', hnot⟩ := List.mem_filter.mp hr'
          have hnot' : ¬ hit r'.2 := by simpa using hnot
          have hne := hok.moved r hr hhit hleaf r' hr' fun he' => hnot' (he' ▸ hhit)
          rw [if_neg hnot'] at hne
          exact hne he
        have hnew : ¬ archived' first.1 := hkept hmem hlive fun hl => hleaf (hkey ▸ hl.2)
        refine ⟨(first.1, f first.2), ?_, hnew⟩
        unfold KeyedRows.rewrite
        rw [lookup_append, hnone, Option.none_or, lookup_moved hhit fun r' hr' hhit' hne => ?_, hfirst]
        · rfl
        · have := hok.moved r hr hhit hleaf r' hr' hne
          rwa [if_pos hhit'] at this
    · dsimp only
      rw [if_neg hhit]
      exact ⟨first, lookup_rewrite_kept hhit hfirst, hkept hmem hlive fun hl => hhit (hkey ▸ hl.1)⟩
  · obtain ⟨r, hr, rfl⟩ := mem_rewrite.mp hx
    obtain ⟨r', hr', rfl⟩ := mem_rewrite.mp hx'
    rw [harch r hr, not_or, not_and] at hl
    rw [harch r' hr', not_or, not_and] at hl'
    dsimp only at he
    have hkeys : r.2 = r'.2 := by
      by_cases hhit : hit r.2
      · by_contra hne
        rw [if_pos hhit] at he
        exact hok.moved r hr hhit (hl.2 hhit) r' hr' (Ne.symm hne) he.symm
      · by_cases hhit' : hit r'.2
        · by_contra hne
          rw [if_pos hhit'] at he
          exact hok.moved r' hr' hhit' (hl'.2 hhit') r hr hne he
        · rwa [if_neg hhit, if_neg hhit'] at he
    obtain rfl := h.unique r hr r' hr' hl.1 hl'.1 hkeys
    rfl

end Rewrite

end KeyedRows
