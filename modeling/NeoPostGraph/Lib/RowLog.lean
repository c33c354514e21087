import Mathlib.Logic.Function.Basic

/-!
# Rows that are written once and marked once

A store of rows under keys, where a writer adds rows of its own and marks rows, its own or others',
and does nothing else. Each reader sees some rows and not others, by what is written on them.

* `Change own marks`: what may happen to the row under one key.
* `Invisible`: no reader can tell two states of the store apart.
* `LeavesNothing`: every row that is new is dead, and no old row is marked.

Results:
* `Change.trans`: changes add up, when a row is marked once only.
* `invisible_iff`: a writer stays invisible exactly when it leaves nothing behind, as soon as one
  reader sees the writer's rows and the rows before their marks.
-/

namespace RowLog

variable {K R ρ : Type}

/-- The row under a key stays, or comes to be as one of the writer's own, or is marked. -/
inductive Change (own : R → Prop) (marks : R → R → Prop) : Option R → Option R → Prop
  | same (o : Option R) : Change own marks o o
  | new {r : R} (h : own r) : Change own marks none (some r)
  | mark {r r' : R} (h : marks r r') : Change own marks (some r) (some r')

/-- Own rows stay own when they are marked, and a marked row is not marked again. -/
structure Rules (own : R → Prop) (marks : R → R → Prop) : Prop where
  own_marks : ∀ r r', own r → marks r r' → own r'
  once : ∀ r r' r'', marks r r' → ¬ marks r' r''

section

variable {own dead : R → Prop} {marks : R → R → Prop} {o o' o'' : Option R}

/-- **Changes add up.** -/
theorem Change.trans (hr : Rules own marks) (h₁ : Change own marks o o')
    (h₂ : Change own marks o' o'') : Change own marks o o'' := by
  cases h₁ with
  | same => exact h₂
  | new hown =>
    cases h₂ with
    | same => exact Change.new hown
    | mark hm => exact Change.new (hr.own_marks _ _ hown hm)
  | mark hm =>
    cases h₂ with
    | same => exact Change.mark hm
    | mark hm' => exact absurd hm' (hr.once _ _ _ hm)

theorem Change.mono {own' : R → Prop} {marks' : R → R → Prop} (hown : ∀ r, own r → own' r)
    (hmarks : ∀ r r', marks r r' → marks' r r') (h : Change own marks o o') :
    Change own' marks' o o' := by
  cases h with
  | same => exact Change.same _
  | new h => exact Change.new (hown _ h)
  | mark h => exact Change.mark (hmarks _ _ h)

/-- Every reader sees the same rows in both states. -/
def Invisible (readers : ρ → Prop) (sees : ρ → R → Prop) (f g : K → Option R) : Prop :=
  ∀ x, readers x → ∀ k r, f k = some r ∧ sees x r ↔ g k = some r ∧ sees x r

/-- A row that was there is as it was, and a row that is new is dead. -/
def LeavesNothing (dead : R → Prop) (f g : K → Option R) : Prop :=
  ∀ k, (∀ r, f k = some r → g k = some r) ∧ (f k = none → ∀ r, g k = some r → dead r)

/-- **A writer stays invisible exactly when it leaves nothing behind.** Dead rows are seen by no
reader; the reader `x₀` sees the writer's other rows, and what the writer marked as it was before. -/
theorem invisible_iff {readers : ρ → Prop} {sees : ρ → R → Prop} {f g : K → Option R} {x₀ : ρ}
    (hch : ∀ k, Change own marks (f k) (g k))
    (hdead : ∀ x, readers x → ∀ r, own r → dead r → ¬ sees x r) (hx₀ : readers x₀)
    (hown : ∀ r, own r → ¬ dead r → sees x₀ r)
    (hmark : ∀ k r r', f k = some r → marks r r' → sees x₀ r) :
    Invisible readers sees f g ↔ LeavesNothing dead f g := by
  constructor
  · intro h k
    refine ⟨fun r hf => ?_, fun hf r hg => ?_⟩
    · have hk := hch k
      rw [hf] at hk
      cases hk' : g k with
      | none =>
        rw [hk'] at hk
        cases hk
      | some r' =>
        rw [hk'] at hk
        cases hk with
        | same => rfl
        | mark hm =>
          have hg := ((h x₀ hx₀ k r).mp ⟨hf, hmark k _ _ hf hm⟩).1
          rw [hk'] at hg
          exact hg
    · by_contra hd
      have hk := hch k
      rw [hf, hg] at hk
      cases hk with
      | new ho =>
        have hf' := ((h x₀ hx₀ k r).mpr ⟨hg, hown r ho hd⟩).1
        rw [hf] at hf'
        cases hf'
  · intro h x hx k r
    obtain ⟨hold, hnew⟩ := h k
    constructor
    · rintro ⟨hf, hs⟩
      exact ⟨hold r hf, hs⟩
    · rintro ⟨hg, hs⟩
      cases hf : f k with
      | none =>
        have hk := hch k
        rw [hf, hg] at hk
        cases hk with
        | new ho => exact absurd hs (hdead x hx r ho (hnew hf r hg))
      | some r' =>
        rw [hold r' hf] at hg
        exact ⟨hg, hs⟩

end

end RowLog
