import Mathlib.Data.List.Sort
import Mathlib.Logic.Equiv.Basic

/-!
# Sorting by comparisons

A routine such as `qsort` sees the elements only through a comparison of two of them. It is a tree of the
comparisons it makes, of positions.

* `Sorter`: the tree. `Sorter.run`: the positions in the order it leaves them, for the answers of one
  comparison. `Sorter.asked`: what it compares on the way.
* `Sorter.Lawful`: it sorts, whatever the order.

Results:
* `Sorter.Lawful.asked_of_adjacent`: two elements that end up side by side have been compared.
* `lawful_insertionSorter`: there are sorters.
-/

namespace NeoPostGraph

variable {ι : Type}

/-- A strict total order, as a test. -/
structure Orders (lt : ι → ι → Bool) : Prop where
  asymm : ∀ {a b : ι}, lt a b = true → lt b a = false
  trans : ∀ {a b c : ι}, lt a b = true → lt b c = true → lt a c = true
  total : ∀ {a b : ι}, a ≠ b → lt a b = true ∨ lt b a = true

/-- A routine that sorts by comparisons. No element is compared with itself. -/
inductive Sorter (ι : Type) where
  | done (order : List ι)
  | compare (a b : ι) (hne : a ≠ b) (less greater : Sorter ι)

namespace Sorter

/-- The order it leaves the elements in. -/
def run (lt : ι → ι → Bool) : Sorter ι → List ι
  | done order => order
  | compare a b _ less greater => if lt a b then less.run lt else greater.run lt

/-- The comparisons it makes. -/
def asked (lt : ι → ι → Bool) : Sorter ι → List (ι × ι)
  | done _ => []
  | compare a b _ less greater => (a, b) :: if lt a b then less.asked lt else greater.asked lt

/-- It sorts all elements, by any order. -/
def Lawful (s : Sorter ι) : Prop :=
  ∀ lt : ι → ι → Bool, Orders lt → (∀ x, x ∈ s.run lt) ∧ (s.run lt).Pairwise fun a b => lt a b = true

variable {s : Sorter ι} {lt lt' : ι → ι → Bool}

/-- The outcome depends on the answers to what is asked. -/
theorem run_congr (h : ∀ p ∈ s.asked lt, lt' p.1 p.2 = lt p.1 p.2) : s.run lt' = s.run lt := by
  induction s with
  | done order => rfl
  | compare a b hne less greater ihless ihgreater =>
    have hfirst : lt' a b = lt a b := h (a, b) List.mem_cons_self
    simp only [run, hfirst]
    split
    · next hlt =>
      refine ihless fun p hp => h p ?_
      simp only [asked, hlt, if_true]
      exact List.mem_cons_of_mem _ hp
    · next hlt =>
      refine ihgreater fun p hp => h p ?_
      simp only [asked, hlt]
      exact List.mem_cons_of_mem _ hp

/-- The elements that are asked for are different. -/
theorem ne_of_asked {p : ι × ι} (h : p ∈ s.asked lt) : p.1 ≠ p.2 := by
  induction s with
  | done order => exact absurd h List.not_mem_nil
  | compare a b hne less greater ihless ihgreater =>
    rcases List.mem_cons.mp h with rfl | hrest
    · exact hne
    · split at hrest
      · exact ihless hrest
      · exact ihgreater hrest

theorem Lawful.nodup (hs : s.Lawful) (hlt : Orders lt) : (s.run lt).Nodup := by
  refine (hs lt hlt).2.imp fun {a b} hab he => ?_
  subst he
  have := hlt.asymm hab
  rw [hab] at this
  cases this

variable [DecidableEq ι]

/-- The order with two elements exchanged. -/
theorem Orders.swap (hlt : Orders lt) (a b : ι) :
    Orders fun x y => lt (Equiv.swap a b x) (Equiv.swap a b y) where
  asymm h := hlt.asymm h
  trans h h' := hlt.trans h h'
  total h := hlt.total fun he => h ((Equiv.swap a b).injective he)

/-- **Two elements that end up side by side have been compared**: otherwise the answers would be the same
with the two exchanged, and so would the outcome. -/
theorem Lawful.asked_of_adjacent (hs : s.Lawful) (hlt : Orders lt) {as bs : List ι} {a b : ι}
    (hrun : s.run lt = as ++ a :: b :: bs) : (a, b) ∈ s.asked lt ∨ (b, a) ∈ s.asked lt := by
  by_contra hnot
  push Not at hnot
  obtain ⟨hall, hsorted⟩ := hs lt hlt
  rw [hrun] at hsorted
  obtain ⟨-, hab, hbefore⟩ := List.pairwise_append.mp hsorted
  obtain ⟨ha, hrest⟩ := List.pairwise_cons.mp hab
  obtain ⟨hb, -⟩ := List.pairwise_cons.mp hrest
  have halt : lt a b = true := ha b List.mem_cons_self
  -- every other element is on the same side of both
  have hside : ∀ x, x ≠ a → x ≠ b → lt x a = lt x b ∧ lt a x = lt b x := by
    intro x hxa hxb
    have hx : x ∈ as ++ a :: b :: bs := hrun ▸ hall x
    rcases List.mem_append.mp hx with hx | hx
    · have h₁ := hbefore x hx a List.mem_cons_self
      have h₂ := hbefore x hx b (List.mem_cons_of_mem _ List.mem_cons_self)
      exact ⟨h₁.trans h₂.symm, (hlt.asymm h₁).trans (hlt.asymm h₂).symm⟩
    · simp only [List.mem_cons, hxa, hxb, false_or] at hx
      have h₁ := ha x (List.mem_cons_of_mem _ hx)
      have h₂ := hb x hx
      exact ⟨(hlt.asymm h₁).trans (hlt.asymm h₂).symm, h₁.trans h₂.symm⟩
  have hsame : ∀ p ∈ s.asked lt, lt (Equiv.swap a b p.1) (Equiv.swap a b p.2) = lt p.1 p.2 := by
    rintro ⟨x, y⟩ hp
    have hxy : x ≠ y := ne_of_asked hp
    dsimp only
    by_cases hxa : x = a
    · subst hxa
      have hyb : y ≠ b := fun he => hnot.1 (he ▸ hp)
      rw [Equiv.swap_apply_left, Equiv.swap_apply_of_ne_of_ne hxy.symm hyb]
      exact (hside y hxy.symm hyb).2.symm
    · by_cases hxb : x = b
      · subst hxb
        have hya : y ≠ a := fun he => hnot.2 (he ▸ hp)
        rw [Equiv.swap_apply_right, Equiv.swap_apply_of_ne_of_ne hya hxy.symm]
        exact (hside y hya hxy.symm).2
      · rw [Equiv.swap_apply_of_ne_of_ne hxa hxb]
        by_cases hya : y = a
        · subst hya
          rw [Equiv.swap_apply_left]
          exact (hside x hxa hxb).1.symm
        · by_cases hyb : y = b
          · subst hyb
            rw [Equiv.swap_apply_right]
            exact (hside x hxa hxb).1
          · rw [Equiv.swap_apply_of_ne_of_ne hya hyb]
  have hswapped := (hs _ (Orders.swap hlt a b)).2
  rw [run_congr hsame, hrun] at hswapped
  have hba : lt (Equiv.swap a b a) (Equiv.swap a b b) = true :=
    (List.pairwise_cons.mp (List.pairwise_append.mp hswapped).2.1).1 b List.mem_cons_self
  rw [Equiv.swap_apply_left, Equiv.swap_apply_right, hlt.asymm halt] at hba
  cases hba

/-! ## Insertion sort -/

/-- Find the place of an element in a sorted list, and go on. -/
def insertInto (x : ι) : List ι → (List ι → Sorter ι) → Sorter ι
  | [], k => k [x]
  | y :: ys, k =>
    if h : x = y then insertInto x ys fun zs => k (y :: zs)
    else compare x y h (k (x :: y :: ys)) (insertInto x ys fun zs => k (y :: zs))

/-- Sort the elements one after the other. -/
def insertAll : List ι → (List ι → Sorter ι) → Sorter ι
  | [], k => k []
  | x :: xs, k => insertAll xs fun sorted => insertInto x sorted k

/-- An insertion sort. -/
def insertionSorter (xs : List ι) : Sorter ι := insertAll xs done

theorem run_insertInto {x : ι} {ys : List ι} (hx : x ∉ ys) (k : List ι → Sorter ι) :
    (insertInto x ys k).run lt = (k (ys.orderedInsert (fun a b => lt a b = true ∨ a = b) x)).run lt := by
  induction ys generalizing k with
  | nil => rfl
  | cons y ys ih =>
    obtain ⟨hne, hrest⟩ := List.ne_and_not_mem_of_not_mem_cons hx
    unfold insertInto
    rw [dif_neg hne, run, ih hrest, List.orderedInsert_cons]
    by_cases hlt : lt x y = true
    · rw [if_pos hlt, if_pos (Or.inl hlt)]
    · rw [if_neg hlt, if_neg (by simp [hlt, hne])]

theorem run_insertAll {xs : List ι} (hnodup : xs.Nodup) (k : List ι → Sorter ι) :
    (insertAll xs k).run lt = (k (xs.insertionSort fun a b => lt a b = true ∨ a = b)).run lt := by
  induction xs generalizing k with
  | nil => rfl
  | cons x xs ih =>
    obtain ⟨hx, hxs⟩ := List.nodup_cons.mp hnodup
    unfold insertAll
    rw [ih hxs, run_insertInto (by rwa [List.mem_insertionSort]), List.insertionSort_cons]

/-- **There are sorters.** -/
theorem lawful_insertionSorter {xs : List ι} (hall : ∀ x, x ∈ xs) (hnodup : xs.Nodup) :
    (insertionSorter xs).Lawful := by
  intro lt hlt
  have hrun : (insertionSorter xs).run lt = xs.insertionSort fun a b => lt a b = true ∨ a = b :=
    run_insertAll hnodup done
  have htotal : Std.Total fun a b : ι => lt a b = true ∨ a = b := ⟨fun a b => by
    by_cases he : a = b
    · exact Or.inl (Or.inr he)
    · exact (hlt.total he).imp Or.inl Or.inl⟩
  have htrans : IsTrans ι fun a b => lt a b = true ∨ a = b := ⟨fun a b c hab hbc => by
    rcases hab with hab | rfl
    · rcases hbc with hbc | rfl
      · exact Or.inl (hlt.trans hab hbc)
      · exact Or.inl hab
    · exact hbc⟩
  rw [hrun]
  refine ⟨fun x => List.mem_insertionSort _ |>.mpr (hall x), ?_⟩
  have hsorted := List.pairwise_insertionSort (fun a b => lt a b = true ∨ a = b) xs
  have hdistinct : (xs.insertionSort fun a b => lt a b = true ∨ a = b).Nodup :=
    (List.perm_insertionSort _ xs).nodup_iff.mpr hnodup
  exact (hsorted.and hdistinct).imp fun h => h.1.resolve_right h.2

end Sorter

end NeoPostGraph
