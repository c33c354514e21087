import Mathlib.Data.List.Nodup
import Mathlib.Logic.Function.Basic

/-!
# Linked chains

A store of nodes by address, in which every node names the address after it, or none.
`Seg node next a xs b` says that following these links from `a` visits the nodes `xs`, each with
its address, and then stands at `b`; a chain is a segment that ends at `none`.

Results:
* `Seg.append`, `Seg.split`: segments concatenate, and split at any point.
* `Seg.det`, `Seg.nodup`: the chain from an address is unique, and visits no address twice.
* `Seg.map_nodes`: rewriting nodes keeps the segment when it keeps their links.
-/

namespace LinkedChain

variable {A N : Type}

/-- Following the links from `a` visits `xs` and arrives at `b`. -/
inductive Seg (node : A → Option N) (next : A → N → Option A) :
    Option A → List (A × N) → Option A → Prop
  | nil (a : Option A) : Seg node next a [] a
  | cons {a : A} {n : N} {xs : List (A × N)} {b : Option A} (hn : node a = some n)
      (h : Seg node next (next a n) xs b) : Seg node next (some a) ((a, n) :: xs) b

/-- Rewrite the node at one address of a path. -/
def setNode [DecidableEq A] (x : A) (f : N → N) (xs : List (A × N)) : List (A × N) :=
  xs.map fun y => if y.1 = x then (y.1, f y.2) else y

namespace Seg

variable {node node' : A → Option N} {next : A → N → Option A} {a b c : Option A}
  {xs ys : List (A × N)}

theorem append (h₁ : Seg node next a xs b) (h₂ : Seg node next b ys c) :
    Seg node next a (xs ++ ys) c := by
  induction h₁ with
  | nil => exact h₂
  | cons hn _ ih => exact cons hn (ih h₂)

theorem split (h : Seg node next a (xs ++ ys) c) :
    ∃ b, Seg node next a xs b ∧ Seg node next b ys c := by
  induction xs generalizing a with
  | nil => exact ⟨a, nil a, h⟩
  | cons x xs ih =>
    cases h with
    | cons hn h =>
      obtain ⟨b, h₁, h₂⟩ := ih h
      exact ⟨b, cons hn h₁, h₂⟩

theorem nil_inv (h : Seg node next a [] b) : a = b := by
  cases h
  rfl

theorem cons_inv {x : A × N} (h : Seg node next a (x :: xs) b) :
    a = some x.1 ∧ node x.1 = some x.2 ∧ Seg node next (next x.1 x.2) xs b := by
  cases h with
  | cons hn h => exact ⟨rfl, hn, h⟩

/-- The nodes of a segment are in the store. -/
theorem get_of_mem (h : Seg node next a xs b) {x : A × N} (hx : x ∈ xs) :
    node x.1 = some x.2 := by
  induction h with
  | nil => cases hx
  | cons hn _ ih =>
    rcases List.mem_cons.mp hx with rfl | hx
    · exact hn
    · exact ih hx

/-- **The chain from an address is unique.** -/
theorem det (h₁ : Seg node next a xs none) (h₂ : Seg node next a ys none) : xs = ys := by
  induction xs generalizing a ys with
  | nil =>
    cases h₁
    cases h₂
    rfl
  | cons x xs ih =>
    obtain ⟨rfl, hx, h₁⟩ := h₁.cons_inv
    cases h₂ with
    | cons hn h₂ =>
      obtain rfl := Option.some.inj (hx.symm.trans hn)
      rw [ih h₁ h₂]

/-- A segment to the same end that starts where a chain does is its beginning. -/
theorem prefix_of_chain (h₁ : Seg node next a xs (some x)) (h₂ : Seg node next a ys none) :
    ∃ n zs, ys = xs ++ (x, n) :: zs := by
  induction xs generalizing a ys with
  | nil =>
    obtain rfl := h₁.nil_inv
    cases h₂ with
    | cons hn h₂ => exact ⟨_, _, rfl⟩
  | cons y xs ih =>
    obtain ⟨rfl, hy, h₁⟩ := h₁.cons_inv
    cases h₂ with
    | cons hn h₂ =>
      obtain rfl := Option.some.inj (hy.symm.trans hn)
      obtain ⟨n, zs, rfl⟩ := ih h₁ h₂
      exact ⟨n, zs, rfl⟩

/-- **A chain visits no address twice.** If it did, it would be longer than itself: the chain from
an address is unique. -/
theorem nodup (h : Seg node next a xs none) : (xs.map Prod.fst).Nodup := by
  induction xs generalizing a with
  | nil => exact List.nodup_nil
  | cons x xs ih =>
    obtain ⟨rfl, hx, h'⟩ := h.cons_inv
    refine List.nodup_cons.mpr ⟨fun hmem => ?_, ih h'⟩
    obtain ⟨y, hy, he⟩ := List.mem_map.mp hmem
    obtain ⟨pre, post, rfl⟩ := List.append_of_mem hy
    obtain ⟨b, -, h₂⟩ := h'.split
    obtain ⟨rfl, -, -⟩ := h₂.cons_inv
    rw [he] at h₂
    have hlen := congrArg List.length (h₂.det h)
    simp only [List.length_cons, List.length_append] at hlen
    omega

/-- **Rewriting nodes keeps the segment** when it keeps their links. -/
theorem map_nodes (h : Seg node next a xs b) (f : A → N → N)
    (hf : ∀ x ∈ xs, node' x.1 = some (f x.1 x.2) ∧ next x.1 (f x.1 x.2) = next x.1 x.2) :
    Seg node' next a (xs.map fun x => (x.1, f x.1 x.2)) b := by
  induction h with
  | nil => exact nil _
  | cons hn _ ih =>
    obtain ⟨h1, h2⟩ := hf _ List.mem_cons_self
    refine cons h1 ?_
    rw [h2]
    exact ih fun x hx => hf x (List.mem_cons_of_mem _ hx)

/-- A segment depends on the nodes it visits only. -/
theorem frame (h : Seg node next a xs b) (hf : ∀ x ∈ xs, node' x.1 = node x.1) :
    Seg node' next a xs b := by
  induction h with
  | nil => exact nil _
  | cons hn _ ih =>
    exact cons ((hf _ List.mem_cons_self).trans hn) (ih fun x hx => hf x (List.mem_cons_of_mem _ hx))

variable [DecidableEq A]

/-- Rewriting one node keeps the segment when it keeps the link. -/
theorem set (h : Seg node next a xs b) {x : A} {f : N → N}
    (hnode : ∀ y, node' y = if y = x then (node y).map f else node y)
    (hnext : ∀ n, node x = some n → next x (f n) = next x n) :
    Seg node' next a (setNode x f xs) b := by
  have hmap : Seg node' next a (xs.map fun y => (y.1, if y.1 = x then f y.2 else y.2)) b :=
    h.map_nodes (fun y n => if y = x then f n else n) fun y hy => by
      have hget := h.get_of_mem hy
      rw [hnode]
      by_cases hyx : y.1 = x
      · subst hyx
        simp [hget, hnext _ hget]
      · simp [hyx, hget]
  have heq : setNode x f xs = xs.map fun y => (y.1, if y.1 = x then f y.2 else y.2) := by
    refine List.map_congr_left fun y _ => ?_
    split <;> rfl
  rw [heq]
  exact hmap

/-- A write at an address the segment does not visit keeps it. -/
theorem update_ne (h : Seg node next a xs b) {x : A} (hx : x ∉ xs.map Prod.fst) (n : Option N) :
    Seg (Function.update node x n) next a xs b := by
  refine h.frame fun y hy => ?_
  have hne : y.1 ≠ x := fun he => hx (he ▸ List.mem_map_of_mem hy)
  rw [Function.update_of_ne hne]

end Seg

section setNode

variable [DecidableEq A] (x : A) (f : N → N) (xs ys : List (A × N))

@[simp] theorem setNode_nil : setNode x f ([] : List (A × N)) = [] := rfl

@[simp] theorem setNode_append : setNode x f (xs ++ ys) = setNode x f xs ++ setNode x f ys :=
  List.map_append

@[simp] theorem map_fst_setNode : (setNode x f xs).map Prod.fst = xs.map Prod.fst := by
  unfold setNode
  rw [List.map_map]
  refine List.map_congr_left fun y _ => ?_
  simp only [Function.comp_apply]
  split <;> rfl

variable {x xs}

theorem setNode_of_notMem (h : x ∉ xs.map Prod.fst) : setNode x f xs = xs := by
  unfold setNode
  refine (List.map_congr_left fun y hy => ?_).trans (List.map_id xs)
  have hne : y.1 ≠ x := fun he => h (he ▸ List.mem_map_of_mem hy)
  simp [hne]

theorem setNode_cons_self {n : N} (h : x ∉ xs.map Prod.fst) :
    setNode x f ((x, n) :: xs) = (x, f n) :: xs := by
  show (if x = x then (x, f n) else (x, n)) :: setNode x f xs = _
  rw [if_pos rfl, setNode_of_notMem f h]

/-- A function of the nodes that the rewrite keeps is the same along the path. -/
theorem map_setNode {B : Type} {g : A × N → B} (hg : ∀ y ∈ xs, y.1 = x → g (y.1, f y.2) = g y) :
    (setNode x f xs).map g = xs.map g := by
  unfold setNode
  rw [List.map_map]
  refine List.map_congr_left fun y hy => ?_
  simp only [Function.comp_apply]
  split
  · next he => exact hg y hy he
  · rfl

end setNode

end LinkedChain
