import Mathlib.Data.List.Induction
import Mathlib.Data.List.Pairwise
import Mathlib.Data.List.Sort
import Mathlib.Tactic.SplitIfs

/-!
# Bindings in the order of their keys

A list of bindings of keys to values, in which a key may be bound more than once, stands for the map that
its last bindings make. `lastBindings` is that map as a list: each key once, in the order of the keys.

Results:
* `mem_lastBindings`: it has exactly the last binding of each key.
* `eq_lastBindings`: it is the only sorted list that has them. `lastBindings_of_sorted`: a sorted list is
  its own.
-/

namespace NeoPostGraph

variable {κ α : Type} [DecidableEq κ]

/-- The last binding of a key. -/
def lastBinding (seq : List (κ × α)) (key : κ) : Option (κ × α) := seq.reverse.find? fun p => p.1 = key

section

variable (lt : κ → κ → Prop) [DecidableRel lt]

/-- A key is bound in a sorted list, in the place of the binding it had. -/
def setBinding (key : κ) (val : α) : List (κ × α) → List (κ × α)
  | [] => [(key, val)]
  | (k, v) :: rest =>
    if key = k then (key, val) :: rest
    else if lt key k then (key, val) :: (k, v) :: rest
    else (k, v) :: setBinding key val rest

/-- The last binding of each key, in the order of the keys. -/
def lastBindings (seq : List (κ × α)) : List (κ × α) :=
  seq.foldl (fun bound p => setBinding lt p.1 p.2 bound) []

end

/-- The keys are in order, and no key is there twice. -/
def KeysSorted (lt : κ → κ → Prop) (bound : List (κ × α)) : Prop := bound.Pairwise fun p q => lt p.1 q.1

variable {lt : κ → κ → Prop} [DecidableRel lt] {key : κ} {val : α} {bound seq : List (κ × α)}

/-- Binding a key takes nothing but the binding it had. -/
theorem key_of_mem_setBinding {p : κ × α} (h : p ∈ setBinding lt key val bound) :
    p = (key, val) ∨ p ∈ bound := by
  induction bound with
  | nil => exact Or.inl (List.mem_singleton.mp h)
  | cons q rest ih =>
    unfold setBinding at h
    split_ifs at h
    · exact (List.mem_cons.mp h).imp_right (List.mem_cons_of_mem _)
    · exact List.mem_cons.mp h
    · rcases List.mem_cons.mp h with rfl | h
      · exact Or.inr List.mem_cons_self
      · exact (ih h).imp_right (List.mem_cons_of_mem _)

theorem length_setBinding_le : (setBinding lt key val bound).length ≤ bound.length + 1 := by
  induction bound with
  | nil => exact Nat.le_refl _
  | cons q rest ih =>
    unfold setBinding
    split_ifs
    · exact Nat.le_succ _
    · exact Nat.le_refl _
    · exact Nat.succ_le_succ ih

theorem lastBinding_append (seq : List (κ × α)) (p : κ × α) :
    lastBinding (seq ++ [p]) key = if p.1 = key then some p else lastBinding seq key := by
  unfold lastBinding
  rw [List.reverse_append, List.reverse_singleton, List.singleton_append, List.find?_cons]
  split_ifs with h <;> simp [h]

theorem lastBindings_append (seq : List (κ × α)) (p : κ × α) :
    lastBindings lt (seq ++ [p]) = setBinding lt p.1 p.2 (lastBindings lt seq) := by
  unfold lastBindings
  rw [List.foldl_append]
  rfl

theorem length_lastBindings_le (seq : List (κ × α)) : (lastBindings lt seq).length ≤ seq.length := by
  induction seq using List.reverseRecOn with
  | nil => exact Nat.le_refl _
  | append_singleton seq p ih =>
    rw [lastBindings_append, List.length_append, List.length_singleton]
    exact Nat.le_trans length_setBinding_le (Nat.succ_le_succ ih)

variable [IsStrictTotalOrder κ lt]

theorem setBinding_sorted (h : KeysSorted lt bound) : KeysSorted lt (setBinding lt key val bound) := by
  induction bound with
  | nil => exact List.pairwise_singleton _ _
  | cons q rest ih =>
    obtain ⟨hq, hrest⟩ := List.pairwise_cons.mp h
    unfold setBinding
    split_ifs with heq hlt
    · subst heq
      exact List.pairwise_cons.mpr ⟨hq, hrest⟩
    · refine List.pairwise_cons.mpr ⟨fun p hp => ?_, h⟩
      rcases List.mem_cons.mp hp with rfl | hp
      · exact hlt
      · exact IsTrans.trans _ _ _ hlt (hq p hp)
    · have hgt : lt q.1 key := (trichotomous_of lt q.1 key).resolve_right fun hor =>
        hor.elim (fun he => heq he.symm) hlt
      refine List.pairwise_cons.mpr ⟨fun p hp => ?_, ih hrest⟩
      rcases key_of_mem_setBinding hp with rfl | hp
      · exact hgt
      · exact hq p hp

/-- **A key is bound to its new value**, and the others stay. -/
theorem mem_setBinding (h : KeysSorted lt bound) {p : κ × α} :
    p ∈ setBinding lt key val bound ↔ p = (key, val) ∨ p.1 ≠ key ∧ p ∈ bound := by
  induction bound with
  | nil => simp [setBinding]
  | cons q rest ih =>
    obtain ⟨hq, hrest⟩ := List.pairwise_cons.mp h
    -- behind a key there are greater ones
    have hbehind : ∀ k, k = q.1 ∨ lt k q.1 → ∀ p ∈ rest, p.1 ≠ k := by
      rintro k hk p hp rfl
      rcases hk with hk | hk
      · exact irrefl_of lt q.1 (hk ▸ hq p hp)
      · exact irrefl_of lt q.1 (IsTrans.trans _ _ _ (hq p hp) hk)
    unfold setBinding
    split_ifs with heq hlt
    · rw [List.mem_cons, List.mem_cons]
      refine or_congr_right ⟨fun hp => ⟨hbehind key (.inl heq) p hp, .inr hp⟩, ?_⟩
      rintro ⟨hne, rfl | hp⟩
      · exact absurd heq.symm hne
      · exact hp
    · rw [List.mem_cons, List.mem_cons]
      refine or_congr_right ⟨fun hp => ⟨?_, hp⟩, And.right⟩
      rcases hp with rfl | hp
      · exact fun he => heq he.symm
      · exact hbehind key (.inr hlt) p hp
    · rw [List.mem_cons, ih hrest, List.mem_cons]
      constructor
      · rintro (rfl | hp | ⟨hne, hp⟩)
        · exact .inr ⟨fun he => heq he.symm, .inl rfl⟩
        · exact .inl hp
        · exact .inr ⟨hne, .inr hp⟩
      · rintro (hp | ⟨hne, rfl | hp⟩)
        · exact .inr (.inl hp)
        · exact .inl rfl
        · exact .inr (.inr ⟨hne, hp⟩)

theorem lastBindings_sorted (seq : List (κ × α)) : KeysSorted lt (lastBindings lt seq) := by
  induction seq using List.reverseRecOn with
  | nil => exact List.Pairwise.nil
  | append_singleton seq p ih =>
    rw [lastBindings_append]
    exact setBinding_sorted ih

/-- **Exactly the last binding of each key.** -/
theorem mem_lastBindings {p : κ × α} : p ∈ lastBindings lt seq ↔ lastBinding seq p.1 = some p := by
  induction seq using List.reverseRecOn with
  | nil => exact iff_of_false List.not_mem_nil nofun
  | append_singleton seq q ih =>
    rw [lastBindings_append, mem_setBinding (lastBindings_sorted seq), lastBinding_append, ih]
    split_ifs with hkey
    · constructor
      · rintro (rfl | ⟨hne, -⟩)
        · rfl
        · exact absurd hkey.symm hne
      · intro h
        exact .inl (Option.some.inj h).symm
    · constructor
      · rintro (rfl | ⟨-, h⟩)
        · exact absurd rfl hkey
        · exact h
      · exact fun h => .inr ⟨Ne.symm hkey, h⟩

/-- No binding is made up. -/
theorem mem_of_mem_lastBindings {p : κ × α} (h : p ∈ lastBindings lt seq) : p ∈ seq :=
  List.mem_reverse.mp (List.mem_of_find?_eq_some (mem_lastBindings.mp h))

/-- **The only sorted list** of the keys and their last bindings. -/
theorem eq_lastBindings (hsorted : KeysSorted lt bound)
    (hkeys : ∀ p ∈ seq, p.1 ∈ bound.map Prod.fst) (hlast : ∀ p ∈ bound, lastBinding seq p.1 = some p) :
    bound = lastBindings lt seq := by
  have hirrefl : Std.Irrefl fun p q : κ × α => lt p.1 q.1 := ⟨fun p => irrefl_of lt p.1⟩
  have hasymm : ∀ p q : κ × α, lt p.1 q.1 → lt q.1 p.1 → p = q :=
    fun p q hpq hqp => absurd (IsTrans.trans _ _ _ hpq hqp) (irrefl_of lt p.1)
  have hanti : Std.Antisymm fun p q : κ × α => lt p.1 q.1 := ⟨hasymm⟩
  refine hsorted.eq_of_mem_iff (lastBindings_sorted seq) fun p => ?_
  rw [mem_lastBindings]
  refine ⟨hlast p, fun h => ?_⟩
  obtain ⟨q, hq, hkey⟩ := List.mem_map.mp (hkeys p (List.mem_reverse.mp (List.mem_of_find?_eq_some h)))
  have hlq := hlast q hq
  rw [hkey, h] at hlq
  exact Option.some.inj hlq ▸ hq

/-- A sorted list is its own. -/
theorem lastBindings_of_sorted (h : KeysSorted lt bound) : lastBindings lt bound = bound := by
  refine (eq_lastBindings h (fun p hp => List.mem_map_of_mem hp) fun p hp => ?_).symm
  unfold lastBinding
  have hfound : (bound.reverse.find? fun q => decide (q.1 = p.1)).isSome := by
    rw [List.find?_isSome]
    exact ⟨p, List.mem_reverse.mpr hp, decide_eq_true rfl⟩
  obtain ⟨q, hq⟩ := Option.isSome_iff_exists.mp hfound
  have hmem := List.mem_reverse.mp (List.mem_of_find?_eq_some hq)
  have hkey : q.1 = p.1 := by simpa using List.find?_some hq
  -- a key is there once
  have honce : bound.Pairwise fun p q => p.1 ≠ q.1 :=
    h.imp fun {p q} hlt (he : p.1 = q.1) => irrefl_of lt q.1 (he ▸ hlt)
  have hsymm : Std.Symm fun p q : κ × α => p.1 ≠ q.1 := ⟨fun _ _ => Ne.symm⟩
  rw [hq]
  by_contra hne
  exact honce.forall hmem hp (fun he => hne (congrArg some he)) hkey

end NeoPostGraph
