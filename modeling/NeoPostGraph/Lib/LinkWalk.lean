import Mathlib.Logic.Relation
import Mathlib.Tactic.Common

/-!
# Walking along links

A node has at most one link. A walk goes from link to link until there is none, and remembers the last node
that it was told to look for.

* `walk next sees fuel a last`: the walk from `a`, which has remembered `last` so far.
* `Leads next a b`: the walk from `a` comes to `b`.
* `Ranked E`: the edges lead down in some ranking of the nodes, so that no walk along them goes on forever.

Results:
* `Ranked.grow`: a new node may get an edge from an old one, and edges to whatever the old one has had edges
  to.
* `walk_spec`: along ranked links the walk ends, and remembers the last node of those it looks for.
-/

namespace LinkWalk

variable {α : Type} {next : α → Option α} {sees : α → Bool} {a b c : α}

/-- Go from link to link; nothing when the fuel is used up. -/
def walk (next : α → Option α) (sees : α → Bool) : Nat → α → α → Option α
  | 0, _, _ => none
  | fuel + 1, a, last =>
    let last := if sees a then a else last
    match next a with
    | none => some last
    | some b => walk next sees fuel b last

/-- The walk from `a` comes to `b`. -/
def Leads (next : α → Option α) : α → α → Prop := Relation.ReflTransGen fun a b => next a = some b

/-! ## Ranked edges -/

/-- The edges lead down. -/
def Ranked (E : α → α → Prop) : Prop := ∃ rank : α → Nat, ∀ a b, E a b → rank b < rank a

theorem ranked_empty {E : α → α → Prop} (h : ∀ a b, ¬ E a b) : Ranked E :=
  ⟨fun _ => 0, fun a b hab => (h a b hab).elim⟩

theorem Ranked.mono {E E' : α → α → Prop} (h : Ranked E) (hsub : ∀ a b, E' a b → E a b) : Ranked E' := by
  obtain ⟨rank, hrank⟩ := h
  exact ⟨rank, fun a b hab => hrank a b (hsub a b hab)⟩

/-- **A new node takes its place right below an old one**: the old one may link to it, and it may link to
whatever the old one links to. -/
theorem Ranked.grow {E : α → α → Prop} [DecidableEq α] {o n : α} (h : Ranked E)
    (hfresh : ∀ a b, E a b → a ≠ n ∧ b ≠ n) (hne : o ≠ n) :
    Ranked fun a b => E a b ∨ (a = o ∧ b = n) ∨ (a = n ∧ E o b) := by
  obtain ⟨rank, hrank⟩ := h
  refine ⟨fun a => if a = n then 2 * rank o else 2 * rank a + 1, ?_⟩
  rintro a b (hab | ⟨rfl, rfl⟩ | ⟨rfl, hob⟩)
  · obtain ⟨ha, hb⟩ := hfresh a b hab
    have hlt := hrank a b hab
    simp only [if_neg ha, if_neg hb]
    omega
  · simp only [if_neg hne, if_true]
    omega
  · have hb := (hfresh o b hob).2
    have hlt := hrank o b hob
    simp only [if_neg hb, if_true]
    omega

/-! ## What a walk remembers -/

theorem leads_step (h : next a = some b) : Leads next a c ↔ c = a ∨ Leads next b c := by
  constructor
  · intro hac
    rcases Relation.ReflTransGen.cases_head hac with rfl | ⟨d, had, hdc⟩
    · exact Or.inl rfl
    · obtain rfl := Option.some.inj (h.symm.trans had)
      exact Or.inr hdc
  · rintro (rfl | hbc)
    · exact Relation.ReflTransGen.refl
    · exact Relation.ReflTransGen.head h hbc

theorem leads_end (h : next a = none) : Leads next a c ↔ c = a := by
  constructor
  · intro hac
    rcases Relation.ReflTransGen.cases_head hac with rfl | ⟨d, had, -⟩
    · rfl
    · rw [h] at had
      cases had
  · rintro rfl
    exact Relation.ReflTransGen.refl

/-- Among the nodes the walk comes to, it remembers the last one that it looks for, or what it has
remembered before if there is none. -/
def Remembers (next : α → Option α) (sees : α → Bool) (a last res : α) : Prop :=
  (res = last ∧ ∀ b, Leads next a b → sees b = false) ∨
    (Leads next a res ∧ sees res = true ∧ ∀ b, Leads next a b → sees b = true → Leads next b res)

/-- **A walk along ranked links ends**, and remembers the last node it looks for. -/
theorem walk_spec (h : Ranked fun a b => next a = some b) (sees : α → Bool) (a last : α) :
    ∃ fuel res, walk next sees fuel a last = some res ∧ Remembers next sees a last res := by
  obtain ⟨rank, hrank⟩ := h
  -- by induction on the rank of the node the walk is at
  induction hn : rank a using Nat.strongRecOn generalizing a last with
  | ind n ih =>
    cases hnext : next a with
    | none =>
      refine ⟨1, _, by rw [walk, hnext], ?_⟩
      by_cases hsees : sees a = true
      · rw [if_pos hsees]
        refine Or.inr ⟨Relation.ReflTransGen.refl, hsees, fun b hab _ => ?_⟩
        rw [(leads_end hnext).mp hab]
        exact Relation.ReflTransGen.refl
      · rw [if_neg hsees]
        refine Or.inl ⟨rfl, fun b hab => ?_⟩
        rw [(leads_end hnext).mp hab]
        exact Bool.eq_false_iff.mpr hsees
    | some b =>
      have hlt : rank b < n := by
        rw [← hn]
        exact hrank a b hnext
      obtain ⟨fuel, res, hwalk, hres⟩ := ih (rank b) hlt b (if sees a then a else last) rfl
      refine ⟨fuel + 1, res, by rw [walk, hnext]; exact hwalk, ?_⟩
      rcases hres with ⟨rfl, hnone⟩ | ⟨hlead, hsees, hlast⟩
      · by_cases hsees : sees a = true
        · rw [if_pos hsees]
          refine Or.inr ⟨Relation.ReflTransGen.refl, hsees, fun c hac hc => ?_⟩
          rcases (leads_step hnext).mp hac with rfl | hbc
          · exact Relation.ReflTransGen.refl
          · rw [hnone c hbc] at hc
            cases hc
        · rw [if_neg hsees]
          refine Or.inl ⟨rfl, fun c hac => ?_⟩
          rcases (leads_step hnext).mp hac with rfl | hbc
          · exact Bool.eq_false_iff.mpr hsees
          · exact hnone c hbc
      · have hfrom : Leads next a res := (leads_step hnext).mpr (Or.inr hlead)
        refine Or.inr ⟨hfrom, hsees, fun c hac hc => ?_⟩
        rcases (leads_step hnext).mp hac with rfl | hbc
        · exact hfrom
        · exact hlast c hbc hc

end LinkWalk
