import Mathlib.Logic.Function.Basic

/-!
# Property graphs

Directed multigraphs with data on their vertices and arcs. An arc has an identity of its own, so there
may be any number of arcs between two vertices, loops included.

* `Arc K Q`: an arc between vertices of `K` with data `Q`. `Arc.Meets`: one of its ends is there.
* `PropertyGraph K I P Q`: the data of the vertices `K` and the arcs of the identities `I`. No arc
  dangles: that is a field, so every operation comes with the proof of it.
* `putVertex`, `putArc`, `dropArc`, `dropArcs`, `dropVertex`, `detach`, `redirect`, `moveVertex`: the
  operations.
* `redirectArc`: one arc goes over. `MovedPart v w G G'`: some arcs at `v` have gone over to `w`.

Results:
* `ext`: a graph is its vertices and its arcs.
* `dropArcs_eq_detach`: to detach a vertex is to take its arcs away.
* `MovedPart.done`: when no arc is left at `v`, all have gone over.
-/

/-- An arc: where it starts, where it stops, and its data. -/
@[ext] structure Arc (K Q : Type) where
  start : K
  stop : K
  data : Q
deriving DecidableEq, Repr

namespace Arc

variable {K Q : Type}

/-- The arc starts or stops at the vertex. -/
def Meets (a : Arc K Q) (v : K) : Prop := a.start = v ∨ a.stop = v

instance [DecidableEq K] (a : Arc K Q) (v : K) : Decidable (a.Meets v) :=
  inferInstanceAs (Decidable (_ ∨ _))

/-- The arc with `w` in the place of `v` at both ends. -/
def redirect [DecidableEq K] (v w : K) (a : Arc K Q) : Arc K Q :=
  ⟨if a.start = v then w else a.start, if a.stop = v then w else a.stop, a.data⟩

theorem redirect_of_not_meets [DecidableEq K] {a : Arc K Q} {v : K} (w : K) (h : ¬ a.Meets v) :
    a.redirect v w = a := by
  unfold redirect
  rw [if_neg fun he => h (Or.inl he), if_neg fun he => h (Or.inr he)]

/-- Once redirected, an arc does not meet the vertex any more. -/
theorem not_meets_redirect [DecidableEq K] {v w : K} (hne : w ≠ v) (a : Arc K Q) :
    ¬ (a.redirect v w).Meets v := by
  rintro (h | h)
  · change (if a.start = v then w else a.start) = v at h
    split at h
    · exact hne h
    · next hs => exact hs h
  · change (if a.stop = v then w else a.stop) = v at h
    split at h
    · exact hne h
    · next hs => exact hs h

end Arc

/-- A property graph. No arc dangles. -/
structure PropertyGraph (K I P Q : Type) where
  vertex : K → Option P
  arc : I → Option (Arc K Q)
  closed : ∀ i a, arc i = some a → (vertex a.start).isSome ∧ (vertex a.stop).isSome

namespace PropertyGraph

variable {K I P Q : Type}

/-- **A graph is its vertices and its arcs.** -/
@[ext] theorem ext {G G' : PropertyGraph K I P Q} (hv : G.vertex = G'.vertex) (ha : G.arc = G'.arc) :
    G = G' := by
  cases G
  cases G'
  cases hv
  cases ha
  rfl

/-- No vertex, no arc. -/
def empty : PropertyGraph K I P Q where
  vertex _ := none
  arc _ := none
  closed _ _ h := by cases h

/-- No arc of the graph meets the vertex. -/
def Isolated (G : PropertyGraph K I P Q) (v : K) : Prop := ∀ i a, G.arc i = some a → ¬ a.Meets v

/-- No arc of the graph is a loop at the vertex. -/
def Loopless (G : PropertyGraph K I P Q) (v : K) : Prop :=
  ∀ i a, G.arc i = some a → ¬ (a.start = v ∧ a.stop = v)

/-- Where there is no vertex, there is no arc. -/
theorem isolated_of_none (G : PropertyGraph K I P Q) {v : K} (h : G.vertex v = none) :
    G.Isolated v := by
  rintro i a ha (rfl | rfl)
  · have hsome := (G.closed i a ha).1
    rw [h] at hsome
    cases hsome
  · have hsome := (G.closed i a ha).2
    rw [h] at hsome
    cases hsome

section

variable [DecidableEq I]

/-- An arc between vertices of the graph is added, or replaced. -/
def putArc (G : PropertyGraph K I P Q) (i : I) (a : Arc K Q) (hs : (G.vertex a.start).isSome)
    (he : (G.vertex a.stop).isSome) : PropertyGraph K I P Q where
  vertex := G.vertex
  arc := Function.update G.arc i (some a)
  closed j b h := by
    rw [Function.update_apply] at h
    split at h
    · obtain rfl := Option.some.inj h
      exact ⟨hs, he⟩
    · exact G.closed j b h

/-- An arc is taken away. -/
def dropArc (G : PropertyGraph K I P Q) (i : I) : PropertyGraph K I P Q where
  vertex := G.vertex
  arc := Function.update G.arc i none
  closed j b h := by
    rw [Function.update_apply] at h
    split at h
    · cases h
    · exact G.closed j b h

/-- Arcs are taken away, one after the other. -/
def dropArcs (G : PropertyGraph K I P Q) (is : List I) : PropertyGraph K I P Q :=
  is.foldl dropArc G

@[simp] theorem vertex_dropArcs (G : PropertyGraph K I P Q) (is : List I) :
    (G.dropArcs is).vertex = G.vertex := by
  induction is generalizing G with
  | nil => rfl
  | cons i is ih => exact ih (G.dropArc i)

theorem arc_dropArcs (G : PropertyGraph K I P Q) (is : List I) (j : I) :
    (G.dropArcs is).arc j = if j ∈ is then none else G.arc j := by
  induction is generalizing G with
  | nil => rfl
  | cons i is ih =>
    show ((G.dropArc i).dropArcs is).arc j = _
    rw [ih]
    by_cases hj : j ∈ is
    · rw [if_pos hj, if_pos (List.mem_cons_of_mem _ hj)]
    · rw [if_neg hj]
      show Function.update G.arc i none j = _
      by_cases hi : j = i
      · subst hi
        rw [Function.update_self, if_pos List.mem_cons_self]
      · rw [Function.update_of_ne hi, if_neg fun hm => (List.mem_cons.mp hm).elim hi hj]

end

section

variable [DecidableEq K]

/-- A vertex is added, or gets new data. -/
def putVertex (G : PropertyGraph K I P Q) (v : K) (p : P) : PropertyGraph K I P Q where
  vertex := Function.update G.vertex v (some p)
  arc := G.arc
  closed i a h := by
    have hsome : ∀ w, (G.vertex w).isSome → (Function.update G.vertex v (some p) w).isSome := by
      intro w hw
      rw [Function.update_apply]
      split
      · rfl
      · exact hw
    exact ⟨hsome _ (G.closed i a h).1, hsome _ (G.closed i a h).2⟩

/-- A vertex without arcs is taken away. -/
def dropVertex (G : PropertyGraph K I P Q) (v : K) (h : G.Isolated v) : PropertyGraph K I P Q where
  vertex := Function.update G.vertex v none
  arc := G.arc
  closed i a ha := by
    have hne := h i a ha
    rw [Function.update_of_ne fun he => hne (Or.inl he), Function.update_of_ne fun he => hne (Or.inr he)]
    exact G.closed i a ha

/-- The arcs that meet a vertex are taken away. -/
def detach (G : PropertyGraph K I P Q) (v : K) : PropertyGraph K I P Q where
  vertex := G.vertex
  arc i := (G.arc i).filter fun a => !decide (a.Meets v)
  closed i a h := G.closed i a (Option.filter_eq_some_iff.mp h).1

theorem isolated_detach (G : PropertyGraph K I P Q) (v : K) : (G.detach v).Isolated v := by
  intro i a h
  simpa using (Option.filter_eq_some_iff.mp h).2

/-- **Taking away each arc that meets a vertex detaches it.** -/
theorem dropArcs_eq_detach [DecidableEq I] (G : PropertyGraph K I P Q) {v : K} {is : List I}
    (h : ∀ i, i ∈ is ↔ ∃ a, G.arc i = some a ∧ a.Meets v) : G.dropArcs is = G.detach v := by
  refine ext (vertex_dropArcs G is) (funext fun i => ?_)
  rw [arc_dropArcs]
  show _ = (G.arc i).filter fun a => !decide (a.Meets v)
  cases ha : G.arc i with
  | none => simp
  | some a =>
    have hi : i ∈ is ↔ a.Meets v := by
      rw [h, ha]
      simp
    by_cases hm : a.Meets v
    · rw [if_pos (hi.mpr hm), Option.filter_some, if_neg (by simpa using hm)]
    · rw [if_neg fun hc => hm (hi.mp hc), Option.filter_some, if_pos (by simpa using hm)]

/-- The arcs of a vertex go over to another one. -/
def redirect (G : PropertyGraph K I P Q) (v w : K) (hw : (G.vertex w).isSome) :
    PropertyGraph K I P Q where
  vertex := G.vertex
  arc i := (G.arc i).map (Arc.redirect v w)
  closed i a h := by
    obtain ⟨b, hb, rfl⟩ := Option.map_eq_some_iff.mp h
    have hsome : ∀ u, (G.vertex u).isSome → (G.vertex (if u = v then w else u)).isSome := by
      intro u hu
      split
      · exact hw
      · exact hu
    exact ⟨hsome _ (G.closed i b hb).1, hsome _ (G.closed i b hb).2⟩

theorem closed_redirect (G : PropertyGraph K I P Q) {i : I} {a : Arc K Q} (ha : G.arc i = some a) (v : K)
    {w : K} (hw : (G.vertex w).isSome) :
    (G.vertex (a.redirect v w).start).isSome ∧ (G.vertex (a.redirect v w).stop).isSome :=
  (G.redirect v w hw).closed i _ (by
    show (G.arc i).map _ = _
    rw [ha]
    rfl)

/-- One arc of a vertex goes over to another one. -/
def redirectArc [DecidableEq I] (G : PropertyGraph K I P Q) (v w : K) {i : I} {a : Arc K Q}
    (ha : G.arc i = some a) (hw : (G.vertex w).isSome) : PropertyGraph K I P Q :=
  G.putArc i (a.redirect v w) (G.closed_redirect ha v hw).1 (G.closed_redirect ha v hw).2

theorem isolated_redirect (G : PropertyGraph K I P Q) {v w : K} (hne : w ≠ v)
    (hw : (G.vertex w).isSome) : (G.redirect v w hw).Isolated v := by
  intro i a h
  obtain ⟨b, -, rfl⟩ := Option.map_eq_some_iff.mp h
  exact Arc.not_meets_redirect hne b

theorem vertex_putVertex_isSome (G : PropertyGraph K I P Q) (v : K) (p : P) :
    ((G.putVertex v p).vertex v).isSome := by
  show (Function.update G.vertex v (some p) v).isSome
  rw [Function.update_self]
  rfl

/-- A vertex gets another key: a new vertex takes over its arcs, and it is taken away. -/
def moveVertex (G : PropertyGraph K I P Q) (v w : K) (p : P) (hne : w ≠ v) : PropertyGraph K I P Q :=
  ((G.putVertex w p).redirect v w (G.vertex_putVertex_isSome w p)).dropVertex v
    (isolated_redirect _ hne _)

/-! ## One arc after the other -/

/-- Some arcs of a vertex have gone over to another one. -/
structure MovedPart (v w : K) (G G' : PropertyGraph K I P Q) : Prop where
  vertex : G'.vertex = G.vertex
  arc : ∀ i, G'.arc i = G.arc i ∨ G'.arc i = (G.arc i).map (Arc.redirect v w)

theorem MovedPart.refl (v w : K) (G : PropertyGraph K I P Q) : MovedPart v w G G :=
  ⟨rfl, fun _ => Or.inl rfl⟩

theorem MovedPart.trans {v w : K} (hne : w ≠ v) {G G' G'' : PropertyGraph K I P Q}
    (h : MovedPart v w G G') (h' : MovedPart v w G' G'') : MovedPart v w G G'' := by
  refine ⟨h'.vertex.trans h.vertex, fun i => ?_⟩
  rcases h'.arc i with hi' | hi' <;> rcases h.arc i with hi | hi
  · exact Or.inl (hi'.trans hi)
  · exact Or.inr (hi'.trans hi)
  · exact Or.inr (by rw [hi', hi])
  · -- what has gone over does not meet the vertex any more
    refine Or.inr ?_
    rw [hi', hi, Option.map_map]
    exact congrArg (fun f => (G.arc i).map f) (funext fun a =>
      Arc.redirect_of_not_meets w (Arc.not_meets_redirect hne a))

/-- **An arc goes over.** -/
theorem movedPart_redirectArc [DecidableEq I] (G : PropertyGraph K I P Q) (v : K) {w : K} {i : I}
    {a : Arc K Q} (ha : G.arc i = some a) (hw : (G.vertex w).isSome) :
    MovedPart v w G (G.redirectArc v w ha hw) := by
  refine ⟨rfl, fun j => ?_⟩
  show Function.update G.arc i (some (a.redirect v w)) j = _ ∨
    Function.update G.arc i (some (a.redirect v w)) j = _
  by_cases hj : j = i
  · subst hj
    rw [Function.update_self, ha]
    exact Or.inr rfl
  · rw [Function.update_of_ne hj]
    exact Or.inl rfl

/-- **When no arc is left at the vertex, all have gone over.** -/
theorem MovedPart.done {v w : K} {G G' : PropertyGraph K I P Q} (h : MovedPart v w G G')
    (hw : (G.vertex w).isSome) (hdone : G'.Isolated v) : G' = G.redirect v w hw := by
  refine ext h.vertex (funext fun i => ?_)
  rcases h.arc i with hi | hi
  · show G'.arc i = (G.arc i).map (Arc.redirect v w)
    cases ha : G.arc i with
    | none => rw [hi, ha, Option.map_none]
    | some a =>
      rw [hi, ha, Option.map_some, Arc.redirect_of_not_meets w (hdone i a (hi.trans ha))]
  · exact hi

end

end PropertyGraph
