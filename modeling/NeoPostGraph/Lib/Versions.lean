import Mathlib.Data.List.Chain
import Mathlib.Data.List.Induction

/-!
# Version histories

The versions of one record in the order they were written, each with the transaction that wrote it
and the one, if any, that superseded or deleted it. A reader sees some transactions: its own and the
committed ones.

* `newest vis vs`: the newest version written by a transaction the reader sees.
* `current vis vs`: that version, unless a transaction the reader sees has deleted it.
* `Linear committed vs`: each version but the last was superseded by the writer of the next one, and
  whoever supersedes or deletes a version saw it: its writer had committed, or did so itself.

Results:
* `Linear.current_concat`: the version a reader reads is the last one, when the reader sees who wrote
  it; when not, the newest one it sees was superseded by that writer and is still current.
* `Linear.writer`, `Linear.deleter`: nobody but the writer of the last version can still be running.
* `Linear.replace_last`, `Linear.concat`: deleting or superseding the last version keeps a history
  linear.
-/

namespace Versions

/-- A version of a record. -/
structure Version (T V : Type*) where
  writer : T
  /-- The transaction that superseded or deleted the version last. -/
  deleter : Option T
  value : V

variable {T V : Type*}

/-- The newest version whose writer the reader sees. -/
def newest (vis : T → Bool) (vs : List (Version T V)) : Option (Version T V) :=
  vs.reverse.find? fun v => vis v.writer

/-- The newest version whose writer the reader sees, unless the reader sees its deleter too. -/
def current (vis : T → Bool) (vs : List (Version T V)) : Option (Version T V) :=
  (newest vis vs).filter fun v => !v.deleter.any vis

/-- A history in which every writer superseded the version before its own. -/
structure Linear (committed : T → Prop) (vs : List (Version T V)) : Prop where
  chain : vs.IsChain fun a b => a.deleter = some b.writer
  settled : ∀ a ∈ vs, ∀ d, a.deleter = some d → committed a.writer ∨ d = a.writer

variable {committed : T → Prop} {vis : T → Bool} {vs ws : List (Version T V)} {a w z : Version T V}

theorem newest_concat (vis : T → Bool) (vs : List (Version T V)) (z : Version T V) :
    newest vis (vs ++ [z]) = if vis z.writer then some z else newest vis vs := by
  unfold newest
  rw [List.reverse_append, List.reverse_singleton, List.singleton_append, List.find?_cons]
  split
  · next h => rw [if_pos h]
  · next h => rw [h, if_neg Bool.false_ne_true]

theorem newest_eq_none : newest vis vs = none ↔ ∀ v ∈ vs, vis v.writer = false := by
  simp [newest]

theorem Linear.init (h : Linear committed (vs ++ ws)) : Linear committed vs :=
  ⟨h.chain.left_of_append, fun a ha => h.settled a (List.mem_append_left _ ha)⟩

theorem Linear.last_deleter (h : Linear committed (vs ++ [w] ++ [z])) :
    w.deleter = some z.writer :=
  (List.isChain_append.mp h.chain).2.2 w (by simp) z (by simp)

/-! ## What a reader reads -/

/-- The newest version seen before an unseen last one was superseded by the writer of that one. -/
theorem Linear.newest_deleter (h : Linear committed (vs ++ [z]))
    (hvis : ∀ t, committed t → vis t = true) (hz : vis z.writer = false)
    (ha : newest vis vs = some a) : a.deleter = some z.writer := by
  induction vs using List.reverseRecOn generalizing z with
  | nil => cases ha
  | append_singleton ws w ih =>
    have hw := h.last_deleter
    rw [newest_concat] at ha
    split at ha
    · obtain rfl := Option.some.inj ha
      exact hw
    · next hv =>
      -- an unseen writer has not committed, so it superseded its own version
      rcases h.settled w (by simp) _ hw with hc | he
      · exact absurd (hvis _ hc) hv
      · rw [he]
        exact ih h.init (Bool.eq_false_iff.mpr hv) ha

/-- **What a reader reads of a linear history.** -/
theorem Linear.current_concat (h : Linear committed (vs ++ [z]))
    (hvis : ∀ t, committed t → vis t = true) :
    current vis (vs ++ [z]) =
      if vis z.writer then (if z.deleter.any vis then none else some z) else newest vis vs := by
  unfold current
  rw [newest_concat]
  by_cases hz : vis z.writer = true
  · rw [if_pos hz, if_pos hz]
    by_cases hd : z.deleter.any vis = true <;> simp [Option.filter, hd]
  · rw [if_neg hz, if_neg hz]
    cases ha : newest vis vs with
    | none => rfl
    | some a =>
      have hd := h.newest_deleter hvis (Bool.eq_false_iff.mpr hz) ha
      simp [Option.filter, hd, hz]

/-! ## Who can still be running -/

theorem Linear.writer (h : Linear committed (vs ++ [z])) (ha : a ∈ vs) :
    committed a.writer ∨ a.writer = z.writer := by
  induction vs using List.reverseRecOn generalizing z with
  | nil => cases ha
  | append_singleton ws w ih =>
    have hw : committed w.writer ∨ w.writer = z.writer :=
      (h.settled w (by simp) _ h.last_deleter).imp_right Eq.symm
    rcases List.mem_append.mp ha with ha | ha
    · rcases ih h.init ha with hc | he
      · exact Or.inl hc
      · rwa [he]
    · rwa [List.mem_singleton.mp ha]

theorem Linear.deleter (h : Linear committed (vs ++ [z])) (ha : a ∈ vs) :
    ∃ d, a.deleter = some d ∧ (committed d ∨ d = z.writer) := by
  induction vs using List.reverseRecOn generalizing z with
  | nil => cases ha
  | append_singleton ws w ih =>
    rcases List.mem_append.mp ha with ha | ha
    · obtain ⟨d, hd, hc | he⟩ := ih h.init ha
      · exact ⟨d, hd, Or.inl hc⟩
      · rw [he] at hd
        exact ⟨_, hd, h.writer (by simp)⟩
    · obtain rfl := List.mem_singleton.mp ha
      exact ⟨_, h.last_deleter, Or.inr rfl⟩

/-! ## How a history grows -/

theorem Linear.mono {committed' : T → Prop} (h : Linear committed vs)
    (hc : ∀ t, committed t → committed' t) : Linear committed' vs :=
  ⟨h.chain, fun a ha d hd => (h.settled a ha d hd).imp_left (hc _)⟩

theorem linear_singleton (hz : z.deleter = none) : Linear committed [z] := by
  refine ⟨List.isChain_singleton z, fun a ha d hd => ?_⟩
  rw [List.mem_singleton.mp ha, hz] at hd
  cases hd

/-- The last version may be overwritten by one of the same writer, superseded or deleted by a
transaction that sees it. -/
theorem Linear.replace_last (h : Linear committed (vs ++ [z])) (hw : w.writer = z.writer)
    (hd : ∀ d, w.deleter = some d → committed w.writer ∨ d = w.writer) :
    Linear committed (vs ++ [w]) := by
  refine ⟨List.isChain_append.mpr ⟨h.init.chain, List.isChain_singleton _, fun x hx y hy => ?_⟩,
    fun a ha d had => ?_⟩
  · obtain rfl : w = y := by simpa using hy
    rw [hw]
    exact (List.isChain_append.mp h.chain).2.2 x hx z (by simp)
  · rcases List.mem_append.mp ha with ha | ha
    · exact h.init.settled a ha d had
    · obtain rfl := List.mem_singleton.mp ha
      exact hd d had

/-- The writer that superseded the last version adds its own. -/
theorem Linear.concat (h : Linear committed (vs ++ [z])) (hz : z.deleter = some w.writer)
    (hw : w.deleter = none) : Linear committed (vs ++ [z] ++ [w]) := by
  refine ⟨List.isChain_append.mpr ⟨h.chain, List.isChain_singleton _, fun x hx y hy => ?_⟩,
    fun a ha d hd => ?_⟩
  · obtain rfl : z = x := by simpa using hx
    obtain rfl : w = y := by simpa using hy
    exact hz
  · rcases List.mem_append.mp ha with ha | ha
    · exact h.settled a ha d hd
    · rw [List.mem_singleton.mp ha, hw] at hd
      cases hd

end Versions
