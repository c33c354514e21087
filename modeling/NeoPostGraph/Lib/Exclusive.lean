import Mathlib.Logic.Basic
import Mathlib.Tactic.ByContra

/-!
# Versions that exclude each other

The versions of one thing, each with the transaction that created it and the one, if any, that
deleted it last. A reader sees a version it created itself, unless it deleted it itself; of the
others it sees those whose creator has committed and whose deleter is neither itself nor committed.

* `Stamps`: who created and who deleted a version. `Seen`, `Gone`: a reader sees it; nobody does, now
  or later.
* `Excludes v w`: one of the two is gone, or the creator of one deleted the other.

Results:
* `Excludes.not_both_seen`: a running reader never sees two versions that exclude each other.
* `Excludes.mark`, `Excludes.vacant`, `Vacant.excludes`: what a transaction may delete and create
  without losing it.
* `Apart`: the versions of one key exclude each other, but for those not admitted yet, and
  `Apart.write`, `Apart.mark`, `Apart.lift`, `Apart.drop` what keeps it so.
* `Apart.one_seen`: then a reader sees at most one admitted version of a key.
-/

namespace Exclusive

/-- Who created a version, and who deleted it last. -/
structure Stamps (T : Type) where
  creator : T
  deleter : Option T

variable {T : Type} (committed aborted own : T → Prop)

/-- A reader whose transactions are `own` sees the version. -/
def Seen (v : Stamps T) : Prop :=
  own v.creator ∧ (∀ d, v.deleter = some d → ¬ own d) ∨
    ¬ own v.creator ∧ committed v.creator ∧
      ∀ d, v.deleter = some d → ¬ own d ∧ ¬ committed d

/-- Nobody sees the version any more: it never came to be, or it was deleted for good. -/
def Gone (v : Stamps T) : Prop :=
  aborted v.creator ∨ ∃ d, v.deleter = some d ∧ (d = v.creator ∨ committed d)

/-- Whoever deleted the version had created it or saw its creator committed. -/
def Settled (v : Stamps T) : Prop :=
  ∀ d, v.deleter = some d → d = v.creator ∨ committed v.creator

/-- One of the two is gone, or the creator of one deleted the other. -/
def Excludes (v w : Stamps T) : Prop :=
  Gone committed aborted v ∨ Gone committed aborted w ∨ v.deleter = some w.creator ∨
    w.deleter = some v.creator

/-- The transaction may delete the version: it created it or its creator has committed, and whoever
deleted it before has aborted. -/
def Deletable (t : T) (v : Stamps T) : Prop :=
  (v.creator = t ∨ committed v.creator) ∧ ∀ d, v.deleter = some d → d ≠ t ∧ aborted d

/-- The version leaves room for one that the transaction creates. -/
def Vacant (t : T) (v : Stamps T) : Prop :=
  Gone committed aborted v ∨ v.deleter = some t

variable {committed aborted own} {committed' aborted' : T → Prop} {t : T} {v w : Stamps T}

/-! ## Readers -/

theorem Gone.not_seen (hca : ∀ t, committed t → ¬ aborted t)
    (hown : ∀ t, own t → ¬ committed t ∧ ¬ aborted t) (hs : Settled committed v)
    (h : Gone committed aborted v) : ¬ Seen committed own v := by
  rintro (⟨ho, hd⟩ | ⟨ho, hc, hd⟩)
  · rcases h with ha | ⟨d, hdel, rfl | hdc⟩
    · exact (hown _ ho).2 ha
    · exact hd _ hdel ho
    · rcases hs d hdel with rfl | hcc
      · exact hd _ hdel ho
      · exact (hown _ ho).1 hcc
  · rcases h with ha | ⟨d, hdel, rfl | hdc⟩
    · exact hca _ hc ha
    · exact (hd _ hdel).2 hc
    · exact (hd _ hdel).2 hdc

/-- The creator of what a reader sees has hidden from it what it deleted. -/
theorem not_seen_of_deleter (hown : ∀ t, own t → ¬ committed t ∧ ¬ aborted t)
    (hs : Settled committed v) (h : v.deleter = some w.creator) (hw : Seen committed own w) :
    ¬ Seen committed own v := by
  rintro (⟨ho, hd⟩ | ⟨-, -, hd⟩)
  · rcases hw with ⟨hwo, -⟩ | ⟨-, hwc, -⟩
    · exact hd _ h hwo
    · rcases hs _ h with he | hcc
      · rw [he] at hwc
        exact (hown _ ho).1 hwc
      · exact (hown _ ho).1 hcc
  · rcases hw with ⟨hwo, -⟩ | ⟨-, hwc, -⟩
    · exact (hd _ h).1 hwo
    · exact (hd _ h).2 hwc

/-- **A running reader never sees two versions that exclude each other.** -/
theorem Excludes.not_both_seen (h : Excludes committed aborted v w)
    (hca : ∀ t, committed t → ¬ aborted t) (hown : ∀ t, own t → ¬ committed t ∧ ¬ aborted t)
    (hv : Settled committed v) (hw : Settled committed w) :
    ¬ (Seen committed own v ∧ Seen committed own w) := by
  rintro ⟨hsv, hsw⟩
  rcases h with hg | hg | hd | hd
  · exact hg.not_seen hca hown hv hsv
  · exact hg.not_seen hca hown hw hsw
  · exact not_seen_of_deleter hown hv hd hsw hsv
  · exact not_seen_of_deleter hown hw hd hsv hsw

/-! ## Writers -/

theorem Excludes.symm (h : Excludes committed aborted v w) : Excludes committed aborted w v := by
  rcases h with hg | hg | hd | hd
  · exact Or.inr (Or.inl hg)
  · exact Or.inl hg
  · exact Or.inr (Or.inr (Or.inr hd))
  · exact Or.inr (Or.inr (Or.inl hd))

theorem Gone.mono (ha : aborted v.creator → aborted' v.creator)
    (hd : ∀ d, v.deleter = some d → committed d → committed' d) (h : Gone committed aborted v) :
    Gone committed' aborted' v := by
  rcases h with h | ⟨d, hdel, he | hcd⟩
  · exact Or.inl (ha h)
  · exact Or.inr ⟨d, hdel, Or.inl he⟩
  · exact Or.inr ⟨d, hdel, Or.inr (hd d hdel hcd)⟩

/-- What may be deleted is not gone. -/
theorem Deletable.not_gone (hca : ∀ t, committed t → ¬ aborted t) (ht : ¬ aborted t)
    (h : Deletable committed aborted t v) : ¬ Gone committed aborted v := by
  rintro (ha | ⟨d, hdel, rfl | hc⟩)
  · rcases h.1 with he | hc
    · rw [he] at ha
      exact ht ha
    · exact hca _ hc ha
  · obtain ⟨hne, ha⟩ := h.2 _ hdel
    rcases h.1 with he | hc
    · exact hne he
    · exact hca _ hc ha
  · exact hca _ hc (h.2 d hdel).2

/-- A version that excludes one the transaction may delete leaves room for its own. -/
theorem Excludes.vacant (hca : ∀ t, committed t → ¬ aborted t) (ht : ¬ aborted t)
    (h : Excludes committed aborted v w) (hv : Deletable committed aborted t v) :
    Vacant committed aborted t w := by
  rcases h with hg | hg | hd | hd
  · exact absurd hg (hv.not_gone hca ht)
  · exact Or.inl hg
  · exact Or.inl (Or.inl (hv.2 _ hd).2)
  · rcases hv.1 with he | hc
    · exact Or.inr (he ▸ hd)
    · exact Or.inl (Or.inr ⟨_, hd, Or.inr hc⟩)

/-- **Deleting a version keeps what it excludes.** -/
theorem Excludes.mark (hca : ∀ t, committed t → ¬ aborted t) (ht : ¬ aborted t)
    (h : Excludes committed aborted v w) (hv : Deletable committed aborted t v) :
    Excludes committed aborted ⟨v.creator, some t⟩ w := by
  rcases h with hg | hg | hd | hd
  · exact absurd hg (hv.not_gone hca ht)
  · exact Or.inr (Or.inl hg)
  · exact Or.inr (Or.inl (Or.inl (hv.2 _ hd).2))
  · exact Or.inr (Or.inr (Or.inr hd))

/-- What leaves room excludes the new version. -/
theorem Vacant.excludes (h : Vacant committed aborted t v) :
    Excludes committed aborted v ⟨t, none⟩ := by
  rcases h with hg | hd
  · exact Or.inl hg
  · exact Or.inr (Or.inr (Or.inl hd))

/-- A version whose creator is the transaction itself or has ended, and that the transaction does not
see, leaves room for its own. -/
theorem vacant_of_not_seen (hc : v.creator = t ∨ committed v.creator ∨ aborted v.creator)
    (h : ¬ Seen committed (· = t) v) : Vacant committed aborted t v := by
  by_cases hown : v.creator = t
  · have hdel : ∃ d, v.deleter = some d ∧ d = t := by
      by_contra hno
      exact h (Or.inl ⟨hown, fun d hd he => hno ⟨d, hd, he⟩⟩)
    obtain ⟨d, hd, rfl⟩ := hdel
    exact Or.inr hd
  · rcases hc with he | hc | ha
    · exact absurd he hown
    · have hdel : ∃ d, v.deleter = some d ∧ (d = t ∨ committed d) := by
        by_contra hno
        refine h (Or.inr ⟨hown, hc, fun d hd => ⟨fun he => hno ⟨d, hd, Or.inl he⟩, fun hcd => ?_⟩⟩)
        exact hno ⟨d, hd, Or.inr hcd⟩
      obtain ⟨d, hd, rfl | hcd⟩ := hdel
      · exact Or.inr hd
      · exact Or.inl (Or.inr ⟨d, hd, Or.inr hcd⟩)
    · exact Or.inl (Or.inl ha)

/-! ## Versions by key -/

section

variable {P K : Type} {rows rows' : P → Option (K × Stamps T)} {exempt exempt' : P → Prop} {p q : P}
  {k : K}

variable (committed aborted) in
/-- Any two versions of one key exclude each other, but for those that are exempt. -/
def Apart (rows : P → Option (K × Stamps T)) (exempt : P → Prop) : Prop :=
  ∀ p q k v w, rows p = some (k, v) → rows q = some (k, w) → p ≠ q → ¬ exempt p → ¬ exempt q →
    Excludes committed aborted v w

/-- **A reader sees at most one version of a key.** -/
theorem Apart.one_seen (h : Apart committed aborted rows exempt) (hca : ∀ t, committed t → ¬ aborted t)
    (hown : ∀ t, own t → ¬ committed t ∧ ¬ aborted t) (hp : rows p = some (k, v))
    (hq : rows q = some (k, w)) (hep : ¬ exempt p) (heq : ¬ exempt q) (hv : Settled committed v)
    (hw : Settled committed w) (hsv : Seen committed own v) (hsw : Seen committed own w) : p = q := by
  by_contra hne
  exact (h p q k v w hp hq hne hep heq).not_both_seen hca hown hv hw ⟨hsv, hsw⟩

/-- A new version is exempt. -/
theorem Apart.write (h : Apart committed aborted rows exempt) (hrows : ∀ q, q ≠ p → rows' q = rows q)
    (hp : exempt' p) (hsub : ∀ q, exempt q → exempt' q) : Apart committed aborted rows' exempt' := by
  intro q₁ q₂ k v w h₁ h₂ hne he₁ he₂
  have hn₁ : q₁ ≠ p := by
    rintro rfl
    exact he₁ hp
  have hn₂ : q₂ ≠ p := by
    rintro rfl
    exact he₂ hp
  rw [hrows _ hn₁] at h₁
  rw [hrows _ hn₂] at h₂
  exact h q₁ q₂ k v w h₁ h₂ hne (fun he => he₁ (hsub _ he)) fun he => he₂ (hsub _ he)

/-- A transaction deletes a version it may delete. -/
theorem Apart.mark (h : Apart committed aborted rows exempt) (hca : ∀ t, committed t → ¬ aborted t)
    (ht : ¬ aborted t) (hrows : ∀ q, q ≠ p → rows' q = rows q) (hp : rows p = some (k, v))
    (hp' : rows' p = some (k, ⟨v.creator, some t⟩)) (hv : Deletable committed aborted t v) :
    Apart committed aborted rows' exempt := by
  have hmark : ∀ q w, q ≠ p → rows q = some (k, w) → ¬ exempt p → ¬ exempt q →
      Excludes committed aborted ⟨v.creator, some t⟩ w := fun q w hne hq hep heq =>
    (h p q k v w hp hq (Ne.symm hne) hep heq).mark hca ht hv
  intro q₁ q₂ k' v₁ v₂ h₁ h₂ hne he₁ he₂
  by_cases hn₁ : q₁ = p
  · subst hn₁
    have hn₂ : q₂ ≠ q₁ := Ne.symm hne
    rw [hrows _ hn₂] at h₂
    obtain ⟨rfl, rfl⟩ := Prod.mk.inj (Option.some.inj (hp'.symm.trans h₁))
    exact hmark q₂ v₂ hn₂ h₂ he₁ he₂
  · rw [hrows _ hn₁] at h₁
    by_cases hn₂ : q₂ = p
    · subst hn₂
      obtain ⟨rfl, rfl⟩ := Prod.mk.inj (Option.some.inj (hp'.symm.trans h₂))
      exact (hmark q₁ v₁ hn₁ h₁ he₂ he₁).symm
    · rw [hrows _ hn₂] at h₂
      exact h q₁ q₂ k' v₁ v₂ h₁ h₂ hne he₁ he₂

/-- A transaction admits the version it has created, once the others leave room for it. -/
theorem Apart.lift (h : Apart committed aborted rows exempt) (hp : rows p = some (k, ⟨t, none⟩))
    (hvac : ∀ q w, q ≠ p → rows q = some (k, w) → ¬ exempt q → Vacant committed aborted t w)
    (hsub : ∀ q, q ≠ p → exempt q → exempt' q) : Apart committed aborted rows exempt' := by
  intro q₁ q₂ k' v₁ v₂ h₁ h₂ hne he₁ he₂
  by_cases hn₁ : q₁ = p
  · subst hn₁
    obtain ⟨rfl, rfl⟩ := Prod.mk.inj (Option.some.inj (hp.symm.trans h₁))
    have hn₂ : q₂ ≠ q₁ := Ne.symm hne
    exact (hvac q₂ v₂ hn₂ h₂ fun he => he₂ (hsub _ hn₂ he)).excludes.symm
  · by_cases hn₂ : q₂ = p
    · subst hn₂
      obtain ⟨rfl, rfl⟩ := Prod.mk.inj (Option.some.inj (hp.symm.trans h₂))
      exact (hvac q₁ v₁ hn₁ h₁ fun he => he₁ (hsub _ hn₁ he)).excludes
    · exact h q₁ q₂ k' v₁ v₂ h₁ h₂ hne (fun he => he₁ (hsub _ hn₁ he)) fun he => he₂ (hsub _ hn₂ he)

/-- A version that is gone need not be exempt. -/
theorem Apart.drop (h : Apart committed aborted rows exempt)
    (hgone : ∀ q k v, rows q = some (k, v) → exempt q → exempt' q ∨ Gone committed aborted v) :
    Apart committed aborted rows exempt' := by
  intro q₁ q₂ k v₁ v₂ h₁ h₂ hne he₁ he₂
  by_cases hx₁ : exempt q₁
  · rcases hgone q₁ k v₁ h₁ hx₁ with he | hg
    · exact absurd he he₁
    · exact Or.inl hg
  · by_cases hx₂ : exempt q₂
    · rcases hgone q₂ k v₂ h₂ hx₂ with he | hg
      · exact absurd he he₂
      · exact Or.inr (Or.inl hg)
    · exact h q₁ q₂ k v₁ v₂ h₁ h₂ hne hx₁ hx₂

/-- What the transactions that have ended since leave as it was. -/
theorem Apart.later (h : Apart committed aborted rows exempt)
    (hmono : ∀ p k v q w, rows p = some (k, v) → rows q = some (k, w) →
      Excludes committed aborted v w → Excludes committed' aborted' v w) :
    Apart committed' aborted' rows exempt := fun q₁ q₂ k v₁ v₂ h₁ h₂ hne he₁ he₂ =>
  hmono q₁ k v₁ q₂ v₂ h₁ h₂ (h q₁ q₂ k v₁ v₂ h₁ h₂ hne he₁ he₂)

end

end Exclusive
