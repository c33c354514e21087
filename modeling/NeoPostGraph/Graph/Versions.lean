import NeoPostGraph.Graph.Steps
import NeoPostGraph.Lib.Versions
import NeoPostGraph.Postgres.Xact

/-!
# The versions of an entity

An entity table is never vacuumed, so the tuples of an entity are all its versions, and since a write
goes behind everything written before, they lie in the order they were written. `xmin` names who wrote
a version, `xmax` who superseded or deleted it last.

* `entityVersions t id`: the versions of an entity, by a scan of its table. `VersionLog` is the same
  in terms of a map from tids to tuples.
* `readable x own vs`, `readableProps x own vs`: the version a read should return, and its properties.
* `EntityTableInv`: what holds of an entity table and the slots that point into it, between
  operations: a slot points to the last version of its entity, and the versions are linear.

Results:
* `npEntityTupleIsLive_eq`: the test of the code on a version is whether the session sees its writer
  and not its deleter.
* `EntityTableInv.write`, `EntityTableInv.stamp`: writing a version and moving the slot to it, and
  stamping the version a slot points to, keep the invariant.
-/

namespace NeoPostGraph

open SlottedPage Versions

variable {μ : Type} {x y : XactState} {base id : Nat} {own : List Nat} {tid p : ItemPointer}
  {t u : EntityTuple μ} {a z : ItemPointer × EntityTuple μ} {vs : List (ItemPointer × EntityTuple μ)}
  {tuple : ItemPointer → Option (EntityTuple μ)}

/-! ## Versions -/

/-- The transaction that superseded or deleted a record last. -/
def RecordHeader.deleter (hdr : RecordHeader) : Option Nat :=
  if fullXidIsValid hdr.xmax then some hdr.xmax else none

/-- A tuple and its tid as a version. -/
def toVersion (a : ItemPointer × EntityTuple μ) : Version Nat (ItemPointer × EntityTuple μ) where
  writer := a.2.hdr.xmin
  deleter := a.2.hdr.deleter
  value := a

/-- The versions of an entity, in the order they were written. -/
def entityVersions (t : Table (EntityTuple μ)) (id : Nat) : List (ItemPointer × EntityTuple μ) :=
  t.entries.filter fun a => a.2.hdr.id == id

/-- The list holds the tuples of an entity, in physical order. -/
structure VersionLog (tuple : ItemPointer → Option (EntityTuple μ)) (id : Nat)
    (vs : List (ItemPointer × EntityTuple μ)) : Prop where
  sorted : vs.Pairwise fun a b => a.1.Before b.1
  mem : ∀ a, a ∈ vs ↔ tuple a.1 = some a.2 ∧ a.2.hdr.id = id

/-- The version a session with the transaction ids `own` should read: the newest one written by
itself or a transaction that committed, unless it was deleted by itself or a transaction that
committed. -/
def readable (x : XactState) (own : List Nat) (vs : List (ItemPointer × EntityTuple μ)) :
    Option (ItemPointer × EntityTuple μ) :=
  (current (x.seen own) (vs.map toVersion)).map Version.value

/-- The properties of that version; an entity that is not there has the empty object. -/
def readableProps (x : XactState) (own : List Nat) (vs : List (ItemPointer × EntityTuple μ)) :
    Gtype :=
  ((readable x own vs).map fun a => a.2.props).getD npEmptyGtypeObject

theorem versionLog_entityVersions (t : Table (EntityTuple μ)) (id : Nat) :
    VersionLog t.get id (entityVersions t id) where
  sorted := t.sorted_entries.filter _
  mem a := by
    unfold entityVersions
    rw [List.mem_filter, beq_iff_eq]
    exact and_congr_left' Table.mem_entries

/-- An entity has one log. -/
theorem VersionLog.unique {ws : List (ItemPointer × EntityTuple μ)} (hv : VersionLog tuple id vs)
    (hw : VersionLog tuple id ws) : vs = ws := by
  have hnodup : ∀ {l : List (ItemPointer × EntityTuple μ)},
      l.Pairwise (fun a b => a.1.Before b.1) → l.Nodup := fun hs => hs.imp fun {a b} h he => by
    rw [he] at h
    exact ItemPointer.Before.irrefl _ h
  refine List.Perm.eq_of_pairwise (fun a b _ _ h₁ h₂ => ?_) hv.sorted hw.sorted
    ((List.perm_ext_iff_of_nodup (hnodup hv.sorted) (hnodup hw.sorted)).mpr fun a =>
      (hv.mem a).trans (hw.mem a).symm)
  exact absurd (h₁.trans h₂) (ItemPointer.Before.irrefl _)

/-! ## How a log changes -/

/-- A tuple of another entity is no version. -/
theorem VersionLog.other (h : VersionLog tuple id vs) (hid : t.hdr.id ≠ id)
    (hold : ∀ u, tuple tid = some u → u.hdr.id ≠ id) :
    VersionLog (Function.update tuple tid (some t)) id vs := by
  refine ⟨h.sorted, fun a => (h.mem a).trans ?_⟩
  by_cases ha : a.1 = tid
  · rw [ha, Function.update_self]
    constructor
    · rintro ⟨hu, he⟩
      exact absurd he (hold _ hu)
    · rintro ⟨he, hi⟩
      rw [← Option.some.inj he] at hi
      exact absurd hi hid
  · rw [Function.update_of_ne ha]

/-- A tuple behind all others is a new last version. -/
theorem VersionLog.concat (h : VersionLog tuple id vs) (hid : t.hdr.id = id)
    (hbefore : ∀ p u, tuple p = some u → p.Before tid) :
    VersionLog (Function.update tuple tid (some t)) id (vs ++ [(tid, t)]) := by
  refine ⟨List.pairwise_append.mpr ⟨h.sorted, List.pairwise_singleton .., fun a ha b hb => ?_⟩,
    fun a => ?_⟩
  · rw [List.mem_singleton.mp hb]
    exact hbefore _ _ ((h.mem a).mp ha).1
  · rw [List.mem_append, h.mem, List.mem_singleton]
    by_cases ha : a.1 = tid
    · rw [ha, Function.update_self]
      constructor
      · rintro (⟨hs, -⟩ | rfl)
        · exact absurd (hbefore _ _ hs) (ItemPointer.Before.irrefl _)
        · exact ⟨rfl, hid⟩
      · rintro ⟨hs, -⟩
        exact Or.inr (Prod.ext ha (Option.some.inj hs).symm)
    · have hne : a ≠ (tid, t) := fun he => ha (by rw [he])
      rw [Function.update_of_ne ha]
      exact or_iff_left hne

/-- The last version is overwritten in place. -/
theorem VersionLog.replace_last (h : VersionLog tuple id (vs ++ [(p, u)])) (hid : t.hdr.id = id) :
    VersionLog (Function.update tuple p (some t)) id (vs ++ [(p, t)]) := by
  obtain ⟨hs, -, hlast⟩ := List.pairwise_append.mp h.sorted
  have hne : ∀ a ∈ vs, a.1 ≠ p := fun a ha he => by
    have hb := hlast a ha (p, u) (by simp)
    rw [he] at hb
    exact ItemPointer.Before.irrefl _ hb
  refine ⟨List.pairwise_append.mpr ⟨hs, List.pairwise_singleton .., fun a ha b hb => ?_⟩,
    fun a => ?_⟩
  · rw [List.mem_singleton.mp hb]
    exact hlast a ha (p, u) (by simp)
  · have hmem := h.mem a
    rw [List.mem_append, List.mem_singleton] at hmem ⊢
    by_cases ha : a.1 = p
    · rw [ha, Function.update_self]
      constructor
      · rintro (hv | rfl)
        · exact absurd ha (hne a hv)
        · exact ⟨rfl, hid⟩
      · rintro ⟨he, -⟩
        exact Or.inr (Prod.ext ha (Option.some.inj he).symm)
    · rw [Function.update_of_ne ha, ← hmem]
      refine or_congr_right ⟨fun he => absurd ?_ ha, fun he => absurd ?_ ha⟩ <;> rw [he]

/-! ## The history behind the versions -/

/-- Transactions of the history wrote, superseded and deleted the versions, each seeing the version
it superseded or deleted. -/
structure VersionHistory (x : XactState) (base : Nat) (vs : List (ItemPointer × EntityTuple μ)) :
    Prop where
  writer : ∀ a ∈ vs, x.Begun base a.2.hdr.xmin
  deleter : ∀ a ∈ vs, ∀ d, a.2.hdr.deleter = some d → x.Begun base d
  linear : Linear (x.CommittedSince base) (vs.map toVersion)

theorem VersionHistory.later (h : VersionHistory x base vs) (hl : XactState.Later base x y) :
    VersionHistory y base vs where
  writer a ha := (h.writer a ha).later hl
  deleter a ha d hd := (h.deleter a ha d hd).later hl
  linear := h.linear.mono fun _ ht => ht.later hl

theorem linear_last (h : VersionHistory x base (vs ++ [z])) :
    Linear (x.CommittedSince base) (vs.map toVersion ++ [toVersion z]) := by
  have hl := h.linear
  rwa [List.map_append] at hl

/-- A first version, or one whose writer superseded the last. -/
theorem VersionHistory.concat (h : VersionHistory x base vs) (hz : x.Begun base z.2.hdr.xmin)
    (hnew : z.2.hdr.deleter = none)
    (hlast : ∀ a, vs.getLast? = some a → a.2.hdr.deleter = some z.2.hdr.xmin) :
    VersionHistory x base (vs ++ [z]) := by
  refine ⟨fun a ha => ?_, fun a ha d hd => ?_, ?_⟩
  · rcases List.mem_append.mp ha with ha | ha
    · exact h.writer a ha
    · rwa [List.mem_singleton.mp ha]
  · rcases List.mem_append.mp ha with ha | ha
    · exact h.deleter a ha d hd
    · rw [List.mem_singleton.mp ha, hnew] at hd
      cases hd
  · rw [List.map_append]
    rcases List.eq_nil_or_concat' vs with rfl | ⟨front, b, rfl⟩
    · exact linear_singleton hnew
    · have hl := linear_last h
      rw [List.map_append]
      exact hl.concat (hlast b (by simp)) hnew

/-- The session that stamps the last version sees its writer. -/
theorem VersionHistory.stamp {s : Session} (h : VersionHistory x base (vs ++ [(p, t)]))
    (hs : x.Begun base s.fxid) (hsees : x.CommittedSince base t.hdr.xmin ∨ s.fxid = t.hdr.xmin) :
    VersionHistory x base (vs ++ [(p, stampTuple s t)]) := by
  have hdel : (stampTuple s t).hdr.deleter = some s.fxid := if_pos hs.valid
  refine ⟨fun a ha => ?_, fun a ha d hd => ?_, ?_⟩
  · rcases List.mem_append.mp ha with ha | ha
    · exact h.writer a (List.mem_append_left _ ha)
    · rw [List.mem_singleton.mp ha]
      exact h.writer (p, t) (by simp)
  · rcases List.mem_append.mp ha with ha | ha
    · exact h.deleter a (List.mem_append_left _ ha) d hd
    · rw [List.mem_singleton.mp ha, hdel] at hd
      rwa [← Option.some.inj hd]
  · rw [List.map_append]
    refine (linear_last h).replace_last (w := toVersion (p, stampTuple s t)) rfl fun d hd => ?_
    rw [← Option.some.inj (hdel.symm.trans hd)]
    exact hsees

/-! ## The test of the code -/

/-- A session is the transaction manager's: its ids are those of open transactions. -/
abbrev OwnOpen (x : XactState) (base : Nat) (own : List Nat) : Prop := ∀ o ∈ own, x.Open base o

/-- **A version is live to a session that sees its writer and not its deleter.** -/
theorem npEntityTupleIsLive_eq (hroom : x.nextFxid ≤ base + 2 ^ 32) (hown : OwnOpen x base own)
    (h : VersionHistory x base vs) (ha : a ∈ vs) :
    npEntityTupleIsLive x own a.2.hdr.toRecordHeader =
      (x.seen own a.2.hdr.xmin && !a.2.hdr.deleter.any (x.seen own)) := by
  have hbegun : ∀ o ∈ own, x.Begun base o := fun o ho => (hown o ho).1
  have hmin := h.writer a ha
  unfold npEntityTupleIsLive XactState.seen
  simp only [hmin.valid, XactState.transactionIdIsCurrent_eq hroom hbegun hmin,
    XactState.transactionIdIsInProgress_eq hroom hmin, XactState.transactionIdDidCommit_eq hroom hmin]
  cases hv : fullXidIsValid a.2.hdr.xmax with
  | false =>
    have hnone : a.2.hdr.deleter = none := if_neg (by rw [hv]; exact Bool.false_ne_true)
    rw [hnone]
    by_cases hw : a.2.hdr.xmin ∈ own <;> cases hst : x.status a.2.hdr.xmin <;> simp [hw]
  | true =>
    have hsome : a.2.hdr.deleter = some a.2.hdr.xmax := if_pos hv
    have hmax := h.deleter a ha _ hsome
    have hset := h.linear.settled _ (List.mem_map_of_mem ha) _ hsome
    simp only [hsome, XactState.transactionIdIsCurrent_eq hroom hbegun hmax,
      XactState.transactionIdIsInProgress_eq hroom hmax,
      XactState.transactionIdDidCommit_eq hroom hmax]
    by_cases hw : a.2.hdr.xmin ∈ own
    · -- the writer runs, so only itself can have deleted the version
      have hself : a.2.hdr.xmax = a.2.hdr.xmin := hset.resolve_left fun hc => by
        cases (hown _ hw).2.symm.trans hc.2
      simp [hw, hself]
    · cases hst : x.status a.2.hdr.xmin with
      | committed =>
        by_cases hd : a.2.hdr.xmax ∈ own <;> cases hdt : x.status a.2.hdr.xmax <;>
          simp [hw, hd, hdt]
      | inProgress => simp [hw]
      | aborted => simp [hw]

/-- What an update asks besides: no other transaction is deleting the version. -/
theorem npEntityTupleXmaxOther_eq (hroom : x.nextFxid ≤ base + 2 ^ 32) (hown : OwnOpen x base own)
    (h : VersionHistory x base vs) (ha : a ∈ vs) :
    npEntityTupleXmaxOther x own a.2.hdr.toRecordHeader =
      a.2.hdr.deleter.any fun d => !decide (d ∈ own) && decide (x.status d = .inProgress) := by
  have hbegun : ∀ o ∈ own, x.Begun base o := fun o ho => (hown o ho).1
  unfold npEntityTupleXmaxOther
  cases hv : fullXidIsValid a.2.hdr.xmax with
  | false =>
    have hnone : a.2.hdr.deleter = none := if_neg (by rw [hv]; exact Bool.false_ne_true)
    simp [hnone]
  | true =>
    have hsome : a.2.hdr.deleter = some a.2.hdr.xmax := if_pos hv
    have hmax := h.deleter a ha _ hsome
    simp only [hsome, XactState.transactionIdIsCurrent_eq hroom hbegun hmax,
      XactState.transactionIdIsInProgress_eq hroom hmax]
    by_cases hd : a.2.hdr.xmax ∈ own <;> simp [hd]

/-- Whoever may supersede a version sees its writer. -/
theorem sees_of_updatable {s : Session} (hroom : x.nextFxid ≤ base + 2 ^ 32)
    (hs : x.Open base s.fxid) (h : VersionHistory x base vs) (ha : a ∈ vs)
    (hup : Updatable x s.own a.2) :
    x.CommittedSince base a.2.hdr.xmin ∨ s.fxid = a.2.hdr.xmin := by
  have hown : OwnOpen x base s.own := fun o ho => by rwa [List.mem_singleton.mp ho]
  have hlive := hup.1
  rw [npEntityTupleIsLive_eq hroom hown h ha, Bool.and_eq_true, XactState.seen, Bool.or_eq_true,
    decide_eq_true_eq, decide_eq_true_eq] at hlive
  rcases hlive.1 with hm | hc
  · exact Or.inr (List.mem_singleton.mp hm).symm
  · exact Or.inl ⟨h.writer a ha, hc⟩

/-! ## Entity tables and the slots into them -/

/-- An entity table between operations, with the slots that point into it. -/
structure EntityTableInv (x : XactState) (base : Nat) (slotOf : Nat → ItemPointer) (capacity : Nat)
    (tuple : ItemPointer → Option (EntityTuple μ)) (slot : ItemPointer → Option ItemPointer) :
    Prop where
  valid : ∀ p t, tuple p = some t → p.isValid = true
  /-- A slot points to a tuple of an entity whose slot it is, or nowhere. -/
  sound : ∀ k p, slot k = some p → p.isValid = true → ∃ t, tuple p = some t ∧ slotOf t.hdr.id = k
  /-- Two entities have two slots. -/
  apart : ∀ p t q u, tuple p = some t → tuple q = some u →
    slotOf t.hdr.id = slotOf u.hdr.id → t.hdr.id = u.hdr.id
  /-- The slot points to the last version of its entity. -/
  log : ∀ id, (slotOf id).offset ≤ capacity → ∃ vs, VersionLog tuple id vs ∧
    VersionHistory x base vs ∧ ∀ a, vs.getLast? = some a → slot (slotOf id) = some a.1

/-- One slot is set, as far as it is within the capacity of its page; every other keeps its pointer,
or was empty and points nowhere. -/
structure Repointed (slot slot' : ItemPointer → Option ItemPointer) (k p : ItemPointer)
    (capacity : Nat) : Prop where
  self : slot' k = if k.offset ≤ capacity then some p else none
  other : ∀ j, j ≠ k → slot' j = slot j ∨
    slot j = none ∧ ∃ q, slot' j = some q ∧ q.isValid = false

section Table

variable {slotOf : Nat → ItemPointer} {capacity : Nat} {slot slot' : ItemPointer → Option ItemPointer}
  {k : ItemPointer}

theorem EntityTableInv.later (h : EntityTableInv x base slotOf capacity tuple slot)
    (hl : XactState.Later base x y) : EntityTableInv y base slotOf capacity tuple slot :=
  ⟨h.valid, h.sound, h.apart, fun id hid => by
    obtain ⟨vs, hlog, hhist, hptr⟩ := h.log id hid
    exact ⟨vs, hlog, hhist.later hl, hptr⟩⟩

theorem entityTableInv_empty (x : XactState) (base : Nat) (slotOf : Nat → ItemPointer)
    (capacity : Nat) : EntityTableInv x base slotOf capacity
      (fun _ => (none : Option (EntityTuple μ))) fun _ => none := by
  refine ⟨fun p t ht => ?_, fun k p hp => ?_, fun p t q u ht => ?_, fun id _ => ⟨[], ?_, ?_, ?_⟩⟩
  · cases ht
  · cases hp
  · cases ht
  · exact ⟨List.Pairwise.nil, fun a => by simp⟩
  · exact ⟨fun a ha => (by cases ha), fun a ha => (by cases ha), List.isChain_nil,
      fun a ha => (by cases ha)⟩
  · intro a ha
    cases ha

/-- The version a slot points to is the last one of its entity. -/
theorem EntityTableInv.last (h : EntityTableInv x base slotOf capacity tuple slot)
    (hk : k.offset ≤ capacity) (hslot : slot k = some p) (ht : tuple p = some t) :
    slotOf t.hdr.id = k ∧ ∃ front, VersionLog tuple t.hdr.id (front ++ [(p, t)]) ∧
      VersionHistory x base (front ++ [(p, t)]) := by
  obtain ⟨t', ht', hid⟩ := h.sound k p hslot (h.valid p t ht)
  obtain rfl := Option.some.inj (ht.symm.trans ht')
  obtain ⟨vs, hlog, hhist, hptr⟩ := h.log t.hdr.id (by rwa [hid])
  have hmem := (hlog.mem (p, t)).mpr ⟨ht, rfl⟩
  rcases List.eq_nil_or_concat' vs with rfl | ⟨front, b, rfl⟩
  · cases hmem
  · have hb := hptr b (by simp)
    rw [hid, hslot, Option.some.injEq] at hb
    have hbt := ((hlog.mem b).mp (by simp)).1
    rw [← hb, ht, Option.some.injEq] at hbt
    obtain rfl : b = (p, t) := Prod.ext hb.symm hbt.symm
    exact ⟨hid, front, hlog, hhist⟩

/-- Stamping a tuple leaves its id. -/
theorem of_stamped {s : Session} {q : ItemPointer} (ht : tuple p = some t)
    (hu : Function.update tuple p (some (stampTuple s t)) q = some u) :
    ∃ u', tuple q = some u' ∧ u'.hdr.id = u.hdr.id := by
  by_cases hq : q = p
  · rw [hq, Function.update_self] at hu
    exact ⟨t, by rw [hq, ht], by rw [← Option.some.inj hu]; rfl⟩
  · rw [Function.update_of_ne hq] at hu
    exact ⟨u, hu, rfl⟩

/-- **Stamping the version a slot points to**, by a session that sees its writer. -/
theorem EntityTableInv.stamp {s : Session} (h : EntityTableInv x base slotOf capacity tuple slot)
    (hk : k.offset ≤ capacity) (hslot : slot k = some p) (ht : tuple p = some t)
    (hs : x.Begun base s.fxid) (hsees : x.CommittedSince base t.hdr.xmin ∨ s.fxid = t.hdr.xmin) :
    EntityTableInv x base slotOf capacity (Function.update tuple p (some (stampTuple s t))) slot := by
  refine ⟨fun q u hu => ?_, fun j q hj hv => ?_, fun q u q' u' hu hu' he => ?_, fun id hid => ?_⟩
  · obtain ⟨u', hu', -⟩ := of_stamped ht hu
    exact h.valid q u' hu'
  · obtain ⟨u, hu, hid⟩ := h.sound j q hj hv
    by_cases hq : q = p
    · rw [hq, ht, Option.some.injEq] at hu
      exact ⟨stampTuple s t, by rw [hq, Function.update_self], by rw [← hid, ← hu]; rfl⟩
    · exact ⟨u, by rw [Function.update_of_ne hq, hu], hid⟩
  · obtain ⟨w, hw, hwid⟩ := of_stamped ht hu
    obtain ⟨w', hw', hwid'⟩ := of_stamped ht hu'
    rw [← hwid, ← hwid'] at he ⊢
    exact h.apart q w q' w' hw hw' he
  · by_cases he : t.hdr.id = id
    · subst he
      obtain ⟨hkid, front, hlog, hhist⟩ := h.last hk hslot ht
      refine ⟨front ++ [(p, stampTuple s t)], hlog.replace_last rfl, hhist.stamp hs hsees,
        fun a ha => ?_⟩
      obtain rfl : (p, stampTuple s t) = a := by simpa using ha
      rw [hkid, hslot]
    · obtain ⟨vs, hlog, hhist, hptr⟩ := h.log id hid
      refine ⟨vs, hlog.other he fun u hu => ?_, hhist, hptr⟩
      rw [ht, Option.some.injEq] at hu
      rwa [← hu]

/-- **Writing a version and moving the slot to it**: the first version of an entity, or one whose
writer has superseded the version the slot pointed to. -/
theorem EntityTableInv.write (h : EntityTableInv x base slotOf capacity tuple slot)
    (hv : tid.isValid = true) (hfresh : tuple tid = none)
    (hbefore : ∀ p u, tuple p = some u → p.Before tid) (hbegun : x.Begun base t.hdr.xmin)
    (hnew : t.hdr.deleter = none)
    (hapart : ∀ p u, tuple p = some u → slotOf u.hdr.id = slotOf t.hdr.id → u.hdr.id = t.hdr.id)
    (hlast : ∀ p u, slot (slotOf t.hdr.id) = some p → tuple p = some u →
      u.hdr.deleter = some t.hdr.xmin)
    (hslot : Repointed slot slot' (slotOf t.hdr.id) tid capacity) :
    EntityTableInv x base slotOf capacity (Function.update tuple tid (some t)) slot' := by
  have hne : ∀ p u, tuple p = some u → p ≠ tid := fun p u hu he => by
    rw [he, hfresh] at hu
    cases hu
  refine ⟨fun q u hu => ?_, fun j q hj hq => ?_, fun q u q' u' hu hu' he => ?_, fun id hid => ?_⟩
  · by_cases hq : q = tid
    · rwa [hq]
    · rw [Function.update_of_ne hq] at hu
      exact h.valid q u hu
  · by_cases hjk : j = slotOf t.hdr.id
    · rw [hjk, hslot.self] at hj
      split at hj
      · rw [← Option.some.inj hj]
        exact ⟨t, Function.update_self .., hjk.symm⟩
      · cases hj
    · rcases hslot.other j hjk with he | ⟨-, q', he, hq'⟩
      · obtain ⟨u, hu, huid⟩ := h.sound j q (he ▸ hj) hq
        exact ⟨u, by rw [Function.update_of_ne (hne q u hu), hu], huid⟩
      · rw [← Option.some.inj (he.symm.trans hj), hq'] at hq
        cases hq
  · by_cases hq : q = tid
    · rw [hq, Function.update_self, Option.some.injEq] at hu
      by_cases hq' : q' = tid
      · rw [hq', Function.update_self, Option.some.injEq] at hu'
        rw [← hu, ← hu']
      · rw [Function.update_of_ne hq'] at hu'
        rw [← hu] at he ⊢
        exact (hapart q' u' hu' he.symm).symm
    · rw [Function.update_of_ne hq] at hu
      by_cases hq' : q' = tid
      · rw [hq', Function.update_self, Option.some.injEq] at hu'
        rw [← hu'] at he ⊢
        exact hapart q u hu he
      · rw [Function.update_of_ne hq'] at hu'
        exact h.apart q u q' u' hu hu' he
  · obtain ⟨vs, hlog, hhist, hptr⟩ := h.log id hid
    by_cases he : t.hdr.id = id
    · subst he
      refine ⟨vs ++ [(tid, t)], hlog.concat rfl hbefore, hhist.concat hbegun hnew fun a ha => ?_,
        fun a ha => ?_⟩
      · have ham := (hlog.mem a).mp (List.mem_of_getLast? ha)
        exact hlast a.1 a.2 (hptr a ha) ham.1
      · obtain rfl : (tid, t) = a := by simpa using ha
        rw [hslot.self, if_pos hid]
    · refine ⟨vs, hlog.other he fun u hu => ?_, hhist, fun a ha => ?_⟩
      · rw [hfresh] at hu
        cases hu
      · have ham := (hlog.mem a).mp (List.mem_of_getLast? ha)
        have hj : slotOf id ≠ slotOf t.hdr.id := fun heq => by
          have hid' := hapart a.1 a.2 ham.1 (by rw [ham.2, heq])
          exact he (hid'.symm.trans ham.2)
        rcases hslot.other _ hj with hsame | ⟨hnone, -⟩
        · rw [hsame]
          exact hptr a ha
        · rw [hptr a ha] at hnone
          cases hnone

/-- Padding empty slots points nowhere. -/
theorem EntityTableInv.padded (h : EntityTableInv x base slotOf capacity tuple slot)
    (hslot : ∀ j, slot' j = slot j ∨ slot j = none ∧ ∃ q, slot' j = some q ∧ q.isValid = false) :
    EntityTableInv x base slotOf capacity tuple slot' := by
  refine ⟨h.valid, fun j q hj hq => ?_, h.apart, fun id hid => ?_⟩
  · rcases hslot j with he | ⟨-, q', he, hq'⟩
    · exact h.sound j q (he ▸ hj) hq
    · rw [← Option.some.inj (he.symm.trans hj), hq'] at hq
      cases hq
  · obtain ⟨vs, hlog, hhist, hptr⟩ := h.log id hid
    refine ⟨vs, hlog, hhist, fun a ha => ?_⟩
    rcases hslot (slotOf id) with he | ⟨hnone, -⟩
    · rw [he]
      exact hptr a ha
    · rw [hptr a ha] at hnone
      cases hnone

/-- **Superseding the version a slot points to**: a new version is written, the slot moved to it, and
the old one stamped. -/
theorem EntityTableInv.supersede {s : Session} {new : EntityTuple μ}
    (h : EntityTableInv x base slotOf capacity tuple slot) (hk : k.offset ≤ capacity)
    (hptr : slot k = some p) (ht : tuple p = some t) (hs : x.Begun base s.fxid)
    (hsees : x.CommittedSince base t.hdr.xmin ∨ s.fxid = t.hdr.xmin) (hv : tid.isValid = true)
    (hfresh : tuple tid = none) (hbefore : ∀ p u, tuple p = some u → p.Before tid)
    (hwriter : new.hdr.xmin = s.fxid) (hnew : new.hdr.deleter = none)
    (hid : slotOf new.hdr.id = k)
    (hapart : ∀ q u, tuple q = some u → slotOf u.hdr.id = k → u.hdr.id = new.hdr.id)
    (hslot : Repointed slot slot' k tid capacity) :
    EntityTableInv x base slotOf capacity (Function.update (Function.update tuple tid (some new)) p
      (some (stampTuple s t))) slot' := by
  have hne : tid ≠ p := fun he => by
    rw [← he, hfresh] at ht
    cases ht
  rw [Function.update_comm hne]
  subst hid
  refine (h.stamp hk hptr ht hs hsees).write hv ?_ ?_ ?_ hnew ?_ ?_ hslot
  · rw [Function.update_of_ne hne, hfresh]
  · intro q u hu
    obtain ⟨u', hu', -⟩ := of_stamped ht hu
    exact hbefore q u' hu'
  · rwa [hwriter]
  · intro q u hu he
    obtain ⟨u', hu', hid'⟩ := of_stamped ht hu
    rw [← hid'] at he ⊢
    exact hapart q u' hu' he
  · intro q u hq hu
    obtain rfl := Option.some.inj (hptr.symm.trans hq)
    rw [Function.update_self] at hu
    rw [← Option.some.inj hu, hwriter]
    exact if_pos hs.valid

end Table

end NeoPostGraph
