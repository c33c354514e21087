import NeoPostGraph.Graph.Savepoint
import NeoPostGraph.Lib.Exclusive

/-!
# Entity tables in which an id may come back

An edge that changes its label takes its id along, so an entity table may hold several entities of one
id, one after the other. `TableOk` is what holds of a table and the slots that point into it all the
same: any two tuples of one id exclude each other, so no session sees both.

* `RecordHeader.stamps`: a header as `Exclusive` reads it.
* `Vacant`, `Gone` on headers: a session may write a new tuple beside this one; nobody sees it.

Results:
* `npEntityTupleIsLive_iff_seen`, `deletable_of_updatable`: the tests of the code in these terms.
* `TableOk.stamp`, `TableOk.write`, `TableOk.repoint`: what the writers do to a table keeps it so.
* `TableOk.not_both_live`: no session sees two tuples of one id.
-/

namespace NeoPostGraph

open SlottedPage

/-! ## Headers -/

/-- Who created and who deleted a record. -/
def RecordHeader.stamps (hdr : RecordHeader) : Exclusive.Stamps Nat := ⟨hdr.xmin, hdr.deleter⟩

namespace XactState

/-- The transaction has committed. -/
def Committed (x : XactState) (t : Nat) : Prop := x.status t = .committed

/-- The transaction has aborted. -/
def Aborted (x : XactState) (t : Nat) : Prop := x.status t = .aborted

/-- Nobody sees the record, now or later. -/
def Gone (x : XactState) (hdr : RecordHeader) : Prop :=
  Exclusive.Gone x.Committed x.Aborted hdr.stamps

/-- The transaction may write another record beside this one. -/
def Vacant (x : XactState) (t : Nat) (hdr : RecordHeader) : Prop :=
  Exclusive.Vacant x.Committed x.Aborted t hdr.stamps

/-- At most one of the two records is seen by any session. -/
def Excludes (x : XactState) (hdr hdr' : RecordHeader) : Prop :=
  Exclusive.Excludes x.Committed x.Aborted hdr.stamps hdr'.stamps

/-- Transactions that have ended stay as they ended. -/
def Settles (base : Nat) (x y : XactState) : Prop :=
  ∀ t, x.Begun base t → x.status t ≠ .inProgress → y.status t = x.status t

section

variable {base t : Nat} {x : XactState}

theorem not_aborted_of_committed (t : Nat) (h : x.Committed t) : ¬ x.Aborted t := fun ha => by
  unfold Committed at h
  unfold Aborted at ha
  rw [h] at ha
  cases ha

theorem Open.not_aborted (h : x.Open base t) : ¬ x.Aborted t := fun ha => by
  unfold Aborted at ha
  rw [h.2] at ha
  cases ha

theorem Open.not_committed (h : x.Open base t) : ¬ x.Committed t := fun hc => by
  unfold Committed at hc
  rw [h.2] at hc
  cases hc

theorem settles_begin (base : Nat) (x : XactState) : Settles base x x.begin := fun _ ht _ =>
  Function.update_of_ne (Nat.ne_of_lt ht.2.1) ..

/-- A transaction that has ended is not an open one. -/
theorem Open.ne (h : x.Open base t) {v : Nat} (hv : x.status v ≠ .inProgress) : v ≠ t := by
  rintro rfl
  exact hv h.2

theorem settles_commit (h : x.Open base t) : Settles base x (x.commit t) := fun _ _ hu =>
  Function.update_of_ne (h.ne hu) ..

theorem settles_abort (h : x.Open base t) : Settles base x (x.abort t) := fun _ _ hu =>
  Function.update_of_ne (h.ne hu) ..

end

end XactState

/-- The transactions on a header are of the history, and whoever deleted the record had created it or
saw its creator committed. -/
structure HeaderInv (base : Nat) (x : XactState) (hdr : RecordHeader) : Prop where
  xmin : x.Begun base hdr.xmin
  xmax : ∀ d, hdr.deleter = some d → x.Begun base d
  settled : Exclusive.Settled x.Committed hdr.stamps

section

variable {base : Nat} {x y : XactState} {own : List Nat} {s : Session} {hdr hdr' : RecordHeader}

theorem deleter_eq_some {d : Nat} :
    hdr.deleter = some d ↔ fullXidIsValid hdr.xmax = true ∧ hdr.xmax = d := by
  unfold RecordHeader.deleter
  split
  · next h => simp [h]
  · next h => simp [h]

theorem HeaderInv.later (h : HeaderInv base x hdr) (hl : XactState.Later base x y) :
    HeaderInv base y hdr where
  xmin := h.xmin.later hl
  xmax d hd := (h.xmax d hd).later hl
  settled d hd := (h.settled d hd).imp_right fun hc => hl.committed _ ⟨h.xmin, hc⟩

/-- A header is one of a row, but for the mark on adjacency members. -/
theorem HeaderInv.row (h : HeaderInv base x hdr) {r : Row} (hr : r.hdr = hdr) : RowInv base x r where
  xmin := by
    rw [hr]
    exact h.xmin
  xmax hv := by
    rw [hr] at hv ⊢
    exact h.xmax _ (deleter_eq_some.mpr ⟨hv, rfl⟩)
  settled _ hv := by
    rw [hr] at hv ⊢
    exact (h.settled _ (deleter_eq_some.mpr ⟨hv, rfl⟩)).imp_left Eq.symm

/-- What is gone stays gone. -/
theorem Gone.later (hi : HeaderInv base x hdr) (hs : XactState.Settles base x y) (h : x.Gone hdr) :
    y.Gone hdr := by
  have hkeep : ∀ t st, x.Begun base t → x.status t = st → st ≠ .inProgress → y.status t = st :=
    fun t st hb he hne => (hs t hb (by rw [he]; exact hne)).trans he
  refine Exclusive.Gone.mono (fun ha => hkeep _ _ hi.xmin ha (by decide))
    (fun d hd hc => hkeep _ _ (hi.xmax d hd) hc (by decide)) h

theorem Excludes.later (hi : HeaderInv base x hdr) (hi' : HeaderInv base x hdr')
    (hs : XactState.Settles base x y) (h : x.Excludes hdr hdr') : y.Excludes hdr hdr' := by
  rcases h with hg | hg | hd | hd
  · exact Or.inl (Gone.later hi hs hg)
  · exact Or.inr (Or.inl (Gone.later hi' hs hg))
  · exact Or.inr (Or.inr (Or.inl hd))
  · exact Or.inr (Or.inr (Or.inr hd))

/-- **A record is live to a session just when the session sees it.** -/
theorem npEntityTupleIsLive_iff_seen (hroom : x.nextFxid ≤ base + 2 ^ 32)
    (hown : ∀ o ∈ own, x.Begun base o) (h : HeaderInv base x hdr) :
    npEntityTupleIsLive x own hdr = true ↔
      Exclusive.Seen x.Committed (fun t => t ∈ own) hdr.stamps := by
  rw [npEntityTupleIsLive_full hroom hown h.xmin fun hv => h.xmax _ (deleter_eq_some.mpr ⟨hv, rfl⟩)]
  have hdel : ∀ q : Nat → Prop, (fullXidIsValid hdr.xmax = true → q hdr.xmax) ↔
      ∀ d, hdr.stamps.deleter = some d → q d := fun q => by
    constructor
    · intro hq d hd
      obtain ⟨hv, rfl⟩ := deleter_eq_some.mp hd
      exact hq hv
    · intro hq hv
      exact hq _ (deleter_eq_some.mpr ⟨hv, rfl⟩)
  unfold Exclusive.Seen
  rw [← hdel fun d => d ∉ own, ← hdel fun d => d ∉ own ∧ ¬ x.Committed d]
  unfold XactState.Committed RecordHeader.stamps
  by_cases ho : hdr.xmin ∈ own
  · rw [if_pos ho]
    simp [ho]
  · rw [if_neg ho]
    simp [ho]

/-- **What the session may supersede it may delete.** -/
theorem deletable_of_updatable {μ : Type} {t : EntityTuple μ} (hroom : x.nextFxid ≤ base + 2 ^ 32)
    (hs : x.Open base s.fxid) (h : HeaderInv base x t.hdr.toRecordHeader)
    (hup : Updatable x s.own t) :
    Exclusive.Deletable x.Committed x.Aborted s.fxid t.hdr.stamps := by
  -- the row with this header
  have hst : (Row.vertex ⟨t.hdr, ⟨0, 0, 0⟩, t.props⟩).Stampable x [s.fxid] := hup
  obtain ⟨hmin, hmax⟩ := hst.full hroom hs (h.row rfl) fun m he => by cases he
  refine ⟨hmin, fun d hd => ?_⟩
  obtain ⟨hv, rfl⟩ := deleter_eq_some.mp hd
  exact hmax hv

theorem stamps_stampTuple {μ : Type} (hs : fullXidIsValid s.fxid = true) (t : EntityTuple μ) :
    (stampTuple s t).hdr.stamps = ⟨t.hdr.xmin, some s.fxid⟩ := by
  unfold RecordHeader.stamps
  rw [deleter_eq_some.mpr ⟨hs, rfl⟩]
  rfl

theorem headerInv_stampTuple {μ : Type} {t : EntityTuple μ} (hroom : x.nextFxid ≤ base + 2 ^ 32)
    (hs : x.Open base s.fxid) (h : HeaderInv base x t.hdr.toRecordHeader)
    (hup : Updatable x s.own t) : HeaderInv base x (stampTuple s t).hdr.toRecordHeader where
  xmin := h.xmin
  xmax d hd := by
    obtain ⟨-, rfl⟩ := deleter_eq_some.mp hd
    exact hs.1
  settled d hd := by
    obtain ⟨-, rfl⟩ := deleter_eq_some.mp hd
    exact (deletable_of_updatable hroom hs h hup).1.imp_left Eq.symm

theorem headerInv_newEntityTuple {μ : Type} (hs : x.Begun base s.fxid) (id : Nat)
    (prev : ItemPointer) (entity : μ) (props : Gtype) :
    HeaderInv base x (newEntityTuple s id prev entity props).hdr.toRecordHeader where
  xmin := hs
  xmax d hd := by cases hd
  settled d hd := by cases hd

end

/-! ## Tables -/

/-- An entity table with the slots that point into it; `ok` is what holds of the entities. -/
structure TableOk {μ : Type} (base : Nat) (x : XactState) (slotOf : Nat → ItemPointer)
    (ok : Nat → μ → Gtype → Prop) (tuple : ItemPointer → Option (EntityTuple μ))
    (slot : ItemPointer → Option ItemPointer) : Prop where
  valid : ∀ p t, tuple p = some t → p.isValid = true
  entity : ∀ p t, tuple p = some t → ok t.hdr.id t.entity t.props
  header : ∀ p t, tuple p = some t → HeaderInv base x t.hdr.toRecordHeader
  /-- Two ids have two slots. -/
  apart : ∀ p t q u, tuple p = some t → tuple q = some u →
    slotOf t.hdr.id = slotOf u.hdr.id → t.hdr.id = u.hdr.id
  /-- A slot points to a tuple of an id whose slot it is, or nowhere. -/
  sound : ∀ k p, slot k = some p → p.isValid = true → ∃ t, tuple p = some t ∧ slotOf t.hdr.id = k
  exclusive : ∀ p t q u, tuple p = some t → tuple q = some u → t.hdr.id = u.hdr.id → p ≠ q →
    x.Excludes t.hdr.toRecordHeader u.hdr.toRecordHeader

/-- The session may write a tuple of this id: no other id has its slot, and what there is of the id is
gone or deleted by the session. -/
def Free {μ : Type} (x : XactState) (t id : Nat) (slotOf : Nat → ItemPointer)
    (tuple : ItemPointer → Option (EntityTuple μ)) : Prop :=
  ∀ p u, tuple p = some u → slotOf u.hdr.id = slotOf id →
    u.hdr.id = id ∧ x.Vacant t u.hdr.toRecordHeader

section

variable {μ : Type} {base id : Nat} {x y : XactState} {s : Session} {slotOf : Nat → ItemPointer}
  {ok ok' : Nat → μ → Gtype → Prop} {tuple : ItemPointer → Option (EntityTuple μ)}
  {slot slot' : ItemPointer → Option ItemPointer} {p q : ItemPointer} {t u : EntityTuple μ}

theorem tableOk_empty (base : Nat) (x : XactState) (slotOf : Nat → ItemPointer)
    (ok : Nat → μ → Gtype → Prop) : TableOk base x slotOf ok (fun _ => none) fun _ => none := by
  refine ⟨fun p t h => ?_, fun p t h => ?_, fun p t h => ?_, fun p t q u h => ?_,
    fun k p h => ?_, fun p t q u h => ?_⟩ <;> cases h

theorem TableOk.later (h : TableOk base x slotOf ok tuple slot) (hl : XactState.Later base x y)
    (hs : XactState.Settles base x y) : TableOk base y slotOf ok tuple slot :=
  ⟨h.valid, h.entity, fun p t ht => (h.header p t ht).later hl, h.apart, h.sound,
    fun p t q u ht hu he hne =>
      Excludes.later (h.header p t ht) (h.header q u hu) hs (h.exclusive p t q u ht hu he hne)⟩

theorem TableOk.mono (h : TableOk base x slotOf ok tuple slot)
    (hok : ∀ id e props, ok id e props → ok' id e props) : TableOk base x slotOf ok' tuple slot :=
  ⟨h.valid, fun p t ht => hok _ _ _ (h.entity p t ht), h.header, h.apart, h.sound, h.exclusive⟩

/-- Slots may be emptied, and padded where there was none. -/
theorem TableOk.repoint (h : TableOk base x slotOf ok tuple slot)
    (hs : ∀ k p, slot' k = some p → slot k = some p ∨ p.isValid = false) :
    TableOk base x slotOf ok tuple slot' := by
  refine ⟨h.valid, h.entity, h.header, h.apart, fun k p hk hp => ?_, h.exclusive⟩
  rcases hs k p hk with hk | hv
  · exact h.sound k p hk hp
  · rw [hp] at hv
    cases hv

/-- **Stamping a tuple that may be superseded keeps the table.** -/
theorem TableOk.stamp (h : TableOk base x slotOf ok tuple slot) (hroom : x.nextFxid ≤ base + 2 ^ 32)
    (hs : x.Open base s.fxid) (ht : tuple p = some t) (hup : Updatable x s.own t) :
    TableOk base x slotOf ok (Function.update tuple p (some (stampTuple s t))) slot := by
  -- every tuple was there before, and only one header is another
  have hold : ∀ q u, Function.update tuple p (some (stampTuple s t)) q = some u →
      ∃ u₀, tuple q = some u₀ ∧ u.hdr.id = u₀.hdr.id ∧ u.entity = u₀.entity ∧ u.props = u₀.props ∧
        (q ≠ p → u = u₀) ∧ (q = p → u₀ = t ∧ u = stampTuple s t) := by
    intro q u hu
    by_cases hq : q = p
    · rw [hq, Function.update_self] at hu
      obtain rfl := Option.some.inj hu
      exact ⟨t, hq ▸ ht, rfl, rfl, rfl, fun hne => absurd hq hne, fun _ => ⟨rfl, rfl⟩⟩
    · rw [Function.update_of_ne hq] at hu
      exact ⟨u, hu, rfl, rfl, rfl, fun _ => rfl, fun he => absurd he hq⟩
  have hdel := deletable_of_updatable hroom hs (h.header p t ht) hup
  have hmark : ∀ q u, tuple q = some u → t.hdr.id = u.hdr.id → q ≠ p →
      x.Excludes (stampTuple s t).hdr.toRecordHeader u.hdr.toRecordHeader := by
    intro q u hu he hne
    have hex := (h.exclusive p t q u ht hu he (Ne.symm hne)).mark
      XactState.not_aborted_of_committed hs.not_aborted hdel
    unfold XactState.Excludes
    rw [stamps_stampTuple hs.1.valid]
    exact hex
  refine ⟨fun q u hu => ?_, fun q u hu => ?_, fun q u hu => ?_, fun q u q' u' hu hu' he => ?_,
    fun k q hk hq => ?_, fun q u q' u' hu hu' he hne => ?_⟩
  · obtain ⟨u₀, hu₀, -⟩ := hold q u hu
    exact h.valid q u₀ hu₀
  · obtain ⟨u₀, hu₀, hid, hent, hprops, -⟩ := hold q u hu
    rw [hid, hent, hprops]
    exact h.entity q u₀ hu₀
  · obtain ⟨u₀, hu₀, -, -, -, hother, hself⟩ := hold q u hu
    by_cases hq : q = p
    · rw [(hself hq).2]
      exact headerInv_stampTuple hroom hs (h.header p t ht) hup
    · rw [hother hq]
      exact h.header q u₀ hu₀
  · obtain ⟨u₀, hu₀, hid, -⟩ := hold q u hu
    obtain ⟨u₁, hu₁, hid', -⟩ := hold q' u' hu'
    rw [hid, hid'] at he ⊢
    exact h.apart q u₀ q' u₁ hu₀ hu₁ he
  · obtain ⟨u₀, hu₀, hid⟩ := h.sound k q hk hq
    by_cases hqp : q = p
    · subst hqp
      obtain rfl := Option.some.inj (ht.symm.trans hu₀)
      exact ⟨_, Function.update_self .., hid⟩
    · exact ⟨u₀, (Function.update_of_ne hqp ..).trans hu₀, hid⟩
  · obtain ⟨u₀, hu₀, hid, -, -, hother, hself⟩ := hold q u hu
    obtain ⟨u₁, hu₁, hid', -, -, hother', hself'⟩ := hold q' u' hu'
    rw [hid, hid'] at he
    by_cases hq : q = p
    · have hq' : q' ≠ p := fun he' => hne (hq.trans he'.symm)
      rw [(hself hq).2, hother' hq']
      rw [(hself hq).1] at he
      exact hmark q' u₁ hu₁ he hq'
    · rw [hother hq]
      by_cases hq' : q' = p
      · rw [(hself' hq').2]
        rw [(hself' hq').1] at he
        exact (hmark q u₀ hu₀ he.symm hq).symm
      · rw [hother' hq']
        exact h.exclusive q u₀ q' u₁ hu₀ hu₁ he hne

/-- **Writing a tuple of an id that is free, and pointing its slot to it, keeps the table.** -/
theorem TableOk.write (h : TableOk base x slotOf ok tuple slot) (hs : x.Begun base s.fxid)
    (hv : p.isValid = true) (hnone : tuple p = none) {prev : ItemPointer} {entity : μ}
    {props : Gtype} (hok : ok id entity props) (hfree : Free x s.fxid id slotOf tuple)
    (hslot : ∀ k q, slot' k = some q → slot k = some q ∨ q.isValid = false ∨
      k = slotOf id ∧ q = p) :
    TableOk base x slotOf ok
      (Function.update tuple p (some (newEntityTuple s id prev entity props))) slot' := by
  have hcases : ∀ q u, Function.update tuple p (some (newEntityTuple s id prev entity props)) q =
      some u → q = p ∧ u = newEntityTuple s id prev entity props ∨ q ≠ p ∧ tuple q = some u := by
    intro q u hu
    by_cases hq : q = p
    · rw [hq, Function.update_self] at hu
      exact Or.inl ⟨hq, (Option.some.inj hu).symm⟩
    · rw [Function.update_of_ne hq] at hu
      exact Or.inr ⟨hq, hu⟩
  have hnew : ∀ q u, tuple q = some u → u.hdr.id = id →
      x.Excludes u.hdr.toRecordHeader
        (newEntityTuple s id prev entity props).hdr.toRecordHeader := fun q u hu he =>
    (hfree q u hu (congrArg slotOf he)).2.excludes
  refine ⟨fun q u hu => ?_, fun q u hu => ?_, fun q u hu => ?_, fun q u q' u' hu hu' he => ?_,
    fun k q hk hq => ?_, fun q u q' u' hu hu' he hne => ?_⟩
  · rcases hcases q u hu with ⟨rfl, -⟩ | ⟨-, hu⟩
    · exact hv
    · exact h.valid q u hu
  · rcases hcases q u hu with ⟨-, rfl⟩ | ⟨-, hu⟩
    · exact hok
    · exact h.entity q u hu
  · rcases hcases q u hu with ⟨-, rfl⟩ | ⟨-, hu⟩
    · exact headerInv_newEntityTuple hs id prev entity props
    · exact h.header q u hu
  · rcases hcases q u hu with ⟨-, rfl⟩ | ⟨-, hu⟩ <;> rcases hcases q' u' hu' with ⟨-, rfl⟩ | ⟨-, hu'⟩
    · rfl
    · exact (hfree q' u' hu' he.symm).1.symm
    · exact (hfree q u hu he).1
    · exact h.apart q u q' u' hu hu' he
  · rcases hslot k q hk with hk' | hq' | ⟨rfl, rfl⟩
    · obtain ⟨u, hu, hid⟩ := h.sound k q hk' hq
      have hqp : q ≠ p := fun he => by
        rw [he, hnone] at hu
        cases hu
      exact ⟨u, (Function.update_of_ne hqp ..).trans hu, hid⟩
    · rw [hq] at hq'
      cases hq'
    · exact ⟨_, Function.update_self .., rfl⟩
  · rcases hcases q u hu with ⟨hq, rfl⟩ | ⟨-, hu₀⟩ <;>
      rcases hcases q' u' hu' with ⟨hq', rfl⟩ | ⟨-, hu₀'⟩
    · exact absurd (hq.trans hq'.symm) hne
    · exact (hnew q' u' hu₀' he.symm).symm
    · exact hnew q u hu₀ he
    · exact h.exclusive q u q' u' hu₀ hu₀' he hne

/-! ## Free ids -/

/-- A session may write beside the tuple it has just stamped. -/
theorem TableOk.free_of_stamp (h : TableOk base x slotOf ok tuple slot)
    (hroom : x.nextFxid ≤ base + 2 ^ 32) (hs : x.Open base s.fxid) (ht : tuple p = some t)
    (hup : Updatable x s.own t) :
    Free x s.fxid t.hdr.id slotOf (Function.update tuple p (some (stampTuple s t))) := by
  intro q u hu hslot
  by_cases hq : q = p
  · rw [hq, Function.update_self] at hu
    obtain rfl := Option.some.inj hu
    refine ⟨rfl, Or.inr ?_⟩
    rw [stamps_stampTuple hs.1.valid]
  · rw [Function.update_of_ne hq] at hu
    have hid := h.apart q u p t hu ht hslot
    exact ⟨hid, (h.exclusive p t q u ht hu hid.symm (Ne.symm hq)).vacant
      XactState.not_aborted_of_committed hs.not_aborted
      (deletable_of_updatable hroom hs (h.header p t ht) hup)⟩

/-- **Writing a new version of a tuple and stamping the old one keeps the table.** -/
theorem TableOk.supersede (h : TableOk base x slotOf ok tuple slot)
    (hroom : x.nextFxid ≤ base + 2 ^ 32) (hs : x.Open base s.fxid) (ht : tuple q = some t)
    (hup : Updatable x s.own t) (hv : p.isValid = true) (hnone : tuple p = none)
    {prev : ItemPointer} {entity : μ} {props : Gtype} (hok : ok t.hdr.id entity props)
    (hslot : ∀ k j, slot' k = some j → slot k = some j ∨ j.isValid = false ∨
      k = slotOf t.hdr.id ∧ j = p) :
    TableOk base x slotOf ok
      (Function.update (Function.update tuple p
        (some (newEntityTuple s t.hdr.id prev entity props))) q (some (stampTuple s t))) slot' := by
  have hne : p ≠ q := fun he => by
    rw [he, ht] at hnone
    cases hnone
  rw [Function.update_comm hne]
  exact (h.stamp hroom hs ht hup).write hs.1 hv ((Function.update_of_ne hne ..).trans hnone) hok
    (h.free_of_stamp hroom hs ht hup) hslot

/-- What is free stays so when the session stamps a tuple. -/
theorem Free.stamp (h : Free x s.fxid id slotOf tuple) (hs : fullXidIsValid s.fxid = true)
    (ht : tuple p = some t) :
    Free x s.fxid id slotOf (Function.update tuple p (some (stampTuple s t))) := by
  intro q u hu hslot
  by_cases hq : q = p
  · rw [hq, Function.update_self] at hu
    obtain rfl := Option.some.inj hu
    refine ⟨(h p t ht hslot).1, Or.inr ?_⟩
    rw [stamps_stampTuple hs]
  · rw [Function.update_of_ne hq] at hu
    exact h q u hu hslot

/-- What is free stays so when a tuple of another slot is written. -/
theorem Free.write {n : Nat} (h : Free x n id slotOf tuple) (hne : slotOf t.hdr.id ≠ slotOf id) :
    Free x n id slotOf (Function.update tuple p (some t)) := by
  intro q u hu hslot
  by_cases hq : q = p
  · rw [hq, Function.update_self] at hu
    obtain rfl := Option.some.inj hu
    exact absurd hslot hne
  · rw [Function.update_of_ne hq] at hu
    exact h q u hu hslot

/-- Nothing the session may supersede has a free id. -/
theorem Free.not_updatable (h : Free x s.fxid id slotOf tuple) (hok : TableOk base x slotOf ok tuple slot)
    (hroom : x.nextFxid ≤ base + 2 ^ 32) (hs : x.Open base s.fxid) (ht : tuple p = some t)
    (hslot : slotOf t.hdr.id = slotOf id) : ¬ Updatable x s.own t := by
  intro hup
  have hdel := deletable_of_updatable hroom hs (hok.header p t ht) hup
  rcases (h p t ht hslot).2 with hg | hd
  · exact hdel.not_gone XactState.not_aborted_of_committed hs.not_aborted hg
  · exact (hdel.2 _ hd).1 rfl

end

end NeoPostGraph
