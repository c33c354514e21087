import NeoPostGraph.Access.CatalogHeap

/-!
# Catalog visibility and transaction ids that come round again

An item keeps full transaction ids, and `np_catalog_tuple_visible` looks only their low 32 bits up.
Catalogs are not frozen, so an id stays on an item however many transactions follow. The lookups answer
for the latest transaction with the low bits they are asked for, and comparisons with the snapshot are
modulo 2^31.

* `Settled`: whoever deleted an item had created it or saw its creator committed.
* `JudgedRight N hdr`: when the next id is `N`, the test gives the reference answer for this header,
  whatever became of the transactions, to every session and snapshot.
* `Recent N y`: the id is at most 2^31 behind the next one.

Result: `judgedRight_iff`, the test judges a header right exactly when its ids are recent, or it was
deleted by its creator and no session can take that id for its own between the two.
-/

namespace NeoPostGraph

/-- The deleter of a record had created it, or saw its creator committed. -/
def Settled (x : XactState) (hdr : RecordHeader) : Prop :=
  fullXidIsValid hdr.xmax = true → hdr.xmin = hdr.xmax ∨ x.status hdr.xmin = .committed

/-- **The test gives the reference answer** for a header when `N` is the next id. -/
def JudgedRight (N : Nat) (hdr : RecordHeader) : Prop :=
  ∀ (x : XactState) (own : List Nat) (s : FullSnapshot), x.nextFxid = N → Consistent x own s →
    Settled x hdr → (catalogMvccVisible x own hdr s.data = true ↔ Visible x own hdr s)

/-- The id is at most 2^31 behind the next one. -/
def Recent (N y : Nat) : Prop := N ≤ y + 2 ^ 31

instance (N y : Nat) : Decidable (Recent N y) := inferInstanceAs (Decidable (_ ≤ _))

section

variable {x : XactState} {own : List Nat} {s : FullSnapshot} {hdr : RecordHeader} {N y : Nat}

/-! ## Recent ids -/

theorem isCurrent_recent (h : Consistent x own s) (ha : x.Assigned y) (hy : Recent x.nextFxid y) :
    transactionIdIsCurrent own (xidFromFull y) = decide (y ∈ own) := by
  have hw := h.window
  unfold Recent at hy
  unfold transactionIdIsCurrent
  rw [Bool.eq_iff_iff, List.any_eq_true, decide_eq_true_eq]
  constructor
  · rintro ⟨o, ho, he⟩
    have ⟨h1, h2, _⟩ := h.own_mem o ho
    have hlt := ha.1
    rwa [← xidFromFull_inj (by omega) (by omega) (beq_iff_eq.mp he)]
  · intro ho
    exact ⟨y, ho, beq_self_eq_true _⟩

theorem widen_recent (ha : x.Assigned y) (hy : Recent x.nextFxid y) :
    widen x.nextFxid (xidFromFull y) = y := by
  unfold Recent at hy
  exact widen_of_lt ha.1 (by omega)

theorem inSnapshot_recent (h : Consistent x own s) (ha : x.Assigned y) (hy : Recent x.nextFxid y) :
    xidInMVCCSnapshot (xidFromFull y) s.data = decide (s.Running y) := by
  by_cases hge : s.xmin ≤ y
  · exact inSnapshot_eq h ha hge
  · have hlt := Nat.not_le.mp hge
    have hle := h.xmin_le.trans h.xmax_le
    have hp : transactionIdPrecedes (xidFromFull y) s.data.xmin = decide (y < s.xmin) := by
      unfold Recent at hy
      exact transactionIdPrecedes_of_le ha.2 h.xmin_normal (by omega) (by omega)
    unfold xidInMVCCSnapshot FullSnapshot.Running
    rw [hp]
    simp [hlt, hge]

theorem data_curcid (s : FullSnapshot) : s.data.curcid = s.curcid := rfl

/-- **The test on a header with recent ids is the reference rule.** -/
theorem catalogMvccVisible_iff (h : Consistent x own s) (hmin : x.Assigned hdr.xmin)
    (hmax : fullXidIsValid hdr.xmax = true → x.Assigned hdr.xmax) (hset : Settled x hdr)
    (hrmin : Recent x.nextFxid hdr.xmin)
    (hrmax : fullXidIsValid hdr.xmax = true → Recent x.nextFxid hdr.xmax) :
    catalogMvccVisible x own hdr s.data = true ↔ Visible x own hdr s := by
  unfold catalogMvccVisible Visible Created Survives
  dsimp only
  unfold transactionIdIsInProgress transactionIdDidCommit
  rw [isCurrent_recent h hmin hrmin, inSnapshot_recent h hmin hrmin, widen_recent hmin hrmin,
    fullXidIsValid_of_normal hmin.2]
  rw [data_curcid]
  cases hv : fullXidIsValid hdr.xmax with
  | false =>
    by_cases ho : hdr.xmin ∈ own
    · simp [ho]
    · by_cases hr : s.Running hdr.xmin
      · simp [ho, hr]
      · cases hs : x.status hdr.xmin <;> simp [ho, hr]
  | true =>
    have ha := hmax hv
    have hr' := hrmax hv
    rw [isCurrent_recent h ha hr', inSnapshot_recent h ha hr', widen_recent ha hr']
    by_cases ho : hdr.xmin ∈ own
    · -- a session's own record has been deleted by nobody else
      have hprog := (h.own_mem _ ho).2.2
      have hown : hdr.xmax ∈ own := by
        rcases hset hv with he | hc
        · rwa [← he]
        · cases hprog.symm.trans hc
      simp [ho, hown]
    · by_cases hr : s.Running hdr.xmin
      · simp [ho, hr]
      · by_cases ho' : hdr.xmax ∈ own
        · cases hs : x.status hdr.xmin <;> simp [ho, ho', hr]
        · by_cases hr₂ : s.Running hdr.xmax
          · cases hs : x.status hdr.xmin <;> simp [ho, ho', hr, hr₂]
          · have hfin := h.finished _ ha hr₂ ho'
            cases hs : x.status hdr.xmin <;> cases hs' : x.status hdr.xmax <;>
              simp_all

/-! ## Old ids -/

/-- An id that is not recent is nobody's own. -/
theorem not_own_of_old (h : Consistent x own s) (hy : ¬ Recent x.nextFxid y) : y ∉ own := fun ho => by
  have h1 := (h.own_mem y ho).1
  have h2 := h.window
  unfold Recent at hy
  omega

/-- The snapshot of a session without a transaction id, when no transaction runs. -/
def quietSnapshot (N : Nat) : FullSnapshot := ⟨N, N, [], 0⟩

theorem consistent_quiet {status : Nat → XidStatus} (hlt : N < 2 ^ 64)
    (hnormal : firstNormalTransactionId ≤ xidFromFull N) (hend : ∀ y, status y ≠ .inProgress) :
    Consistent ⟨N, status⟩ [] (quietSnapshot N) where
  next_lt := hlt
  xmin_normal := hnormal
  xmax_normal := hnormal
  xmin_le := Nat.le_refl _
  xmax_le := Nat.le_refl _
  window := Nat.lt_add_of_pos_right (by decide)
  xip_mem := nofun
  own_mem := nofun
  finished y _ _ _ := hend y

theorem not_running_quiet (hy : y < N) : ¬ (quietSnapshot N).Running y := fun h =>
  Nat.not_le.mpr hy h.1

/-- With that snapshot, an id that is not recent is taken for one that still runs, or for another
id. -/
theorem inSnapshot_or_widen_ne (hN : firstNormalTransactionId ≤ xidFromFull N)
    (hy : firstNormalTransactionId ≤ xidFromFull y) (hold : ¬ Recent N y) :
    xidInMVCCSnapshot (xidFromFull y) (quietSnapshot N).data = true ∨
      xidInMVCCSnapshot (xidFromFull y) (quietSnapshot N).data = false ∧
        widen N (xidFromFull y) ≠ y := by
  unfold xidInMVCCSnapshot quietSnapshot FullSnapshot.data
  dsimp only
  cases hp : transactionIdPrecedes (xidFromFull y) (xidFromFull N) with
  | false => simp
  | true =>
    refine Or.inr ⟨by simp, widen_ne_of_old hy hN ?_ hp⟩
    unfold Recent at hold
    omega

/-- An old creator that has committed is not seen, unless it was the deleter too. -/
theorem not_judgedRight_xmin (hlt : N < 2 ^ 64) (hN : firstNormalTransactionId ≤ xidFromFull N)
    (hy : hdr.xmin < N) (hnormal : firstNormalTransactionId ≤ xidFromFull hdr.xmin)
    (hold : ¬ Recent N hdr.xmin) (hne : hdr.xmax ≠ hdr.xmin) : ¬ JudgedRight N hdr := by
  intro h
  -- the creator committed and everyone else aborted
  let status : Nat → XidStatus := fun y => if y = hdr.xmin then .committed else .aborted
  have hst : status hdr.xmin = .committed := if_pos rfl
  have hst' : ∀ y, y ≠ hdr.xmin → status y = .aborted := fun y hy => if_neg hy
  have hend : ∀ y, status y ≠ .inProgress := fun y => by
    by_cases he : y = hdr.xmin
    · rw [he, hst]
      decide
    · rw [hst' y he]
      decide
  have hiff := h ⟨N, status⟩ [] (quietSnapshot N) rfl (consistent_quiet hlt hN hend)
    fun _ => Or.inr hst
  have hvis : Visible ⟨N, status⟩ [] hdr (quietSnapshot N) :=
    ⟨⟨fullXidIsValid_of_normal hnormal, hst, not_running_quiet hy⟩,
      Or.inr (Or.inl (hst' _ hne))⟩
  have hcode := hiff.mpr hvis
  unfold catalogMvccVisible transactionIdIsInProgress transactionIdDidCommit at hcode
  dsimp only at hcode
  rw [fullXidIsValid_of_normal hnormal] at hcode
  rcases inSnapshot_or_widen_ne hN hnormal hold with hin | ⟨hin, hw⟩
  · simp [transactionIdIsCurrent, hin] at hcode
  · simp [transactionIdIsCurrent, hin, hst' _ hw] at hcode

/-- An old deleter is taken for one that runs, or for another transaction. -/
theorem not_judgedRight_xmax (hlt : N < 2 ^ 64) (hN : firstNormalTransactionId ≤ xidFromFull N)
    (hmin : hdr.xmin < N ∧ firstNormalTransactionId ≤ xidFromFull hdr.xmin)
    (hrecent : Recent N hdr.xmin)
    (hmax : hdr.xmax < N ∧ firstNormalTransactionId ≤ xidFromFull hdr.xmax)
    (hold : ¬ Recent N hdr.xmax) : ¬ JudgedRight N hdr := by
  intro h
  have hne : hdr.xmax ≠ hdr.xmin := fun he => hold (he ▸ hrecent)
  -- creator and deleter committed; where the deleter passes for the creator, the deleter aborted
  let status : Nat → XidStatus := fun y =>
    if y = hdr.xmin then .committed
    else if y = hdr.xmax ∧ widen N (xidFromFull hdr.xmax) ≠ hdr.xmin then .committed else .aborted
  have hst : status hdr.xmin = .committed := if_pos rfl
  have hend : ∀ y, status y ≠ .inProgress := fun y => by
    show (if _ then _ else if _ then _ else _) ≠ _
    split
    · decide
    · split <;> decide
  have hcons := consistent_quiet hlt hN hend
  have hiff := h ⟨N, status⟩ [] (quietSnapshot N) rfl hcons fun _ => Or.inr hst
  have hvalid := fullXidIsValid_of_normal hmax.2
  -- the creation is seen either way
  have hin : xidInMVCCSnapshot (xidFromFull hdr.xmin) (quietSnapshot N).data = false := by
    rw [inSnapshot_recent hcons hmin hrecent]
    exact decide_eq_false (not_running_quiet hmin.1)
  have hwmin : widen N (xidFromFull hdr.xmin) = hdr.xmin := widen_recent (x := ⟨N, status⟩) hmin hrecent
  have hcreated : Created ⟨N, status⟩ [] hdr (quietSnapshot N) :=
    ⟨fullXidIsValid_of_normal hmin.2, hst, not_running_quiet hmin.1⟩
  unfold catalogMvccVisible transactionIdIsInProgress transactionIdDidCommit at hiff
  dsimp only at hiff
  rw [fullXidIsValid_of_normal hmin.2, hvalid, hin, hwmin] at hiff
  have hdeleted : status hdr.xmax = .committed → ¬ Visible ⟨N, status⟩ [] hdr (quietSnapshot N) := by
    rintro hc ⟨-, hs | hs⟩
    · cases hvalid.symm.trans hs
    · rcases hs with hs | hs
      · cases hc.symm.trans hs
      · exact not_running_quiet hmax.1 hs
  by_cases hw : widen N (xidFromFull hdr.xmax) = hdr.xmin
  · -- the deleter aborted, and the code asks for the creator
    have hin' : xidInMVCCSnapshot (xidFromFull hdr.xmax) (quietSnapshot N).data = false := by
      have hlow := (widen_spec hmax.1).2.2
      rw [hw] at hlow
      rwa [← hlow]
    have hab : status hdr.xmax = .aborted := by
      show (if _ then _ else if _ then _ else _) = _
      rw [if_neg hne, if_neg fun hc => hc.2 hw]
    have hcode := hiff.mpr ⟨hcreated, Or.inr (Or.inl hab)⟩
    simp [transactionIdIsCurrent, hin', hw, hst] at hcode
  · have hc : status hdr.xmax = .committed := by
      show (if _ then _ else if _ then _ else _) = _
      rw [if_neg hne, if_pos ⟨rfl, hw⟩]
    refine hdeleted hc (hiff.mp ?_)
    rcases inSnapshot_or_widen_ne hN hmax.2 hold with hin' | ⟨hin', hw'⟩
    · simp [transactionIdIsCurrent, hin', hst]
    · have hab : status (widen N (xidFromFull hdr.xmax)) = .aborted := by
        show (if _ then _ else if _ then _ else _) = _
        rw [if_neg hw, if_neg fun hc => hw' hc.1]
      simp [transactionIdIsCurrent, hin', hst, hab]

/-- A session that has the id of an old transaction, in 32 bits, takes what that transaction inserted
and deleted for its own. -/
theorem not_judgedRight_own (hlt : N < 2 ^ 64) (hN : firstNormalTransactionId ≤ xidFromFull N)
    (hmin : hdr.xmin < N ∧ firstNormalTransactionId ≤ xidFromFull hdr.xmin)
    (hold : ¬ Recent N hdr.xmin) (heq : hdr.xmax = hdr.xmin) (hcid : hdr.cmin < hdr.cmax)
    (hw : N < widen N (xidFromFull hdr.xmin) + 2 ^ 31) : ¬ JudgedRight N hdr := by
  intro h
  obtain ⟨-, hwlt, hlow⟩ := widen_spec hmin.1
  have hne : hdr.xmin ≠ widen N (xidFromFull hdr.xmin) := fun he => hold (by
    unfold Recent
    omega)
  generalize widen N (xidFromFull hdr.xmin) = w at hw hwlt hlow hne
  -- the later transaction runs and everyone else aborted
  let status : Nat → XidStatus := fun y => if y = w then .inProgress else .aborted
  let s : FullSnapshot := ⟨w, N, [w], hdr.cmax⟩
  have hcons : Consistent ⟨N, status⟩ [w] s := by
    refine ⟨hlt, ?_, hN, Nat.le_of_lt hwlt, Nat.le_refl _, hw, ?_, ?_, ?_⟩
    · rw [hlow]
      exact hmin.2
    · intro y hy
      rw [List.mem_singleton.mp hy]
      exact ⟨Nat.le_refl _, hwlt⟩
    · intro y hy
      rw [List.mem_singleton.mp hy]
      exact ⟨Nat.le_refl _, hwlt, if_pos rfl⟩
    · intro y _ _ hy
      show (if y = w then _ else _) ≠ _
      rw [if_neg fun he => hy (List.mem_singleton.mpr he)]
      decide
  have hiff := h ⟨N, status⟩ [w] s rfl hcons fun _ => Or.inl heq.symm
  have hcur : transactionIdIsCurrent [w] (xidFromFull hdr.xmin) = true := by
    simp [transactionIdIsCurrent, hlow]
  have hcode : catalogMvccVisible ⟨N, status⟩ [w] hdr s.data = true := by
    unfold catalogMvccVisible
    dsimp only
    rw [heq, fullXidIsValid_of_normal hmin.2, hcur, data_curcid]
    simp [s, hcid]
  obtain ⟨⟨-, hc⟩, -⟩ := hiff.mp hcode
  rw [if_neg fun hm => hne (List.mem_singleton.mp hm)] at hc
  have hab : status hdr.xmin = .aborted := if_neg hne
  cases hab.symm.trans hc.1

/-- What an old transaction inserted and deleted is seen by nobody, unless a session has its id in 32
bits between the two. -/
theorem judgedRight_own (hmin : hdr.xmin < N ∧ firstNormalTransactionId ≤ xidFromFull hdr.xmin)
    (hold : ¬ Recent N hdr.xmin) (heq : hdr.xmax = hdr.xmin)
    (hcid : hdr.cmax ≤ hdr.cmin ∨ widen N (xidFromFull hdr.xmin) + 2 ^ 31 ≤ N) :
    JudgedRight N hdr := by
  intro x own s hx hcons hset
  subst hx
  have hnot := not_own_of_old hcons hold
  refine iff_of_false (fun hcode => ?_) fun hvis => ?_
  · unfold catalogMvccVisible at hcode
    dsimp only at hcode
    rw [heq, fullXidIsValid_of_normal hmin.2, data_curcid] at hcode
    cases hcur : transactionIdIsCurrent own (xidFromFull hdr.xmin) with
    | true =>
      obtain ⟨o, ho, he⟩ := List.any_eq_true.mp hcur
      obtain ⟨h1, h2, -⟩ := hcons.own_mem o ho
      have h3 := hcons.window
      have hwo : widen x.nextFxid (xidFromFull hdr.xmin) = o := by
        rw [← beq_iff_eq.mp he]
        exact widen_of_lt h2 (by omega)
      have hle : hdr.cmax ≤ hdr.cmin := hcid.resolve_right (by omega)
      by_cases hc : s.curcid ≤ hdr.cmin
      · simp [hcur, hc] at hcode
      · have hc' : ¬ s.curcid ≤ hdr.cmax := by omega
        simp [hcur, hc, hc'] at hcode
    | false =>
      rw [hcur] at hcode
      cases hin : xidInMVCCSnapshot (xidFromFull hdr.xmin) s.data with
      | true => simp [hin] at hcode
      | false =>
        rw [hin] at hcode
        cases hp : transactionIdIsInProgress x (xidFromFull hdr.xmin) <;>
          cases hc : transactionIdDidCommit x (xidFromFull hdr.xmin) <;> simp [hp, hc] at hcode
  · obtain ⟨⟨-, hc⟩, hs⟩ := hvis
    rw [if_neg hnot] at hc
    rcases hs with hs | hs
    · rw [heq, fullXidIsValid_of_normal hmin.2] at hs
      cases hs
    · rw [heq, if_neg hnot] at hs
      rcases hs with hs | hs
      · cases hs.symm.trans hc.1
      · exact hc.2 hs

/-- **A header is judged right exactly when its ids are recent**, or its creator deleted it and no
session can have that transaction's id, in 32 bits, at a command between the two. -/
theorem judgedRight_iff (hlt : N < 2 ^ 64) (hN : firstNormalTransactionId ≤ xidFromFull N)
    (hmin : hdr.xmin < N ∧ firstNormalTransactionId ≤ xidFromFull hdr.xmin)
    (hmax : fullXidIsValid hdr.xmax = true →
      hdr.xmax < N ∧ firstNormalTransactionId ≤ xidFromFull hdr.xmax) :
    JudgedRight N hdr ↔
      (Recent N hdr.xmin ∧ (fullXidIsValid hdr.xmax = true → Recent N hdr.xmax)) ∨
      (hdr.xmax = hdr.xmin ∧
        (hdr.cmax ≤ hdr.cmin ∨ widen N (xidFromFull hdr.xmin) + 2 ^ 31 ≤ N)) := by
  constructor
  · intro h
    by_cases hrmin : Recent N hdr.xmin
    · left
      refine ⟨hrmin, fun hv => ?_⟩
      by_contra hrmax
      exact not_judgedRight_xmax hlt hN hmin hrmin (hmax hv) hrmax h
    · right
      have heq : hdr.xmax = hdr.xmin := by
        by_contra hne
        exact not_judgedRight_xmin hlt hN hmin.1 hmin.2 hrmin hne h
      refine ⟨heq, ?_⟩
      by_contra hc
      rw [not_or, Nat.not_le, Nat.not_le] at hc
      exact not_judgedRight_own hlt hN hmin hrmin heq hc.1 hc.2 h
  · rintro (⟨hrmin, hrmax⟩ | ⟨heq, hcid⟩)
    · intro x own s hx hcons hset
      subst hx
      exact catalogMvccVisible_iff hcons hmin hmax hset hrmin hrmax
    · by_cases hrmin : Recent N hdr.xmin
      · intro x own s hx hcons hset
        subst hx
        exact catalogMvccVisible_iff hcons hmin hmax hset hrmin fun _ => by rwa [heq]
      · exact judgedRight_own hmin hrmin heq hcid

end

/-! ## A row older than half the range of ids -/

/-- A row written by transaction 5 and never deleted. -/
def exampleOldHeader : RecordHeader := ⟨5, 0, 0, invalidCommandId⟩

theorem judgedRight_iff_example :
    JudgedRight (5 + 2 ^ 31 + 1) exampleOldHeader ↔
      (Recent (5 + 2 ^ 31 + 1) 5 ∧ (fullXidIsValid 0 = true → Recent (5 + 2 ^ 31 + 1) 0)) ∨
      (0 = 5 ∧ (invalidCommandId ≤ 0 ∨
        widen (5 + 2 ^ 31 + 1) (xidFromFull 5) + 2 ^ 31 ≤ 5 + 2 ^ 31 + 1)) := by
  have hmin : exampleOldHeader.xmin < 5 + 2 ^ 31 + 1 ∧
    firstNormalTransactionId ≤ xidFromFull exampleOldHeader.xmin := by decide
  exact judgedRight_iff (by decide) (by decide) hmin nofun

/-- Once 2^31 ids have been used after it, a session with a fresh snapshot does not see a committed
row that nobody deleted. -/
theorem judgedRight_fails : ∃ x s, Consistent x [] s ∧ Settled x exampleOldHeader ∧
    Stamped x exampleOldHeader ∧ catalogMvccVisible x [] exampleOldHeader s.data = false ∧
      Visible x [] exampleOldHeader s :=
  ⟨⟨5 + 2 ^ 31 + 1, fun _ => .committed⟩, quietSnapshot (5 + 2 ^ 31 + 1),
    consistent_quiet (by decide) (by decide) (fun _ => by decide), nofun,
    ⟨fun _ => ⟨by decide, by decide⟩, nofun⟩, by decide, by decide⟩

end NeoPostGraph
