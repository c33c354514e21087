import NeoPostGraph.Access.CatalogReads
import NeoPostGraph.Access.EntityStore

/-!
# A scan of an entity table while others write

The scan looks at one page at a time, and between two looks any session, the scanning one included,
may take its steps. It returns what is live to its session at the moment; the snapshot it was given is
not asked. A writer may have committed since the snapshot was taken, and the command of the scan may
have written on.

* `ScanRun base k s σ scan out quiet`: session `k` scans with snapshot `s` and has put `out` in its
  slot. `quiet` says of the steps taken so far that none was one of the three kinds below.
* `LiveSince`, `GoneSince`: a tuple is live and not yet created for the snapshot; the snapshot sees it
  and it has been deleted since.
* `Revives`: a step stamps a tuple behind the scan whose deletion the snapshot sees.
* `ScanExact`: the scan has returned what the snapshot sees, each tuple once.

Results:
* `created_iff_of_step`, `survives_iff_of_step`, `survives_stamp`: what a snapshot sees stays so.
* `visible_of_live`, `live_of_visible`: what is live and what is seen, but for the two kinds.
* `scanExact_iff`: a scan that has come to its end is exact if and only if it was quiet.
-/

namespace NeoPostGraph

open SlottedPage

variable {μ : Type}

/-- A tuple is live, and for the snapshot it has not been created. -/
def LiveSince (x : XactState) (own : List Nat) (hdr : RecordHeader) (s : FullSnapshot) : Prop :=
  npEntityTupleIsLive x own hdr = true ∧
    if hdr.xmin ∈ own then s.curcid ≤ hdr.cmin else s.Running hdr.xmin

/-- The snapshot sees a tuple that the session or a committed transaction has deleted. -/
def GoneSince (x : XactState) (own : List Nat) (hdr : RecordHeader) (s : FullSnapshot) : Prop :=
  Visible x own hdr s ∧ ∃ d, hdr.deleter = some d ∧ (d ∈ own ∨ x.status d = .committed)

/-- A step stamps a tuple behind the scan that was created, and deleted, for the snapshot. -/
def Revives (σ σ' : EntitySystem μ) (own : List Nat) (s : FullSnapshot) (scan : PageScan) : Prop :=
  ∃ tid tuple tuple', σ.table.get tid = some tuple ∧ σ'.table.get tid = some tuple' ∧
    scan.Behind tid ∧ tuple'.hdr ≠ tuple.hdr ∧ Created σ.xacts own tuple.hdr.toRecordHeader s ∧
    ¬ Survives σ.xacts own tuple.hdr.toRecordHeader s

/-- A turn leaves behind no tuple of the first two kinds. -/
def QuietTurn (σ : EntitySystem μ) (own : List Nat) (s : FullSnapshot) (scan scan' : PageScan) :
    Prop :=
  ∀ tid tuple, σ.table.get tid = some tuple → ¬ scan.Behind tid → scan'.Behind tid →
    ¬ LiveSince σ.xacts own tuple.hdr.toRecordHeader s ∧
      ¬ GoneSince σ.xacts own tuple.hdr.toRecordHeader s

/-- What a turn puts in the slot. -/
def turnSlot (t : Table (EntityTuple μ)) : Visit → List (EntitySlot μ)
  | .found tid => ((t.get tid).map fun tuple => tuple.slot tid).toList
  | _ => []

/-- The transaction of session `k` goes on. -/
structure GoesOn (σ σ' : EntitySystem μ) (k : Nat) : Prop where
  session : ∀ t, σ.session k = some t → σ'.session k = some t
  cid : σ.cid k ≤ σ'.cid k

/-- Session `k` scans with snapshot `s`. -/
inductive ScanRun (base k : Nat) (s : FullSnapshot) :
    EntitySystem μ → PageScan → List (EntitySlot μ) → Prop → Prop
  | start {σ : EntitySystem μ} (h : EntityHistory base σ)
      (hs : Consistent σ.xacts (σ.own k) s) (hcid : s.curcid ≤ σ.cid k) :
      ScanRun base k s σ (npEntityStoreScanBegin σ.table) [] True
  /-- A session, perhaps the scanning one, takes a step. -/
  | other {σ σ' : EntitySystem μ} {scan : PageScan} {out : List (EntitySlot μ)} {quiet : Prop}
      (h : ScanRun base k s σ scan out quiet) (hs : EntityStep base σ σ') (hk : GoesOn σ σ' k) :
      ScanRun base k s σ' scan out (quiet ∧ ¬ Revives σ σ' (σ.own k) s scan)
  /-- The scan takes a turn. -/
  | turn {σ : EntitySystem μ} {scan scan' : PageScan} {out : List (EntitySlot μ)} {quiet : Prop}
      {v : Visit} (h : ScanRun base k s σ scan out quiet) (hu : σ.updating k = none)
      (hfree : ¬ σ.Locked scan.cblock)
      (hv : npEntityStoreScanTurn σ.xacts (σ.own k) σ.table scan = (v, scan')) :
      ScanRun base k s σ scan' (out ++ turnSlot σ.table v)
        (quiet ∧ QuietTurn σ (σ.own k) s scan scan')

/-- **The scan has returned exactly what the snapshot sees, each tuple once**, and so nothing its own
command has written. -/
structure ScanExact (σ : EntitySystem μ) (own : List Nat) (s : FullSnapshot)
    (out : List (EntitySlot μ)) : Prop where
  nodup : (out.map EntitySlot.tid).Nodup
  mem : ∀ slot, slot ∈ out ↔ ∃ tuple, σ.table.get slot.tid = some tuple ∧
    slot = tuple.slot slot.tid ∧ Visible σ.xacts own tuple.hdr.toRecordHeader s
  own : ∀ slot ∈ out, ∀ tuple, σ.table.get slot.tid = some tuple → tuple.hdr.xmin ∈ own →
    tuple.hdr.cmin < s.curcid

/-! ## What a snapshot sees stays so -/

/-- What holds of the snapshot as long as the scan is under way. -/
structure SnapshotInv (base : Nat) (σ : EntitySystem μ) (k : Nat) (s : FullSnapshot) : Prop where
  xmin_le : s.xmin ≤ s.xmax
  xmax_le : s.xmax ≤ σ.xacts.nextFxid
  curcid_le : s.curcid ≤ σ.cid k
  /-- What it does not count as running is the session's own or has ended. -/
  finished : ∀ y, σ.xacts.Begun base y → ¬ s.Running y → y ∉ σ.own k →
    σ.xacts.status y ≠ .inProgress

section

variable {base k t y : Nat} {s : FullSnapshot} {σ σ' : EntitySystem μ} {hdr : RecordHeader}
  {tuple tuple' : EntityTuple μ} {tid : ItemPointer} {scan scan' : PageScan}
  {out : List (EntitySlot μ)} {quiet : Prop}

/-- Transactions that begin later are running for the snapshot. -/
theorem SnapshotInv.running_of_le (h : SnapshotInv base σ k s) (hy : σ.xacts.nextFxid ≤ y) :
    s.Running y := by
  have h₁ := h.xmin_le
  have h₂ := h.xmax_le
  unfold FullSnapshot.Running
  omega

theorem SnapshotInv.running_of_open (h : SnapshotInv base σ k s) (hy : σ.xacts.Open base y)
    (ho : y ∉ σ.own k) : s.Running y := by
  by_contra hr
  exact h.finished y hy.1 hr ho hy.2

/-- What a step changes about a transaction of the history does not concern the snapshot. -/
theorem SnapshotInv.stays (h : SnapshotInv base σ k s) (hinv : EntityStoreInv base σ)
    (hs : EntityStep base σ σ') (hk : GoesOn σ σ' k) (hy : σ.xacts.Begun base y) :
    (y ∈ σ'.own k ↔ y ∈ σ.own k) ∧
      (σ'.xacts.status y = σ.xacts.status y ∨ y ∉ σ.own k ∧ s.Running y) := by
  unfold EntitySystem.own
  simp only [Option.mem_toList]
  have hkeep : y ∈ σ.session k → y ∈ σ'.session k := hk.session y
  cases hs.xactEffect with
  | same hx hs =>
    rw [hx, hs]
    exact ⟨Iff.rfl, Or.inl rfl⟩
  | begin k' hk' hroom hx hs =>
    have hne : y ≠ σ.xacts.nextFxid := Nat.ne_of_lt hy.2.1
    refine ⟨⟨fun hm => ?_, hkeep⟩, Or.inl ?_⟩
    · have hm : σ'.session k = some y := hm
      rw [hs, Function.update_apply] at hm
      split at hm
      · exact absurd (Option.some.inj hm).symm hne
      · exact hm
    · rw [hx]
      exact Function.update_of_ne hne ..
  | ends k' hs hnext hended hothers =>
    refine ⟨⟨fun hm => ?_, hkeep⟩, ?_⟩
    · have hm : σ'.session k = some y := hm
      rw [hs, Function.update_apply] at hm
      split at hm
      · cases hm
      · exact hm
    · by_cases hk' : σ.session k' = some y
      · -- the one that ends is not the session of the scan
        have hnot : σ.session k ≠ some y := fun hy' => by
          obtain rfl := hinv.one k k' y hy' hk'
          have hlost := hk.session y hy'
          rw [hs, Function.update_self] at hlost
          cases hlost
        have hown : y ∉ σ.own k := fun ho => hnot (Option.mem_toList.mp ho)
        exact Or.inr ⟨hnot, h.running_of_open (hinv.running k' y hk') hown⟩
      · exact Or.inl (hothers y hk')

theorem SnapshotInv.step (h : SnapshotInv base σ k s) (hinv : EntityStoreInv base σ)
    (hs : EntityStep base σ σ') (hk : GoesOn σ σ' k) : SnapshotInv base σ' k s where
  xmin_le := h.xmin_le
  xmax_le := h.xmax_le.trans (hs.xactEffect.later hinv).next_le
  curcid_le := h.curcid_le.trans hk.cid
  finished y hy hr ho := by
    by_cases hlt : y < σ.xacts.nextFxid
    · have hb : σ.xacts.Begun base y := ⟨hy.1, hlt, hy.2.2⟩
      obtain ⟨hown, hst⟩ := h.stays hinv hs hk hb
      rw [hown] at ho
      rcases hst with hst | ⟨-, hrun⟩
      · rw [hst]
        exact h.finished y hb hr ho
      · exact absurd hrun hr
    · exact absurd (h.running_of_le (Nat.le_of_not_lt hlt)) hr

/-- Whether a tuple was created for the snapshot does not change. -/
theorem created_iff_of_step (h : SnapshotInv base σ k s) (hinv : EntityStoreInv base σ)
    (hs : EntityStep base σ σ') (hk : GoesOn σ σ' k) (hb : σ.xacts.Begun base hdr.xmin) :
    Created σ'.xacts (σ'.own k) hdr s ↔ Created σ.xacts (σ.own k) hdr s := by
  obtain ⟨hown, hst⟩ := h.stays hinv hs hk hb
  unfold Created
  refine and_congr_right fun _ => ?_
  by_cases ho : hdr.xmin ∈ σ.own k
  · rw [if_pos ho, if_pos (hown.mpr ho)]
  · rw [if_neg ho, if_neg fun ho' => ho (hown.mp ho')]
    rcases hst with hst | ⟨-, hrun⟩
    · rw [hst]
    · exact iff_of_false (fun hc => hc.2 hrun) fun hc => hc.2 hrun

/-- Nor whether it survives, as long as nobody stamps it. -/
theorem survives_iff_of_step (h : SnapshotInv base σ k s) (hinv : EntityStoreInv base σ)
    (hs : EntityStep base σ σ') (hk : GoesOn σ σ' k)
    (hb : fullXidIsValid hdr.xmax = true → σ.xacts.Begun base hdr.xmax) :
    Survives σ'.xacts (σ'.own k) hdr s ↔ Survives σ.xacts (σ.own k) hdr s := by
  unfold Survives
  cases hv : fullXidIsValid hdr.xmax with
  | false => simp
  | true =>
    obtain ⟨hown, hst⟩ := h.stays hinv hs hk (hb hv)
    refine or_congr_right ?_
    by_cases ho : hdr.xmax ∈ σ.own k
    · rw [if_pos ho, if_pos (hown.mpr ho)]
    · rw [if_neg ho, if_neg fun ho' => ho (hown.mp ho')]
      rcases hst with hst | ⟨-, hrun⟩
      · rw [hst]
      · exact iff_of_true (Or.inr hrun) (Or.inr hrun)

/-- A tuple a session has just stamped survives for the snapshot. -/
theorem survives_stamp (h : SnapshotInv base σ k s) (hinv : EntityStoreInv base σ) {k' : Nat}
    (hk' : σ.session k' = some t) (tuple : EntityTuple μ) :
    Survives σ.xacts (σ.own k) (stampTuple ⟨t, σ.cid k'⟩ tuple).hdr.toRecordHeader s := by
  right
  show if t ∈ σ.own k then s.curcid ≤ σ.cid k' else σ.xacts.status t = .aborted ∨ s.Running t
  by_cases ho : t ∈ σ.own k
  · rw [if_pos ho, hinv.one k' k t hk' (Option.mem_toList.mp ho)]
    exact h.curcid_le
  · rw [if_neg ho]
    exact Or.inr (h.running_of_open (hinv.running k' t hk') ho)

/-- A tuple a session has just appended was not created for the snapshot. -/
theorem not_created_append (h : SnapshotInv base σ k s) (hinv : EntityStoreInv base σ) {k' : Nat}
    (hk' : σ.session k' = some t) (hxmin : hdr.xmin = t) (hcmin : hdr.cmin = σ.cid k') :
    ¬ Created σ.xacts (σ.own k) hdr s := by
  rintro ⟨-, hc⟩
  rw [hxmin] at hc
  by_cases ho : t ∈ σ.own k
  · rw [if_pos ho, hcmin, hinv.one k' k t hk' (Option.mem_toList.mp ho)] at hc
    exact Nat.not_le.mpr hc h.curcid_le
  · rw [if_neg ho] at hc
    exact hc.2 (h.running_of_open (hinv.running k' t hk') ho)

/-! ## What is live and what is seen -/

theorem live_iff (hinv : EntityStoreInv base σ) (hh : HeaderInv base σ.xacts hdr) :
    npEntityTupleIsLive σ.xacts (σ.own k) hdr = true ↔
      if hdr.xmin ∈ σ.own k then fullXidIsValid hdr.xmax = true → hdr.xmax ∉ σ.own k
      else σ.xacts.status hdr.xmin = .committed ∧ (fullXidIsValid hdr.xmax = true →
        hdr.xmax ∉ σ.own k ∧ σ.xacts.status hdr.xmax ≠ .committed) :=
  npEntityTupleIsLive_full hinv.room (fun _ ho => (hinv.own_open ho).1) hh.xmin
    fun hv => hh.xmax _ (deleter_eq_some.mpr ⟨hv, rfl⟩)

/-- Nobody but the session has deleted what it has created. -/
theorem own_deleter (hinv : EntityStoreInv base σ) (hh : HeaderInv base σ.xacts hdr)
    (ho : hdr.xmin ∈ σ.own k) (hv : fullXidIsValid hdr.xmax = true) : hdr.xmax = hdr.xmin := by
  rcases hh.settled _ (deleter_eq_some.mpr ⟨hv, rfl⟩) with he | hc
  · exact he
  · cases (hinv.own_open ho).2.symm.trans hc

/-- **What is live is seen, but for what was created since.** -/
theorem visible_of_live (h : SnapshotInv base σ k s) (hinv : EntityStoreInv base σ)
    (hh : HeaderInv base σ.xacts hdr) (hl : npEntityTupleIsLive σ.xacts (σ.own k) hdr = true)
    (hno : ¬ LiveSince σ.xacts (σ.own k) hdr s) : Visible σ.xacts (σ.own k) hdr s := by
  have hsince : ¬ if hdr.xmin ∈ σ.own k then s.curcid ≤ hdr.cmin else s.Running hdr.xmin :=
    fun hc => hno ⟨hl, hc⟩
  rw [live_iff hinv hh] at hl
  by_cases ho : hdr.xmin ∈ σ.own k
  · rw [if_pos ho] at hl hsince
    refine ⟨⟨hh.xmin.valid, ?_⟩, Or.inl ?_⟩
    · rw [if_pos ho]
      omega
    · -- its deleter would be the session
      rw [← Bool.not_eq_true]
      intro hv
      exact hl hv (by rw [own_deleter hinv hh ho hv]; exact ho)
  · rw [if_neg ho] at hl hsince
    refine ⟨⟨hh.xmin.valid, ?_⟩, ?_⟩
    · rw [if_neg ho]
      exact ⟨hl.1, hsince⟩
    · cases hv : fullXidIsValid hdr.xmax with
      | false => exact Or.inl hv
      | true =>
        obtain ⟨hown, hcom⟩ := hl.2 hv
        refine Or.inr ?_
        rw [if_neg hown]
        have hb := hh.xmax _ (deleter_eq_some.mpr ⟨hv, rfl⟩)
        cases hst : σ.xacts.status hdr.xmax with
        | committed => exact absurd hst hcom
        | aborted => exact Or.inl rfl
        | inProgress => exact Or.inr (h.running_of_open ⟨hb, hst⟩ hown)

/-- What was created since was not created for the snapshot. -/
theorem LiveSince.not_created (h : LiveSince σ.xacts (σ.own k) hdr s) :
    ¬ Created σ.xacts (σ.own k) hdr s := by
  rintro ⟨-, hc⟩
  have hs := h.2
  by_cases ho : hdr.xmin ∈ σ.own k
  · rw [if_pos ho] at hc hs
    omega
  · rw [if_neg ho] at hc hs
    exact hc.2 hs

/-- **What is seen is live, but for what was deleted since.** -/
theorem live_of_visible (hinv : EntityStoreInv base σ) (hh : HeaderInv base σ.xacts hdr)
    (hv : Visible σ.xacts (σ.own k) hdr s) (hno : ¬ GoneSince σ.xacts (σ.own k) hdr s) :
    npEntityTupleIsLive σ.xacts (σ.own k) hdr = true := by
  have hdel : fullXidIsValid hdr.xmax = true → hdr.xmax ∉ σ.own k ∧
      σ.xacts.status hdr.xmax ≠ .committed := fun hvx =>
    not_or.mp fun hd => hno ⟨hv, _, deleter_eq_some.mpr ⟨hvx, rfl⟩, hd⟩
  rw [live_iff hinv hh]
  by_cases ho : hdr.xmin ∈ σ.own k
  · rw [if_pos ho]
    exact fun hvx => (hdel hvx).1
  · rw [if_neg ho]
    have hc := hv.1.2
    rw [if_neg ho] at hc
    exact ⟨hc.1, hdel⟩

/-- What was deleted since is not live. -/
theorem GoneSince.not_live (h : GoneSince σ.xacts (σ.own k) hdr s) (hinv : EntityStoreInv base σ)
    (hh : HeaderInv base σ.xacts hdr) : npEntityTupleIsLive σ.xacts (σ.own k) hdr ≠ true := by
  obtain ⟨-, d, hd, hgone⟩ := h
  obtain ⟨hv, rfl⟩ := deleter_eq_some.mp hd
  rw [Ne, live_iff hinv hh]
  intro hl
  by_cases ho : hdr.xmin ∈ σ.own k
  · rw [if_pos ho] at hl
    exact hl hv (by rw [own_deleter hinv hh ho hv]; exact ho)
  · rw [if_neg ho] at hl
    rcases hgone with hown | hcom
    · exact (hl.2 hv).1 hown
    · exact (hl.2 hv).2 hcom

/-! ## The scan -/

/-- The slot of a tid is filled. -/
def Returned (out : List (EntitySlot μ)) (tid : ItemPointer) : Prop := tid ∈ out.map EntitySlot.tid

/-- What holds of a scan under way. -/
structure ScanInv (base k : Nat) (s : FullSnapshot) (σ : EntitySystem μ) (scan : PageScan)
    (out : List (EntitySlot μ)) (quiet : Prop) : Prop where
  inv : EntityStoreInv base σ
  snap : SnapshotInv base σ k s
  nodup : (out.map EntitySlot.tid).Nodup
  behind : ∀ tid, Returned out tid → scan.Behind tid
  /-- What has been returned is still there, and nobody has deleted it for the snapshot. -/
  slots : ∀ slot ∈ out, ∃ tuple, σ.table.get slot.tid = some tuple ∧ slot = tuple.slot slot.tid ∧
    (Created σ.xacts (σ.own k) tuple.hdr.toRecordHeader s →
      Survives σ.xacts (σ.own k) tuple.hdr.toRecordHeader s)
  /-- What was created for the snapshot lies in the blocks of the scan. -/
  blocks : ∀ tid tuple, σ.table.get tid = some tuple →
    Created σ.xacts (σ.own k) tuple.hdr.toRecordHeader s → tid.block < scan.nblocks
  /-- The scan is right about what is behind it exactly if it has been quiet. -/
  right : quiet ↔ ∀ tid tuple, σ.table.get tid = some tuple → scan.Behind tid →
    (Returned out tid ↔ Visible σ.xacts (σ.own k) tuple.hdr.toRecordHeader s)

/-- What has been returned, at its tid. -/
theorem ScanInv.survives (h : ScanInv base k s σ scan out quiet) (hr : Returned out tid)
    (hg : σ.table.get tid = some tuple)
    (hc : Created σ.xacts (σ.own k) tuple.hdr.toRecordHeader s) :
    Visible σ.xacts (σ.own k) tuple.hdr.toRecordHeader s := by
  obtain ⟨slot, hslot, rfl⟩ := List.mem_map.mp hr
  obtain ⟨tuple₁, hg₁, -, hsurv⟩ := h.slots slot hslot
  obtain rfl := Option.some.inj (hg.symm.trans hg₁)
  exact ⟨hc, hsurv hc⟩

theorem ScanInv.start (h : EntityHistory base σ) (hs : Consistent σ.xacts (σ.own k) s)
    (hcid : s.curcid ≤ σ.cid k) :
    ScanInv base k s σ (npEntityStoreScanBegin σ.table) [] True where
  inv := h.inv
  snap := ⟨hs.xmin_le, hs.xmax_le, hcid, fun y hy hr ho => hs.finished y hy.2 hr ho⟩
  nodup := List.nodup_nil
  behind _ hr := absurd hr List.not_mem_nil
  slots _ hs := absurd hs List.not_mem_nil
  blocks tid tuple hg _ := by
    obtain ⟨p, hp, -⟩ := Option.bind_eq_some_iff.mp hg
    exact (List.getElem?_eq_some_iff.mp hp).1
  right := iff_of_true trivial fun tid _ _ hb => absurd hb (PageScan.not_behind_start _ tid)

/-- A tuple after a step of some session: what the snapshot makes of it has not changed, it was
revived, or it is new and was not there for the snapshot. -/
theorem ScanInv.tuple_cases (h : ScanInv base k s σ scan out quiet) (hs : EntityStep base σ σ')
    (hk : GoesOn σ σ' k) (hg' : σ'.table.get tid = some tuple') :
    (∃ tuple, σ.table.get tid = some tuple ∧
      (Created σ'.xacts (σ'.own k) tuple'.hdr.toRecordHeader s ↔
        Created σ.xacts (σ.own k) tuple.hdr.toRecordHeader s) ∧
      (Survives σ'.xacts (σ'.own k) tuple'.hdr.toRecordHeader s ↔
          Survives σ.xacts (σ.own k) tuple.hdr.toRecordHeader s ∨ tuple'.hdr ≠ tuple.hdr)) ∨
      σ.table.get tid = none ∧ ¬ Created σ'.xacts (σ'.own k) tuple'.hdr.toRecordHeader s := by
  rcases (hs.tableEffect h.inv).get_cases hg' with hg |
    ⟨k', t, hk', hx, hnone, hxmin, hcmin, -⟩ | ⟨k', t, tuple, hk', hx, hg, -, rfl⟩
  · have hh := h.inv.header tid tuple' hg
    refine Or.inl ⟨tuple', hg, created_iff_of_step h.snap h.inv hs hk hh.xmin, ?_⟩
    rw [survives_iff_of_step h.snap h.inv hs hk fun hv => hh.xmax _ (deleter_eq_some.mpr ⟨hv, rfl⟩)]
    simp
  · have hb : σ.xacts.Begun base tuple'.hdr.xmin := by
      rw [hxmin]
      exact (h.inv.running k' t hk').1
    refine Or.inr ⟨hnone, ?_⟩
    rw [created_iff_of_step h.snap h.inv hs hk hb]
    exact not_created_append h.snap h.inv hk' hxmin hcmin
  · have hh := h.inv.header tid tuple hg
    refine Or.inl ⟨tuple, hg, created_iff_of_step h.snap h.inv hs hk hh.xmin, ?_⟩
    rw [survives_iff_of_step h.snap h.inv hs hk fun _ => (h.inv.running k' t hk').1]
    have hsurv := survives_stamp h.snap h.inv hk' tuple
    refine iff_of_true hsurv ?_
    by_cases he : (stampTuple ⟨t, σ.cid k'⟩ tuple).hdr = tuple.hdr
    · rw [he] at hsurv
      exact Or.inl hsurv
    · exact Or.inr he

/-- **A step of some session keeps the invariant.** -/
theorem ScanInv.other (h : ScanInv base k s σ scan out quiet) (hs : EntityStep base σ σ')
    (hk : GoesOn σ σ' k) :
    ScanInv base k s σ' scan out (quiet ∧ ¬ Revives σ σ' (σ.own k) s scan) where
  inv := h.inv.step hs
  snap := h.snap.step h.inv hs hk
  nodup := h.nodup
  behind := h.behind
  slots slot hslot := by
    obtain ⟨tuple, hg, he, hsurv⟩ := h.slots slot hslot
    obtain ⟨tuple', hg', -, -, hslot'⟩ := (hs.tableEffect h.inv).keeps hg
    refine ⟨tuple', hg', he.trans hslot'.symm, fun hc => ?_⟩
    rcases h.tuple_cases hs hk hg' with ⟨tuple₁, hg₁, hcreated, hsurvives⟩ | ⟨hnone, -⟩
    · obtain rfl := Option.some.inj (hg.symm.trans hg₁)
      exact hsurvives.mpr (Or.inl (hsurv (hcreated.mp hc)))
    · cases hnone.symm.trans hg
  blocks tid tuple' hg' hc := by
    rcases h.tuple_cases hs hk hg' with ⟨tuple, hg, hcreated, -⟩ | ⟨-, hnot⟩
    · exact h.blocks tid tuple hg (hcreated.mp hc)
    · exact absurd hc hnot
  right := by
    rw [h.right]
    constructor
    · rintro ⟨hright, hquiet⟩ tid tuple' hg' hb
      rcases h.tuple_cases hs hk hg' with ⟨tuple, hg, hcreated, hsurvives⟩ | ⟨hnone, hnot⟩
      · rw [hright tid tuple hg hb]
        refine ⟨fun hv => ⟨hcreated.mpr hv.1, hsurvives.mpr (Or.inl hv.2)⟩, fun hv => ?_⟩
        have hc := hcreated.mp hv.1
        by_contra hns
        rcases hsurvives.mp hv.2 with hsurv | hne
        · exact hns ⟨hc, hsurv⟩
        · exact hquiet ⟨tid, tuple, tuple', hg, hg', hb, hne, hc, fun hsurv => hns ⟨hc, hsurv⟩⟩
      · refine iff_of_false (fun hr => ?_) fun hv => hnot hv.1
        obtain ⟨slot, hslot, rfl⟩ := List.mem_map.mp hr
        obtain ⟨tuple, hg, -, -⟩ := h.slots slot hslot
        cases hnone.symm.trans hg
    · intro hright
      refine ⟨fun tid tuple hg hb => ?_, ?_⟩
      · obtain ⟨tuple', hg', -, -, -⟩ := (hs.tableEffect h.inv).keeps hg
        have hiff := hright tid tuple' hg' hb
        rcases h.tuple_cases hs hk hg' with ⟨tuple₁, hg₁, hcreated, hsurvives⟩ | ⟨hnone, -⟩
        · obtain rfl := Option.some.inj (hg.symm.trans hg₁)
          exact ⟨fun hr => h.survives hr hg (hcreated.mp (hiff.mp hr).1), fun hv =>
            hiff.mpr ⟨hcreated.mpr hv.1, hsurvives.mpr (Or.inl hv.2)⟩⟩
        · cases hnone.symm.trans hg
      · -- a revived tuple is seen now, and so has been returned
        rintro ⟨tid, tuple, tuple', hg, hg', hb, hne, hc, hns⟩
        rcases h.tuple_cases hs hk hg' with ⟨tuple₁, hg₁, hcreated, hsurvives⟩ | ⟨hnone, -⟩
        · obtain rfl := Option.some.inj (hg.symm.trans hg₁)
          have hr := (hright tid tuple' hg' hb).mpr ⟨hcreated.mpr hc, hsurvives.mpr (Or.inr hne)⟩
          exact hns (h.survives hr hg hc).2
        · cases hnone.symm.trans hg

/-- The tids a turn returns. -/
theorem returned_turnSlot {t : Table (EntityTuple μ)} {v : Visit}
    (hv : ∀ tid, v = .found tid → ∃ tuple, t.get tid = some tuple) :
    Returned (turnSlot t v) tid ↔ v = .found tid := by
  unfold Returned turnSlot
  cases v with
  | found tid' =>
    obtain ⟨tuple, hg⟩ := hv tid' rfl
    dsimp only
    rw [hg]
    simp [EntityTuple.slot, eq_comm]
  | more => simp
  | done => simp

/-- A tuple passes the test of the scan when it is live. -/
theorem passes_iff_live {x : XactState} {own : List Nat} {t : Table (EntityTuple μ)}
    (hg : t.get tid = some tuple) : t.passes (entityScanTest x own) tid = true ↔
      npEntityTupleIsLive x own tuple.hdr.toRecordHeader = true := by
  rw [Table.get_eq_lp] at hg
  obtain ⟨lp, hlp, rfl⟩ := Option.map_eq_some_iff.mp hg
  unfold Table.passes entityScanTest
  rw [hlp]
  rfl

theorem exists_of_passes {α : Type} {t : Table α} {q : Nat × α → Bool}
    (h : t.passes q tid = true) : ∃ a, t.get tid = some a := by
  unfold Table.passes at h
  rw [Table.get_eq_lp]
  cases hlp : t.lp tid with
  | none =>
    rw [hlp] at h
    cases h
  | some lp => exact ⟨lp.2, rfl⟩

/-- **What a turn leaves behind**: of the live tuples the one it returns, which was not behind. -/
theorem turn_spec {v : Visit}
    (hv : npEntityStoreScanTurn σ.xacts (σ.own k) σ.table scan = (v, scan')) :
    scan'.nblocks = scan.nblocks ∧ (∀ tid, scan.Behind tid → scan'.Behind tid) ∧
      (∀ tid, v = .found tid → ¬ scan.Behind tid ∧ scan'.Behind tid ∧ ∃ tuple,
        σ.table.get tid = some tuple ∧
          npEntityTupleIsLive σ.xacts (σ.own k) tuple.hdr.toRecordHeader = true) ∧
      ∀ tid tuple, σ.table.get tid = some tuple →
        npEntityTupleIsLive σ.xacts (σ.own k) tuple.hdr.toRecordHeader = true →
        ¬ scan.Behind tid → scan'.Behind tid → v = .found tid := by
  have hspec := PageScan.visit_spec σ.table (entityScanTest σ.xacts (σ.own k)) scan
  have hblocks := PageScan.nblocks_visit σ.table (entityScanTest σ.xacts (σ.own k)) scan
  have hback : ∀ tid, scan.Behind tid → _ := fun tid hb =>
    PageScan.Behind.visit hb σ.table (entityScanTest σ.xacts (σ.own k))
  unfold npEntityStoreScanTurn at hv
  rw [hv] at hspec hblocks hback
  refine ⟨hblocks, hback, fun tid he => ?_, fun tid tuple hg hl hnot hb => ?_⟩
  · subst he
    obtain ⟨hnot, hpass, hb, -⟩ := hspec
    obtain ⟨tuple, hg⟩ := exists_of_passes hpass
    exact ⟨hnot, hb, tuple, hg, (passes_iff_live hg).mp hpass⟩
  · have hpass := (passes_iff_live hg).mpr hl
    cases v with
    | found tid' =>
      by_contra hne
      exact hnot ((hspec.2.2.2 tid (fun he => hne (by rw [he])) hpass).mp hb)
    | more => exact absurd ((hspec tid hpass).mp hb) hnot
    | done =>
      have he : scan' = scan := hspec.1
      rw [he] at hb
      exact absurd hb hnot

/-- **A turn keeps the invariant.** -/
theorem ScanInv.turn (h : ScanInv base k s σ scan out quiet) {v : Visit}
    (hv : npEntityStoreScanTurn σ.xacts (σ.own k) σ.table scan = (v, scan')) :
    ScanInv base k s σ scan' (out ++ turnSlot σ.table v)
      (quiet ∧ QuietTurn σ (σ.own k) s scan scan') := by
  obtain ⟨hblocks, hback, hfound, hlive⟩ := turn_spec hv
  have hnew : ∀ tid, Returned (turnSlot σ.table v) tid ↔ v = .found tid := fun tid =>
    returned_turnSlot fun tid he => by
      obtain ⟨-, -, tuple, hg, -⟩ := hfound tid he
      exact ⟨tuple, hg⟩
  have hreturned : ∀ tid, Returned (out ++ turnSlot σ.table v) tid ↔
      Returned out tid ∨ v = .found tid := fun tid => by
    unfold Returned at hnew ⊢
    rw [List.map_append, List.mem_append, hnew]
  -- what was behind before is not returned now
  have hbefore : ∀ tid, scan.Behind tid → (Returned (out ++ turnSlot σ.table v) tid ↔
      Returned out tid) := fun tid hb => by
    rw [hreturned]
    exact or_iff_left fun he => (hfound tid he).1 hb
  have hafter : ∀ tid, ¬ scan.Behind tid → (Returned (out ++ turnSlot σ.table v) tid ↔
      v = .found tid) := fun tid hb => by
    rw [hreturned]
    exact or_iff_right fun hr => hb (h.behind tid hr)
  refine ⟨h.inv, h.snap, ?_, fun tid hr => ?_, fun slot hslot => ?_, fun tid tuple hg hc => ?_, ?_⟩
  · rw [List.map_append, List.nodup_append]
    refine ⟨h.nodup, ?_, fun a ha b hb he => ?_⟩
    · cases v with
      | found tid =>
        obtain ⟨-, -, tuple, hg, -⟩ := hfound tid rfl
        unfold turnSlot
        dsimp only
        rw [hg]
        exact List.nodup_singleton _
      | more => exact List.nodup_nil
      | done => exact List.nodup_nil
    · subst he
      exact (hfound a ((hnew a).mp hb)).1 (h.behind a ha)
  · rcases (hreturned tid).mp hr with hr | he
    · exact hback tid (h.behind tid hr)
    · exact (hfound tid he).2.1
  · rcases List.mem_append.mp hslot with hslot | hslot
    · exact h.slots slot hslot
    · have he := (hnew slot.tid).mp (List.mem_map_of_mem hslot)
      obtain ⟨-, -, tuple, hg, hl⟩ := hfound _ he
      refine ⟨tuple, hg, ?_, fun hc => ?_⟩
      · rw [he] at hslot
        unfold turnSlot at hslot
        dsimp only at hslot
        rw [hg] at hslot
        simpa using hslot
      · exact (visible_of_live h.snap h.inv (h.inv.header _ tuple hg) hl
          fun hs => hs.not_created hc).2
  · rw [hblocks]
    exact h.blocks tid tuple hg hc
  · rw [h.right]
    constructor
    · rintro ⟨hright, hquiet⟩ tid tuple hg hb'
      by_cases hb : scan.Behind tid
      · rw [hbefore tid hb]
        exact hright tid tuple hg hb
      · obtain ⟨hnolive, hnogone⟩ := hquiet tid tuple hg hb hb'
        have hh := h.inv.header tid tuple hg
        rw [hafter tid hb]
        constructor
        · intro he
          obtain ⟨-, -, tuple₁, hg₁, hl⟩ := hfound tid he
          obtain rfl := Option.some.inj (hg.symm.trans hg₁)
          exact visible_of_live h.snap h.inv hh hl hnolive
        · intro hvis
          exact hlive tid tuple hg (live_of_visible h.inv hh hvis hnogone) hb hb'
    · intro hright
      refine ⟨fun tid tuple hg hb => ?_, fun tid tuple hg hb hb' => ?_⟩
      · rw [← hbefore tid hb]
        exact hright tid tuple hg (hback tid hb)
      · have hiff := hright tid tuple hg hb'
        rw [hafter tid hb] at hiff
        refine ⟨fun hs => ?_, fun hs => ?_⟩
        · exact hs.not_created (hiff.mp (hlive tid tuple hg hs.1 hb hb')).1
        · obtain ⟨-, -, tuple₁, hg₁, hl⟩ := hfound tid (hiff.mpr hs.1)
          obtain rfl := Option.some.inj (hg.symm.trans hg₁)
          exact hs.not_live h.inv (h.inv.header tid tuple hg) hl

theorem ScanRun.inv (h : ScanRun base k s σ scan out quiet) :
    ScanInv base k s σ scan out quiet := by
  induction h with
  | start h hs hcid => exact .start h hs hcid
  | other h hs hk ih => exact ih.other hs hk
  | turn h hu hfree hv ih => exact ih.turn hv

/-- **A scan that has come to its end has returned exactly what its snapshot sees if and only if it
was quiet.** -/
theorem scanExact_iff (h : ScanRun base k s σ scan out quiet) (hend : scan.AtEnd) :
    ScanExact σ (σ.own k) s out ↔ quiet := by
  have hinv := h.inv
  rw [hinv.right]
  constructor
  · intro hexact tid tuple hg hb
    constructor
    · intro hr
      obtain ⟨slot, hslot, rfl⟩ := List.mem_map.mp hr
      obtain ⟨tuple₁, hg₁, -, hv⟩ := (hexact.mem slot).mp hslot
      obtain rfl := Option.some.inj (hg.symm.trans hg₁)
      exact hv
    · intro hv
      have hslot : tuple.slot tid ∈ out := (hexact.mem _).mpr ⟨tuple, hg, rfl, hv⟩
      exact List.mem_map.mpr ⟨_, hslot, rfl⟩
  · intro hright
    have hseen : ∀ slot ∈ out, ∃ tuple, σ.table.get slot.tid = some tuple ∧
        slot = tuple.slot slot.tid ∧ Visible σ.xacts (σ.own k) tuple.hdr.toRecordHeader s := by
      intro slot hslot
      obtain ⟨tuple, hg, he, -⟩ := hinv.slots slot hslot
      have hr : Returned out slot.tid := List.mem_map_of_mem hslot
      exact ⟨tuple, hg, he, (hright _ tuple hg (hinv.behind _ hr)).mp hr⟩
    refine ⟨hinv.nodup, fun slot => ⟨hseen slot, ?_⟩, fun slot hslot tuple hg ho => ?_⟩
    · rintro ⟨tuple, hg, he, hv⟩
      have hb := hend.behind (hinv.blocks _ tuple hg hv.1)
      obtain ⟨slot', hslot', htid⟩ := List.mem_map.mp ((hright _ tuple hg hb).mpr hv)
      obtain ⟨tuple', hg', he', -⟩ := hinv.slots slot' hslot'
      rw [htid] at hg' he'
      obtain rfl := Option.some.inj (hg.symm.trans hg')
      rw [he, ← he']
      exact hslot'
    · obtain ⟨tuple₁, hg₁, -, hv⟩ := hseen slot hslot
      obtain rfl := Option.some.inj (hg.symm.trans hg₁)
      have hc := hv.1.2
      rw [if_pos ho] at hc
      exact hc

end

/-! ## A writer that commits while the scan is under way -/

/-- The vertex of the example. -/
def exampleScanned : EntityTuple Vertex := newEntityTuple ⟨5, 0⟩ 1 .invalid ⟨1, 1, 0⟩ npEmptyGtypeObject

/-- Session 0 has inserted a vertex and still runs. -/
def exampleOpenInsert : EntitySystem Vertex where
  xacts := XactState.begin ⟨5, fun _ => .aborted⟩
  table := ⟨[⟨[some (totalTupleSize sizeOfVertex npEmptyGtypeObject, exampleScanned)]⟩]⟩
  session := Function.update (fun _ => none) 0 (some 5)
  cid _ := 0
  updating _ := none

theorem exampleOpenInsert_history : EntityHistory 5 exampleOpenInsert := by
  have hempty : EntityHistory 5 (EntitySystem.empty (μ := Vertex) 5 fun _ => .aborted) :=
    .empty _ (by decide) (by decide) nofun
  have hfree : ∀ {σ : EntitySystem Vertex}, (∀ k, σ.updating k = none) → σ.LastFree := by
    rintro σ hnone ⟨k, c, hc, -⟩
    cases (hnone k).symm.trans hc
  exact (hempty.step (.begin 0 rfl (by decide))).step
    (@EntityStep.insert _ 5 _ 0 5 _ ⟨0, 1⟩ 1 ⟨1, 1, 0⟩ sizeOfVertex npEmptyGtypeObject rfl rfl
      (hfree fun _ => rfl) rfl)

/-- The snapshot of session 1, which has written nothing, counts it as running. -/
def exampleScanSnapshot : FullSnapshot := ⟨5, 6, [5], 0⟩

theorem exampleScanSnapshot_consistent :
    Consistent exampleOpenInsert.xacts (exampleOpenInsert.own 1) exampleScanSnapshot where
  next_lt := by decide
  xmin_normal := by decide
  xmax_normal := by decide
  xmin_le := by decide
  xmax_le := by decide
  window := by decide
  xip_mem := by decide
  own_mem := nofun
  finished := by
    rintro y - hrun -
    have hne : y ≠ 5 := fun he => hrun (by rw [he]; decide)
    show Function.update _ 5 _ y ≠ _
    rw [Function.update_of_ne hne]
    exact XidStatus.noConfusion

/-- Session 0 commits. -/
def exampleCommitted : EntitySystem Vertex :=
  exampleOpenInsert.endXact 0 (exampleOpenInsert.xacts.commit 5)

/-- That the scan below was quiet. -/
def exampleQuiet : Prop :=
  ((True ∧ ¬ Revives exampleOpenInsert exampleCommitted (exampleOpenInsert.own 1)
      exampleScanSnapshot ⟨1, 0, 1, false⟩) ∧
    QuietTurn exampleCommitted (exampleCommitted.own 1) exampleScanSnapshot ⟨1, 0, 1, false⟩
      ⟨1, 0, 2, true⟩) ∧
    QuietTurn exampleCommitted (exampleCommitted.own 1) exampleScanSnapshot ⟨1, 0, 2, true⟩
      ⟨1, 1, 2, false⟩

/-- The scan begins, session 0 commits, and the scan looks at the page twice. -/
theorem exampleScan_run : ScanRun 5 1 exampleScanSnapshot exampleCommitted ⟨1, 1, 2, false⟩
    [exampleScanned.slot ⟨0, 1⟩] exampleQuiet := by
  have hfree : ¬ exampleCommitted.Locked 0 := by
    rintro ⟨k, c, hc, -⟩
    have hc : Function.update (fun _ => none) 0 none k = some c := hc
    rw [Function.update_apply] at hc
    split at hc <;> cases hc
  have hstart := ScanRun.start exampleOpenInsert_history exampleScanSnapshot_consistent (Nat.le_refl 0)
  have hstep : EntityStep 5 exampleOpenInsert exampleCommitted := .commit rfl rfl
  have hcommit := hstart.other hstep ⟨nofun, Nat.le_refl 0⟩
  have hfound : npEntityStoreScanTurn exampleCommitted.xacts (exampleCommitted.own 1)
      exampleCommitted.table ⟨1, 0, 1, false⟩ = (.found ⟨0, 1⟩, ⟨1, 0, 2, true⟩) := by decide
  have hmore : npEntityStoreScanTurn exampleCommitted.xacts (exampleCommitted.own 1)
      exampleCommitted.table ⟨1, 0, 2, true⟩ = (.more, ⟨1, 1, 2, false⟩) := by decide
  exact (hcommit.turn rfl hfree hfound).turn rfl hfree hmore

/-- What the scan returns is exact if and only if it was quiet. -/
theorem scanExact_iff_example : ScanExact exampleCommitted (exampleCommitted.own 1)
    exampleScanSnapshot [exampleScanned.slot ⟨0, 1⟩] ↔ exampleQuiet :=
  scanExact_iff exampleScan_run ⟨rfl, by decide⟩

/-- The scan has returned the vertex, and its snapshot does not see it. -/
theorem scanExact_fails : ScanRun 5 1 exampleScanSnapshot exampleCommitted ⟨1, 1, 2, false⟩
      [exampleScanned.slot ⟨0, 1⟩] exampleQuiet ∧
    PageScan.AtEnd ⟨1, 1, 2, false⟩ ∧
    ¬ ScanExact exampleCommitted (exampleCommitted.own 1) exampleScanSnapshot
      [exampleScanned.slot ⟨0, 1⟩] := by
  refine ⟨exampleScan_run, ⟨rfl, by decide⟩, fun h => ?_⟩
  obtain ⟨tuple, hg, -, hv⟩ := (h.mem _).mp List.mem_cons_self
  have hscanned : exampleCommitted.table.get ⟨0, 1⟩ = some exampleScanned := rfl
  obtain rfl := Option.some.inj (hscanned.symm.trans hg)
  revert hv
  decide

end NeoPostGraph
