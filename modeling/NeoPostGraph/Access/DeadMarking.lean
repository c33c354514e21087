import Mathlib.Logic.Relation
import NeoPostGraph.Access.CatalogRun

/-!
# When an index entry may be marked dead

`np_catalog_index_fetch_tuple` reports all of a tid dead, and `np_catalog_index_delete_tuples` marks
an entry deletable, when the session that asks does not find the item live now. An index drops such an
entry for everyone.

* `ReportedDead σ k t tid`: session `k` is told so.
* `Sees σ p rel tid`: a registered snapshot sees the item.
* `NeverSeen σ rel tid`: no registered snapshot does, now or in any continuation.
* `Dead σ rel tid hdr`: the creator aborted, or the deletion is behind every snapshot and stays.

Results:
* `Dead.step`: what is dead stays so.
* `deadMarking_iff`: what a session is told is right exactly when the item is dead in this sense, or
  live to the session.
-/

namespace NeoPostGraph

open SlottedPage

/-- `np_catalog_index_delete_tuples` (`np_catalog_heap.c:750-774`): the entries with their
`knowndeletable` flags. -/
def npCatalogIndexDeleteTuples (x : XactState) (own : List Nat) (t : Table CatalogItem) :
    List (ItemPointer × Bool) → Except Err (List Bool)
  | [] => .ok []
  | (tid, knowndeletable) :: rest => do
    let page ← readBuffer t tid.block
    let dead := match (page.lp tid.offset).filter npCatalogItemIsFetchable with
      | none => true
      | some lp => !npEntityTupleIsLive x own lp.2.toRecordHeader
    return (knowndeletable || dead) :: (← npCatalogIndexDeleteTuples x own t rest)

/-- Session `k` is told that all of a tid is dead, or that an entry for it, not known to be deletable
so far, may go. -/
def ReportedDead (σ : CatalogSystem) (k : Nat) (t : Table CatalogItem) (tid : ItemPointer) : Prop :=
  (∃ snapshot f, npCatalogIndexFetchTuple ⟨σ.xacts, σ.own k, snapshot⟩ t tid = .ok f ∧
    f.allDead = true) ∨
  ∃ (deltids : List (ItemPointer × Bool)) (marks : List Bool) (n : Nat),
    npCatalogIndexDeleteTuples σ.xacts (σ.own k) t deltids = .ok marks ∧
      deltids[n]? = some (tid, false) ∧ marks[n]? = some true

/-- A registered snapshot sees the item at a tid. -/
def Sees (σ : CatalogSystem) (p : Nat × FullSnapshot) (rel : Oid) (tid : ItemPointer) : Prop :=
  ∃ t lp, σ.inst.catalogs rel = some t ∧ t.lp tid = some lp ∧ npCatalogItemIsFetchable lp = true ∧
    Visible σ.xacts (σ.own p.1) lp.2.toRecordHeader p.2

/-- **No snapshot that is registered, or will be in any continuation, sees the item.** -/
def NeverSeen (base : Nat) (σ : CatalogSystem) (rel : Oid) (tid : ItemPointer) : Prop :=
  ∀ σ', Relation.ReflTransGen (CatalogStep base) σ σ' → ∀ p ∈ σ'.registered, ¬ Sees σ' p rel tid

/-- The update will stamp the item, if nothing stops it. -/
def UpdateCall.WillStamp (c : UpdateCall) (rel : Oid) (tid : ItemPointer) : Prop :=
  c.rel = rel ∧ c.otid = tid ∧ (c.written = true ∨ Fits (npCatalogPackSize c.tuple))

/-- The item is dead for good.

* Its creator aborted.
* Its deleter committed, every registered snapshot that counts the deleter as running counts the
  creator as running too, and no session is about to put another deleter over it.
* Its creator, which still runs, deleted it: in the command that created it, or in a command before
  the current one with no snapshot of its own registered in between. -/
def Dead (σ : CatalogSystem) (rel : Oid) (tid : ItemPointer) (hdr : RecordHeader) : Prop :=
  σ.xacts.status hdr.xmin = .aborted ∨
  (∃ d, hdr.deleter = some d ∧ σ.xacts.status d = .committed ∧
    (∀ p ∈ σ.registered, p.2.Running d → p.2.Running hdr.xmin) ∧
    ∀ k c, σ.updating k = some c → ¬ c.WillStamp rel tid) ∨
  (hdr.deleter = some hdr.xmin ∧ σ.xacts.status hdr.xmin = .inProgress ∧
    (hdr.cmax ≤ hdr.cmin ∨ ∃ k, σ.session k = some hdr.xmin ∧ hdr.cmax < σ.cid k ∧
      ∀ p ∈ σ.registered, p.1 = k → ¬ (hdr.cmin < p.2.curcid ∧ p.2.curcid ≤ hdr.cmax)))

section

variable {base k : Nat} {σ σ' : CatalogSystem} {rel : Oid} {tid : ItemPointer}
  {t : Table CatalogItem} {lp : Nat × CatalogItem} {hdr : RecordHeader}

/-! ## What is reported -/

theorem fetch_allDead {r : CatalogReader} (h : t.lp tid = some lp) {f : IndexFetch}
    (hf : npCatalogIndexFetchTuple r t tid = .ok f) : f.allDead = true ↔
      (npCatalogItemIsFetchable lp = true →
        npEntityTupleIsLive r.xacts r.own lp.2.toRecordHeader = false) := by
  obtain ⟨page, hp, hlp⟩ := Option.bind_eq_some_iff.mp h
  have hread : readBuffer t tid.block = .ok page := by
    unfold readBuffer
    rw [hp]
  unfold npCatalogIndexFetchTuple at hf
  rw [hread] at hf
  cases hfe : npCatalogItemIsFetchable lp <;>
    cases hl : npEntityTupleIsLive r.xacts r.own lp.2.toRecordHeader <;>
    cases hv : npCatalogTupleVisible r.xacts r.own lp.2.toRecordHeader r.snapshot <;>
    simp [hlp, Option.filter, hfe, hl, hv, bind, Except.bind, pure, Except.pure] at hf <;>
    simp [← hf]

theorem exists_fetch (r : CatalogReader) (h : t.lp tid = some lp) :
    ∃ f, npCatalogIndexFetchTuple r t tid = .ok f := by
  obtain ⟨page, hp, -⟩ := Option.bind_eq_some_iff.mp h
  have hread : readBuffer t tid.block = .ok page := by
    unfold readBuffer
    rw [hp]
  unfold npCatalogIndexFetchTuple
  rw [hread]
  simp only [bind, Except.bind]
  split
  · exact ⟨_, rfl⟩
  · split
    · exact ⟨_, rfl⟩
    · split <;> exact ⟨_, rfl⟩

theorem mark_of_deleteTuples {x : XactState} {own : List Nat} {deltids : List (ItemPointer × Bool)}
    {marks : List Bool} {n : Nat} (h : t.lp tid = some lp)
    (hr : npCatalogIndexDeleteTuples x own t deltids = .ok marks)
    (hn : deltids[n]? = some (tid, false)) (hm : marks[n]? = some true) :
    npCatalogItemIsFetchable lp = true → npEntityTupleIsLive x own lp.2.toRecordHeader = false := by
  induction deltids generalizing marks n with
  | nil => simp at hn
  | cons e rest ih =>
    obtain ⟨tid', flag⟩ := e
    unfold npCatalogIndexDeleteTuples at hr
    obtain ⟨page, hread, hr⟩ := bind_ok hr
    obtain ⟨marks', hrest, hr⟩ := bind_ok hr
    obtain rfl := Except.ok.inj hr
    cases n with
    | succ n => exact ih hrest hn hm
    | zero =>
      obtain ⟨rfl, rfl⟩ := Prod.mk.inj (Option.some.inj hn)
      obtain ⟨page', hp, hlp⟩ := Option.bind_eq_some_iff.mp h
      unfold readBuffer at hread
      rw [hp] at hread
      obtain rfl := Except.ok.inj hread
      intro hf
      rw [hlp] at hm
      simpa [Option.filter, hf] using hm

/-- **A session is told that an item is dead exactly when it does not find it live.** -/
theorem reportedDead_iff (h : t.lp tid = some lp) : ReportedDead σ k t tid ↔
    (npCatalogItemIsFetchable lp = true →
      npEntityTupleIsLive σ.xacts (σ.own k) lp.2.toRecordHeader = false) := by
  constructor
  · rintro (⟨snapshot, f, hf, hd⟩ | ⟨deltids, marks, n, hr, hn, hm⟩)
    · exact (fetch_allDead h hf).mp hd
    · exact mark_of_deleteTuples h hr hn hm
  · intro hl
    obtain ⟨f, hf⟩ := exists_fetch ⟨σ.xacts, σ.own k, none⟩ h
    exact Or.inl ⟨none, f, hf, (fetch_allDead h hf).mpr hl⟩

/-! ## What is dead is not seen -/

/-- **No registered snapshot sees what is dead.** -/
theorem Dead.not_visible (h : SystemInv base σ) (hh : HeaderInv base σ.xacts hdr)
    (hd : Dead σ rel tid hdr) {p : Nat × FullSnapshot} (hp : p ∈ σ.registered) :
    ¬ Visible σ.xacts (σ.own p.1) hdr p.2 := by
  rintro ⟨⟨-, hc⟩, hs⟩
  have hopen : ∀ {y}, y ∈ σ.own p.1 → σ.xacts.status y = .inProgress := fun hy => (h.own_open hy).2
  rcases hd with ha | ⟨d, hdel, hcom, hreg, -⟩ | ⟨hdel, hprog, hcid⟩
  · by_cases ho : hdr.xmin ∈ σ.own p.1
    · cases ha.symm.trans (hopen ho)
    · rw [if_neg ho] at hc
      cases ha.symm.trans hc.1
  · obtain ⟨hv, rfl⟩ := deleter_eq_some.mp hdel
    have hmax : hdr.xmax ∉ σ.own p.1 := fun ho => by cases hcom.symm.trans (hopen ho)
    have hmin : hdr.xmin ∉ σ.own p.1 := fun ho => by
      rcases hh.settled _ hdel with he | hcm
      · rw [show hdr.stamps.creator = hdr.xmin from rfl] at he
        exact hmax (by rw [he]; exact ho)
      · cases (hopen ho).symm.trans hcm
    rw [if_neg hmin] at hc
    rcases hs with hs | hs
    · cases hv.symm.trans hs
    · rw [if_neg hmax] at hs
      rcases hs with hs | hs
      · cases hcom.symm.trans hs
      · exact hc.2 (hreg p hp hs)
  · obtain ⟨hv, hx⟩ := deleter_eq_some.mp hdel
    by_cases ho : hdr.xmin ∈ σ.own p.1
    · rw [if_pos ho] at hc
      rcases hs with hs | hs
      · cases hv.symm.trans hs
      · rw [if_pos (by rw [hx]; exact ho)] at hs
        rcases hcid with hle | ⟨k, hk, -, hreg⟩
        · omega
        · have hpk := h.sessions.one p.1 k hdr.xmin (Option.mem_toList.mp ho) hk
          exact hreg p hp hpk ⟨hc, hs⟩
    · rw [if_neg ho] at hc
      cases hprog.symm.trans hc.1

/-! ## What is dead stays dead -/

/-- Through steps that end no transaction. -/
theorem Dead.carry (hh : HeaderInv base σ.xacts hdr) (h : SystemInv base σ)
    (hd : Dead σ rel tid hdr)
    (hst : ∀ y, σ.xacts.Begun base y → σ'.xacts.status y = σ.xacts.status y)
    (hsess : ∀ k y, σ.session k = some y → σ'.session k = some y ∧ σ.cid k ≤ σ'.cid k)
    (hreg : ∀ p ∈ σ'.registered, p ∈ σ.registered ∨
      Taken σ.xacts (σ.own p.1) p.2 ∧ p.2.curcid = σ.cid p.1)
    (hupd : ∀ k c, σ'.updating k = some c → c.WillStamp rel tid →
      (∃ c', σ.updating k = some c' ∧ c'.WillStamp rel tid) ∨
        ∀ d, hdr.deleter = some d → σ.xacts.status d ≠ .committed) : Dead σ' rel tid hdr := by
  rcases hd with ha | ⟨d, hdel, hcom, hrun, hno⟩ | ⟨hdel, hprog, hcid⟩
  · exact Or.inl ((hst _ hh.xmin).trans ha)
  · have hb := hh.xmax d hdel
    refine Or.inr (Or.inl ⟨d, hdel, (hst d hb).trans hcom, fun p hp hr => ?_, fun k c hc hw => ?_⟩)
    · rcases hreg p hp with hold | ⟨ht, -⟩
      · exact hrun p hold hr
      · have hno' : d ∉ σ.own p.1 := fun ho => by cases hcom.symm.trans (h.own_open ho).2
        cases hcom.symm.trans ((ht.running d hb.2 hno').mp hr)
    · rcases hupd k c hc hw with ⟨c', hc', hw'⟩ | hno'
      · exact hno k c' hc' hw'
      · exact hno' d hdel hcom
  · refine Or.inr (Or.inr ⟨hdel, (hst _ hh.xmin).trans hprog, hcid.imp_right ?_⟩)
    rintro ⟨k, hk, hlt, hr⟩
    obtain ⟨hk', hle⟩ := hsess k _ hk
    refine ⟨k, hk', hlt.trans_le hle, fun p hp he => ?_⟩
    rcases hreg p hp with hold | ⟨-, hc⟩
    · exact hr p hold he
    · rw [hc, he]
      omega

/-- A session updates no item that a running transaction has created and deleted. -/
theorem not_willStamp_own (h : SystemInv base σ) (ht : σ.inst.catalogs rel = some t)
    (hlp : t.lp tid = some lp) (hdel : lp.2.deleter = some lp.2.xmin)
    (hprog : σ.xacts.status lp.2.xmin = .inProgress) {c : UpdateCall}
    (hc : σ.updating k = some c) : ¬ c.WillStamp rel tid := by
  rintro ⟨rfl, rfl, -⟩
  obtain ⟨τ, hτ, t₀, item, ht₀, hg, hok⟩ := h.updating k c hc
  obtain rfl := Option.some.inj (ht.symm.trans ht₀)
  obtain rfl := Option.some.inj ((get_of_lp hlp).symm.trans hg)
  rcases hok with ⟨-, hn⟩ | hcom
  · cases hdel.symm.trans hn
  · cases hprog.symm.trans hcom

/-- Through the end of a transaction. -/
theorem Dead.ends (h : SystemInv base σ) (ht : σ.inst.catalogs rel = some t)
    (hlp : t.lp tid = some lp) (hd : Dead σ rel tid lp.2.toRecordHeader) {db : Db}
    (he : Ends base σ k db.xacts) : Dead (σ.endXact k db) rel tid lp.2.toRecordHeader := by
  have hh := (h.item rel t tid lp.2 ht (get_of_lp hlp)).header
  have hx : (σ.endXact k db).xacts = db.xacts := rfl
  have hreg : ∀ p ∈ (σ.endXact k db).registered, p ∈ σ.registered := fun p hp =>
    (List.mem_filter.mp hp).1
  have hupd : ∀ k' c, (σ.endXact k db).updating k' = some c → σ.updating k' = some c :=
    fun k' c hc => by
      have hc : Function.update σ.updating k none k' = some c := hc
      rw [Function.update_apply] at hc
      split at hc
      · cases hc
      · exact hc
  -- those that have ended stay as they are
  have hstill : ∀ y st, σ.xacts.status y = st → st ≠ .inProgress → db.xacts.status y = st :=
    fun y st hy hne => by
      rw [he.others y fun hk => hne (hy.symm.trans (h.sessions.running k y hk).2)]
      exact hy
  rcases hd with ha | ⟨d, hdel, hcom, hrun, hno⟩ | ⟨hdel, hprog, hcid⟩
  · exact Or.inl (hstill _ _ ha (by decide))
  · exact Or.inr (Or.inl ⟨d, hdel, hstill _ _ hcom (by decide), fun p hp => hrun p (hreg p hp),
      fun k' c hc => hno k' c (hupd k' c hc)⟩)
  · by_cases hk : σ.session k = some lp.2.xmin
    · cases hst : db.xacts.status lp.2.xmin with
      | inProgress => exact absurd hst (he.ended _ hk)
      | aborted => exact Or.inl hst
      | committed =>
        exact Or.inr (Or.inl ⟨_, hdel, hst, fun p _ hr => hr, fun k' c hc =>
          not_willStamp_own h ht hlp hdel hprog (hupd k' c hc)⟩)
    · refine Or.inr (Or.inr ⟨hdel, (he.others _ hk).trans hprog, hcid.imp_right ?_⟩)
      rintro ⟨k₁, hk₁, hlt, hr⟩
      have hne : k₁ ≠ k := fun heq => hk (by rw [← heq]; exact hk₁)
      refine ⟨k₁, (Function.update_of_ne hne ..).trans hk₁, ?_, fun p hp => hr p (hreg p hp)⟩
      show _ < Function.update σ.cid k 0 k₁
      rw [Function.update_of_ne hne]
      exact hlt

/-- What a session has checked, or is about to stamp, is not dead. -/
theorem not_dead_of_checked (hc : σ.xacts.status lp.2.xmin = .inProgress ∧ lp.2.deleter = none ∨
      σ.xacts.status lp.2.xmin = .committed ∧
        ((∃ k c, σ.updating k = some c ∧ c.WillStamp rel tid) ∨
          ∀ d, lp.2.deleter = some d → σ.xacts.status d ≠ .committed)) :
    ¬ Dead σ rel tid lp.2.toRecordHeader := by
  rintro (ha | ⟨d, hdel, hcom, -, hno⟩ | ⟨hdel, hprog, -⟩)
  · rcases hc with ⟨hp, -⟩ | ⟨hc, -⟩
    · cases ha.symm.trans hp
    · cases ha.symm.trans hc
  · rcases hc with ⟨-, hn⟩ | ⟨-, ⟨k, c, hk, hw⟩ | hno'⟩
    · cases hdel.symm.trans hn
    · exact hno k c hk hw
    · exact hno' d hdel hcom
  · rcases hc with ⟨-, hn⟩ | ⟨hc, -⟩
    · cases hdel.symm.trans hn
    · cases hprog.symm.trans hc

theorem fits_of_runs {i : Instance} {item : CatalogItem} {tid' : ItemPointer}
    (h : (writeCatalogItem rel item).Runs σ.inst tid' i) : Fits (npCatalogPackSize item.heapTuple) := by
  obtain ⟨tbl, tbl', -, hg, -⟩ := runs_onCatalog.mp h
  obtain ⟨⟨t₁, tid₁⟩, hw, -⟩ := bind_ok hg
  have hw := npWriteRecordToPage_ok hw
  exact (Table.write_isSome tbl _ item).mp (by rw [hw]; rfl)

/-- **What is dead stays so.** -/
theorem Dead.step (h : SystemInv base σ) (ht : σ.inst.catalogs rel = some t)
    (hlp : t.lp tid = some lp) (hd : Dead σ rel tid lp.2.toRecordHeader)
    (hs : CatalogStep base σ σ') : ∃ t' lp', σ'.inst.catalogs rel = some t' ∧
      t'.lp tid = some lp' ∧ Dead σ' rel tid lp'.2.toRecordHeader := by
  have hitem := h.item rel t tid lp.2 ht (get_of_lp hlp)
  have hh := hitem.header
  -- an own item that is not deleted belongs to a session that runs
  have hsame : ∀ k y, σ.session k = some y → σ.session k = some y ∧ σ.cid k ≤ σ.cid k :=
    fun k y hy => ⟨hy, Nat.le_refl _⟩
  have hold : ∀ k c, σ.updating k = some c → c.WillStamp rel tid →
      (∃ c', σ.updating k = some c' ∧ c'.WillStamp rel tid) ∨
        ∀ d, lp.2.deleter = some d → σ.xacts.status d ≠ .committed :=
    fun k c hc hw => Or.inl ⟨c, hc, hw⟩
  cases hs with
  | catalog rel₀ hr =>
    have hne : rel ≠ rel₀ := fun he => by
      rw [he, hr] at ht
      cases ht
    exact ⟨t, lp, (Function.update_of_ne hne ..).trans ht, hlp,
      hd.carry hh h (fun _ _ => rfl) hsame (fun _ => Or.inl) hold⟩
  | begin k hk hroom =>
    refine ⟨t, lp, ht, hlp, hd.carry hh h
      (fun y hy => Function.update_of_ne (Nat.ne_of_lt hy.2.1) ..) (fun k' y hy => ⟨?_, Nat.le_refl _⟩)
      (fun _ => Or.inl) hold⟩
    have hne : k' ≠ k := fun he => by
      rw [he, hk] at hy
      cases hy
    exact (Function.update_of_ne hne ..).trans hy
  | command k hk =>
    refine ⟨t, lp, ht, hlp, hd.carry hh h (fun _ _ => rfl) (fun k' y hy => ⟨hy, ?_⟩)
      (fun _ => Or.inl) hold⟩
    show σ.cid k' ≤ Function.update σ.cid k (σ.cid k + 1) k'
    rw [Function.update_apply]
    split
    · next he =>
      rw [he]
      exact Nat.le_succ _
    · exact Nat.le_refl _
  | snapshot k s htaken hcid =>
    refine ⟨t, lp, ht, hlp, hd.carry hh h (fun _ _ => rfl) hsame (fun p hp => ?_) hold⟩
    rcases List.mem_cons.mp hp with rfl | hp
    · exact Or.inr ⟨htaken, hcid⟩
    · exact Or.inl hp
  | unregister p =>
    exact ⟨t, lp, ht, hlp, hd.carry hh h (fun _ _ => rfl) hsame
      (fun p hp => Or.inl (List.mem_of_mem_erase hp)) hold⟩
  | insert hk hu hr =>
    have ha := appended_of_runs hr
    obtain ⟨t', ht', hlp'⟩ := ha.keeps _ _ _ _ ht hlp
    exact ⟨t', lp, ht', hlp', hd.carry hh h
      (fun y _ => congrFun (congrArg (fun d => d.xacts.status) ha.db) y) hsame (fun _ => Or.inl) hold⟩
  | @delete k u i rel₀ tid₀ r hk hu hr =>
    rcases delete_cases hr with rfl | ⟨item, hcheck, hst⟩
    · exact ⟨t, lp, ht, hlp, hd.carry hh h (fun _ _ => rfl) hsame (fun _ => Or.inl) hold⟩
    · obtain ⟨t', ht', hlp'⟩ := hst.keeps _ _ _ _ ht hlp
      by_cases he : rel = rel₀ ∧ tid = tid₀
      · -- what the session deletes it has found live
        obtain ⟨rfl, rfl⟩ := he
        obtain ⟨t₀, ht₀, hg₀⟩ := hst.old
        obtain rfl := Option.some.inj (ht.symm.trans ht₀)
        obtain rfl := Option.some.inj ((get_of_lp hlp).symm.trans hg₀)
        have hopen := h.sessions.running k u hk
        refine absurd hd (not_dead_of_checked ?_)
        rcases checked h hopen hitem hcheck with ⟨hx, hn⟩ | ⟨hc, hno⟩
        · rw [hx]
          exact Or.inl ⟨hopen.2, hn⟩
        · exact Or.inr ⟨hc, Or.inr hno⟩
      · rw [if_neg he] at hlp'
        exact ⟨t', lp, ht', hlp', hd.carry hh h
          (fun y _ => congrFun (congrArg (fun d => d.xacts.status) hst.db) y) hsame
          (fun _ => Or.inl) hold⟩
  | @checkUpdate k u i rel₀ otid tuple hk hu hr =>
    obtain ⟨tbl, tbl', htbl, hg, rfl⟩ := runs_onCatalog.mp hr
    obtain ⟨item, hi, hg⟩ := bind_ok hg
    obtain ⟨hcheck, rfl⟩ := Prod.mk.inj (Except.ok.inj hg)
    rw [Function.update_eq_self_iff.mpr htbl.symm]
    refine ⟨t, lp, ht, hlp, hd.carry hh h (fun _ _ => rfl) hsame (fun _ => Or.inl)
      fun k' c hc hw => ?_⟩
    by_cases hk' : k' = k
    · rw [hk'] at hc
      have hc : Function.update σ.updating k (some ⟨rel₀, otid, tuple, false⟩) k = some c := hc
      rw [Function.update_self] at hc
      obtain rfl := Option.some.inj hc
      obtain ⟨rfl, rfl, -⟩ := hw
      -- the session has just found the item live
      obtain rfl := Option.some.inj (ht.symm.trans htbl)
      obtain rfl := Option.some.inj ((get_of_lp hlp).symm.trans (readItem_ok hi))
      rcases checked h (h.sessions.running k u hk) hitem hcheck with ⟨-, hn⟩ | ⟨-, hno⟩
      · exact Or.inr fun d hdel => by cases hdel.symm.trans hn
      · exact Or.inr hno
    · exact Or.inl ⟨c, (Function.update_of_ne hk' ..).symm.trans hc, hw⟩
  | @writeUpdate k u i c tid₀ hk hu hw hr =>
    have ha := appended_of_runs hr
    have hfits := fits_of_runs hr
    obtain ⟨t', ht', hlp'⟩ := ha.keeps _ _ _ _ ht hlp
    refine ⟨t', lp, ht', hlp', hd.carry hh h
      (fun y _ => congrFun (congrArg (fun d => d.xacts.status) ha.db) y) hsame (fun _ => Or.inl)
      fun k' c' hc' hw' => ?_⟩
    by_cases hk' : k' = k
    · rw [hk'] at hc'
      have hc' : Function.update σ.updating k (some { c with written := true }) k = some c' := hc'
      rw [Function.update_self] at hc'
      obtain rfl := Option.some.inj hc'
      exact Or.inl ⟨c, hk' ▸ hu, hw'.1, hw'.2.1, Or.inr hfits⟩
    · exact Or.inl ⟨c', (Function.update_of_ne hk' ..).symm.trans hc', hw'⟩
  | @stampUpdate k u i c hk hu hw hr =>
    obtain ⟨item, hst⟩ := stampedAt_of_runs hr
    obtain ⟨t', ht', hlp'⟩ := hst.keeps _ _ _ _ ht hlp
    have hdrop : ∀ k' c', Function.update σ.updating k none k' = some c' → σ.updating k' = some c' :=
      fun k' c' hc' => by
        rw [Function.update_apply] at hc'
        split at hc'
        · cases hc'
        · exact hc'
    by_cases he : rel = c.rel ∧ tid = c.otid
    · -- what it stamps was live when it was checked
      obtain ⟨τ, hτ, t₀, item₀, ht₀, hg₀, hok⟩ := h.updating k c hu
      obtain ⟨rfl, rfl⟩ := he
      obtain rfl := Option.some.inj (ht.symm.trans ht₀)
      obtain rfl := Option.some.inj ((get_of_lp hlp).symm.trans hg₀)
      refine absurd hd (not_dead_of_checked ?_)
      rcases hok with ⟨hx, hn⟩ | hc
      · rw [hx]
        exact Or.inl ⟨(h.sessions.running k τ hτ).2, hn⟩
      · exact Or.inr ⟨hc, Or.inl ⟨k, c, hu, rfl, rfl, Or.inl hw⟩⟩
    · rw [if_neg he] at hlp'
      exact ⟨t', lp, ht', hlp', hd.carry hh h
        (fun y _ => congrFun (congrArg (fun d => d.xacts.status) hst.db) y) hsame
        (fun _ => Or.inl) fun k' c' hc' hw' => Or.inl ⟨c', hdrop k' c' hc', hw'⟩⟩
  | failUpdate k =>
    refine ⟨t, lp, ht, hlp, hd.carry hh h (fun _ _ => rfl) hsame (fun _ => Or.inl)
      fun k' c' hc' hw' => Or.inl ⟨c', ?_, hw'⟩⟩
    have hc' : Function.update σ.updating k none k' = some c' := hc'
    rw [Function.update_apply] at hc'
    split at hc'
    · cases hc'
    · exact hc'
  | commit hk hu => exact ⟨t, lp, ht, hlp, hd.ends h ht hlp (ends_commit hk)⟩
  | abort hk => exact ⟨t, lp, ht, hlp, hd.ends h ht hlp (ends_abort h hk)⟩
  | finish hk hu => exact ⟨t, lp, ht, hlp, hd.ends h ht hlp (ends_finish hk)⟩

/-- A step takes no item away, and leaves its stored length alone. -/
theorem CatalogStep.keeps_lp (ht : σ.inst.catalogs rel = some t) (hlp : t.lp tid = some lp)
    (hs : CatalogStep base σ σ') : ∃ t' lp', σ'.inst.catalogs rel = some t' ∧
      t'.lp tid = some lp' ∧ lp'.1 = lp.1 := by
  have hstamped : ∀ {i : Instance} {s : Session} {rel₀ : Oid} {tid₀ : ItemPointer}
      {item : CatalogItem}, StampedAt σ.inst i s rel₀ tid₀ item → ∃ t' lp', i.catalogs rel = some t' ∧
        t'.lp tid = some lp' ∧ lp'.1 = lp.1 := fun hst => by
    obtain ⟨t', ht', hlp'⟩ := hst.keeps _ _ _ _ ht hlp
    refine ⟨t', _, ht', hlp', ?_⟩
    split <;> rfl
  have happended : ∀ {i : Instance} {item : CatalogItem}, Appended σ.inst i item →
      ∃ t' lp', i.catalogs rel = some t' ∧ t'.lp tid = some lp' ∧ lp'.1 = lp.1 := fun ha => by
    obtain ⟨t', ht', hlp'⟩ := ha.keeps _ _ _ _ ht hlp
    exact ⟨t', lp, ht', hlp', rfl⟩
  cases hs with
  | catalog rel₀ hr =>
    have hne : rel ≠ rel₀ := fun he => by
      rw [he, hr] at ht
      cases ht
    exact ⟨t, lp, (Function.update_of_ne hne ..).trans ht, hlp, rfl⟩
  | insert hk hu hr => exact happended (appended_of_runs hr)
  | writeUpdate hk hu hw hr => exact happended (appended_of_runs hr)
  | stampUpdate hk hu hw hr =>
    obtain ⟨item, hst⟩ := stampedAt_of_runs hr
    exact hstamped hst
  | delete hk hu hr =>
    rcases delete_cases hr with rfl | ⟨item, -, hst⟩
    · exact ⟨t, lp, ht, hlp, rfl⟩
    · exact hstamped hst
  | checkUpdate tuple hk hu hr =>
    obtain ⟨tbl, tbl', htbl, hg, rfl⟩ := runs_onCatalog.mp hr
    obtain ⟨item, -, hg⟩ := bind_ok hg
    obtain ⟨-, rfl⟩ := Prod.mk.inj (Except.ok.inj hg)
    rw [Function.update_eq_self_iff.mpr htbl.symm]
    exact ⟨t, lp, ht, hlp, rfl⟩
  | _ => exact ⟨t, lp, ht, hlp, rfl⟩

/-- What may not be fetched is never seen. -/
theorem neverSeen_of_not_fetchable (ht : σ.inst.catalogs rel = some t) (hlp : t.lp tid = some lp)
    (hf : npCatalogItemIsFetchable lp = false) : NeverSeen base σ rel tid := by
  intro σ' hrun
  have hkeep : ∃ t' lp', σ'.inst.catalogs rel = some t' ∧ t'.lp tid = some lp' ∧
      lp'.1 = lp.1 := by
    induction hrun with
    | refl => exact ⟨t, lp, ht, hlp, rfl⟩
    | tail _ hs ih =>
      obtain ⟨t₁, lp₁, ht₁, hlp₁, he⟩ := ih
      obtain ⟨t₂, lp₂, ht₂, hlp₂, he'⟩ := hs.keeps_lp ht₁ hlp₁
      exact ⟨t₂, lp₂, ht₂, hlp₂, he'.trans he⟩
  obtain ⟨t₁, lp₁, ht₁, hlp₁, he⟩ := hkeep
  rintro p - ⟨t₂, lp₂, ht₂, hlp₂, hf₂, -⟩
  obtain rfl := Option.some.inj (ht₁.symm.trans ht₂)
  obtain rfl := Option.some.inj (hlp₁.symm.trans hlp₂)
  unfold npCatalogItemIsFetchable at hf hf₂
  rw [he, hf] at hf₂
  cases hf₂

/-- What is dead is never seen. -/
theorem Dead.neverSeen (h : SystemInv base σ) (ht : σ.inst.catalogs rel = some t)
    (hlp : t.lp tid = some lp) (hd : Dead σ rel tid lp.2.toRecordHeader) :
    NeverSeen base σ rel tid := by
  intro σ' hrun
  have hkeep : SystemInv base σ' ∧ ∃ t' lp', σ'.inst.catalogs rel = some t' ∧
      t'.lp tid = some lp' ∧ Dead σ' rel tid lp'.2.toRecordHeader := by
    induction hrun with
    | refl => exact ⟨h, t, lp, ht, hlp, hd⟩
    | tail _ hs ih =>
      obtain ⟨hinv, t₁, lp₁, ht₁, hlp₁, hd₁⟩ := ih
      exact ⟨hinv.step hs, hd₁.step hinv ht₁ hlp₁ hs⟩
  obtain ⟨hinv, t₁, lp₁, ht₁, hlp₁, hd₁⟩ := hkeep
  rintro p hp ⟨t₂, lp₂, ht₂, hlp₂, -, hvis⟩
  obtain rfl := Option.some.inj (ht₁.symm.trans ht₂)
  obtain rfl := Option.some.inj (hlp₁.symm.trans hlp₂)
  exact hd₁.not_visible hinv (hinv.item rel t₁ tid _ ht₁ (get_of_lp hlp₁)).header hp hvis

/-! ## What is not dead may be seen -/

/-- Some continuation has a snapshot that sees the item. -/
def MaySee (base : Nat) (σ : CatalogSystem) (rel : Oid) (tid : ItemPointer) : Prop :=
  ∃ σ', Relation.ReflTransGen (CatalogStep base) σ σ' ∧ ∃ p ∈ σ'.registered, Sees σ' p rel tid

theorem MaySee.of_run (hr : Relation.ReflTransGen (CatalogStep base) σ σ')
    (h : MaySee base σ' rel tid) : MaySee base σ rel tid := by
  obtain ⟨σ'', hr', hp⟩ := h
  exact ⟨σ'', hr.trans hr', hp⟩

theorem SystemInv.run (h : SystemInv base σ) (hr : Relation.ReflTransGen (CatalogStep base) σ σ') :
    SystemInv base σ' := by
  induction hr with
  | refl => exact h
  | tail _ hs ih => exact ih.step hs

/-- A session that has written nothing takes a snapshot, and sees what a committed transaction created
and no committed one deleted. -/
theorem maySee_fresh (h : SystemInv base σ) (ht : σ.inst.catalogs rel = some t)
    (hlp : t.lp tid = some lp) (hf : npCatalogItemIsFetchable lp = true)
    (hcom : σ.xacts.status lp.2.xmin = .committed)
    (hdel : ∀ d, lp.2.deleter = some d → σ.xacts.status d ≠ .committed) : MaySee base σ rel tid := by
  have hh := (h.item rel t tid lp.2 ht (get_of_lp hlp)).header
  obtain ⟨k, hk⟩ := exists_idle h
  have hown : σ.own k = [] := by
    unfold CatalogSystem.own
    rw [hk]
    rfl
  let s := takeSnapshot base σ.xacts (σ.cid k)
  refine ⟨{ σ with registered := (k, s) :: σ.registered },
    .single (.snapshot k s (exists_taken h k) rfl), (k, s), List.mem_cons_self, t, lp, ht, hlp, hf, ?_⟩
  show Visible σ.xacts (σ.own k) lp.2.toRecordHeader s
  rw [hown]
  have hrun : ∀ {y}, σ.xacts.Begun base y → (s.Running y ↔ σ.xacts.status y = .inProgress) :=
    fun hy => running_takeSnapshot h.xids _ hy.2.1
  refine ⟨⟨hh.xmin.valid, hcom, fun hr => ?_⟩, ?_⟩
  · cases hcom.symm.trans ((hrun hh.xmin).mp hr)
  · cases hv : fullXidIsValid lp.2.xmax with
    | false => exact Or.inl hv
    | true =>
      have hd := deleter_eq_some.mpr ⟨hv, rfl⟩
      refine Or.inr ?_
      rw [if_neg (List.not_mem_nil)]
      cases hst : σ.xacts.status lp.2.xmax with
      | committed => exact absurd hst (hdel _ hd)
      | aborted => exact Or.inl rfl
      | inProgress => exact Or.inr ((hrun (hh.xmax _ hd)).mpr hst)

/-- An update that will stamp the item does so. -/
theorem exists_stamp_run {τ : Nat} {c : UpdateCall} (hk : σ.session k = some τ)
    (hu : σ.updating k = some c) (hc : c.WillStamp rel tid) (ht : σ.inst.catalogs rel = some t)
    (hlp : t.lp tid = some lp) : ∃ σ' t' cid, Relation.ReflTransGen (CatalogStep base) σ σ' ∧
      σ'.session k = some τ ∧ σ'.xacts = σ.xacts ∧ σ'.inst.catalogs rel = some t' ∧
      t'.lp tid = some (lp.1, stampItem ⟨τ, cid⟩ lp.2) := by
  obtain ⟨rfl, rfl, hw⟩ := hc
  -- the stamp, once the new version is there
  have hstamp : ∀ (σ₁ : CatalogSystem) (c₁ : UpdateCall) (t₁ : Table CatalogItem),
      σ₁.session k = some τ → σ₁.updating k = some c₁ → c₁.written = true → c₁.rel = c.rel →
      c₁.otid = c.otid → σ₁.inst.catalogs c.rel = some t₁ → t₁.lp c.otid = some lp →
      ∃ σ' t' cid, CatalogStep base σ₁ σ' ∧ σ'.session k = some τ ∧ σ'.xacts = σ₁.xacts ∧
        σ'.inst.catalogs c.rel = some t' ∧ t'.lp c.otid = some (lp.1, stampItem ⟨τ, cid⟩ lp.2) := by
    intro σ₁ c₁ t₁ hk₁ hu₁ hw₁ hrel hotid ht₁ hlp₁
    let t₂ := t₁.modify c.otid (stampItem ⟨τ, σ₁.cid k⟩)
    have hr : (stampCatalogItem ⟨τ, σ₁.cid k⟩ c₁.rel c₁.otid).Runs σ₁.inst ()
        { σ₁.inst with catalogs := Function.update σ₁.inst.catalogs c.rel (some t₂) } := by
      rw [hrel, hotid]
      refine runs_onCatalog.mpr ⟨t₁, t₂, ht₁, ?_, rfl⟩
      rw [readItem_of_get (get_of_lp hlp₁)]
      rfl
    refine ⟨_, t₂, σ₁.cid k, .stampUpdate hk₁ hu₁ hw₁ hr, hk₁, rfl, Function.update_self .., ?_⟩
    rw [Table.lp_modify _ hlp₁, if_pos rfl]
  by_cases hwritten : c.written = true
  · obtain ⟨σ', t', cid, hs, h₁, h₂, h₃, h₄⟩ :=
      hstamp σ c t hk hu hwritten rfl rfl ht hlp
    exact ⟨σ', t', cid, .single hs, h₁, h₂, h₃, h₄⟩
  · have hfits := hw.resolve_left hwritten
    obtain ⟨t₁, tid₁, hwrite⟩ :=
      Table.write_of_fits t (npCatalogPackItem ⟨τ, σ.cid k⟩ c.otid c.tuple) hfits
    let i : Instance := { σ.inst with catalogs := Function.update σ.inst.catalogs c.rel (some t₁) }
    have hr : (writeCatalogItem c.rel (npCatalogPackItem ⟨τ, σ.cid k⟩ c.otid c.tuple)).Runs σ.inst
        tid₁ i := by
      refine runs_onCatalog.mpr ⟨t, t₁, ht, ?_, rfl⟩
      show (npWriteRecordToPage t _ (npCatalogPackSize c.tuple) >>= _) = _
      unfold npWriteRecordToPage
      rw [hwrite]
      rfl
    let σ₁ : CatalogSystem := { σ with
      inst := i
      updating := Function.update σ.updating k (some { c with written := true }) }
    have hs₁ : CatalogStep base σ σ₁ :=
      .writeUpdate hk hu (Bool.eq_false_iff.mpr hwritten) hr
    obtain ⟨σ', t', cid, hs, h₁, h₂, h₃, h₄⟩ := hstamp σ₁ { c with written := true } t₁ hk
      (Function.update_self ..) rfl rfl rfl (Function.update_self ..) (Table.lp_write hwrite hlp)
    exact ⟨σ', t', cid, (Relation.ReflTransGen.single hs₁).tail hs, h₁, h₂, h₃, h₄⟩

/-- **What is not dead may be seen.** -/
theorem maySee_of_not_dead (h : SystemInv base σ) (ht : σ.inst.catalogs rel = some t)
    (hlp : t.lp tid = some lp) (hf : npCatalogItemIsFetchable lp = true)
    (hd : ¬ Dead σ rel tid lp.2.toRecordHeader) : MaySee base σ rel tid := by
  have hitem := h.item rel t tid lp.2 ht (get_of_lp hlp)
  have hh := hitem.header
  rw [Dead, not_or, not_or] at hd
  obtain ⟨hab, hcommitted, hown⟩ := hd
  cases hst : σ.xacts.status lp.2.xmin with
  | aborted => exact absurd hst hab
  | committed =>
    by_cases hdel : ∀ d, lp.2.deleter = some d → σ.xacts.status d ≠ .committed
    · exact maySee_fresh h ht hlp hf hst hdel
    · simp only [not_forall, not_not] at hdel
      obtain ⟨d, hdel, hdcom⟩ := hdel
      by_cases hreg : ∀ p ∈ σ.registered, p.2.Running d → p.2.Running lp.2.xmin
      · -- a session is about to put another deleter over the committed one
        have hpend : ∃ k c, σ.updating k = some c ∧ c.WillStamp rel tid := by
          by_contra hno
          exact hcommitted ⟨d, hdel, hdcom, hreg, fun k c hc hw => hno ⟨k, c, hc, hw⟩⟩
        obtain ⟨k₁, c, hc, hw⟩ := hpend
        obtain ⟨τ, hτ, -⟩ := h.updating k₁ c hc
        obtain ⟨σ₁, t₁, cid, hr, hk₁, hx₁, ht₁, hlp₁⟩ := exists_stamp_run hτ hc hw ht hlp
        have hinv₁ := h.run hr
        have habort : CatalogStep base σ₁ (σ₁.endXact k₁ (σ₁.inst.db.abort τ)) := .abort hk₁
        have hτopen := hinv₁.sessions.running k₁ τ hk₁
        refine .of_run (hr.tail habort) (maySee_fresh (hinv₁.step habort) ht₁ hlp₁ hf ?_ fun d' hd' => ?_)
        · have hne : lp.2.xmin ≠ τ := fun he => by
            have hprog := hτopen.2
            rw [hx₁, ← he, hst] at hprog
            cases hprog
          show Function.update σ₁.xacts.status τ _ lp.2.xmin = _
          rw [Function.update_of_ne hne, hx₁]
          exact hst
        · have hdτ : (stampItem ⟨τ, cid⟩ lp.2).deleter = some τ :=
            deleter_eq_some.mpr ⟨hτopen.1.valid, rfl⟩
          obtain rfl := Option.some.inj (hdτ.symm.trans hd')
          show Function.update σ₁.xacts.status τ _ τ ≠ _
          rw [Function.update_self]
          decide
      · -- a registered snapshot is from before the deletion
        simp only [not_forall] at hreg
        obtain ⟨p, hp, hrun, hnot⟩ := hreg
        obtain ⟨hv, rfl⟩ := deleter_eq_some.mp hdel
        have hmin : lp.2.xmin ∉ σ.own p.1 := fun ho => by cases hst.symm.trans (h.own_open ho).2
        have hmax : lp.2.xmax ∉ σ.own p.1 := fun ho => by cases hdcom.symm.trans (h.own_open ho).2
        refine ⟨σ, .refl, p, hp, t, lp, ht, hlp, hf, ⟨hh.xmin.valid, ?_⟩, Or.inr ?_⟩
        · rw [if_neg hmin]
          exact ⟨hst, hnot⟩
        · rw [if_neg hmax]
          exact Or.inr hrun
  | inProgress =>
    obtain ⟨kₐ, hkₐ⟩ := h.sessions.all _ ⟨hh.xmin, hst⟩
    cases hdel : lp.2.deleter with
    | none =>
      -- the creator commits
      let σ₁ : CatalogSystem := { σ with updating := Function.update σ.updating kₐ none }
      have hs₁ : CatalogStep base σ σ₁ := .failUpdate kₐ
      have hs₂ : CatalogStep base σ₁ (σ₁.endXact kₐ (σ₁.inst.db.commit lp.2.xmin)) :=
        .commit hkₐ (Function.update_self ..)
      refine .of_run ((Relation.ReflTransGen.single hs₁).tail hs₂)
        (maySee_fresh ((h.step hs₁).step hs₂) ht hlp hf ?_ fun d hd => ?_)
      · exact Function.update_self ..
      · cases hdel.symm.trans hd
    | some d =>
      have hdx : d = lp.2.xmin := by
        rcases hh.settled d hdel with he | hc
        · exact he
        · cases hst.symm.trans hc
      subst hdx
      obtain ⟨hv, hx⟩ := deleter_eq_some.mp hdel
      have hnot : ¬ (lp.2.cmax ≤ lp.2.cmin ∨ ∃ k, σ.session k = some lp.2.xmin ∧
          lp.2.cmax < σ.cid k ∧ ∀ p ∈ σ.registered, p.1 = k →
            ¬ (lp.2.cmin < p.2.curcid ∧ p.2.curcid ≤ lp.2.cmax)) := fun hc => hown ⟨hdel, hst, hc⟩
      rw [not_or, Nat.not_le] at hnot
      obtain ⟨hlt, hnot⟩ := hnot
      have hmem : lp.2.xmin ∈ σ.own kₐ := Option.mem_toList.mpr hkₐ
      have hsees : ∀ s : FullSnapshot, lp.2.cmin < s.curcid → s.curcid ≤ lp.2.cmax →
          Visible σ.xacts (σ.own kₐ) lp.2.toRecordHeader s := fun s h₁ h₂ => by
        refine ⟨⟨hh.xmin.valid, ?_⟩, Or.inr ?_⟩
        · rw [if_pos hmem]
          exact h₁
        · rw [if_pos (by rw [hx]; exact hmem)]
          exact h₂
      by_cases hcid : lp.2.cmax < σ.cid kₐ
      · have hreg : ∃ p ∈ σ.registered, p.1 = kₐ ∧ lp.2.cmin < p.2.curcid ∧
            p.2.curcid ≤ lp.2.cmax := by
          by_contra hno
          exact hnot ⟨kₐ, hkₐ, hcid, fun p hp he hc => hno ⟨p, hp, he, hc⟩⟩
        obtain ⟨p, hp, rfl, h₁, h₂⟩ := hreg
        exact ⟨σ, .refl, p, hp, t, lp, ht, hlp, hf, hsees p.2 h₁ h₂⟩
      · -- the session takes a snapshot in the command that deleted the item
        have hle := hitem.cmax_le kₐ _ hdel hkₐ
        let s := takeSnapshot base σ.xacts (σ.cid kₐ)
        refine ⟨{ σ with registered := (kₐ, s) :: σ.registered },
          .single (.snapshot kₐ s (exists_taken h kₐ) rfl), (kₐ, s), List.mem_cons_self, t, lp, ht, hlp,
          hf, hsees s ?_ ?_⟩
        · show lp.2.cmin < σ.cid kₐ
          omega
        · show σ.cid kₐ ≤ lp.2.cmax
          omega

/-- **What a session is told about an item is right exactly when the item is live to it or dead.** -/
theorem deadMarking_iff (hrun : CatalogRun base σ) (k : Nat) (ht : σ.inst.catalogs rel = some t)
    (hlp : t.lp tid = some lp) : (ReportedDead σ k t tid → NeverSeen base σ rel tid) ↔
      (npCatalogItemIsFetchable lp = true →
        npEntityTupleIsLive σ.xacts (σ.own k) lp.2.toRecordHeader = true ∨
          Dead σ rel tid lp.2.toRecordHeader) := by
  have h := hrun.inv
  rw [reportedDead_iff hlp]
  constructor
  · intro hsafe hf
    by_contra hno
    rw [not_or, Bool.not_eq_true] at hno
    obtain ⟨σ', hr, p, hp, hsees⟩ := maySee_of_not_dead h ht hlp hf hno.2
    exact hsafe (fun _ => hno.1) σ' hr p hp hsees
  · intro hcond hrep
    by_cases hf : npCatalogItemIsFetchable lp = true
    · rcases hcond hf with hl | hd
      · cases hl.symm.trans (hrep hf)
      · exact hd.neverSeen h ht hlp
    · exact neverSeen_of_not_fetchable ht hlp (Bool.not_eq_true _ ▸ hf)

end

/-! ## A row whose inserter still runs -/

/-- A session has written an item and still runs. -/
def exampleInserting : CatalogSystem :=
  let σ := CatalogSystem.empty 5 fun _ => .aborted
  let σ := { σ with inst := { σ.inst with
    catalogs := Function.update σ.inst.catalogs 1 (some Table.empty) } }
  let σ := { σ with
    inst := { σ.inst with db := σ.inst.db.begin }
    session := Function.update σ.session 0 (some 5) }
  { σ with inst := ((npCatalogTupleInsert ⟨5, 0⟩ 1 (List.replicate 23 0)).exec σ.inst).2 }

theorem exampleInserting_run : CatalogRun 5 exampleInserting := by
  have hempty : CatalogRun 5 (CatalogSystem.empty 5 fun _ => .aborted) :=
    .empty _ (by decide) (by decide) nofun
  have hbegun := CatalogRun.step (hempty.step (.catalog 1 rfl)) (.begin 0 rfl (by decide))
  exact hbegun.step (@CatalogStep.insert 5 _ 0 5 _ 1 (List.replicate 23 0) ⟨0, 1⟩ rfl rfl rfl)

/-- The line pointer and the item the session has written. -/
def exampleOneLp : Nat × CatalogItem :=
  (55, ⟨⟨5, 0, 0, invalidCommandId⟩, .invalid, 0, List.replicate 23 0⟩)

/-- The catalog with it. -/
def exampleOneRow : Table CatalogItem := ⟨[⟨[some exampleOneLp]⟩]⟩

theorem exampleInserting_catalog : exampleInserting.inst.catalogs 1 = some exampleOneRow := rfl

/-- What another session is told about the item. -/
theorem deadMarking_iff_example :
    (ReportedDead exampleInserting 1 exampleOneRow ⟨0, 1⟩ → NeverSeen 5 exampleInserting 1 ⟨0, 1⟩) ↔
      (npCatalogItemIsFetchable exampleOneLp = true →
        npEntityTupleIsLive exampleInserting.xacts (exampleInserting.own 1) exampleOneLp.2.toRecordHeader = true ∨
          Dead exampleInserting 1 ⟨0, 1⟩ exampleOneLp.2.toRecordHeader) := by
  have hlp : exampleOneRow.lp ⟨0, 1⟩ = some exampleOneLp := rfl
  exact deadMarking_iff exampleInserting_run 1 exampleInserting_catalog hlp

/-- The other session is told that the item is dead. The inserter commits, and the next snapshot sees
it. -/
theorem deadMarking_fails : CatalogRun 5 exampleInserting ∧
    exampleInserting.inst.catalogs 1 = some exampleOneRow ∧
    ReportedDead exampleInserting 1 exampleOneRow ⟨0, 1⟩ ∧
    ¬ NeverSeen 5 exampleInserting 1 ⟨0, 1⟩ := by
  have hlp : exampleOneRow.lp ⟨0, 1⟩ = some exampleOneLp := rfl
  refine ⟨exampleInserting_run, exampleInserting_catalog,
    (reportedDead_iff hlp).mpr fun _ => by decide, fun hnever => ?_⟩
  have hinv := exampleInserting_run.inv
  have hopen : exampleInserting.session 0 = some 5 := rfl
  have hcommit : CatalogStep 5 exampleInserting
      (exampleInserting.endXact 0 (exampleInserting.inst.db.commit 5)) := .commit hopen rfl
  have hcat : (exampleInserting.endXact 0 (exampleInserting.inst.db.commit 5)).inst.catalogs 1 =
    some exampleOneRow := exampleInserting_catalog
  obtain ⟨σ', hr, p, hp, hsees⟩ := maySee_fresh (hinv.step hcommit) hcat hlp rfl
    rfl nofun
  exact hnever σ' (.head hcommit hr) p hp hsees

end NeoPostGraph
