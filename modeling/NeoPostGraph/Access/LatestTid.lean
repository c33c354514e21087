import NeoPostGraph.Access.CatalogLinks

/-!
# The latest version of a row

`np_catalog_get_latest_tid` ends in every state, since links are ranked. It finds the newest version that is
seen where every version that is not aborted is behind the link of the one it was made from. The stamp of an
update puts it there, as long as no other session has stamped the old version since the update's test: the
test is not made again, and a stamp that comes late takes the link of a committed version away.

* `LinkedCatalogs.AtOrAfter`: a version was made from another one, by updates.
* `CarefulLinks`: what is asked of the steps. `LatestTidRight`: what the function is to return.

Results:
* `LatestInv.step`: careful steps keep the versions that count on the links.
* `getLatestTid_of_careful`: the function ends in every run, and is right in careful ones.
* `getLatestTid_fails`: it misses the committed version when an update that aborts stamps last.
-/

namespace NeoPostGraph

open SlottedPage

/-! ## What the function is to return -/

namespace LinkedCatalogs

/-- The version `b` was made by an update of `a`. -/
def Supersedes (σ : LinkedCatalogs) (rel : Oid) (a b : ItemPointer) : Prop :=
  a.isValid = true ∧ ∃ item, σ.row rel b = some item ∧ item.prevItemptr = a

/-- The version `b` is `a`, or was made from it by updates. -/
def AtOrAfter (σ : LinkedCatalogs) (rel : Oid) : ItemPointer → ItemPointer → Prop :=
  Relation.ReflTransGen (σ.Supersedes rel)

end LinkedCatalogs

/-- The version `b` is the newest of those at or after `a` that are seen. -/
def Newest (σ : LinkedCatalogs) (rel : Oid) (sees : ItemPointer → Bool) (a b : ItemPointer) : Prop :=
  σ.AtOrAfter rel a b ∧ sees b = true ∧
    ∀ c, σ.AtOrAfter rel a c → sees c = true → c = b ∨ c.Before b

/-- The function returns, or raises the error of `ReadBuffer`. -/
def LatestTidEnds (σ : LinkedCatalogs) : Prop :=
  ∀ (r : CatalogReader) rel t tid, σ.sys.inst.catalogs rel = some t →
    ∃ fuel result, npCatalogGetLatestTid r t (σ.ctid rel) fuel tid = some result

/-- **For a session that calls it with any snapshot, the function returns the newest version at or after the
tid that the session sees**, and the tid it was given where the session sees none. -/
def LatestTidRight (σ : LinkedCatalogs) : Prop :=
  ∀ k rel t snapshot tid, σ.sys.updating k = none → σ.sys.inst.catalogs rel = some t →
    tid.block < t.nblocks →
    let r : CatalogReader := ⟨σ.xacts, σ.sys.own k, snapshot⟩
    ∃ fuel result, npCatalogGetLatestTid r t (σ.ctid rel) fuel tid = some (.ok result) ∧
      ((∃ b, σ.AtOrAfter rel tid b ∧ r.seesTid t b = true) → Newest σ rel (r.seesTid t) tid result) ∧
      ((∀ b, σ.AtOrAfter rel tid b → r.seesTid t b = false) → result = tid)

/-- No two committed updates superseded the same version. -/
def OneSuccessor (σ : LinkedCatalogs) : Prop :=
  ∀ rel a b c, σ.Supersedes rel a b → σ.Supersedes rel a c →
    (∃ item, σ.row rel b = some item ∧ σ.xacts.Committed item.xmin) →
    (∃ item, σ.row rel c = some item ∧ σ.xacts.Committed item.xmin) → b = c

/-! ## Careful updates -/

/-- **What keeps versions on the links.** When a session stamps the version it has updated, that version
still passes the test the update began with; and no update fails between its append and its stamp but by the
abort of its transaction. -/
def CarefulLinks (σ : LinkedCatalogs) : LinkedAction → Prop
  | .other => True
  | .failUpdate k => ∀ c, σ.sys.updating k = some c → c.written = false
  | .stampUpdate k => ∀ t c old, σ.sys.session k = some t → σ.sys.updating k = some c →
      σ.row c.rel c.otid = some old → checkItem σ.xacts (Session.own ⟨t, σ.sys.cid k⟩) old = .ok

/-- The new version is appended, and the old one is not stamped yet. -/
def LinkedCatalogs.Pending (σ : LinkedCatalogs) (rel : Oid) (b : ItemPointer) : Prop :=
  ∃ k c, σ.sys.updating k = some c ∧ c.written = true ∧ c.rel = rel ∧ σ.newTid k = b

/-- What holds in careful runs. -/
structure LatestInv (base : Nat) (σ : LinkedCatalogs) : Prop where
  links : LinkInv base σ
  /-- Who made a version from another one had made that one too, or had seen it committed. -/
  creator : ∀ rel b ib ia, σ.row rel b = some ib → ib.prevItemptr.isValid = true →
    σ.row rel ib.prevItemptr = some ia → ia.xmin = ib.xmin ∨ σ.xacts.Committed ia.xmin
  /-- A version that counts is behind the link of the one it was made from, or will be. -/
  child : ∀ rel b ib, σ.row rel b = some ib → ib.prevItemptr.isValid = true →
    ¬ σ.xacts.Aborted ib.xmin →
    (∃ ia, σ.row rel ib.prevItemptr = some ia ∧ ia.deleter = some ib.xmin ∧
      σ.ctid rel ib.prevItemptr = b) ∨ σ.Pending rel b
  childless : ∀ k c, σ.sys.updating k = some c → c.written = true →
    ∀ b ib, σ.row c.rel b = some ib → ib.prevItemptr ≠ σ.newTid k
  /-- Behind a link is an aborted version, or the one that superseded the item. -/
  link : ∀ rel a b, σ.ctid rel a = b → b.isValid = true → ∃ ia ib, σ.row rel a = some ia ∧
    σ.row rel b = some ib ∧
      (σ.xacts.Aborted ib.xmin ∨ ib.prevItemptr = a ∧ ia.deleter = some ib.xmin)
  copies : ∀ rel a b, (rel, a, b) ∈ σ.copies → b.isValid = true → ∃ ia ib, σ.row rel a = some ia ∧
    σ.row rel b = some ib ∧ (σ.xacts.Aborted ib.xmin ∨ ia.deleter = some ib.xmin)
  given : ∀ k c, σ.sys.updating k = some c → (σ.given k).isValid = true →
    ∃ ib, σ.row c.rel (σ.given k) = some ib ∧ σ.xacts.Aborted ib.xmin

section

variable {base k t : Nat} {σ σ' : LinkedCatalogs} {rel : Oid} {tid a b : ItemPointer}
  {item ia ib : CatalogItem} {act : LinkedAction}

theorem LinkInv.header (h : LinkInv base σ) (hitem : σ.row rel tid = some item) :
    HeaderInv base σ.xacts item.toRecordHeader := h.sys.header hitem

theorem LinkInv.valid (h : σ.row rel tid = some item) : tid.isValid = true := by
  obtain ⟨t, -, hget⟩ := Option.bind_eq_some_iff.mp h
  exact Table.isValid_of_get hget

/-- The version a session updates is not one that is still to be linked. -/
theorem LinkInv.otid_ne (h : LinkInv base σ) {k k' : Nat} {c c' : UpdateCall}
    (hc : σ.sys.updating k = some c) (hc' : σ.sys.updating k' = some c') (hw : c'.written = true)
    (hrel : c'.rel = c.rel) : c.otid ≠ σ.newTid k' := by
  intro he
  obtain ⟨t', item, hk', hitem, hmin, hprev⟩ := h.written k' c' hc' hw
  obtain ⟨τ, hk, tbl, old, htbl, hget, hok⟩ := h.sys.updating k c hc
  have hold : σ.row c.rel c.otid = some old := by
    show σ.sys.inst.item c.rel c.otid = some old
    unfold Instance.item
    rw [htbl]
    exact hget
  rw [hrel, ← he, hold] at hitem
  obtain rfl := Option.some.inj hitem
  have hopen := h.sys.sessions.running k' t' hk'
  rcases hok with ⟨hτ, -⟩ | hcom
  · obtain rfl : k = k' := h.sys.sessions.one k k' t' (by rw [hk, ← hτ, hmin]) hk'
    obtain rfl := Option.some.inj (hc.symm.trans hc')
    have hvalid : old.prevItemptr.isValid = true := by
      rw [hprev]
      exact LinkInv.valid hold
    have hbefore := (h.prev c.rel c.otid old hold hvalid).2
    rw [hprev] at hbefore
    exact ItemPointer.Before.irrefl _ hbefore
  · rw [hmin] at hcom
    exact hopen.not_committed hcom

/-! ### Steps that write no item -/

/-- Steps that leave rows and links alone. -/
theorem LatestInv.same (h : LatestInv base σ) (hlinks : LinkInv base σ')
    (hrow : ∀ rel tid, σ'.row rel tid = σ.row rel tid) (hctid : σ'.ctid = σ.ctid)
    (haborted : ∀ rel tid item, σ.row rel tid = some item → σ.xacts.Aborted item.xmin →
      σ'.xacts.Aborted item.xmin)
    (hcommitted : ∀ rel tid item, σ.row rel tid = some item → σ.xacts.Committed item.xmin →
      σ'.xacts.Committed item.xmin)
    (hpending : ∀ rel b item, σ.row rel b = some item → ¬ σ'.xacts.Aborted item.xmin →
      σ.Pending rel b → σ'.Pending rel b)
    (hwritten : ∀ k c, σ'.sys.updating k = some c → c.written = true →
      σ.sys.updating k = some c ∧ σ'.newTid k = σ.newTid k)
    (hcopies : ∀ rel a b, (rel, a, b) ∈ σ'.copies → (rel, a, b) ∈ σ.copies ∨ σ.ctid rel a = b)
    (hgiven : ∀ k c, σ'.sys.updating k = some c → (σ'.given k).isValid = true →
      ∃ ib, σ.row c.rel (σ'.given k) = some ib ∧ σ.xacts.Aborted ib.xmin) : LatestInv base σ' := by
  refine ⟨hlinks, fun rel b ib ia hib hp hia => ?_, fun rel b ib hib hp hnot => ?_,
    fun k c hc hw b ib hib => ?_, fun rel a b hab hb => ?_, fun rel a b hab hb => ?_, fun k c hc hv => ?_⟩
  · rw [hrow] at hib hia
    exact (h.creator rel b ib ia hib hp hia).imp_right (hcommitted rel _ ia hia)
  · rw [hrow] at hib
    have hnot₀ : ¬ σ.xacts.Aborted ib.xmin := fun ha => hnot (haborted rel b ib hib ha)
    rcases h.child rel b ib hib hp hnot₀ with ⟨ia, hia, hd, hlink⟩ | hpend
    · refine Or.inl ⟨ia, by rw [hrow]; exact hia, hd, ?_⟩
      rw [hctid]
      exact hlink
    · exact Or.inr (hpending rel b ib hib hnot hpend)
  · rw [hrow] at hib
    obtain ⟨hc₀, hnew⟩ := hwritten k c hc hw
    rw [hnew]
    exact h.childless k c hc₀ hw b ib hib
  · rw [hctid] at hab
    obtain ⟨ia, ib, hia, hib, hor⟩ := h.link rel a b hab hb
    refine ⟨ia, ib, by rw [hrow]; exact hia, by rw [hrow]; exact hib, ?_⟩
    exact hor.imp_left (haborted rel b ib hib)
  · have hold : ∃ ia ib, σ.row rel a = some ia ∧ σ.row rel b = some ib ∧
        (σ.xacts.Aborted ib.xmin ∨ ia.deleter = some ib.xmin) := by
      rcases hcopies rel a b hab with hcopy | hlink
      · exact h.copies rel a b hcopy hb
      · obtain ⟨ia, ib, hia, hib, hor⟩ := h.link rel a b hlink hb
        exact ⟨ia, ib, hia, hib, hor.imp_right And.right⟩
    obtain ⟨ia, ib, hia, hib, hor⟩ := hold
    refine ⟨ia, ib, by rw [hrow]; exact hia, by rw [hrow]; exact hib, ?_⟩
    exact hor.imp_left (haborted rel b ib hib)
  · obtain ⟨ib, hib, ha⟩ := hgiven k c hc hv
    exact ⟨ib, by rw [hrow]; exact hib, haborted c.rel _ ib hib ha⟩

theorem LatestInv.quiet (h : LatestInv base σ) {s' : CatalogSystem} (hs : CatalogStep base σ.sys s')
    (hq : LinksQuiet σ.sys s') : LatestInv base { σ with sys := s' } := by
  have hset := hs.settles h.links.sys
  have hkeep : ∀ rel tid item st, σ.row rel tid = some item → st ≠ .inProgress →
      σ.xacts.status item.xmin = st → s'.xacts.status item.xmin = st := by
    intro rel tid item st hitem hst hx
    have hend := hset _ (h.links.header hitem).xmin (by
      show σ.xacts.status item.xmin ≠ _
      rw [hx]
      exact hst)
    exact hend.trans hx
  refine h.same (h.links.step (.quiet hs hq)) (fun rel tid => ?_) rfl
    (fun rel tid item hitem => hkeep rel tid item .aborted hitem (by decide))
    (fun rel tid item hitem => hkeep rel tid item .committed hitem (by decide))
    (fun rel b item hitem hnot hpend => ?_) (fun k c hc _ => ⟨hq.updating k c hc, rfl⟩)
    (fun _ _ _ hab => Or.inl hab) fun k c hc hv => h.given k c (hq.updating k c hc) hv
  · show s'.inst.item rel tid = σ.sys.inst.item rel tid
    rw [item_eq_lp, item_eq_lp, hq.lp]
  · obtain ⟨k, c, hc, hw, rfl, rfl⟩ := hpend
    rcases hq.kept k c hc with hkept | hab
    · exact ⟨k, c, hkept, hw, rfl, rfl⟩
    · -- the transaction of an update that is given up has aborted
      obtain ⟨t, item', hk, hitem', hmin, -⟩ := h.links.written k c hc hw
      obtain rfl := Option.some.inj (hitem.symm.trans hitem')
      refine absurd (hab t hk) ?_
      rw [← hmin]
      exact hnot

/-- What passes the test of the writers was deleted by nobody but aborted transactions. -/
theorem LinkInv.deletable (h : LinkInv base σ) (hk : σ.sys.session k = some t)
    (hitem : σ.row rel tid = some item)
    (hc : checkItem σ.xacts (Session.own ⟨t, σ.sys.cid k⟩) item = .ok) :
    Exclusive.Deletable σ.xacts.Committed σ.xacts.Aborted t item.stamps :=
  deletable_of_check (s := ⟨t, σ.sys.cid k⟩) h.sys.room (h.sys.sessions.running k t hk) (h.header hitem) hc

theorem LatestInv.checkUpdate (h : LatestInv base σ) {otid link : ItemPointer} (tuple : List Nat)
    (hk : σ.sys.session k = some t) (hu : σ.sys.updating k = none)
    (hlinks : LinkInv base { σ with
      sys := { σ.sys with
        updating := Function.update σ.sys.updating k (some ⟨rel, otid, tuple, false⟩) }
      given := Function.update σ.given k link })
    (hlink : link = .invalid ∨ (rel, otid, link) ∈ σ.copies)
    (hr : (checkCatalogItem ⟨t, σ.sys.cid k⟩ rel otid).Runs σ.sys.inst .ok σ.sys.inst) :
    LatestInv base { σ with
      sys := { σ.sys with
        updating := Function.update σ.sys.updating k (some ⟨rel, otid, tuple, false⟩) }
      given := Function.update σ.given k link } := by
  refine h.same hlinks (fun _ _ => rfl) rfl (fun _ _ _ _ ha => ha) (fun _ _ _ _ hc => hc)
    (fun rel' b item hitem _ hpend => ?_) (fun k' c hc hw => ?_) (fun _ _ _ hab => Or.inl hab)
    fun k' c hc hv => ?_
  · obtain ⟨k', c, hc, hw, hrel, hnew⟩ := hpend
    have hne : k' ≠ k := by
      rintro rfl
      rw [hu] at hc
      cases hc
    exact ⟨k', c, (Function.update_of_ne hne ..).trans hc, hw, hrel, hnew⟩
  · have hc : Function.update σ.sys.updating k (some ⟨rel, otid, tuple, false⟩) k' = some c := hc
    by_cases hk' : k' = k
    · rw [hk', Function.update_self] at hc
      obtain rfl := Option.some.inj hc
      cases hw
    · rw [Function.update_of_ne hk'] at hc
      exact ⟨hc, rfl⟩
  · have hc : Function.update σ.sys.updating k (some ⟨rel, otid, tuple, false⟩) k' = some c := hc
    have hv : (Function.update σ.given k link k').isValid = true := hv
    show ∃ ib, σ.row c.rel (Function.update σ.given k link k') = some ib ∧ _
    by_cases hk' : k' = k
    · rw [hk', Function.update_self] at hc hv ⊢
      obtain rfl := Option.some.inj hc
      rcases hlink with rfl | hcopy
      · cases hv
      · -- the copy links to an aborted version, or to one that superseded this one and has aborted since
        obtain ⟨ia, ib, hia, hib, hor⟩ := h.copies rel otid link hcopy hv
        obtain ⟨item, hitem, hcheck, -⟩ := checkCatalogItem_item hr
        obtain rfl := Option.some.inj (hia.symm.trans hitem)
        refine ⟨ib, hib, hor.elim id fun hd => ?_⟩
        exact ((h.links.deletable hk hia hcheck.symm).2 _ hd).2
    · rw [Function.update_of_ne hk'] at hc hv ⊢
      exact h.given k' c hc hv

/-! ### Steps that stamp an item -/

/-- **A stamp on an item that passes the test.** Whatever was behind its link, and counted as the one that
superseded it, has aborted. -/
theorem LatestInv.stamp (h : LatestInv base σ) (hlinks : LinkInv base σ') {cid : Nat} {o : ItemPointer}
    {lp : Nat × CatalogItem} (hvalid : fullXidIsValid t = true)
    (hst : LpStamped σ.sys.inst σ'.sys.inst ⟨t, cid⟩ rel o lp)
    (hdel : Exclusive.Deletable σ.xacts.Committed σ.xacts.Aborted t lp.2.stamps)
    (hcopies : σ'.copies = σ.copies) (hgiven : σ'.given = σ.given) (hnew : σ'.newTid = σ.newTid)
    (hupdating : ∀ k c, σ'.sys.updating k = some c → σ.sys.updating k = some c)
    (hctid : ∀ rel' a, σ'.ctid rel' a = σ.ctid rel' a ∨ rel' = rel ∧ a = o ∧
      ∃ ib, σ.row rel (σ'.ctid rel' a) = some ib ∧ ib.prevItemptr = o ∧ ib.xmin = t)
    (hpending : ∀ rel' b ib, σ.row rel' b = some ib → σ.Pending rel' b → σ'.Pending rel' b ∨
      rel' = rel ∧ ib.prevItemptr = o ∧ ib.xmin = t ∧ σ'.ctid rel o = b) : LatestInv base σ' := by
  have hx : σ'.xacts = σ.xacts := congrArg Db.xacts hst.db
  have hrow := item_stamped hst
  have hold : σ.row rel o = some lp.2 := by
    show σ.sys.inst.item rel o = some lp.2
    rw [item_eq_lp, hst.old, Option.map_some]
  have hdeleter : (stampItem ⟨t, cid⟩ lp.2).deleter = some t := deleter_stampItem ⟨t, cid⟩ hvalid
  -- rows keep their creator and where they come from
  have hkeep : ∀ rel' tid item, σ'.row rel' tid = some item → ∃ item₀, σ.row rel' tid = some item₀ ∧
      item.xmin = item₀.xmin ∧ item.prevItemptr = item₀.prevItemptr := by
    intro rel' tid item hitem
    obtain ⟨item₀, hitem₀, hmin, hprev⟩ := hst.alike.symm.row hitem
    exact ⟨item₀, hitem₀, hmin.symm, hprev.symm⟩
  have hmove : ∀ rel' tid item, σ.row rel' tid = some item → ∃ item', σ'.row rel' tid = some item' ∧
      item'.xmin = item.xmin ∧ item'.prevItemptr = item.prevItemptr ∧
      ((rel' = rel ∧ tid = o) ∧ item'.deleter = some t ∨ ¬ (rel' = rel ∧ tid = o) ∧ item' = item) := by
    intro rel' tid item hitem
    by_cases he : rel' = rel ∧ tid = o
    · obtain ⟨rfl, rfl⟩ := he
      obtain rfl := Option.some.inj (hitem.symm.trans hold)
      exact ⟨_, (hrow _ _).trans (if_pos ⟨rfl, rfl⟩), rfl, rfl, Or.inl ⟨⟨rfl, rfl⟩, hdeleter⟩⟩
    · exact ⟨item, (hrow _ _).trans ((if_neg he).trans hitem), rfl, rfl, Or.inr ⟨he, rfl⟩⟩
  -- a deleter that the stamp takes the place of has aborted
  have hgone : ∀ rel' a ia d, σ.row rel' a = some ia → ia.deleter = some d → rel' = rel ∧ a = o →
      σ.xacts.Aborted d := by
    rintro rel' a ia d hia hd ⟨rfl, rfl⟩
    obtain rfl := Option.some.inj (hia.symm.trans hold)
    exact (hdel.2 d hd).2
  refine ⟨hlinks, fun rel' b ib ia hib hp hia => ?_, fun rel' b ib hib hp hnot => ?_,
    fun k c hc hw b ib hib => ?_, fun rel' a b hab hb => ?_, fun rel' a b hab hb => ?_, fun k c hc hv => ?_⟩
  · obtain ⟨ib₀, hib₀, hmin, hprev⟩ := hkeep rel' b ib hib
    obtain ⟨ia₀, hia₀, hmin', -⟩ := hkeep rel' _ ia hia
    rw [hprev] at hp hia₀
    rw [hx, hmin, hmin']
    exact h.creator rel' b ib₀ ia₀ hib₀ hp hia₀
  · obtain ⟨ib₀, hib₀, hmin, hprev⟩ := hkeep rel' b ib hib
    rw [hx, hmin] at hnot
    rw [hprev] at hp ⊢
    rw [hmin]
    rcases h.child rel' b ib₀ hib₀ hp hnot with ⟨ia, hia, hd, hlink⟩ | hpend
    · obtain ⟨ia', hia', -, -, ⟨he, -⟩ | ⟨he, rfl⟩⟩ := hmove rel' _ ia hia
      · exact absurd (hgone rel' _ ia _ hia hd he) hnot
      · refine Or.inl ⟨ia', hia', hd, ?_⟩
        rcases hctid rel' ib₀.prevItemptr with hsame | ⟨hr, ho, -⟩
        · exact hsame.trans hlink
        · exact absurd ⟨hr, ho⟩ he
    · rcases hpending rel' b ib₀ hib₀ hpend with hpend | ⟨rfl, hprevo, hmint, hlink⟩
      · exact Or.inr hpend
      · rw [hprevo, hmint]
        exact Or.inl ⟨_, (hrow _ _).trans (if_pos ⟨rfl, rfl⟩), hdeleter, hlink⟩
  · obtain ⟨ib₀, hib₀, -, hprev⟩ := hkeep c.rel b ib hib
    rw [hprev, hnew]
    exact h.childless k c (hupdating k c hc) hw b ib₀ hib₀
  · rcases hctid rel' a with hsame | ⟨rfl, rfl, ib, hib, hprev, hmin⟩
    · rw [hsame] at hab
      obtain ⟨ia, ib, hia, hib, hor⟩ := h.link rel' a b hab hb
      obtain ⟨ia', hia', -, -, hcase⟩ := hmove rel' a ia hia
      obtain ⟨ib', hib', hmin, hprev, -⟩ := hmove rel' b ib hib
      refine ⟨ia', ib', hia', hib', ?_⟩
      rw [hx, hmin, hprev]
      rcases hor with hor | ⟨hpa, hd⟩
      · exact Or.inl hor
      · rcases hcase with ⟨he, -⟩ | ⟨-, rfl⟩
        · exact Or.inl (hgone rel' a ia _ hia hd he)
        · exact Or.inr ⟨hpa, hd⟩
    · subst hab
      obtain ⟨ia', hia', -, -, hcase⟩ := hmove rel' a lp.2 hold
      obtain ⟨ib', hib', hmin', hprev', -⟩ := hmove rel' _ ib hib
      refine ⟨ia', ib', hia', hib', Or.inr ⟨hprev'.trans hprev, ?_⟩⟩
      rw [hmin', hmin]
      rcases hcase with ⟨-, hd⟩ | ⟨he, -⟩
      · exact hd
      · exact absurd ⟨rfl, rfl⟩ he
  · rw [hcopies] at hab
    obtain ⟨ia, ib, hia, hib, hor⟩ := h.copies rel' a b hab hb
    obtain ⟨ia', hia', -, -, hcase⟩ := hmove rel' a ia hia
    obtain ⟨ib', hib', hmin, -, -⟩ := hmove rel' b ib hib
    refine ⟨ia', ib', hia', hib', ?_⟩
    rw [hx, hmin]
    rcases hor with hor | hd
    · exact Or.inl hor
    · rcases hcase with ⟨he, -⟩ | ⟨-, rfl⟩
      · exact Or.inl (hgone rel' a ia _ hia hd he)
      · exact Or.inr hd
  · rw [hgiven] at hv ⊢
    obtain ⟨ib, hib, ha⟩ := h.given k c (hupdating k c hc) hv
    obtain ⟨ib', hib', hmin, -, -⟩ := hmove c.rel _ ib hib
    refine ⟨ib', hib', ?_⟩
    rw [hx, hmin]
    exact ha

/-! ### Steps that append an item -/

/-- **An append**: the new version is pending if it was made from another one, and what it links to has
aborted. -/
theorem LatestInv.append (h : LatestInv base σ) (hlinks : LinkInv base σ') {n : ItemPointer}
    (ha : LpAppended σ.sys.inst σ'.sys.inst rel n item)
    (hcreator : item.prevItemptr.isValid = true → ∃ ia, σ.row rel item.prevItemptr = some ia ∧
      (ia.xmin = item.xmin ∨ σ.xacts.Committed ia.xmin))
    (hctid : ∀ rel' a, ¬ (rel' = rel ∧ a = n) → σ'.ctid rel' a = σ.ctid rel' a)
    (hlink : (σ'.ctid rel n).isValid = true → ∃ ib, σ.row rel (σ'.ctid rel n) = some ib ∧
      σ.xacts.Aborted ib.xmin)
    (hcopies : σ'.copies = σ.copies)
    (hnewPending : item.prevItemptr.isValid = true → σ'.Pending rel n)
    (hpending : ∀ rel' b, σ.Pending rel' b → σ'.Pending rel' b)
    (hwritten : ∀ k c, σ'.sys.updating k = some c → c.written = true →
      c.rel = rel ∧ σ'.newTid k = n ∨ σ.sys.updating k = some c ∧ σ'.newTid k = σ.newTid k ∧
        (c.rel = rel → item.prevItemptr ≠ σ.newTid k))
    (hgiven : ∀ k c, σ'.sys.updating k = some c → (σ'.given k).isValid = true →
      ∃ ib, σ.row c.rel (σ'.given k) = some ib ∧ σ.xacts.Aborted ib.xmin) : LatestInv base σ' := by
  have hx : σ'.xacts = σ.xacts := congrArg Db.xacts ha.db
  have hrow := item_appended ha
  have hnew : σ'.row rel n = some item := (hrow rel n).trans (if_pos ⟨rfl, rfl⟩)
  have hfresh : σ.row rel n = none := by
    show σ.sys.inst.item rel n = none
    rw [item_eq_lp, ha.fresh]
    rfl
  have hstored : ∀ rel' tid item', σ.row rel' tid = some item' → σ'.row rel' tid = some item' := by
    intro rel' tid item' hitem'
    have hne : ¬ (rel' = rel ∧ tid = n) := by
      rintro ⟨rfl, rfl⟩
      rw [hfresh] at hitem'
      cases hitem'
    exact (hrow rel' tid).trans ((if_neg hne).trans hitem')
  have hcases : ∀ rel' tid item', σ'.row rel' tid = some item' →
      (rel' = rel ∧ tid = n) ∧ item' = item ∨ ¬ (rel' = rel ∧ tid = n) ∧ σ.row rel' tid = some item' := by
    intro rel' tid item' hitem'
    have hitem' : σ'.sys.inst.item rel' tid = some item' := hitem'
    rw [hrow] at hitem'
    split at hitem'
    · next he => exact Or.inl ⟨he, (Option.some.inj hitem').symm⟩
    · next he => exact Or.inr ⟨he, hitem'⟩
  -- nothing was made from the new version yet
  have hchildless : ∀ rel' b ib, σ.row rel' b = some ib → ib.prevItemptr.isValid = true →
      ¬ (rel' = rel ∧ ib.prevItemptr = n) := by
    rintro rel' b ib hib hp ⟨rfl, he⟩
    obtain ⟨⟨ia, hia⟩, -⟩ := h.links.prev rel' b ib hib hp
    rw [he, hfresh] at hia
    cases hia
  have hprevne : item.prevItemptr.isValid = true → item.prevItemptr ≠ n := by
    intro hp he
    obtain ⟨ia, hia, -⟩ := hcreator hp
    rw [he, hfresh] at hia
    cases hia
  refine ⟨hlinks, fun rel' b ib ia hib hp hia => ?_, fun rel' b ib hib hp hnot => ?_,
    fun k c hc hw b ib hib => ?_, fun rel' a b hab hb => ?_, fun rel' a b hab hb => ?_, fun k c hc hv => ?_⟩
  · rw [hx]
    rcases hcases rel' b ib hib with ⟨⟨rfl, rfl⟩, rfl⟩ | ⟨-, hib⟩
    · obtain ⟨ia₀, hia₀, hor⟩ := hcreator hp
      obtain rfl := Option.some.inj (hia.symm.trans (hstored _ _ _ hia₀))
      exact hor
    · rcases hcases rel' _ ia hia with ⟨he, -⟩ | ⟨-, hia⟩
      · exact absurd he (hchildless rel' b ib hib hp)
      · exact h.creator rel' b ib ia hib hp hia
  · rw [hx] at hnot
    rcases hcases rel' b ib hib with ⟨⟨rfl, rfl⟩, rfl⟩ | ⟨-, hib⟩
    · exact Or.inr (hnewPending hp)
    · rcases h.child rel' b ib hib hp hnot with ⟨ia, hia, hd, hlk⟩ | hpend
      · exact Or.inl ⟨ia, hstored _ _ _ hia, hd,
          (hctid rel' _ (hchildless rel' b ib hib hp)).trans hlk⟩
      · exact Or.inr (hpending rel' b hpend)
  · rcases hwritten k c hc hw with ⟨hrel, hn⟩ | ⟨hc₀, hn, hother⟩
    · rw [hn]
      rcases hcases c.rel b ib hib with ⟨-, rfl⟩ | ⟨-, hib⟩
      · intro he
        have hp : ib.prevItemptr.isValid = true := by
          rw [he]
          exact LinkInv.valid hnew
        exact hprevne hp he
      · intro he
        have hp : ib.prevItemptr.isValid = true := by
          rw [he]
          exact LinkInv.valid hnew
        exact hchildless c.rel b ib hib hp ⟨hrel, he⟩
    · rw [hn]
      rcases hcases c.rel b ib hib with ⟨⟨hrel, -⟩, rfl⟩ | ⟨-, hib⟩
      · exact hother hrel
      · exact h.childless k c hc₀ hw b ib hib
  · by_cases he : rel' = rel ∧ a = n
    · obtain ⟨rfl, rfl⟩ := he
      subst hab
      obtain ⟨ib, hib, hab⟩ := hlink hb
      rw [← hx] at hab
      exact ⟨item, ib, hnew, hstored _ _ _ hib, Or.inl hab⟩
    · rw [hctid rel' a he] at hab
      obtain ⟨ia, ib, hia, hib, hor⟩ := h.link rel' a b hab hb
      rw [← hx] at hor
      exact ⟨ia, ib, hstored _ _ _ hia, hstored _ _ _ hib, hor⟩
  · rw [hcopies] at hab
    obtain ⟨ia, ib, hia, hib, hor⟩ := h.copies rel' a b hab hb
    rw [← hx] at hor
    exact ⟨ia, ib, hstored _ _ _ hia, hstored _ _ _ hib, hor⟩
  · obtain ⟨ib, hib, hab⟩ := hgiven k c hc hv
    rw [← hx] at hab
    exact ⟨ib, hstored _ _ _ hib, hab⟩

/-! ### Every careful step keeps the invariant -/

theorem LatestInv.insert (h : LatestInv base σ) (hlinks : LinkInv base σ') {tuple : List Nat} {i : Instance}
    (hr : (npCatalogTupleInsert ⟨t, σ.sys.cid k⟩ rel tuple).Runs σ.sys.inst tid i)
    (he : σ' = { σ with sys := { σ.sys with inst := i }, ctid := setCtid σ.ctid rel tid .invalid }) :
    LatestInv base σ' := by
  subst he
  refine h.append hlinks (lpAppended_of_runs hr) (fun hp => by cases hp) (fun rel' a hne => if_neg hne)
    (fun hv => ?_) rfl (fun hp => by cases hp) (fun rel' b hpend => hpend)
    (fun k' c hc hw => Or.inr ⟨hc, rfl, fun _ heq => ?_⟩) h.given
  · have hself : setCtid σ.ctid rel tid .invalid rel tid = .invalid := if_pos ⟨rfl, rfl⟩
    have hv : (setCtid σ.ctid rel tid .invalid rel tid).isValid = true := hv
    rw [hself] at hv
    cases hv
  · obtain ⟨t', item', -, hitem', -⟩ := h.links.written k' c hc hw
    have hvalid := LinkInv.valid hitem'
    rw [← heq] at hvalid
    cases hvalid

theorem LatestInv.writeUpdate (h : LatestInv base σ) (hlinks : LinkInv base σ') {i : Instance}
    {c : UpdateCall} (hk : σ.sys.session k = some t) (hu : σ.sys.updating k = some c)
    (hw : c.written = false)
    (hr : (writeCatalogItem c.rel (npCatalogPackItem ⟨t, σ.sys.cid k⟩ c.otid c.tuple)).Runs
      σ.sys.inst tid i)
    (he : σ' = { σ with
      sys := { σ.sys with
        inst := i
        updating := Function.update σ.sys.updating k (some { c with written := true }) }
      ctid := setCtid σ.ctid c.rel tid (σ.given k)
      newTid := Function.update σ.newTid k tid }) : LatestInv base σ' := by
  subst he
  have hself : setCtid σ.ctid c.rel tid (σ.given k) c.rel tid = σ.given k := if_pos ⟨rfl, rfl⟩
  have hother : ∀ k' c', σ.sys.updating k' = some c' → c'.written = true → k' ≠ k := by
    rintro k' c' hc hw' rfl
    obtain rfl := Option.some.inj (hu.symm.trans hc)
    rw [hw] at hw'
    cases hw'
  have hcall : ∀ k' c', Function.update σ.sys.updating k (some { c with written := true }) k' = some c' →
      k' = k ∧ c' = { c with written := true } ∨ k' ≠ k ∧ σ.sys.updating k' = some c' := by
    intro k' c' hc
    by_cases hk' : k' = k
    · rw [hk', Function.update_self] at hc
      exact Or.inl ⟨hk', (Option.some.inj hc).symm⟩
    · rw [Function.update_of_ne hk'] at hc
      exact Or.inr ⟨hk', hc⟩
  refine h.append hlinks (lpAppended_of_runs hr) (fun hp => ?_) (fun rel' a hne => if_neg hne) (fun hv => ?_)
    rfl (fun _ => ?_) (fun rel' b hpend => ?_) (fun k' c' hc hw' => ?_) fun k' c' hc hv => ?_
  · obtain ⟨τ, hτ, tbl, old, htbl, hget, hok⟩ := h.links.sys.updating k c hu
    obtain rfl := Option.some.inj (hk.symm.trans hτ)
    refine ⟨old, ?_, hok.imp And.left id⟩
    show σ.sys.inst.item c.rel c.otid = some old
    unfold Instance.item
    rw [htbl]
    exact hget
  · have hv : (setCtid σ.ctid c.rel tid (σ.given k) c.rel tid).isValid = true := hv
    show ∃ ib, σ.row c.rel (setCtid σ.ctid c.rel tid (σ.given k) c.rel tid) = some ib ∧ _
    rw [hself] at hv ⊢
    exact h.given k c hu hv
  · exact ⟨k, { c with written := true }, Function.update_self .., rfl, rfl, Function.update_self ..⟩
  · obtain ⟨k', c', hc, hw', hrel, hnew⟩ := hpend
    have hne := hother k' c' hc hw'
    exact ⟨k', c', (Function.update_of_ne hne ..).trans hc, hw', hrel,
      (Function.update_of_ne hne ..).trans hnew⟩
  · rcases hcall k' c' hc with ⟨rfl, rfl⟩ | ⟨hne, hc⟩
    · exact Or.inl ⟨rfl, Function.update_self ..⟩
    · exact Or.inr ⟨hc, Function.update_of_ne hne .., fun hrel => h.links.otid_ne hu hc hw' hrel⟩
  · rcases hcall k' c' hc with ⟨rfl, rfl⟩ | ⟨-, hc⟩
    · exact h.given k' c hu hv
    · exact h.given k' c' hc hv

theorem LatestInv.stampUpdate (h : LatestInv base σ) (hlinks : LinkInv base σ') {i : Instance}
    {c : UpdateCall} (hk : σ.sys.session k = some t) (hu : σ.sys.updating k = some c)
    (hw : c.written = true) (hr : (stampCatalogItem ⟨t, σ.sys.cid k⟩ c.rel c.otid).Runs σ.sys.inst () i)
    (hcare : CarefulLinks σ (.stampUpdate k))
    (he : σ' = { σ with
      sys := { σ.sys with inst := i, updating := Function.update σ.sys.updating k none }
      ctid := setCtid σ.ctid c.rel c.otid (σ.newTid k) }) : LatestInv base σ' := by
  subst he
  obtain ⟨lp, hst⟩ := lpStamped_of_runs hr
  have hold : σ.row c.rel c.otid = some lp.2 := by
    show σ.sys.inst.item c.rel c.otid = some lp.2
    rw [item_eq_lp, hst.old, Option.map_some]
  have hself : setCtid σ.ctid c.rel c.otid (σ.newTid k) c.rel c.otid = σ.newTid k := if_pos ⟨rfl, rfl⟩
  obtain ⟨t', new, hk', hnew, hmin, hprev⟩ := h.links.written k c hu hw
  obtain rfl := Option.some.inj (hk.symm.trans hk')
  refine h.stamp hlinks (h.links.sys.sessions.running k t hk).1.valid hst
    (h.links.deletable hk hold (hcare t c lp.2 hk hu hold)) rfl rfl rfl
    (fun k' c' hc => (of_update_none hc).2) (fun rel' a => ?_) fun rel' b ib hib hpend => ?_
  · by_cases he : rel' = c.rel ∧ a = c.otid
    · obtain ⟨rfl, rfl⟩ := he
      refine Or.inr ⟨rfl, rfl, new, ?_, hprev, hmin⟩
      show σ.row c.rel (setCtid σ.ctid c.rel c.otid (σ.newTid k) c.rel c.otid) = some new
      rw [hself]
      exact hnew
    · exact Or.inl (if_neg he)
  · obtain ⟨k', c', hc, hw', rfl, rfl⟩ := hpend
    by_cases hkk : k' = k
    · -- the pending version of this update is behind the link now
      subst hkk
      obtain rfl := Option.some.inj (hu.symm.trans hc)
      obtain rfl := Option.some.inj (hib.symm.trans hnew)
      exact Or.inr ⟨rfl, hprev, hmin, hself⟩
    · exact Or.inl ⟨k', c', (Function.update_of_ne hkk ..).trans hc, hw', rfl, rfl⟩

/-- **Every careful step keeps the invariant.** -/
theorem LatestInv.step (h : LatestInv base σ) (hs : LinkedStep base act σ σ') (hcare : CarefulLinks σ act) :
    LatestInv base σ' := by
  have hlinks := h.links.step hs
  cases hs with
  | quiet hstep hq => exact h.quiet hstep hq
  | @read _ rel tid item hitem =>
    refine h.same hlinks (fun _ _ => rfl) rfl (fun _ _ _ _ ha => ha) (fun _ _ _ _ hc => hc)
      (fun _ _ _ _ _ hpend => hpend) (fun _ _ hc _ => ⟨hc, rfl⟩) (fun rel' a b hab => ?_) h.given
    rcases List.mem_cons.mp hab with he | hab
    · cases he
      exact Or.inr rfl
    · exact Or.inl hab
  | insert hk hu htuple hr => exact h.insert hlinks hr rfl
  | @delete _ k t i rel tid r hk hu hr =>
    rcases delete_lp hr with rfl | ⟨lp, hc, hst⟩
    · exact h
    · have hold : σ.row rel tid = some lp.2 := by
        show σ.sys.inst.item rel tid = some lp.2
        rw [item_eq_lp, hst.old, Option.map_some]
      exact h.stamp hlinks (h.links.sys.sessions.running k t hk).1.valid hst (h.links.deletable hk hold hc)
        rfl rfl rfl (fun _ _ hc => hc) (fun _ _ => Or.inl rfl) fun _ _ _ _ hpend => Or.inl hpend
  | checkUpdate tuple hk hu hlink hr =>
    obtain rfl := check_same hr
    exact h.checkUpdate tuple hk hu hlinks hlink hr
  | writeUpdate hk hu hw htuple hr => exact h.writeUpdate hlinks hk hu hw hr rfl
  | stampUpdate hk hu hw hr => exact h.stampUpdate hlinks hk hu hw hr hcare rfl
  | failUpdate k =>
    refine h.same hlinks (fun _ _ => rfl) rfl (fun _ _ _ _ ha => ha) (fun _ _ _ _ hc => hc)
      (fun rel b item _ _ hpend => ?_) (fun k' c hc _ => ⟨(of_update_none hc).2, rfl⟩)
      (fun _ _ _ hab => Or.inl hab) fun k' c hc hv => h.given k' c (of_update_none hc).2 hv
    obtain ⟨k', c, hc, hw, hrel, hnew⟩ := hpend
    have hne : k' ≠ k := by
      rintro rfl
      have hnot := hcare c hc
      rw [hw] at hnot
      cases hnot
    exact ⟨k', c, (Function.update_of_ne hne ..).trans hc, hw, hrel, hnew⟩

/-- **The invariant holds in every state a careful run comes to.** -/
theorem LinkedRun.latestInv (h : LinkedRun base CarefulLinks σ) : LatestInv base σ := by
  induction h with
  | empty status hbase h64 hpast =>
    refine ⟨(LinkedRun.empty status hbase h64 hpast : LinkedRun base (fun _ _ => True) _).inv, nofun, nofun, nofun, ?_,
      nofun, nofun⟩
    rintro rel a b rfl hb
    cases hb
  | step _ hs hcare ih => exact ih.step hs hcare

/-! ## What is seen is on the links -/

/-- The session made the version, or its creator has committed. -/
def Held (σ : LinkedCatalogs) (k : Nat) (item : CatalogItem) : Prop :=
  item.xmin ∈ σ.sys.own k ∨ σ.xacts.Committed item.xmin

/-- **What a session sees it made, or its creator has committed**, whatever the snapshot. -/
theorem LinkInv.held_of_seen (h : LinkInv base σ) (hrow : σ.row rel tid = some item)
    {snapshot : Option (SnapshotType × Snapshot)}
    (hsees : npCatalogTupleVisible σ.xacts (σ.sys.own k) item.toRecordHeader snapshot = true) :
    Held σ k item := by
  have hheader := h.header hrow
  have hroom : σ.xacts.nextFxid ≤ base + 2 ^ 32 := h.sys.room
  have hown : ∀ o ∈ σ.sys.own k, σ.xacts.Begun base o := fun o ho => (h.sys.own_open ho).1
  have hlive : npEntityTupleIsLive σ.xacts (σ.sys.own k) item.toRecordHeader = true → Held σ k item := by
    intro hl
    rw [npEntityTupleIsLive_full hroom hown hheader.xmin fun hv =>
      hheader.xmax _ (deleter_eq_some.mpr ⟨hv, rfl⟩)] at hl
    split at hl
    · next ho => exact Or.inl ho
    · exact Or.inr hl.1
  unfold npCatalogTupleVisible at hsees
  split at hsees
  · unfold catalogMvccVisible at hsees
    dsimp only at hsees
    rw [XactState.transactionIdIsCurrent_eq hroom hown hheader.xmin,
      XactState.transactionIdDidCommit_eq hroom hheader.xmin] at hsees
    by_cases ho : item.xmin ∈ σ.sys.own k
    · exact Or.inl ho
    · refine Or.inr ?_
      by_contra hnot
      have hnot : σ.xacts.status item.xmin ≠ .committed := hnot
      simp [ho, hnot] at hsees
  · exact hlive hsees

theorem Held.not_aborted (h : LinkInv base σ) (hheld : Held σ k item) : ¬ σ.xacts.Aborted item.xmin := by
  rcases hheld with ho | hc
  · exact (h.sys.own_open ho).not_aborted
  · exact XactState.not_aborted_of_committed _ hc

/-- **A version that is seen is behind the link of the one it was made from**, which is one of the session or
of a committed transaction too. -/
theorem LatestInv.link_of_held (h : LatestInv base σ) (hu : σ.sys.updating k = none)
    (hib : σ.row rel b = some ib) (hheld : Held σ k ib) (hp : ib.prevItemptr.isValid = true) :
    nextTid (σ.ctid rel) ib.prevItemptr = some b ∧
      ∃ ia, σ.row rel ib.prevItemptr = some ia ∧ Held σ k ia := by
  obtain ⟨⟨ia, hia⟩, hbefore⟩ := h.links.prev rel b ib hib hp
  have hlink : σ.ctid rel ib.prevItemptr = b := by
    rcases h.child rel b ib hib hp (hheld.not_aborted h.links) with ⟨-, -, -, hlink⟩ | hpend
    · exact hlink
    · -- a version that is still to be linked is one of a session in an update
      obtain ⟨k', c, hc, hw, rfl, rfl⟩ := hpend
      obtain ⟨t', ib', hk', hib', hmin, -⟩ := h.links.written k' c hc hw
      obtain rfl := Option.some.inj (hib.symm.trans hib')
      have hopen := h.links.sys.sessions.running k' t' hk'
      rcases hheld with ho | hcom
      · have hk : σ.sys.session k = some t' := by
          rw [← hmin]
          exact Option.mem_toList.mp ho
        obtain rfl := h.links.sys.sessions.one k k' t' hk hk'
        rw [hu] at hc
        cases hc
      · rw [hmin] at hcom
        exact absurd hcom hopen.not_committed
  refine ⟨?_, ia, hia, ?_⟩
  · have hne : ib.prevItemptr ≠ b := by
      intro he
      rw [he] at hbefore
      exact ItemPointer.Before.irrefl _ hbefore
    unfold nextTid
    rw [hlink, LinkInv.valid hib]
    simp [hne]
  · rcases h.creator rel b ib ia hib hp hia with he | hc
    · unfold Held
      rw [he]
      exact hheld
    · exact Or.inr hc

/-- **The links lead to every version that is seen**, from each one it was made from. -/
theorem LatestInv.leads_of_held (h : LatestInv base σ) (hu : σ.sys.updating k = none)
    (hab : σ.AtOrAfter rel a b) (hib : σ.row rel b = some ib) (hheld : Held σ k ib) :
    LinkWalk.Leads (nextTid (σ.ctid rel)) a b := by
  induction hab generalizing ib with
  | refl => exact Relation.ReflTransGen.refl
  | tail hac hcb ih =>
    obtain ⟨hvalid, ib', hib', rfl⟩ := hcb
    obtain rfl := Option.some.inj (hib.symm.trans hib')
    obtain ⟨hnext, ia, hia, hheld'⟩ := h.link_of_held hu hib hheld hvalid
    exact Relation.ReflTransGen.tail (ih hia hheld') hnext

/-- **A version that is not aborted is found along links only from those it was made from.** -/
theorem LatestInv.atOrAfter_of_leads (h : LatestInv base σ)
    (hab : LinkWalk.Leads (nextTid (σ.ctid rel)) a b) (hib : σ.row rel b = some ib)
    (hnot : ¬ σ.xacts.Aborted ib.xmin) : σ.AtOrAfter rel a b := by
  induction hab generalizing ib with
  | refl => exact Relation.ReflTransGen.refl
  | @tail c b _ hcb ih =>
    obtain ⟨hvalid, hlink⟩ := nextTid_eq_some hcb
    obtain ⟨ic, ib', hic, hib', hor⟩ := h.link rel c b hlink hvalid
    obtain rfl := Option.some.inj (hib.symm.trans hib')
    obtain ⟨hprev, hd⟩ := hor.resolve_left hnot
    have hic' : ¬ σ.xacts.Aborted ic.xmin := by
      intro hab
      rcases (h.links.header hic).settled _ hd with he | hc
      · have he : ib.xmin = ic.xmin := he
        rw [he] at hnot
        exact hnot hab
      · exact XactState.not_aborted_of_committed _ hc hab
    exact Relation.ReflTransGen.tail (ih hic hic') ⟨LinkInv.valid hic, ib, hib, hprev⟩

theorem LinkInv.atOrAfter_before (h : LinkInv base σ) (hab : σ.AtOrAfter rel a b) : a = b ∨ a.Before b := by
  induction hab with
  | refl => exact Or.inl rfl
  | tail _ hcb ih =>
    obtain ⟨hvalid, ib, hib, rfl⟩ := hcb
    have hbefore := (h.prev rel _ ib hib hvalid).2
    rcases ih with rfl | hac
    · exact Or.inr hbefore
    · exact Or.inr (hac.trans hbefore)

/-! ## The result -/

theorem LinkInv.ends (h : LinkInv base σ) : LatestTidEnds σ := by
  intro r rel t tid htbl
  by_cases hstored : σ.Stored rel tid
  · obtain ⟨fuel, result, hrun, -⟩ := h.getLatestTid htbl r hstored
    exact ⟨fuel, _, hrun⟩
  · exact ⟨1, _, getLatestTid_of_not_stored htbl r hstored⟩

/-- **The function is right where the versions that count are on the links.** -/
theorem LatestInv.right (h : LatestInv base σ) : LatestTidRight σ := by
  intro k rel t snapshot tid hu htbl hblock r
  have hseen : ∀ b, r.seesTid t b = true → ∃ ib, σ.row rel b = some ib ∧ Held σ k ib := by
    intro b hb
    unfold CatalogReader.seesTid at hb
    cases hlp : t.lp b with
    | none =>
      rw [hlp] at hb
      cases hb
    | some lp =>
      rw [hlp, Option.any_some] at hb
      have hrow : σ.row rel b = some lp.2 := by
        show σ.sys.inst.item rel b = some lp.2
        rw [item_eq_lp, lp_catalog htbl, hlp, Option.map_some]
      exact ⟨lp.2, hrow, h.links.held_of_seen hrow (Bool.and_eq_true_iff.mp hb).2⟩
  by_cases hstored : σ.Stored rel tid
  · obtain ⟨fuel, result, hrun, hresult⟩ := h.links.getLatestTid htbl r hstored
    have hto : ∀ a b, LinkWalk.Leads (nextTid (σ.ctid rel)) a b → r.seesTid t b = true →
        σ.AtOrAfter rel a b := by
      intro a b hab hb
      obtain ⟨ib, hib, hheld⟩ := hseen b hb
      exact h.atOrAfter_of_leads hab hib (hheld.not_aborted h.links)
    have hfrom : ∀ b, σ.AtOrAfter rel tid b → r.seesTid t b = true →
        LinkWalk.Leads (nextTid (σ.ctid rel)) tid b := by
      intro b hab hb
      obtain ⟨ib, hib, hheld⟩ := hseen b hb
      exact h.leads_of_held hu hab hib hheld
    refine ⟨fuel, result, hrun, ?_, ?_⟩
    · rintro ⟨b, hab, hb⟩
      rcases hresult with ⟨-, hnone⟩ | ⟨hlead, hsees, hlast⟩
      · have hnot := hnone b (hfrom b hab hb)
        rw [hb] at hnot
        cases hnot
      · refine ⟨hto tid result hlead hsees, hsees, fun c hac hc => ?_⟩
        exact h.links.atOrAfter_before (hto c result (hlast c (hfrom c hac hc) hc) hsees)
    · intro hnone
      rcases hresult with ⟨heq, -⟩ | ⟨hlead, hsees, -⟩
      · exact heq
      · have hnot := hnone result (hto tid result hlead hsees)
        rw [hsees] at hnot
        cases hnot
  · refine ⟨1, tid, ?_, ?_, fun _ => rfl⟩
    · rw [getLatestTid_of_not_stored htbl r hstored, if_pos hblock]
    · -- nothing was made from a version that is not there
      rintro ⟨b, hab, hb⟩
      rcases Relation.ReflTransGen.cases_head hab with rfl | ⟨c, ⟨hvalid, ic, hic, rfl⟩, -⟩
      · obtain ⟨ib, hib, -⟩ := hseen _ hb
        exact absurd ⟨ib, hib⟩ hstored
      · exact absurd (h.links.prev rel c ic hic hvalid).1 hstored

/-- **The function ends in every state of every run, and in the states of careful runs it returns the newest
version at or after the tid that is seen.** -/
theorem getLatestTid_of_careful {ok : LinkedCatalogs → LinkedAction → Prop} (h : LinkedRun base ok σ) :
    LatestTidEnds σ ∧ ((∀ σ act, ok σ act → CarefulLinks σ act) → LatestTidRight σ) := by
  refine ⟨h.inv.ends, fun hcareful => ?_⟩
  have hrun : LinkedRun base CarefulLinks σ := by
    induction h with
    | empty status hbase h64 hpast => exact .empty status hbase h64 hpast
    | step _ hs hok ih => exact ih.step hs (hcareful _ _ hok)
  exact hrun.latestInv.right

end

/-! ## Two updates of one version -/

/-- One catalog, and nothing in it. -/
def exampleOneCatalog : LinkedCatalogs :=
  let σ := LinkedCatalogs.empty 5 fun _ => .aborted
  { σ with
    sys := { σ.sys with
      inst := { σ.sys.inst with
        catalogs := Function.update σ.sys.inst.catalogs 1 (some Table.empty) } } }

namespace LinkedCatalogs

/-- A session gets this transaction id. -/
def begins (σ : LinkedCatalogs) (k t : Nat) : LinkedCatalogs :=
  { σ with
    sys := { σ.sys with
      inst := { σ.sys.inst with db := σ.sys.inst.db.begin }
      session := Function.update σ.sys.session k (some t) } }

/-- It inserts a row, and the row comes to this tid. -/
def inserts (σ : LinkedCatalogs) (k t : Nat) (tid : ItemPointer) : LinkedCatalogs :=
  { σ with
    sys := { σ.sys with
      inst := ((npCatalogTupleInsert ⟨t, σ.sys.cid k⟩ 1 (List.replicate 23 0)).exec σ.sys.inst).2 }
    ctid := setCtid σ.ctid 1 tid .invalid }

/-- A session begins an update of the row. -/
def checks (σ : LinkedCatalogs) (k : Nat) : LinkedCatalogs :=
  { σ with
    sys := { σ.sys with
      inst := ((checkCatalogItem ⟨5, 0⟩ 1 ⟨0, 1⟩).exec σ.sys.inst).2
      updating := Function.update σ.sys.updating k (some ⟨1, ⟨0, 1⟩, List.replicate 23 0, false⟩) }
    given := Function.update σ.given k .invalid }

/-- Its new version comes to this tid. -/
def writes (σ : LinkedCatalogs) (k t : Nat) (tid : ItemPointer) : LinkedCatalogs :=
  { σ with
    sys := { σ.sys with
      inst := ((writeCatalogItem 1 (npCatalogPackItem ⟨t, σ.sys.cid k⟩ ⟨0, 1⟩ (List.replicate 23 0))).exec
        σ.sys.inst).2
      updating := Function.update σ.sys.updating k (some ⟨1, ⟨0, 1⟩, List.replicate 23 0, true⟩) }
    ctid := setCtid σ.ctid 1 tid (σ.given k)
    newTid := Function.update σ.newTid k tid }

/-- It stamps the row. -/
def stamps (σ : LinkedCatalogs) (k t : Nat) : LinkedCatalogs :=
  { σ with
    sys := { σ.sys with
      inst := ((stampCatalogItem ⟨t, σ.sys.cid k⟩ 1 ⟨0, 1⟩).exec σ.sys.inst).2
      updating := Function.update σ.sys.updating k none }
    ctid := setCtid σ.ctid 1 ⟨0, 1⟩ (σ.newTid k) }

/-- Its transaction commits. -/
def commits (σ : LinkedCatalogs) (k t : Nat) : LinkedCatalogs :=
  { σ with sys := σ.sys.endXact k (σ.sys.inst.db.commit t) }

/-- Its transaction aborts. -/
def aborts (σ : LinkedCatalogs) (k t : Nat) : LinkedCatalogs :=
  { σ with sys := σ.sys.endXact k (σ.sys.inst.db.abort t) }

end LinkedCatalogs

/-- A catalog with one committed row at `(0, 1)`, and two sessions that run. -/
def exampleLinkedRow : LinkedCatalogs :=
  ((((exampleOneCatalog.begins 0 5).inserts 0 5 ⟨0, 1⟩).commits 0 5).begins 0 6).begins 1 7

section

variable {ok : LinkedCatalogs → LinkedAction → Prop} {σ : LinkedCatalogs} {k : Nat}

/-- Without the transaction of a session that is in no update, the updates are the same. -/
theorem linksQuiet_end (hu : σ.sys.updating k = none) (db : Db) : LinksQuiet σ.sys (σ.sys.endXact k db) where
  lp _ _ := rfl
  updating _ _ hc := (of_update_none hc).2
  kept k' c hc := by
    have hne : k' ≠ k := by
      rintro rfl
      rw [hu] at hc
      cases hc
    exact Or.inl ((Function.update_of_ne hne ..).trans hc)

/-- The sections of the writers leave the other catalogs alone. -/
theorem exec_onCatalog_other {α : Type} {rel rel' : Oid} (hne : rel' ≠ rel)
    (f : XactState → Table CatalogItem → Except Err (α × Table CatalogItem)) (i : Instance) :
    ((onCatalog rel f).exec i).2.catalogs rel' = i.catalogs rel' := by
  unfold onCatalog Prog.step
  rw [Prog.exec_act]
  cases i.catalogs rel with
  | none => rfl
  | some t =>
    dsimp only
    cases f i.db.xacts t with
    | error e => rfl
    | ok r => exact Function.update_of_ne hne ..

theorem checks_other {rel : Oid} (hne : rel ≠ 1) :
    (σ.checks k).sys.inst.catalogs rel = σ.sys.inst.catalogs rel := exec_onCatalog_other hne ..

theorem writes_other {rel : Oid} (hne : rel ≠ 1) (t : Nat) (tid : ItemPointer) :
    (σ.writes k t tid).sys.inst.catalogs rel = σ.sys.inst.catalogs rel := exec_onCatalog_other hne ..

theorem stamps_other {rel : Oid} (hne : rel ≠ 1) (t : Nat) :
    (σ.stamps k t).sys.inst.catalogs rel = σ.sys.inst.catalogs rel := exec_onCatalog_other hne ..

theorem begins_catalogs (t : Nat) : (σ.begins k t).sys.inst.catalogs = σ.sys.inst.catalogs := rfl

theorem commits_catalogs (t : Nat) : (σ.commits k t).sys.inst.catalogs = σ.sys.inst.catalogs := rfl

theorem aborts_catalogs (t : Nat) : (σ.aborts k t).sys.inst.catalogs = σ.sys.inst.catalogs := rfl

theorem inserts_other {rel : Oid} (hne : rel ≠ 1) (t : Nat) (tid : ItemPointer) :
    (σ.inserts k t tid).sys.inst.catalogs rel = σ.sys.inst.catalogs rel := by
  unfold LinkedCatalogs.inserts npCatalogTupleInsert
  exact exec_onCatalog_other hne ..

theorem exampleLinkedRow_other {rel : Oid} (hne : rel ≠ 1) :
    exampleLinkedRow.sys.inst.catalogs rel = none := by
  unfold exampleLinkedRow
  rw [begins_catalogs, begins_catalogs, commits_catalogs, inserts_other hne, begins_catalogs]
  exact Function.update_of_ne hne ..

theorem linksQuiet_begin (s : CatalogSystem) (k t : Nat) : LinksQuiet s
    { s with
      inst := { s.inst with db := s.inst.db.begin }
      session := Function.update s.session k (some t) } where
  lp _ _ := rfl
  updating _ _ hc := hc
  kept _ _ hc := Or.inl hc

theorem exampleLinkedRow_run (hok : ∀ σ, ok σ .other) : LinkedRun 5 ok exampleLinkedRow := by
  have hempty : LinkedRun 5 ok (.empty 5 fun _ => .aborted) := .empty _ (by decide) (by decide) nofun
  have hcatalog := hempty.step (.quiet (.catalog 1 rfl) ⟨fun rel tid => by
      rw [lp_update]
      split
      · exact lp_eq_none_iff.mpr (Table.get_empty tid)
      · rfl, nofun, nofun⟩) (hok _)
  have hbegun := hcatalog.step (.quiet (.begin 0 rfl (by decide)) (linksQuiet_begin ..)) (hok _)
  have hrow := hbegun.step (@LinkedStep.insert 5 _ 0 5 _ 1 (List.replicate 23 0) ⟨0, 1⟩ rfl rfl (by decide)
    rfl) (hok _)
  have hcommit := hrow.step (.quiet (.commit (k := 0) rfl rfl) (linksQuiet_end rfl _)) (hok _)
  have hone := hcommit.step (.quiet (.begin 0 rfl (by decide)) (linksQuiet_begin ..)) (hok _)
  exact hone.step (.quiet (.begin 1 rfl (by decide)) (linksQuiet_begin ..)) (hok _)

end

/-- One session has updated the row and committed. -/
theorem getLatestTid_of_careful_example :
    let σ := (((exampleLinkedRow.checks 0).writes 0 6 ⟨0, 2⟩).stamps 0 6).commits 0 6
    LatestTidEnds σ ∧ LatestTidRight σ := by
  have hrow : LinkedRun 5 CarefulLinks exampleLinkedRow := exampleLinkedRow_run fun _ => trivial
  have hcheck := hrow.step (@LinkedStep.checkUpdate 5 _ 0 6 _ 1 ⟨0, 1⟩ .invalid (List.replicate 23 0) rfl rfl
    (.inl rfl) rfl) trivial
  have hwrite := hcheck.step (@LinkedStep.writeUpdate 5 _ 0 6 _ _ ⟨0, 2⟩ rfl rfl rfl (by decide) rfl) trivial
  have hcare : CarefulLinks ((exampleLinkedRow.checks 0).writes 0 6 ⟨0, 2⟩) (.stampUpdate 0) := by
    intro t c old hk hu hold
    cases hk
    cases hu
    cases hold
    rfl
  have hstamp := hwrite.step (@LinkedStep.stampUpdate 5 _ 0 6 _ _ rfl rfl rfl rfl) hcare
  have hend := hstamp.step (.quiet (.commit (k := 0) rfl rfl) (linksQuiet_end rfl _)) trivial
  have hright := getLatestTid_of_careful hend
  exact ⟨hright.1, hright.2 fun _ _ hok => hok⟩

/-- Both sessions begin an update of the row. The first commits; the second stamps after it, and aborts. -/
def exampleLateStamp : LinkedCatalogs :=
  let σ := ((exampleLinkedRow.checks 0).checks 1).writes 0 6 ⟨0, 2⟩
  let σ := ((σ.writes 1 7 ⟨0, 3⟩).stamps 0 6).commits 0 6
  (σ.stamps 1 7).aborts 1 7

theorem exampleLateStamp_run : LinkedRun 5 (fun _ _ => True) exampleLateStamp := by
  have hrow : LinkedRun 5 (fun _ _ => True) exampleLinkedRow := exampleLinkedRow_run fun _ => trivial
  have hcheck := hrow.step (@LinkedStep.checkUpdate 5 _ 0 6 _ 1 ⟨0, 1⟩ .invalid (List.replicate 23 0) rfl rfl
    (.inl rfl) rfl) trivial
  have hboth := hcheck.step (@LinkedStep.checkUpdate 5 _ 1 7 _ 1 ⟨0, 1⟩ .invalid (List.replicate 23 0) rfl rfl
    (.inl rfl) rfl) trivial
  have hfirst := hboth.step (@LinkedStep.writeUpdate 5 _ 0 6 _ _ ⟨0, 2⟩ rfl rfl rfl (by decide) rfl) trivial
  have hsecond := hfirst.step (@LinkedStep.writeUpdate 5 _ 1 7 _ _ ⟨0, 3⟩ rfl rfl rfl (by decide) rfl) trivial
  have hstamp := hsecond.step (@LinkedStep.stampUpdate 5 _ 0 6 _ _ rfl rfl rfl rfl) trivial
  have hcommit := hstamp.step (.quiet (.commit (k := 0) rfl rfl) (linksQuiet_end rfl _)) trivial
  have hlate := hcommit.step (@LinkedStep.stampUpdate 5 _ 1 7 _ _ rfl rfl rfl rfl) trivial
  exact hlate.step (.quiet (.abort (k := 1) rfl) (linksQuiet_end rfl _)) trivial

/-- **The committed version is missed**: the late stamp leaves the link of the row at the aborted version. -/
theorem getLatestTid_fails :
    ∃ σ, LinkedRun 5 (fun _ _ => True) σ ∧ OneSuccessor σ ∧ ¬ LatestTidRight σ := by
  refine ⟨exampleLateStamp, exampleLateStamp_run, ?_, ?_⟩
  · -- the only committed version that was made from another is at `(0, 2)`
    have honly : ∀ rel a b, exampleLateStamp.Supersedes rel a b →
        (∃ item, exampleLateStamp.row rel b = some item ∧ exampleLateStamp.xacts.Committed item.xmin) →
          b = ⟨0, 2⟩ := by
      rintro rel a b ⟨hvalid, item, hrow, rfl⟩ ⟨item', hrow', hcom⟩
      obtain rfl := Option.some.inj (hrow.symm.trans hrow')
      obtain ⟨t, htbl, hget⟩ := Option.bind_eq_some_iff.mp hrow
      by_cases hrel : rel = 1
      · subst hrel
        cases htbl
        have hentries : ∀ p ∈ ((exampleLateStamp.sys.inst.catalogs 1).getD Table.empty).entries,
            p.2.prevItemptr.isValid = true → exampleLateStamp.xacts.status p.2.xmin = .committed →
              p.1 = ⟨0, 2⟩ := by decide +kernel
        exact hentries (b, item) (Table.mem_entries.mpr hget) hvalid hcom
      · have hnone : exampleLateStamp.sys.inst.catalogs rel = none := by
          unfold exampleLateStamp
          rw [aborts_catalogs, stamps_other hrel, commits_catalogs, stamps_other hrel, writes_other hrel,
            writes_other hrel, checks_other hrel, checks_other hrel, exampleLinkedRow_other hrel]
        rw [hnone] at htbl
        cases htbl
    intro rel a b c hab hac hb hc
    exact (honly rel a b hab hb).trans (honly rel a c hac hc).symm
  · intro hright
    obtain ⟨fuel, result, hrun, hnewest, -⟩ := hright 2 1 _
      (some (.mvcc, ⟨8, 8, [], 0⟩)) ⟨0, 1⟩ rfl rfl (by decide)
    have hseen : exampleLateStamp.AtOrAfter 1 ⟨0, 1⟩ ⟨0, 2⟩ :=
      Relation.ReflTransGen.single ⟨rfl, _, rfl, rfl⟩
    obtain ⟨hafter, -, hlast⟩ := hnewest ⟨⟨0, 2⟩, hseen, by decide +kernel⟩
    have hresult : result = ⟨0, 1⟩ := by
      match fuel, hrun with
      | 0, hrun => cases hrun
      | 1, hrun => cases hrun
      | fuel + 2, hrun => exact (Except.ok.inj (Option.some.inj hrun)).symm
    subst hresult
    rcases hlast ⟨0, 2⟩ hseen (by decide +kernel) with he | hbefore
    · cases he
    · exact absurd hbefore (by decide)

end NeoPostGraph
