import Mathlib.Data.List.Range
import Mathlib.Data.List.Sort
import NeoPostGraph.Lib.Cursor
import NeoPostGraph.Lib.SlottedPage

/-!
# Scanning a table page by page

A sequential scan keeps a position: the block it is in, the next offset there, and whether it holds
the page. It looks at one page at a time under that page's lock, and between two looks, also within
one call, the table may change. Items pass by a test on the stored length and the value.

* `PageScan`, `PageScan.visit`: a position, and one look at a page from it.
* `PageScan.next`: visits until an item passes or the blocks are used up.
* `PageScan.all`: calls of `next` until there is no more.
* `s.Behind tid`: the scan has left this slot behind.

Results:
* `visit_spec`: what a visit returns, and what it leaves behind without returning it.
* `gathered_found`, `gathered_more`: on a table that stands still, what has been returned is what
  passes and is behind.
* `next_spec`, `mem_all`: so a call returns a slot not yet behind, and a scan every slot that passes.
* `delivers`, `sorted_ahead`: a call returns the first of the slots ahead, which are in order.
-/

namespace SlottedPage

variable {α : Type}

/-- The line pointer at a tid, with the stored length. -/
def Table.lp (t : Table α) (tid : ItemPointer) : Option (Nat × α) :=
  (t.pages[tid.block]?).bind (·.lp tid.offset)

theorem Table.get_eq_lp (t : Table α) (tid : ItemPointer) :
    t.get tid = (t.lp tid).map Prod.snd := by
  unfold Table.get Table.lp
  cases t.pages[tid.block]? <;> rfl

theorem Page.lp_addItem {p p' : Page α} {len off off' : Nat} {a : α} {x : Nat × α}
    (h : p.addItem len a = some (p', off)) (hx : p.lp off' = some x) : p'.lp off' = some x := by
  unfold Page.addItem at h
  split at h
  · obtain ⟨rfl, -⟩ := Prod.mk.inj (Option.some.inj h)
    unfold Page.lp at hx ⊢
    by_cases h0 : off' = 0
    · rw [if_pos h0] at hx
      cases hx
    · rw [if_neg h0] at hx ⊢
      have hlt : off' - 1 < p.lps.length := by
        by_contra hc
        rw [List.getElem?_eq_none (Nat.le_of_not_lt hc)] at hx
        cases hx
      rwa [List.getElem?_append_left hlt]
  · cases h

theorem Page.lp_modify (p : Page α) (off off' : Nat) (f : α → α) :
    (p.modify off f).lp off' =
      if off' = off then (p.lp off').map (Prod.map id f) else p.lp off' := by
  unfold Page.modify Page.lp
  by_cases h0 : off = 0
  · subst h0
    by_cases h : off' = 0 <;> simp [h]
  by_cases h0' : off' = 0
  · simp [h0']
  by_cases h : off' = off
  · subst h
    simp only [h0, if_false, if_true, List.getElem?_modify]
    cases hx : p.lps[off' - 1]? with
    | none => simp
    | some x => cases x <;> simp
  · have hne : off - 1 ≠ off' - 1 := by omega
    simp [h0, h0', h, hne]

/-- A write leaves the line pointers there are alone. -/
theorem Table.lp_write {t t' : Table α} {len : Nat} {a : α} {tid tid' : ItemPointer} {x : Nat × α}
    (h : t.write len a = some (t', tid)) (hx : t.lp tid' = some x) : t'.lp tid' = some x := by
  obtain ⟨⟨p', off⟩, hadd, heq⟩ := Option.map_eq_some_iff.mp h
  obtain ⟨rfl, -⟩ := Prod.mk.inj heq
  obtain ⟨p, hp, hx⟩ := Option.bind_eq_some_iff.mp hx
  have hlt := (List.getElem?_eq_some_iff.mp hp).1
  unfold Table.lp
  dsimp only
  unfold Table.writeTarget at hadd ⊢
  cases hl : t.pages.getLast? with
  | none =>
    dsimp only
    rw [List.getElem?_append_left hlt, hp]
    exact hx
  | some last =>
    by_cases hs : last.freeSpace < maxAlign len + sizeOfItemIdData
    · simp only [hs, if_true]
      rw [List.getElem?_append_left hlt, hp]
      exact hx
    · simp only [hl, hs, if_false] at hadd ⊢
      have hpages := List.dropLast_append_getLast? last hl
      by_cases hb : tid'.block < t.pages.dropLast.length
      · rw [List.getElem?_append_left hb]
        rw [← hpages, List.getElem?_append_left hb] at hp
        rw [hp]
        exact hx
      · -- the last page, where the new item goes
        have hlast : tid'.block = t.pages.dropLast.length := by
          rw [List.length_dropLast] at hb ⊢
          omega
        rw [← hpages, hlast, List.getElem?_concat_length] at hp
        obtain rfl := Option.some.inj hp
        rw [hlast, List.getElem?_concat_length]
        exact Page.lp_addItem hadd hx

/-- The line pointer of what was written. -/
theorem Table.lp_write_self {t t' : Table α} {len : Nat} {a : α} {tid : ItemPointer}
    (h : t.write len a = some (t', tid)) : t'.lp tid = some (len, a) := by
  obtain ⟨⟨p', off⟩, hadd, heq⟩ := Option.map_eq_some_iff.mp h
  obtain ⟨rfl, rfl⟩ := Prod.mk.inj heq
  unfold Table.lp
  dsimp only
  rw [List.getElem?_concat_length, Option.bind_some]
  obtain rfl := Page.addItem_off hadd
  unfold Page.addItem at hadd
  split at hadd
  · obtain ⟨rfl, -⟩ := Prod.mk.inj (Option.some.inj hadd)
    simp [Page.lp, Page.maxOffset]
  · cases hadd

theorem Table.lp_modify {t : Table α} {tid tid' : ItemPointer} {x : Nat × α} (f : α → α)
    (hx : t.lp tid' = some x) :
    (t.modify tid f).lp tid' = some (if tid' = tid then (x.1, f x.2) else x) := by
  obtain ⟨p, hp, hx⟩ := Option.bind_eq_some_iff.mp hx
  unfold Table.lp Table.modify
  rw [List.getElem?_modify, hp]
  show ((if tid.block = tid'.block then p.modify tid.offset f else p).lp tid'.offset) = _
  by_cases hb : tid.block = tid'.block
  · rw [if_pos hb]
    show (p.modify tid.offset f).lp tid'.offset = _
    rw [Page.lp_modify, hx]
    by_cases ho : tid'.offset = tid.offset
    · have heq : tid' = tid := by
        cases tid
        cases tid'
        simp_all
      rw [if_pos ho, if_pos heq]
      rfl
    · rw [if_neg ho, if_neg fun h => ho (by rw [h])]
  · rw [if_neg hb, if_neg fun h => hb (by rw [h])]
    exact hx

/-- The item at a tid is there and passes. -/
def Table.passes (t : Table α) (q : Nat × α → Bool) (tid : ItemPointer) : Bool :=
  (t.lp tid).any q

/-- Where a scan stands. -/
structure PageScan where
  /-- The blocks the relation had when the scan began. -/
  nblocks : Nat
  cblock : Nat
  coffset : Nat
  /-- The scan holds the page of `cblock`. -/
  cbuf : Bool
deriving DecidableEq, Repr

/-- What a visit comes to. -/
inductive Visit where
  | found (tid : ItemPointer)
  | more
  | done
deriving DecidableEq, Repr

namespace PageScan

/-- The beginning of a scan. -/
def start (nblocks : Nat) : PageScan := ⟨nblocks, 0, 1, false⟩

/-- Take the next page, when none is held. -/
def hold (s : PageScan) : PageScan := if s.cbuf then s else { s with coffset := 1, cbuf := true }

/-- The first offset from `off` on whose item passes. -/
def seek (p : Page α) (q : Nat × α → Bool) (off : Nat) : Option Nat :=
  (List.range' off (p.maxOffset + 1 - off)).find? fun o => (p.lp o).any q

/-- Look at the page the scan is at. A relation never gets shorter, so the block is there. -/
def visit (t : Table α) (q : Nat × α → Bool) (s : PageScan) : Visit × PageScan :=
  if !s.cbuf && decide (s.nblocks ≤ s.cblock) then (.done, s)
  else
    let page := (t.pages[s.cblock]?).getD Page.init
    match seek page q s.hold.coffset with
    | some off => (.found ⟨s.cblock, off⟩, { s.hold with coffset := off + 1 })
    | none => (.more, { s with cblock := s.cblock + 1, coffset := page.maxOffset + 1, cbuf := false })

/-- Visits left before the blocks are used up. -/
def togo (s : PageScan) : Nat := 2 * (s.nblocks - s.cblock) + s.cbuf.toNat

/-- Visit pages until an item passes or there is no more. -/
def nextLoop (t : Table α) (q : Nat × α → Bool) : Nat → PageScan → Option ItemPointer × PageScan
  | 0, s => (none, s)
  | fuel + 1, s =>
    match visit t q s with
    | (.found tid, s') => (some tid, s')
    | (.more, s') => nextLoop t q fuel s'
    | (.done, s') => (none, s')

/-- One call for the next item. -/
def next (t : Table α) (q : Nat × α → Bool) (s : PageScan) : Option ItemPointer × PageScan :=
  nextLoop t q (s.togo + 1) s

/-- Calls until there is no more. -/
def allLoop (t : Table α) (q : Nat × α → Bool) : Nat → PageScan → List ItemPointer
  | 0, _ => []
  | fuel + 1, s =>
    match next t q s with
    | (some tid, s') => tid :: allLoop t q fuel s'
    | (none, _) => []

/-- A whole scan. -/
def all (t : Table α) (q : Nat × α → Bool) : List ItemPointer :=
  allLoop t q (t.entries.length + 1) (start t.nblocks)

/-- The scan has left the slot behind. -/
def Behind (s : PageScan) (tid : ItemPointer) : Prop :=
  tid.block < s.cblock ∨ s.cbuf = true ∧ tid.block = s.cblock ∧ tid.offset < s.coffset

/-- There is no page left to visit. -/
def AtEnd (s : PageScan) : Prop := s.cbuf = false ∧ s.nblocks ≤ s.cblock

section

variable {t : Table α} {q : Nat × α → Bool} {s s' : PageScan} {tid : ItemPointer}

theorem not_behind_start (nblocks : Nat) (tid : ItemPointer) : ¬ (start nblocks).Behind tid := by
  rintro (h | ⟨h, -⟩)
  · exact Nat.not_lt_zero _ h
  · cases h

theorem AtEnd.behind (h : s.AtEnd) (htid : tid.block < s.nblocks) : s.Behind tid :=
  Or.inl (Nat.lt_of_lt_of_le htid h.2)

/-! ## One visit -/

theorem seek_some {p : Page α} {off o : Nat} (h : seek p q off = some o) :
    off ≤ o ∧ (p.lp o).any q = true ∧ ∀ o', off ≤ o' → o' < o → (p.lp o').any q = false := by
  unfold seek at h
  obtain ⟨hq, xs, ys, hsplit, hxs⟩ := List.find?_eq_some_iff_append.mp h
  have hmem : o ∈ List.range' off (p.maxOffset + 1 - off) := by simp [hsplit]
  obtain ⟨hle, hlt⟩ := List.mem_range'_1.mp hmem
  refine ⟨hle, hq, fun o' h₁ h₂ => ?_⟩
  -- a smaller offset is in the part before the one found
  have hmem' : o' ∈ xs ++ o :: ys := by
    rw [← hsplit, List.mem_range'_1]
    omega
  have hsorted : (xs ++ o :: ys).Pairwise (· < ·) := by
    rw [← hsplit]
    exact List.pairwise_lt_range'
  rcases List.mem_append.mp hmem' with hx | hy
  · simpa using hxs o' hx
  · have hge : o ≤ o' := by
      rcases List.mem_cons.mp hy with rfl | hy
      · exact Nat.le_refl _
      · have := (List.pairwise_cons.mp (List.pairwise_append.mp hsorted).2.1).1 o' hy
        omega
    omega

theorem seek_none {p : Page α} {off : Nat} (h : seek p q off = none) {o : Nat} (ho : off ≤ o) :
    (p.lp o).any q = false := by
  unfold seek at h
  by_cases hle : o ≤ p.maxOffset
  · have hmem : o ∈ List.range' off (p.maxOffset + 1 - off) := by
      rw [List.mem_range'_1]
      omega
    simpa using List.find?_eq_none.mp h o hmem
  · cases hx : p.lp o with
    | none => rfl
    | some x =>
      have hget : p.get o = some x.2 := by
        unfold Page.get
        rw [hx]
        rfl
      exact absurd (Page.le_maxOffset_of_get hget).2 hle

/-- A slot of the page the scan looks at. -/
theorem passes_page (tid : ItemPointer) :
    t.passes q tid = (((t.pages[tid.block]?).getD Page.init).lp tid.offset).any q := by
  unfold Table.passes Table.lp
  cases t.pages[tid.block]? with
  | some p => rfl
  | none =>
    have hlp : (Page.init : Page α).lp tid.offset = none := by simp [Page.init, Page.lp]
    simp [hlp]

theorem behind_hold (s : PageScan) (tid : ItemPointer) (hoff : tid.offset ≠ 0) :
    s.hold.Behind tid ↔ s.Behind tid := by
  unfold hold Behind
  cases hb : s.cbuf with
  | true => simp [hb]
  | false =>
    simp only [Bool.false_eq_true, if_false, false_and, or_false, true_and, or_iff_left_iff_imp]
    omega

theorem offset_ne_zero_of_passes (h : t.passes q tid = true) : tid.offset ≠ 0 := by
  intro h0
  rw [passes_page, h0] at h
  simp [Page.lp] at h

/-- What a visit says of the slots it leaves behind. -/
def VisitSpec (t : Table α) (q : Nat × α → Bool) (s s' : PageScan) : Visit → Prop
  | .found tid => ¬ s.Behind tid ∧ t.passes q tid = true ∧ s'.Behind tid ∧
      ∀ tid', tid' ≠ tid → t.passes q tid' = true → (s'.Behind tid' ↔ s.Behind tid')
  | .more => ∀ tid', t.passes q tid' = true → (s'.Behind tid' ↔ s.Behind tid')
  | .done => s' = s ∧ s.AtEnd

/-- **A visit returns a slot that passes, and leaves behind no other slot that passes.** -/
theorem visit_spec (t : Table α) (q : Nat × α → Bool) (s : PageScan) :
    VisitSpec t q s (visit t q s).2 (visit t q s).1 := by
  unfold visit
  by_cases hend : (!s.cbuf && decide (s.nblocks ≤ s.cblock)) = true
  · rw [if_pos hend]
    rw [Bool.and_eq_true, Bool.not_eq_true', decide_eq_true_eq] at hend
    exact ⟨rfl, hend⟩
  rw [if_neg hend]
  have hcblock : s.hold.cblock = s.cblock := by
    unfold hold
    split <;> rfl
  have hcbuf : s.hold.cbuf = true := by
    unfold hold
    split
    · assumption
    · rfl
  -- what is behind on the page at hand
  have hpage : ∀ tid', t.passes q tid' = true → (s.Behind tid' ↔
      tid'.block < s.cblock ∨ tid'.block = s.cblock ∧ tid'.offset < s.hold.coffset) :=
    fun tid' hp => by
      rw [← behind_hold s tid' (offset_ne_zero_of_passes hp)]
      unfold Behind
      simp [hcblock, hcbuf]
  dsimp only
  cases hseek : seek ((t.pages[s.cblock]?).getD Page.init) q s.hold.coffset with
  | some off =>
    obtain ⟨hle, hq, hbefore⟩ := seek_some hseek
    have hpass : t.passes q ⟨s.cblock, off⟩ = true := by
      rw [passes_page]
      exact hq
    refine ⟨fun hb => ?_, hpass, ?_, fun tid' hne hp => ?_⟩
    · rcases (hpage _ hpass).mp hb with h | ⟨-, h⟩
      · exact Nat.lt_irrefl _ h
      · exact Nat.not_lt.mpr hle h
    · exact Or.inr ⟨hcbuf, hcblock.symm, Nat.lt_succ_self off⟩
    · rw [hpage tid' hp]
      unfold Behind
      simp only [hcblock, hcbuf, true_and]
      refine or_congr_right (and_congr_right fun hb => ⟨fun hlt => ?_, fun hlt => by omega⟩)
      by_contra hge
      -- between the two offsets nothing passes
      have hne' : tid'.offset ≠ off := fun he => hne (by
        rw [← hb, ← he])
      have hfail := hbefore tid'.offset (by omega) (by omega)
      rw [passes_page, hb, hfail] at hp
      cases hp
  | none =>
    intro tid' hp
    rw [hpage tid' hp]
    unfold Behind
    simp only [Bool.false_eq_true, false_and, or_false]
    refine ⟨fun hlt => ?_, fun h => ?_⟩
    · by_cases hb : tid'.block = s.cblock
      · right
        refine ⟨hb, ?_⟩
        by_contra hge
        have hfail := seek_none hseek (Nat.not_lt.mp hge)
        rw [passes_page, hb, hfail] at hp
        cases hp
      · left
        omega
    · rcases h with h | ⟨h, -⟩ <;> omega

/-- A scan does not change how many blocks it goes through. -/
@[simp] theorem nblocks_visit (t : Table α) (q : Nat × α → Bool) (s : PageScan) :
    (visit t q s).2.nblocks = s.nblocks := by
  have hhold : s.hold.nblocks = s.nblocks := by
    unfold hold
    split <;> rfl
  unfold visit
  split
  · rfl
  · dsimp only
    split
    · exact hhold
    · rfl

/-- A scan never goes back. -/
theorem Behind.visit (h : s.Behind tid) (t : Table α) (q : Nat × α → Bool) :
    (visit t q s).2.Behind tid := by
  unfold PageScan.visit
  split
  · exact h
  · dsimp only
    split
    · next off hseek =>
      have hle := (seek_some hseek).1
      rcases h with h | ⟨hb, h, ho⟩
      · left
        show tid.block < s.hold.cblock
        unfold hold
        split <;> exact h
      · right
        unfold hold at hle ⊢
        rw [if_pos hb] at hle ⊢
        exact ⟨hb, h, by show tid.offset < off + 1; omega⟩
    · left
      show tid.block < s.cblock + 1
      rcases h with h | ⟨-, h, -⟩ <;> omega

/-- A visit that finds nothing and is not the last brings the end nearer. -/
theorem togo_visit (h : (visit t q s).1 = .more) : (visit t q s).2.togo < s.togo := by
  unfold visit at h ⊢
  by_cases hend : (!s.cbuf && decide (s.nblocks ≤ s.cblock)) = true
  · rw [if_pos hend] at h
    cases h
  rw [if_neg hend] at h ⊢
  dsimp only at h ⊢
  cases hseek : seek ((t.pages[s.cblock]?).getD Page.init) q s.hold.coffset with
  | some off =>
    rw [hseek] at h
    cases h
  | none =>
    unfold togo
    dsimp only
    rw [Bool.and_eq_true, Bool.not_eq_true', decide_eq_true_eq, not_and_or] at hend
    cases hb : s.cbuf with
    | true => simp only [Bool.toNat_false, Bool.toNat_true]; omega
    | false =>
      rw [hb] at hend
      simp only [not_true, false_or] at hend
      simp only [Bool.toNat_false]
      omega

/-- A call returns a slot that passes. -/
theorem passes_of_nextLoop (fuel : Nat) {s : PageScan}
    (h : nextLoop t q fuel s = (some tid, s')) : t.passes q tid = true := by
  induction fuel generalizing s with
  | zero => cases h
  | succ fuel ih =>
    have hv := visit_spec t q s
    unfold nextLoop at h
    rcases hvis : visit t q s with ⟨v, s₁⟩
    rw [hvis] at hv h
    cases v with
    | found tid' =>
      obtain ⟨he, -⟩ := Prod.mk.inj h
      obtain rfl := Option.some.inj he
      exact hv.2.1
    | more => exact ih h
    | done => cases (Prod.mk.inj h).1

/-- A scan at its end stays there. -/
theorem next_atEnd (h : s.AtEnd) (t : Table α) (q : Nat × α → Bool) : next t q s = (none, s) := by
  unfold next nextLoop visit
  rw [if_pos (by rw [h.1, Bool.not_false, Bool.true_and]; exact decide_eq_true h.2)]

/-! ## On a table that stands still -/

/-- What a scan has returned: every slot that passes and is behind it, each once. -/
structure Gathered (t : Table α) (q : Nat × α → Bool) (s : PageScan) (out : List ItemPointer) :
    Prop where
  nodup : out.Nodup
  mem : ∀ tid, tid ∈ out ↔ s.Behind tid ∧ t.passes q tid = true

theorem gathered_start (t : Table α) (q : Nat × α → Bool) (nblocks : Nat) :
    Gathered t q (start nblocks) [] where
  nodup := List.nodup_nil
  mem tid := iff_of_false (by simp) fun h => not_behind_start _ _ h.1

theorem gathered_found {out : List ItemPointer} (h : Gathered t q s out)
    (hv : VisitSpec t q s s' (.found tid)) : Gathered t q s' (out ++ [tid]) := by
  obtain ⟨hnew, hpass, hbehind, hrest⟩ := hv
  refine ⟨List.nodup_append.mpr ⟨h.nodup, List.nodup_singleton _, fun a ha b hb he => ?_⟩,
    fun tid' => ?_⟩
  · rw [List.mem_singleton.mp hb] at he
    rw [he] at ha
    exact hnew ((h.mem _).mp ha).1
  · rw [List.mem_append, List.mem_singleton, h.mem]
    by_cases he : tid' = tid
    · rw [he]
      exact iff_of_true (Or.inr rfl) ⟨hbehind, hpass⟩
    · rw [or_iff_left he]
      exact and_congr_left fun hp => (hrest tid' he hp).symm

theorem gathered_more {out : List ItemPointer} (h : Gathered t q s out)
    (hv : VisitSpec t q s s' .more) : Gathered t q s' out :=
  ⟨h.nodup, fun tid' => (h.mem tid').trans (and_congr_left fun hp => (hv tid' hp).symm)⟩

/-- What a call comes to. -/
theorem nextLoop_spec (fuel : Nat) {s : PageScan} (hfuel : s.togo < fuel) {out : List ItemPointer}
    (h : Gathered t q s out) : ∃ r s', nextLoop t q fuel s = (r, s') ∧ s'.nblocks = s.nblocks ∧
      Gathered t q s' (out ++ r.toList) ∧ (r = none → s'.AtEnd) := by
  induction fuel generalizing s with
  | zero => omega
  | succ fuel ih =>
    have hv := visit_spec t q s
    have hn := nblocks_visit t q s
    unfold nextLoop
    rcases hvis : visit t q s with ⟨v, s'⟩
    rw [hvis] at hv hn
    cases v with
    | found tid => exact ⟨some tid, s', rfl, hn, gathered_found h hv, fun he => by cases he⟩
    | more =>
      have hlt := togo_visit (t := t) (q := q) (s := s) (by rw [hvis])
      rw [hvis] at hlt
      obtain ⟨r, s'', he, hn', hg, hend⟩ := ih (by omega) (gathered_more h hv)
      exact ⟨r, s'', he, hn'.trans hn, hg, hend⟩
    | done =>
      obtain ⟨rfl, hend⟩ := hv
      exact ⟨none, s', rfl, hn, by simpa using h, fun _ => hend⟩

/-- **A call returns a slot that passes and was not yet behind, or the scan is at its end.** -/
theorem next_spec {out : List ItemPointer} (h : Gathered t q s out) :
    ∃ r s', next t q s = (r, s') ∧ s'.nblocks = s.nblocks ∧
      Gathered t q s' (out ++ r.toList) ∧ (r = none → s'.AtEnd) :=
  nextLoop_spec _ (Nat.lt_succ_self _) h

theorem mem_entries_of_passes (h : t.passes q tid = true) : tid ∈ t.entries.map Prod.fst := by
  unfold Table.passes at h
  cases hx : t.lp tid with
  | none =>
    rw [hx] at h
    cases h
  | some x =>
    refine List.mem_map.mpr ⟨(tid, x.2), Table.mem_entries.mpr ?_, rfl⟩
    rw [Table.get_eq_lp, hx]
    rfl

theorem Gathered.length_le {out : List ItemPointer} (h : Gathered t q s out) :
    out.length ≤ t.entries.length := by
  have hsub : out ⊆ t.entries.map Prod.fst := fun tid htid =>
    mem_entries_of_passes ((h.mem tid).mp htid).2
  have hle := (List.subperm_of_subset h.nodup hsub).length_le
  rwa [List.length_map] at hle

theorem allLoop_spec (fuel : Nat) {s : PageScan} {out : List ItemPointer}
    (h : Gathered t q s out) (hfuel : t.entries.length < out.length + fuel) :
    ∃ s', s'.AtEnd ∧ s'.nblocks = s.nblocks ∧ Gathered t q s' (out ++ allLoop t q fuel s) := by
  induction fuel generalizing s out with
  | zero => exact absurd h.length_le (by omega)
  | succ fuel ih =>
    obtain ⟨r, s', he, hn, hg, hend⟩ := next_spec h
    unfold allLoop
    rw [he]
    cases r with
    | none => exact ⟨s', hend rfl, hn, hg⟩
    | some tid =>
      obtain ⟨s'', hend', hn', hg'⟩ := ih hg (by simp; omega)
      exact ⟨s'', hend', hn'.trans hn, by simpa using hg'⟩

/-- What a scan that has come to its end has returned. -/
theorem Gathered.mem_atEnd {out : List ItemPointer} (h : Gathered t q s out) (hend : s.AtEnd)
    (hn : s.nblocks = t.nblocks) : tid ∈ out ↔ t.passes q tid = true := by
  rw [h.mem]
  refine ⟨fun hp => hp.2, fun hp => ⟨hend.behind ?_, hp⟩⟩
  rw [hn]
  obtain ⟨⟨tid', a⟩, ha, rfl⟩ := List.mem_map.mp (mem_entries_of_passes hp)
  obtain ⟨p, hpage, -⟩ := Option.bind_eq_some_iff.mp (Table.mem_entries.mp ha)
  exact (List.getElem?_eq_some_iff.mp hpage).1

theorem gathered_all (t : Table α) (q : Nat × α → Bool) : ∃ s : PageScan, s.AtEnd ∧
    s.nblocks = t.nblocks ∧ Gathered t q s (all t q) := by
  obtain ⟨s, hend, hn, hg⟩ := allLoop_spec (t.entries.length + 1) (gathered_start t q t.nblocks)
    (by simp)
  exact ⟨s, hend, hn, hg⟩

/-- **A scan of a table that stands still returns every slot that passes.** -/
theorem mem_all : tid ∈ all t q ↔ t.passes q tid = true := by
  obtain ⟨s, hend, hn, hg⟩ := gathered_all t q
  exact hg.mem_atEnd hend hn

theorem nodup_all (t : Table α) (q : Nat × α → Bool) : (all t q).Nodup := by
  obtain ⟨s, -, -, hg⟩ := gathered_all t q
  exact hg.nodup

end

/-! ## In order -/

/-- A scan that holds a page holds one of its blocks. -/
def Held (s : PageScan) : Prop := s.cbuf = true → s.cblock < s.nblocks

instance (s : PageScan) (tid : ItemPointer) : Decidable (s.Behind tid) := inferInstanceAs (Decidable (_ ∨ _))

/-- What the scan has still to return, in physical order. -/
def ahead (t : Table α) (q : Nat × α → Bool) (s : PageScan) : List ItemPointer :=
  (t.entries.map Prod.fst).filter fun tid =>
    t.passes q tid && decide (tid.block < s.nblocks ∧ ¬ s.Behind tid)

section

variable {t : Table α} {q : Nat × α → Bool} {s s' : PageScan} {tid tid' : ItemPointer}

theorem mem_ahead :
    tid ∈ ahead t q s ↔ t.passes q tid = true ∧ tid.block < s.nblocks ∧ ¬ s.Behind tid := by
  unfold ahead
  rw [List.mem_filter, Bool.and_eq_true, decide_eq_true_eq]
  exact ⟨fun h => h.2, fun h => ⟨mem_entries_of_passes h.1, h⟩⟩

theorem sorted_ahead (t : Table α) (q : Nat × α → Bool) (s : PageScan) :
    (ahead t q s).Pairwise ItemPointer.Before :=
  (List.pairwise_map.mpr t.sorted_entries).filter _

/-- What comes before a slot that is behind is behind too. -/
theorem Behind.before (h : s.Behind tid) (hlt : tid'.Before tid) : s.Behind tid' := by
  unfold ItemPointer.Before at hlt
  rcases h with hblock | ⟨hbuf, hblock, hoff⟩
  · exact Or.inl (by omega)
  · rcases hlt with hlt | ⟨heq, hlt⟩
    · exact Or.inl (by omega)
    · exact Or.inr ⟨hbuf, heq.trans hblock, hlt.trans hoff⟩

/-- What is left, when the slots that pass keep their place but for one. -/
theorem ahead_of_found (hn : s'.nblocks = s.nblocks) (hblock : tid.block < s.nblocks)
    (hv : VisitSpec t q s s' (.found tid)) : ahead t q s = tid :: ahead t q s' := by
  obtain ⟨hnew, hpass, hbehind, hrest⟩ := hv
  have hafter : ∀ tid' ∈ ahead t q s', tid.Before tid' := by
    intro tid' h
    obtain ⟨-, -, hnot⟩ := mem_ahead.mp h
    rcases tid.before_trichotomy tid' with hlt | rfl | hgt
    · exact hlt
    · exact absurd hbehind hnot
    · exact absurd (hbehind.before hgt) hnot
  refine (sorted_ahead t q s).eq_of_mem_iff (List.pairwise_cons.mpr ⟨hafter, sorted_ahead t q s'⟩)
    fun tid' => ?_
  rw [List.mem_cons, mem_ahead, mem_ahead, hn]
  by_cases he : tid' = tid
  · subst he
    exact iff_of_true ⟨hpass, hblock, hnew⟩ (Or.inl rfl)
  · rw [or_iff_right he]
    exact and_congr_right fun hp => and_congr_right fun _ => not_congr (hrest tid' he hp).symm

theorem ahead_of_more (hn : s'.nblocks = s.nblocks) (hv : VisitSpec t q s s' .more) :
    ahead t q s = ahead t q s' := by
  refine (sorted_ahead t q s).eq_of_mem_iff (sorted_ahead t q s') fun tid' => ?_
  rw [mem_ahead, mem_ahead, hn]
  exact and_congr_right fun hp => and_congr_right fun _ => not_congr (hv tid' hp).symm

theorem AtEnd.ahead (h : s.AtEnd) : ahead t q s = [] := by
  refine List.eq_nil_iff_forall_not_mem.mpr fun tid htid => ?_
  obtain ⟨-, hblock, hnot⟩ := mem_ahead.mp htid
  exact hnot (h.behind hblock)

/-- A visit keeps to the blocks of the scan. -/
theorem held_visit (h : s.Held) : (visit t q s).2.Held ∧
    ∀ tid, (visit t q s).1 = .found tid → tid.block < s.nblocks := by
  unfold visit
  split_ifs with hend
  · exact ⟨h, nofun⟩
  · have hlt : s.cblock < s.nblocks := by
      rw [Bool.and_eq_true, Bool.not_eq_true', decide_eq_true_eq, not_and_or] at hend
      rcases hend with hb | hb
      · exact h (Bool.not_eq_false _ ▸ hb)
      · omega
    dsimp only
    split
    · refine ⟨fun _ => ?_, fun tid he => ?_⟩
      · show s.hold.cblock < s.hold.nblocks
        unfold hold
        split <;> exact hlt
      · cases he
        exact hlt
    · exact ⟨nofun, nofun⟩

/-- **A call returns the first of the slots ahead.** -/
theorem nextLoop_ahead (fuel : Nat) (hfuel : s.togo < fuel) (h : s.Held) : ∃ s',
    nextLoop t q fuel s = ((ahead t q s).head?, s') ∧ ahead t q s' = (ahead t q s).tail ∧ s'.Held := by
  induction fuel generalizing s with
  | zero => omega
  | succ fuel ih =>
    have hv := visit_spec t q s
    have hn := nblocks_visit t q s
    have hheld := held_visit (t := t) (q := q) h
    have htogo := togo_visit (t := t) (q := q) (s := s)
    unfold nextLoop
    rcases hvis : visit t q s with ⟨v, s'⟩
    rw [hvis] at hv hn hheld htogo
    cases v with
    | found tid =>
      have hahead := ahead_of_found hn (hheld.2 tid rfl) hv
      exact ⟨s', by rw [hahead]; rfl, by rw [hahead]; rfl, hheld.1⟩
    | more =>
      have hlt := htogo rfl
      obtain ⟨s'', hnext, htail, hheld'⟩ := ih (by omega) hheld.1
      rw [ahead_of_more hn hv]
      exact ⟨s'', hnext, htail, hheld'⟩
    | done =>
      obtain ⟨rfl, hend⟩ := hv
      exact ⟨s', by rw [hend.ahead]; rfl, by rw [hend.ahead]; rfl, h⟩

theorem delivers (t : Table α) (q : Nat × α → Bool) : Cursor.Delivers (next t q) Held (ahead t q) := by
  intro s h
  obtain ⟨s', hnext, htail, hheld⟩ := nextLoop_ahead (t := t) (q := q) _ (Nat.lt_succ_self _) h
  exact ⟨s', hnext, hheld, fun _ => htail⟩

theorem length_ahead_le (t : Table α) (q : Nat × α → Bool) (s : PageScan) :
    (ahead t q s).length ≤ t.entries.length := by
  refine (List.length_filter_le ..).trans ?_
  rw [List.length_map]

theorem held_start (nblocks : Nat) : (start nblocks).Held := nofun

end

end PageScan

end SlottedPage
