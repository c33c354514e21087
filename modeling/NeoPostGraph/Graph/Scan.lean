import NeoPostGraph.Graph.Splice

/-!
# The scan of a compaction

What `compact_oldest_linked_list_table` collects before it writes: the partition it takes, the records
in it, and for each owner the members, the record in front of them and the block behind them.

* `Oldest st l row`: the row of the oldest partition of a label that is not compacted.

Results:
* `chooseOldest_runs`: there always is one, after a rotation if need be.
* `Layout.split_oldest`: a chain's records in the oldest partition are its last ones.
* `filter_scanned_perm`: the scan meets the records of an owner in that partition, each once.
* `hashEntry_spec`: the entry's pointers and members, from `upstream_of_prevLinks` and
  `downstream_of_seg`.
-/

namespace NeoPostGraph

open SlottedPage LinkedChain

/-! ## The oldest partition -/

/-- The rows before `row` are compacted, `row` and those after it are not, and `row` is not active. -/
structure Oldest (st : Store) (l : Nat) (info : LabelInfo) (old : List LinkedListMeta)
    (row : LinkedListMeta) (rest : List LinkedListMeta) : Prop where
  label : st.vlabel l = some info
  rows : info.linkedListMeta = old ++ row :: rest
  before : ∀ r ∈ old, r.compacted = true
  after : ∀ r ∈ row :: rest, r.compacted = false
  inactive : row.active = false

theorem foldl_compacted {rows : List LinkedListMeta} (h : ∀ r ∈ rows, r.compacted = true)
    (best : Option LinkedListMeta) : rows.foldl olderInactive best = best := by
  induction rows with
  | nil => rfl
  | cons r rows ih =>
    have hr : olderInactive best r = best := by
      unfold olderInactive
      simp [h r List.mem_cons_self]
    rw [List.foldl_cons, hr]
    exact ih fun r' hr' => h r' (List.mem_cons_of_mem _ hr')

theorem foldl_newer {rows : List LinkedListMeta} {b : LinkedListMeta}
    (h : ∀ r ∈ rows, b.id ≤ r.id) : rows.foldl olderInactive (some b) = some b := by
  induction rows with
  | nil => rfl
  | cons r rows ih =>
    have hr : olderInactive (some b) r = some b := by
      unfold olderInactive
      have hid := h r List.mem_cons_self
      simp only [Nat.not_lt.mpr hid, if_false, ite_self]
    rw [List.foldl_cons, hr]
    exact ih fun r' hr' => h r' (List.mem_cons_of_mem _ hr')

/-- The rows of a label: compacted ones, then one that is not, then others that are not. -/
theorem MetaOk.split {rows : List LinkedListMeta} {seq : Nat} (h : MetaOk rows seq) :
    ∃ old row rest, rows = old ++ row :: rest ∧ (∀ r ∈ old, r.compacted = true) ∧
      (∀ r ∈ row :: rest, r.compacted = false) ∧ (row.active = true → rest = []) := by
  obtain ⟨front, cur, hrows, ha, hc, hfront⟩ := h.active
  have hsplit := List.takeWhile_append_dropWhile (p := LinkedListMeta.compacted) (l := rows)
  cases hd : rows.dropWhile LinkedListMeta.compacted with
  | nil =>
    -- the active row is not compacted
    rw [hd, List.append_nil] at hsplit
    have hcur : cur ∈ rows.takeWhile LinkedListMeta.compacted := by
      rw [hsplit, hrows]
      simp
    rw [List.all_eq_true.mp List.all_takeWhile cur hcur] at hc
    cases hc
  | cons row rest =>
    rw [hd] at hsplit
    have hrow : row.compacted = false := by
      have := List.head_dropWhile_not (p := LinkedListMeta.compacted) (l := rows)
        (by rw [hd]; exact List.cons_ne_nil _ _)
      simpa [hd] using this
    have hpair := h.compacted
    rw [← hsplit] at hpair
    refine ⟨_, row, rest, hsplit.symm, fun r hr => List.all_eq_true.mp List.all_takeWhile r hr, fun r hr => ?_,
      fun hact => ?_⟩
    · rcases List.mem_cons.mp hr with rfl | hr
      · exact hrow
      · by_contra hcon
        have := (List.pairwise_cons.mp (List.pairwise_append.mp hpair).2.1).1 r hr
          (by simpa using hcon)
        rw [hrow] at this
        cases this
    · -- only the last row is active
      by_contra hne
      obtain ⟨rest', last, rfl⟩ := (List.eq_nil_or_concat' rest).resolve_left hne
      rw [hrows, ← List.cons_append, ← List.append_assoc] at hsplit
      have hmem : row ∈ front := by
        rw [← (List.append_inj' hsplit rfl).1]
        simp
      rw [hfront row hmem] at hact
      cases hact

/-- **The scan finds the first row that is not compacted**, unless that is the active one. -/
theorem oldestInactive_eq {old rest : List LinkedListMeta} {row : LinkedListMeta} {seq : Nat}
    (h : MetaOk (old ++ row :: rest) seq) (hold : ∀ r ∈ old, r.compacted = true)
    (hrow : row.compacted = false) (hrest : row.active = true → rest = []) :
    oldestInactive (old ++ row :: rest) = if row.active then none else some row := by
  unfold oldestInactive
  rw [List.foldl_append, foldl_compacted hold, List.foldl_cons]
  cases ha : row.active with
  | true =>
    rw [hrest ha]
    simp [olderInactive, ha]
  | false =>
    have hstep : olderInactive none row = some row := by simp [olderInactive, ha, hrow]
    rw [hstep]
    have hsorted := (List.pairwise_append.mp h.sorted).2.1
    exact foldl_newer fun r hr => Nat.le_of_lt ((List.pairwise_cons.mp hsorted).1 r hr)

section

variable {db : Db} {l : Nat}

theorem getOldestInactiveLinkedList_runs {info : LabelInfo} (h : db.store.vlabel l = some info) :
    (getOldestInactiveLinkedList l).Runs db
      ((oldestInactive info.linkedListMeta).map LinkedListMeta.tbl) db := by
  obtain ⟨lab, hlab⟩ := exists_vlabel (by rw [h]; rfl)
  rw [store_vlabel hlab, Option.some.injEq] at h
  subst h
  exact runs_readVertexLabel.mpr ⟨lab, hlab, rfl, rfl⟩

/-- **There is always a partition to compact**: the oldest one, or the active one after a rotation. -/
theorem chooseOldest_runs (hcat : Catalog db.store) (h : (db.store.vlabel l).isSome) :
    ∃ db' info old row rest, (chooseOldest l).Runs db row.tbl db' ∧
      Oldest db'.store l info old row rest ∧
      (db'.store = db.store ∨ ∃ info₀, db.store.vlabel l = some info₀ ∧
        db'.store = db.store.rotate l info₀) := by
  obtain ⟨info, hinfo⟩ := Option.isSome_iff_exists.mp h
  have hok := hcat.rows l info hinfo
  obtain ⟨old, row, rest, hrows, hold, hnew, hactive⟩ := hok.split
  have hread := getOldestInactiveLinkedList_runs hinfo
  rw [hrows, oldestInactive_eq (hrows ▸ hok) hold (hnew row List.mem_cons_self) hactive] at hread
  cases ha : row.active with
  | false =>
    rw [ha] at hread
    exact ⟨db, info, old, row, rest, hread.bind (Prog.runs_ret_iff.mpr ⟨rfl, rfl⟩),
      ⟨hinfo, hrows, hold, hnew, ha⟩, Or.inl rfl⟩
  | true =>
    -- only the active partition is left: it becomes the oldest inactive one
    rw [ha] at hread
    obtain rfl := hactive ha
    obtain ⟨o, db₁, h₁⟩ := createNewActiveLinkedList_runs h
    obtain ⟨info', hinfo', -, hst₁⟩ := createNewActiveLinkedList_inv hcat h₁
    obtain rfl := Option.some.inj (hinfo.symm.trans hinfo')
    obtain ⟨front, cur, hrows', hcur, -, hfront⟩ := hok.active
    obtain ⟨rfl, hrc⟩ := List.append_inj' (hrows.symm.trans hrows') rfl
    obtain rfl : row = cur := (List.cons.inj hrc).1
    have hcat₁ := hcat.rotate hinfo
    rw [← hst₁] at hcat₁
    have hinfo₁ : db₁.store.vlabel l = some (info.rotate db.store.nextOid) := by
      rw [hst₁]
      exact Function.update_self ..
    have hrows₁ : (info.rotate db.store.nextOid).linkedListMeta = old ++
        { row with active := false } :: [⟨info.linkedListSeq, db.store.nextOid, true, false⟩] := by
      show deactivate info.linkedListMeta ++ _ = _
      rw [hrows, deactivate_append hfront ha, List.append_assoc]
      rfl
    have hnew₁ : ∀ r ∈ { row with active := false } ::
        [(⟨info.linkedListSeq, db.store.nextOid, true, false⟩ : LinkedListMeta)],
        r.compacted = false := by
      intro r hr
      rcases List.mem_cons.mp hr with rfl | hr
      · exact hnew row List.mem_cons_self
      · rw [List.mem_singleton.mp hr]
    have hread₁ := getOldestInactiveLinkedList_runs hinfo₁
    rw [hrows₁, oldestInactive_eq (hrows₁ ▸ hcat₁.rows _ _ hinfo₁) hold
      (hnew₁ _ List.mem_cons_self) (by simp)] at hread₁
    exact ⟨db₁, _, old, { row with active := false }, _,
      hread.bind (h₁.bind (hread₁.bind (Prog.runs_ret_iff.mpr ⟨rfl, rfl⟩))),
      ⟨hinfo₁, hrows₁, hold, hnew₁, rfl⟩, Or.inr ⟨info, hinfo, hst₁⟩⟩

end

section

variable {st : Store} {l : Nat} {info : LabelInfo} {old rest : List LinkedListMeta}
  {row : LinkedListMeta} {v : VertexKey} {ls : LinkedPath} {bs : BlockPath}

theorem Oldest.live (h : Oldest st l info old row rest) : st.LivePartition l row.tbl :=
  ⟨info, h.label, row, by rw [h.rows]; simp, rfl, h.after row List.mem_cons_self⟩

/-- No partition that is not compacted is older. -/
theorem Oldest.rank_lt (h : Oldest st l info old row rest) (hcat : Catalog st) {o : Oid}
    (ho : st.LivePartition l o) (hne : o ≠ row.tbl) : st.rank l row.tbl < st.rank l o := by
  obtain ⟨info', hinfo', r, hr, rfl, hc⟩ := ho
  obtain rfl := Option.some.inj (h.label.symm.trans hinfo')
  have hrow : row ∈ info.linkedListMeta := by
    rw [h.rows]
    simp
  rw [rank_eq hcat h.label hrow, rank_eq hcat h.label hr]
  rw [h.rows] at hr
  have hsorted := (hcat.rows l info h.label).sorted
  rw [h.rows] at hsorted
  rcases List.mem_append.mp hr with hr | hr
  · rw [h.before r hr] at hc
    cases hc
  · rcases List.mem_cons.mp hr with rfl | hr
    · exact absurd rfl hne
    · exact (List.pairwise_cons.mp (List.pairwise_append.mp hsorted).2.1).1 r hr

/-- **A chain's records in the oldest partition are its last ones.** -/
theorem Layout.split_oldest (h : Layout st v ls bs) (hcat : Catalog st)
    (hold : Oldest st v.1 info old row rest) : ∃ ls₁ ls₂, ls = ls₁ ++ ls₂ ∧
      (∀ x ∈ ls₁, x.1.1 ≠ row.tbl) ∧ ∀ x ∈ ls₂, x.1.1 = row.tbl := by
  have hlive : ∀ x ∈ ls, st.LivePartition v.1 x.1.1 := fun x hx => (h.linked x hx).2.2
  have hord := h.ordered
  clear h
  induction ls with
  | nil => exact ⟨[], [], rfl, by simp, by simp⟩
  | cons x ls ih =>
    obtain ⟨hx, hls⟩ := List.pairwise_cons.mp hord
    by_cases hrow : x.1.1 = row.tbl
    · refine ⟨[], x :: ls, rfl, by simp, fun y hy => ?_⟩
      rcases List.mem_cons.mp hy with rfl | hy'
      · exact hrow
      · by_contra hne
        have hlt := hold.rank_lt hcat (hlive y hy) hne
        have hle := hx y hy'
        rw [hrow] at hle
        exact Nat.lt_irrefl _ (Nat.lt_of_lt_of_le hlt hle)
    · obtain ⟨ls₁, ls₂, rfl, h₁, h₂⟩ := ih (fun y hy => hlive y (List.mem_cons_of_mem _ hy)) hls
      refine ⟨x :: ls₁, ls₂, rfl, fun y hy => ?_, h₂⟩
      rcases List.mem_cons.mp hy with rfl | hy
      · exact hrow
      · exact h₁ y hy

end

/-! ## The records of the partition -/

section

variable {db : Db} {o : Oid} {t : Table NeoLinkedListRecord}

/-- The entries of a table as the scan meets them. -/
def scanned (t : Table NeoLinkedListRecord) : List (ItemPointer × NeoLinkedListRecord) :=
  (List.range t.nblocks).flatMap fun blk => t.entries.filter fun x => x.1.block = blk

theorem scanBlocks_runs (h : db.rels o = some (.linkedList t)) (blks : List Nat) :
    (scanBlocks o blks).Runs db
      ((blks.flatMap fun blk => t.entries.filter fun x => x.1.block = blk).map Prod.snd) db := by
  induction blks with
  | nil => exact Prog.runs_ret_iff.mpr ⟨rfl, rfl⟩
  | cons blk blks ih =>
    have h₁ : (scanBlock o blk).Runs db ((t.entries.filter fun x => x.1.block = blk).map Prod.snd)
        db := runs_readRel.mpr ⟨_, h, rfl, rfl⟩
    rw [List.flatMap_cons, List.map_append]
    exact h₁.bind (ih.bind (Prog.runs_ret_iff.mpr ⟨rfl, rfl⟩))

/-- **The scan meets every entry once.** -/
theorem scanned_perm (t : Table NeoLinkedListRecord) : (scanned t).Perm t.entries := by
  have hnd : t.entries.Nodup := List.Nodup.of_map _ t.nodup_entries
  refine (List.perm_ext_iff_of_nodup ?_ hnd).mpr fun x => ?_
  · refine List.nodup_flatMap.mpr ⟨fun blk _ => hnd.filter _, ?_⟩
    refine List.Pairwise.imp (fun {b b'} hne => ?_) List.nodup_range
    intro x hx hx'
    have h₁ : x.1.block = b := by simpa using (List.mem_filter.mp hx).2
    have h₂ : x.1.block = b' := by simpa using (List.mem_filter.mp hx').2
    exact hne (h₁.symm.trans h₂)
  · unfold scanned
    rw [List.mem_flatMap]
    constructor
    · rintro ⟨blk, -, hx⟩
      exact (List.mem_filter.mp hx).1
    · intro hx
      have hget : t.get x.1 = some x.2 := Table.mem_entries.mp hx
      exact ⟨x.1.block, List.mem_range.mpr (nblocks_of_get hget),
        List.mem_filter.mpr ⟨hx, by simp⟩⟩

/-- **The scan meets the records of an owner in the partition**, each once. -/
theorem filter_scanned_perm {V : List VertexKey} {v : VertexKey} {ls₁ ls₂ : LinkedPath}
    {bs : BlockPath} (hlayout : GraphLayout db.store V) (h : db.rels o = some (.linkedList t))
    (hlive : db.store.LivePartition v.1 o) (hlay : Layout db.store v (ls₁ ++ ls₂) bs)
    (h₁ : ∀ x ∈ ls₁, x.1.1 ≠ o) (h₂ : ∀ x ∈ ls₂, x.1.1 = o) :
    (((scanned t).map Prod.snd).filter fun rec => rec.ownerId = v.2).Perm (ls₂.map Prod.snd) := by
  have hnode : ∀ tid rec, t.get tid = some rec ↔ db.store.node (o, tid) = some (.linked rec) := by
    intro tid rec
    rw [store_linked h]
    constructor
    · intro hg
      rw [hg]
      rfl
    · intro hg
      obtain ⟨rec', hg', he⟩ := Option.map_eq_some_iff.mp hg
      rw [hg', AdjNode.linked.inj he]
  have hperm : (t.entries.filter fun x => x.2.ownerId = v.2).Perm
      (ls₂.map fun x => (x.1.2, x.2)) := by
    refine (List.perm_ext_iff_of_nodup ((List.Nodup.of_map _ t.nodup_entries).filter _) ?_).mpr
      fun x => ?_
    · have hnd := hlay.path.nodup
      rw [map_fst_toPath, List.map_append] at hnd
      have hnd₂ : (ls₂.map Prod.fst).Nodup :=
        (List.nodup_append.mp (List.nodup_append.mp hnd).1).2.1
      refine List.Nodup.of_map (fun x => (o, x.1)) ?_
      rw [List.map_map]
      refine Eq.subst (List.map_congr_left fun x hx => ?_) hnd₂
      exact Prod.ext (h₂ x hx) rfl
    · rw [List.mem_filter, Table.mem_entries, hnode, decide_eq_true_iff, List.mem_map]
      constructor
      · rintro ⟨hx, howner⟩
        obtain ⟨-, hon⟩ := hlayout.cover v.1 (o, x.1) x.2 hlive hx
        rw [howner] at hon
        obtain ⟨y, hy, hya⟩ := List.mem_map.mp (hon _ _ hlay)
        have hget := hlay.get_linked hy
        rw [hya, hx] at hget
        refine ⟨y, (List.mem_append.mp hy).resolve_left fun hc => h₁ y hc (by rw [hya]), ?_⟩
        rw [hya, ← AdjNode.linked.inj (Option.some.inj hget)]
      · rintro ⟨y, hy, rfl⟩
        have hy' := List.mem_append_right ls₁ hy
        have hget := hlay.get_linked hy'
        rw [← Prod.mk.eta (p := y.1), h₂ y hy] at hget
        exact ⟨hget, (hlay.linked y hy').1⟩
  have hmap := (((scanned_perm t).filter fun x => x.2.ownerId = v.2).trans hperm).map Prod.snd
  rw [List.map_map] at hmap
  rw [List.filter_map]
  exact hmap

end

/-! ## The entry of an owner -/

section

variable {o : Oid} {q : Addr} {recs : List NeoLinkedListRecord} {entry : CompactedVertexEntry}
  {ls : LinkedPath} {bs : BlockPath}

theorem adj_foldl_addToEntry (recs : List NeoLinkedListRecord) (entry : CompactedVertexEntry) :
    (recs.foldl (addToEntry o) entry).adj = entry.adj ++ recs.map NeoLinkedListRecord.toMember := by
  induction recs generalizing entry with
  | nil => simp
  | cons r recs ih =>
    have hr : (addToEntry o entry r).adj = entry.adj ++ [r.toMember] := by
      unfold addToEntry
      dsimp only
      split_ifs <;> rfl
    rw [List.foldl_cons, ih, hr]
    simp

/-- The upstream pointer is the back pointer of the records that point out of the partition. -/
theorem foldl_upstream (h : ∀ r ∈ recs, r.prevTbl ≠ o → (r.prevTbl, r.prevItemptr) = q)
    (hq : (entry.upstreamTbl, entry.upstreamTid) = q ∨ ∃ r ∈ recs, r.prevTbl ≠ o) :
    ((recs.foldl (addToEntry o) entry).upstreamTbl,
      (recs.foldl (addToEntry o) entry).upstreamTid) = q := by
  induction recs generalizing entry with
  | nil => exact hq.resolve_right (by simp)
  | cons r recs ih =>
    refine ih (fun r' hr' => h r' (List.mem_cons_of_mem _ hr')) ?_
    by_cases hr : r.prevTbl = o
    · have hsame : ((addToEntry o entry r).upstreamTbl, (addToEntry o entry r).upstreamTid) =
          (entry.upstreamTbl, entry.upstreamTid) := by
        unfold addToEntry
        dsimp only
        split_ifs <;> first | rfl | contradiction
      rw [hsame]
      refine hq.imp_right ?_
      rintro ⟨r', hr', hne⟩
      rcases List.mem_cons.mp hr' with rfl | hr'
      · exact absurd hr hne
      · exact ⟨r', hr', hne⟩
    · refine Or.inl ((Eq.trans ?_ (h r List.mem_cons_self hr)))
      unfold addToEntry
      dsimp only
      split_ifs <;> rfl

/-- The downstream pointer is the forward pointer of the records that point out of the partition. -/
theorem foldl_downstream
    (h : ∀ r ∈ recs, r.nextTbl ≠ o ∧ r.nextTbl ≠ 0 → (r.nextTbl, r.nextItemptr) = q)
    (hq : (entry.downstreamTbl, entry.downstreamTid) = q ∨
      ∃ r ∈ recs, r.nextTbl ≠ o ∧ r.nextTbl ≠ 0) :
    ((recs.foldl (addToEntry o) entry).downstreamTbl,
      (recs.foldl (addToEntry o) entry).downstreamTid) = q := by
  induction recs generalizing entry with
  | nil => exact hq.resolve_right (by simp)
  | cons r recs ih =>
    refine ih (fun r' hr' => h r' (List.mem_cons_of_mem _ hr')) ?_
    by_cases hr : r.nextTbl ≠ o ∧ r.nextTbl ≠ 0
    · refine Or.inl ((Eq.trans ?_ (h r List.mem_cons_self hr)))
      unfold addToEntry
      dsimp only
      rw [if_pos hr]
    · have hsame : ((addToEntry o entry r).downstreamTbl, (addToEntry o entry r).downstreamTid) =
          (entry.downstreamTbl, entry.downstreamTid) := by
        unfold addToEntry
        dsimp only
        rw [if_neg hr]
        split_ifs <;> rfl
      rw [hsame]
      refine hq.imp_right ?_
      rintro ⟨r', hr', hne⟩
      rcases List.mem_cons.mp hr' with rfl | hr'
      · exact absurd hne hr
      · exact ⟨r', hr', hne⟩

/-- Inside the partition the records point back to one another. -/
theorem prevTbl_of_prevLinks (h : PrevLinks q ls) (hls : ∀ x ∈ ls, x.1.1 = o) (hq : q.1 = o) :
    ∀ x ∈ ls, x.2.prevTbl = o := by
  induction ls generalizing q with
  | nil => simp
  | cons x ls ih =>
    intro y hy
    rcases List.mem_cons.mp hy with rfl | hy
    · rw [← hq, ← h.1]
    · exact ih h.2 (fun z hz => hls z (List.mem_cons_of_mem _ hz)) (hls x List.mem_cons_self) y hy

/-- The first record points back out of the partition, and no other. -/
theorem upstream_of_prevLinks (h : PrevLinks q ls) (hls : ∀ x ∈ ls, x.1.1 = o) (hne : ls ≠ [])
    (hq : q.1 ≠ o) :
    (∀ x ∈ ls, x.2.prevTbl ≠ o → (x.2.prevTbl, x.2.prevItemptr) = q) ∧
      ∃ x ∈ ls, x.2.prevTbl ≠ o := by
  cases ls with
  | nil => exact absurd rfl hne
  | cons x ls =>
    refine ⟨fun y hy hyo => ?_, x, List.mem_cons_self, fun he => hq (by rw [← h.1]; exact he)⟩
    rcases List.mem_cons.mp hy with rfl | hy
    · exact h.1
    · exact absurd (prevTbl_of_prevLinks h.2 (fun z hz => hls z (List.mem_cons_of_mem _ hz))
        (hls x List.mem_cons_self) y hy) hyo

theorem lastAddr_ne (hq : q.1 ≠ o) (hls : ∀ x ∈ ls, x.1.1 ≠ o) : (lastAddr q ls).1 ≠ o := by
  induction ls generalizing q with
  | nil => exact hq
  | cons x ls ih =>
    exact ih (hls x List.mem_cons_self) fun y hy => hls y (List.mem_cons_of_mem _ hy)

/-- The last record points forward out of the partition, to the first block if there is one. -/
theorem downstream_of_seg {st : Store} {a : Option Addr}
    (h : Seg st.node AdjNode.next a (toPath ls bs) none) (hls : ∀ x ∈ ls, x.1.1 = o ∧ NextOk x.2)
    (hbs : ∀ x ∈ bs, x.1.1 ≠ o ∧ x.1.1 ≠ 0) (hne : ls ≠ []) :
    ∃ q : Addr, (bs.head?.map Prod.fst = if q.2.isValid then some q else none) ∧
      (∀ x ∈ ls, x.2.nextTbl ≠ o ∧ x.2.nextTbl ≠ 0 → (x.2.nextTbl, x.2.nextItemptr) = q) ∧
      ((0, .invalid) = q ∨ ∃ x ∈ ls, x.2.nextTbl ≠ o ∧ x.2.nextTbl ≠ 0) := by
  induction ls generalizing a with
  | nil => exact absurd rfl hne
  | cons x ls ih =>
    obtain ⟨-, -, hrest⟩ := h.cons_inv
    change Seg _ _ (cursor x.2.nextTbl x.2.nextItemptr) (toPath ls bs) none at hrest
    cases ls with
    | cons y ls =>
      -- the next record is in the partition
      have hcur : cursor x.2.nextTbl x.2.nextItemptr = some y.1 := hrest.cons_inv.1
      obtain ⟨hy, -, -⟩ := cursor_eq_some.mp hcur
      have hxo : x.2.nextTbl = o := by
        rw [← (hls y (by simp)).1, hy]
      obtain ⟨q, hq, hall, hex⟩ := ih hrest (fun z hz => hls z (List.mem_cons_of_mem _ hz)) (by simp)
      refine ⟨q, hq, fun z hz hzo => ?_, hex.imp_right fun ⟨z, hz, hzo⟩ =>
        ⟨z, List.mem_cons_of_mem _ hz, hzo⟩⟩
      rcases List.mem_cons.mp hz with rfl | hz
      · exact absurd hxo hzo.1
      · exact hall z hz hzo
    | nil =>
      cases bs with
      | nil =>
        have hcur : cursor x.2.nextTbl x.2.nextItemptr = none := hrest.nil_inv
        refine ⟨(0, .invalid), rfl, fun z hz hzo => ?_, Or.inl rfl⟩
        rw [List.mem_singleton.mp hz] at hzo
        have hv := (hls x List.mem_cons_self).2.resolve_left hzo.2
        rw [cursor_eq_some.mpr ⟨rfl, hv, by simp [oidIsValid, hzo.2]⟩] at hcur
        cases hcur
      | cons b bs =>
        have hcur : cursor x.2.nextTbl x.2.nextItemptr = some b.1 := hrest.cons_inv.1
        obtain ⟨hb, hv, -⟩ := cursor_eq_some.mp hcur
        refine ⟨b.1, ?_, fun z hz _ => ?_, Or.inr ⟨x, List.mem_cons_self, ?_⟩⟩
        · rw [if_pos (by rw [hb]; exact hv)]
          rfl
        · rw [List.mem_singleton.mp hz, hb]
        · have hne := hbs b List.mem_cons_self
          rw [hb] at hne
          exact hne

/-- **The entry of an owner**: the members of its records in the partition, the record before them,
the block after them. -/
theorem hashEntry_spec {st : Store} {v : VertexKey} {info : LabelInfo} {ls₁ ls₂ : LinkedPath}
    (hcat : Catalog st) (hinfo : st.vlabel v.1 = some info) (hlive : st.LivePartition v.1 o)
    (hlay : Layout st v (ls₁ ++ ls₂) bs) (h₁ : ∀ x ∈ ls₁, x.1.1 ≠ o) (h₂ : ∀ x ∈ ls₂, x.1.1 = o)
    (hne : ls₂ ≠ [])
    (hperm : (recs.filter fun rec => rec.ownerId = v.2).Perm (ls₂.map Prod.snd)) :
    (hashEntry o recs v.2).adj.Perm (ls₂.map fun x => x.2.toMember) ∧
      ((hashEntry o recs v.2).upstreamTbl, (hashEntry o recs v.2).upstreamTid) =
        lastAddr (0, .invalid) ls₁ ∧
      cursor info.arraylist (hashEntry o recs v.2).downstreamTid = bs.head?.map Prod.fst := by
  have hmem : ∀ r, r ∈ recs.filter (fun rec => rec.ownerId = v.2) ↔ ∃ x ∈ ls₂, x.2 = r := fun r => by
    rw [hperm.mem_iff, List.mem_map]
  obtain ⟨hfmt, ho⟩ : st.format o = some .linkedList ∧ o ≠ 0 := by
    obtain ⟨i, hi, row, hrow, rfl, -⟩ := hlive
    exact hcat.partition _ _ hi row hrow
  obtain ⟨hafmt, ha0⟩ := hcat.arraylist _ _ hinfo
  have harr : info.arraylist ≠ o := fun he => by
    rw [he, hfmt] at hafmt
    cases hafmt
  refine ⟨?_, ?_, ?_⟩
  · have hadj := hperm.map NeoLinkedListRecord.toMember
    rw [List.map_map] at hadj
    unfold hashEntry
    rw [adj_foldl_addToEntry]
    exact hadj
  · obtain ⟨hall, x, hx, hxo⟩ := upstream_of_prevLinks (prevLinks_append.mp hlay.prevs).2 h₂ hne
      (lastAddr_ne (Ne.symm ho) h₁)
    refine foldl_upstream (fun r hr hro => ?_) (Or.inr ⟨x.2, (hmem x.2).mpr ⟨x, hx, rfl⟩, hxo⟩)
    obtain ⟨y, hy, rfl⟩ := (hmem r).mp hr
    exact hall y hy hro
  · have hpath := hlay.path
    unfold Store.Path at hpath
    have happ : toPath (ls₁ ++ ls₂) bs = toPath ls₁ [] ++ toPath ls₂ bs := by simp [toPath]
    rw [happ] at hpath
    obtain ⟨a, -, hseg⟩ := hpath.split
    have hbs : ∀ x ∈ bs, x.1.1 = info.arraylist := fun x hx => by
      obtain ⟨i, hi, he⟩ := (hlay.blocks x hx).2
      rw [← he, Option.some.inj (hinfo.symm.trans hi)]
    obtain ⟨q, hq, hall, hex⟩ := downstream_of_seg hseg
      (fun x hx => ⟨h₂ x hx, (hlay.linked x (List.mem_append_right _ hx)).2.1⟩)
      (fun x hx => by rw [hbs x hx]; exact ⟨harr, ha0⟩) hne
    have hdown : ((hashEntry o recs v.2).downstreamTbl, (hashEntry o recs v.2).downstreamTid) = q := by
      refine foldl_downstream (fun r hr hro => ?_) (hex.imp_right fun hnext => ?_)
      · obtain ⟨y, hy, rfl⟩ := (hmem r).mp hr
        exact hall y hy hro
      · obtain ⟨x, hx, hxo⟩ := hnext
        exact ⟨x.2, (hmem x.2).mpr ⟨x, hx, rfl⟩, hxo⟩
    rw [← hdown] at hq
    -- the downstream block, if any, is in the array list of the label
    rw [hq]
    split
    · next hv =>
      rw [if_pos hv] at hq
      obtain ⟨b, hb, hbq⟩ := Option.map_eq_some_iff.mp hq
      have hb1 := hbs b (List.mem_of_mem_head? hb)
      rw [hbq] at hb1
      rw [← hb1]
      exact cursor_eq_some.mpr ⟨rfl, hv, by
        simpa [oidIsValid] using fun he => ha0 (hb1.symm.trans he)⟩
    · next hv => exact if_neg fun hc => hv (Bool.and_eq_true_iff.mp hc).1

end

end NeoPostGraph
