import NeoPostGraph.Graph.Unlink

/-!
# The layout of chains

How the chain of every vertex is laid out over the relations of its label: first linked-list records,
newest partition first, then array blocks. The back pointers of the records are right, which is
what compaction relies on to splice. Partitions that are compacted are on no chain any more.

* `Layout st v ls bs`: the chain of `v` is the records `ls`, then the blocks `bs`.
* `GraphLayout st V`: the vertices `V` have slots of their own and chains with a layout, and every
  record of an uncompacted partition is on its owner's chain.

Results: `GraphLayout` is kept by linking (`GraphLayout.link`), by deletion stamps
(`GraphLayout.stamp`), by new vertices (`GraphLayout.vertex`), by rotations (`GraphLayout.rotate`)
and by new labels (`GraphLayout.addLabel`).
-/

namespace NeoPostGraph

open SlottedPage LinkedChain

/-! ## One chain -/

/-- The linked-list records of a chain, with their addresses. -/
abbrev LinkedPath := List (Addr × NeoLinkedListRecord)

/-- The array blocks of a chain, with their addresses. -/
abbrev BlockPath := List (Addr × NeoArrayListRecord)

/-- The nodes of a chain of records and then blocks. -/
def toPath (ls : LinkedPath) (bs : BlockPath) : NodePath :=
  ls.map (fun x => (x.1, AdjNode.linked x.2)) ++ bs.map fun x => (x.1, AdjNode.block x.2)

/-- The back pointer of each record names the record before it; that of the first is `q`. -/
def PrevLinks : Addr → LinkedPath → Prop
  | _, [] => True
  | q, x :: xs => (x.2.prevTbl, x.2.prevItemptr) = q ∧ PrevLinks x.1 xs

/-- A next pointer has a table only when it is valid. -/
def NextOk (rec : NeoLinkedListRecord) : Prop := rec.nextTbl = 0 ∨ rec.nextItemptr.isValid = true

namespace Store

/-- The relation is a partition of the label that is not compacted yet. -/
def LivePartition (st : Store) (l : Nat) (o : Oid) : Prop :=
  ∃ info, st.vlabel l = some info ∧ ∃ row ∈ info.linkedListMeta, row.tbl = o ∧ row.compacted = false

/-- The partition id of a relation of the label. -/
def rank (st : Store) (l : Nat) (o : Oid) : Nat :=
  (((st.vlabel l).bind fun info => info.linkedListMeta.find? fun row => row.tbl = o).map
    LinkedListMeta.id).getD 0

/-- The relation is the array list of the label. -/
def ArrayOf (st : Store) (l : Nat) (o : Oid) : Prop :=
  ∃ info, st.vlabel l = some info ∧ info.arraylist = o

end Store

/-- The chain of `v` is the records `ls`, newest partition first, and then the blocks `bs`. -/
structure Layout (st : Store) (v : VertexKey) (ls : LinkedPath) (bs : BlockPath) : Prop where
  slot : ∃ rec, st.vslot (v.1, headSlot v.2) = some rec
  path : st.Path v (toPath ls bs)
  linked : ∀ x ∈ ls, x.2.ownerId = v.2 ∧ NextOk x.2 ∧ st.LivePartition v.1 x.1.1
  ordered : ls.Pairwise fun x y => st.rank v.1 y.1.1 ≤ st.rank v.1 x.1.1
  prevs : PrevLinks (0, .invalid) ls
  blocks : ∀ x ∈ bs, x.2.ownerId = v.2 ∧ st.ArrayOf v.1 x.1.1

section

variable {st st' : Store} {v w : VertexKey} {ls ls' : LinkedPath} {bs bs' : BlockPath} {a : Addr}

theorem mem_toPath {x : Addr × AdjNode} : x ∈ toPath ls bs ↔
    (∃ y ∈ ls, x = (y.1, .linked y.2)) ∨ ∃ y ∈ bs, x = (y.1, .block y.2) := by
  simp only [toPath, List.mem_append, List.mem_map, eq_comm]

@[simp] theorem map_fst_toPath :
    (toPath ls bs).map Prod.fst = ls.map Prod.fst ++ bs.map Prod.fst := by
  unfold toPath
  rw [List.map_append, List.map_map, List.map_map]
  rfl

theorem members_toPath : (toPath ls bs).members =
    ls.map (fun x => x.2.toMember) ++ bs.flatMap fun x => x.2.adjList := by
  unfold NodePath.members toPath
  rw [List.flatMap_append, List.flatMap_map, List.flatMap_map]
  congr 1
  exact List.map_eq_flatMap.symm

theorem toPath_inj (h : toPath ls bs = toPath ls' bs') : ls = ls' ∧ bs = bs' := by
  induction ls generalizing ls' with
  | nil =>
    cases ls' with
    | nil =>
      refine ⟨rfl, List.map_injective_iff.mpr ?_ h⟩
      rintro ⟨a, b⟩ ⟨a', b'⟩ he
      obtain ⟨ha, hb⟩ := Prod.mk.inj he
      exact Prod.ext ha (AdjNode.block.inj hb)
    | cons x ls' =>
      cases bs with
      | nil => cases h
      | cons b bs => cases (Prod.mk.inj (List.cons.inj h).1).2
  | cons x ls ih =>
    cases ls' with
    | nil =>
      cases bs' with
      | nil => cases h
      | cons b bs' => cases (Prod.mk.inj (List.cons.inj h).1).2
    | cons x' ls' =>
      obtain ⟨hx, h⟩ := List.cons.inj h
      obtain ⟨ha, hr⟩ := Prod.mk.inj hx
      obtain ⟨rfl, rfl⟩ := ih h
      exact ⟨by rw [Prod.ext ha (AdjNode.linked.inj hr)], rfl⟩

/-- **A chain has one layout.** -/
theorem Layout.unique (h : Layout st v ls bs) (h' : Layout st v ls' bs') : ls = ls' ∧ bs = bs' :=
  toPath_inj (h.path.det h'.path)

theorem Layout.get_linked (h : Layout st v ls bs) {x : Addr × NeoLinkedListRecord} (hx : x ∈ ls) :
    st.node x.1 = some (.linked x.2) := h.path.get (mem_toPath.mpr (Or.inl ⟨x, hx, rfl⟩))

theorem Layout.get_block (h : Layout st v ls bs) {x : Addr × NeoArrayListRecord} (hx : x ∈ bs) :
    st.node x.1 = some (.block x.2) := h.path.get (mem_toPath.mpr (Or.inr ⟨x, hx, rfl⟩))

/-- **Chains of different vertices share no node**: a node knows its owner's id, and its relation the
label. -/
theorem Layout.disjoint (hcat : Catalog st) (h : Layout st v ls bs) (h' : Layout st w ls' bs')
    (ha : a ∈ (toPath ls bs).map Prod.fst) (ha' : a ∈ (toPath ls' bs').map Prod.fst) : v = w := by
  obtain ⟨x, hx, rfl⟩ := List.mem_map.mp ha
  obtain ⟨x', hx', he⟩ := List.mem_map.mp ha'
  have hn := h.path.get hx
  have hn' := h'.path.get hx'
  rw [he, hn] at hn'
  have hnode := Option.some.inj hn'
  rcases mem_toPath.mp hx with ⟨y, hy, rfl⟩ | ⟨y, hy, rfl⟩ <;>
    rcases mem_toPath.mp hx' with ⟨y', hy', rfl⟩ | ⟨y', hy', rfl⟩
  · obtain ⟨ho, -, i, hi, r, hr, ht, -⟩ := h.linked y hy
    obtain ⟨ho', -, i', hi', r', hr', ht', -⟩ := h'.linked y' hy'
    change AdjNode.linked y.2 = AdjNode.linked y'.2 at hnode
    rw [AdjNode.linked.inj hnode] at ho
    change y'.1 = y.1 at he
    rw [he] at ht'
    exact Prod.ext (hcat.partition_inj _ _ _ _ hi hi' _ hr _ hr' (ht.trans ht'.symm))
      (ho.symm.trans ho')
  · cases hnode
  · cases hnode
  · obtain ⟨ho, i, hi, ht⟩ := h.blocks y hy
    obtain ⟨ho', i', hi', ht'⟩ := h'.blocks y' hy'
    change AdjNode.block y.2 = AdjNode.block y'.2 at hnode
    rw [AdjNode.block.inj hnode] at ho
    change y'.1 = y.1 at he
    rw [he] at ht'
    exact Prod.ext (hcat.arraylist_inj _ _ _ _ hi hi' (ht.trans ht'.symm)) (ho.symm.trans ho')

/-- What the layout needs of the labels. -/
structure SameLabels (st st' : Store) : Prop where
  live : ∀ l o, st.LivePartition l o → st'.LivePartition l o
  rank : ∀ l o, st.LivePartition l o → st'.rank l o = st.rank l o
  array : ∀ l o, st.ArrayOf l o → st'.ArrayOf l o

theorem SameLabels.of_eq (h : st'.vlabel = st.vlabel) : SameLabels st st' where
  live l o := by
    unfold Store.LivePartition
    rw [h]
    exact id
  rank l o _ := by
    unfold Store.rank
    rw [h]
  array l o := by
    unfold Store.ArrayOf
    rw [h]
    exact id

/-- The order of the records is one of their addresses. -/
theorem ordered_congr {l : Nat} (h : ls.Pairwise fun x y => st.rank l y.1.1 ≤ st.rank l x.1.1)
    (hfst : ls'.map Prod.fst = ls.map Prod.fst)
    (hrank : ∀ x ∈ ls, st'.rank l x.1.1 = st.rank l x.1.1) :
    ls'.Pairwise fun x y => st'.rank l y.1.1 ≤ st'.rank l x.1.1 := by
  have hord : (ls.map Prod.fst).Pairwise fun a b => st'.rank l b.1 ≤ st'.rank l a.1 := by
    rw [List.pairwise_map]
    refine h.imp_of_mem fun {x y} hx hy hxy => ?_
    rw [hrank x hx, hrank y hy]
    exact hxy
  rw [← hfst, List.pairwise_map] at hord
  exact hord

/-- A layout depends on the slot, the nodes of the chain and the relations they are in. -/
theorem Layout.congr (h : Layout st v ls bs)
    (hslot : st'.vslot (v.1, headSlot v.2) = st.vslot (v.1, headSlot v.2))
    (hnode : ∀ b ∈ (toPath ls bs).map Prod.fst, st'.node b = st.node b)
    (hlive : ∀ x ∈ ls, st'.LivePartition v.1 x.1.1)
    (hrank : ∀ x ∈ ls, st'.rank v.1 x.1.1 = st.rank v.1 x.1.1)
    (harray : ∀ o, st.ArrayOf v.1 o → st'.ArrayOf v.1 o) : Layout st' v ls bs where
  slot := by
    rw [hslot]
    exact h.slot
  path := by
    have hp := h.path
    unfold Store.Path Store.head at hp ⊢
    rw [hslot]
    exact hp.frame fun x hx => hnode _ (List.mem_map_of_mem hx)
  linked x hx := by
    obtain ⟨ho, hn, -⟩ := h.linked x hx
    exact ⟨ho, hn, hlive x hx⟩
  ordered := ordered_congr h.ordered rfl hrank
  prevs := h.prevs
  blocks x hx := by
    obtain ⟨ho, ha⟩ := h.blocks x hx
    exact ⟨ho, harray _ ha⟩

theorem Layout.frame (h : Layout st v ls bs)
    (hslot : st'.vslot (v.1, headSlot v.2) = st.vslot (v.1, headSlot v.2))
    (hnode : ∀ b ∈ (toPath ls bs).map Prod.fst, st'.node b = st.node b)
    (hlab : SameLabels st st') : Layout st' v ls bs :=
  h.congr hslot hnode (fun x hx => hlab.live _ _ (h.linked x hx).2.2)
    (fun x hx => hlab.rank _ _ (h.linked x hx).2.2) (hlab.array v.1)

theorem PrevLinks.map {q : Addr} (h : PrevLinks q ls) {f : Addr → NeoLinkedListRecord →
    NeoLinkedListRecord} (hf : ∀ a r, (f a r).prevTbl = r.prevTbl ∧
      (f a r).prevItemptr = r.prevItemptr) :
    PrevLinks q (ls.map fun x => (x.1, f x.1 x.2)) := by
  induction ls generalizing q with
  | nil => trivial
  | cons x ls ih =>
    obtain ⟨hx, h⟩ := h
    refine ⟨?_, ih h⟩
    rw [(hf _ _).1, (hf _ _).2]
    exact hx

/-- A node rewritten by `f`, or by `g` if it is a block. -/
def AdjNode.rewrite (f : NeoLinkedListRecord → NeoLinkedListRecord)
    (g : NeoArrayListRecord → NeoArrayListRecord) : AdjNode → AdjNode
  | linked r => linked (f r)
  | block r => block (g r)

/-- **Rewriting nodes in place keeps the layout** when it keeps owners and pointers. -/
theorem Layout.map (h : Layout st v ls bs)
    (hslot : st'.vslot (v.1, headSlot v.2) = st.vslot (v.1, headSlot v.2))
    (hlab : st'.vlabel = st.vlabel) {f : Addr → NeoLinkedListRecord → NeoLinkedListRecord}
    {g : Addr → NeoArrayListRecord → NeoArrayListRecord}
    (hf : ∀ a r, (f a r).ownerId = r.ownerId ∧ (f a r).nextTbl = r.nextTbl ∧
      (f a r).nextItemptr = r.nextItemptr ∧ (f a r).prevTbl = r.prevTbl ∧
      (f a r).prevItemptr = r.prevItemptr)
    (hg : ∀ a r, (g a r).ownerId = r.ownerId ∧ (g a r).nextItemptr = r.nextItemptr)
    (hls : ∀ x ∈ ls, st'.node x.1 = some (.linked (f x.1 x.2)))
    (hbs : ∀ x ∈ bs, st'.node x.1 = some (.block (g x.1 x.2))) :
    Layout st' v (ls.map fun x => (x.1, f x.1 x.2)) (bs.map fun x => (x.1, g x.1 x.2)) := by
  have hsame := SameLabels.of_eq hlab
  have hmap : toPath (ls.map fun x => (x.1, f x.1 x.2)) (bs.map fun x => (x.1, g x.1 x.2)) =
      (toPath ls bs).map fun x => (x.1, x.2.rewrite (f x.1) (g x.1)) := by
    unfold toPath
    rw [List.map_append, List.map_map, List.map_map, List.map_map, List.map_map]
    rfl
  refine ⟨?_, ?_, fun y hy => ?_, ?_, h.prevs.map fun a r => (hf a r).2.2.2, fun y hy => ?_⟩
  · rw [hslot]
    exact h.slot
  · have hp := h.path
    unfold Store.Path Store.head at hp ⊢
    rw [hslot, hmap]
    refine hp.map_nodes (fun a n => n.rewrite (f a) (g a)) fun x hx => ?_
    rcases mem_toPath.mp hx with ⟨y, hy, rfl⟩ | ⟨y, hy, rfl⟩
    · refine ⟨hls y hy, ?_⟩
      show cursor _ _ = cursor _ _
      rw [(hf _ _).2.1, (hf _ _).2.2.1]
    · refine ⟨hbs y hy, ?_⟩
      show cursor _ _ = cursor _ _
      rw [(hg _ _).2]
  · obtain ⟨x, hx, rfl⟩ := List.mem_map.mp hy
    obtain ⟨ho, hn, hl⟩ := h.linked x hx
    refine ⟨(hf _ _).1.trans ho, ?_, hsame.live _ _ hl⟩
    unfold NextOk at hn ⊢
    rw [(hf _ _).2.1, (hf _ _).2.2.1]
    exact hn
  · exact ordered_congr h.ordered (by rw [List.map_map]; rfl) fun x hx =>
      hsame.rank _ _ (h.linked x hx).2.2
  · obtain ⟨x, hx, rfl⟩ := List.mem_map.mp hy
    obtain ⟨ho, ha⟩ := h.blocks x hx
    exact ⟨(hg _ _).1.trans ho, hsame.array _ _ ha⟩

/-- The first node of a layout with its back pointer set. -/
def relinkHead (a : Addr) : LinkedPath → BlockPath → LinkedPath × BlockPath
  | x :: ls, bs => ((x.1, { x.2 with prevTbl := a.1, prevItemptr := a.2 }) :: ls, bs)
  | [], x :: bs => ([], (x.1, { x.2 with prevTbl := a.1, prevItemptr := a.2 }) :: bs)
  | [], [] => ([], [])

@[simp] theorem map_fst_relinkHead (a : Addr) (ls : LinkedPath) (bs : BlockPath) :
    (relinkHead a ls bs).1.map Prod.fst = ls.map Prod.fst := by
  cases ls with
  | nil => cases bs <;> rfl
  | cons x ls => rfl

theorem relinked_toPath (h : Layout st v ls bs) (a : Addr) :
    relinked (st.head v.1 v.2) a (toPath ls bs) =
      toPath (relinkHead a ls bs).1 (relinkHead a ls bs).2 := by
  have hp := h.path
  have hnd := hp.nodup
  unfold Store.Path at hp
  cases ls with
  | cons x ls =>
    obtain ⟨hhead, -, -⟩ := hp.cons_inv
    rw [hhead]
    exact setNode_cons_self _ (List.nodup_cons.mp hnd).1
  | nil =>
    cases bs with
    | cons x bs =>
      obtain ⟨hhead, -, -⟩ := hp.cons_inv
      rw [hhead]
      exact setNode_cons_self _ (List.nodup_cons.mp hnd).1
    | nil =>
      rw [hp.nil_inv]
      rfl

/-- The rank of a partition is the id of its row. -/
theorem rank_eq (hcat : Catalog st) {l : Nat} {info : LabelInfo} (hinfo : st.vlabel l = some info)
    {row : LinkedListMeta} (hrow : row ∈ info.linkedListMeta) : st.rank l row.tbl = row.id := by
  have hfind : info.linkedListMeta.find? (fun r => r.tbl = row.tbl) = some row := by
    obtain ⟨r, hr⟩ : ∃ r, info.linkedListMeta.find? (fun r => r.tbl = row.tbl) = some r :=
      Option.isSome_iff_exists.mp (List.find?_isSome.mpr ⟨row, hrow, by simp⟩)
    have heq : r.tbl = row.tbl := by simpa using List.find?_some hr
    rw [hr, List.inj_on_of_nodup_map (hcat.rows l info hinfo).tbls (List.mem_of_find?_eq_some hr)
      hrow heq]
  unfold Store.rank
  rw [hinfo, Option.bind_some, hfind]
  rfl

/-- The partition a new record goes to is the newest. -/
theorem rank_le_active (hcat : Catalog st) {l : Nat} {info : LabelInfo}
    (hinfo : st.vlabel l = some info) {old : List LinkedListMeta} {cur : LinkedListMeta}
    (hmeta : info.linkedListMeta = old ++ [cur]) {o : Oid} (ho : st.LivePartition l o) :
    st.rank l o ≤ st.rank l cur.tbl := by
  obtain ⟨info', hinfo', row, hrow, rfl, -⟩ := ho
  obtain rfl := Option.some.inj (hinfo.symm.trans hinfo')
  rw [rank_eq hcat hinfo hrow, rank_eq hcat hinfo (show cur ∈ info.linkedListMeta by rw [hmeta]; simp)]
  rw [hmeta] at hrow
  rcases List.mem_append.mp hrow with hold | hcur
  · have hsorted := (hcat.rows l info hinfo).sorted
    rw [hmeta] at hsorted
    exact Nat.le_of_lt ((List.pairwise_append.mp hsorted).2.2 row hold cur (by simp))
  · rw [List.mem_singleton.mp hcur]

/-- **Linking at a vertex keeps its layout**, with the new record in front. -/
theorem Layout.link (h : Layout st v ls bs) (hcat : Catalog st) {info : LabelInfo}
    (hinfo : st.vlabel v.1 = some info) {old : List LinkedListMeta} {cur : LinkedListMeta}
    (hmeta : info.linkedListMeta = old ++ [cur]) (hc : cur.compacted = false) {tid : ItemPointer}
    {rec : NeoLinkedListRecord} (hfresh : st.node (cur.tbl, tid) = none)
    (hv : tid.isValid = true) (howner : rec.ownerId = v.2) (hok : NextOk rec)
    (hprev : (rec.prevTbl, rec.prevItemptr) = (0, .invalid))
    (hnext : (AdjNode.linked rec).next (cur.tbl, tid) = st.head v.1 v.2) :
    Layout (st.link v (cur.tbl, tid) (.linked rec)) v
      (((cur.tbl, tid), rec) :: (relinkHead (cur.tbl, tid) ls bs).1)
      (relinkHead (cur.tbl, tid) ls bs).2 := by
  obtain ⟨slotRec, hslot⟩ := h.slot
  have hsame : SameLabels st (st.link v (cur.tbl, tid) (.linked rec)) :=
    SameLabels.of_eq (vlabel_link _ _ _)
  have hlive : st.LivePartition v.1 cur.tbl := ⟨info, hinfo, cur, by rw [hmeta]; simp, rfl, hc⟩
  have h0 : cur.tbl ≠ 0 := (hcat.partition _ _ hinfo cur (by rw [hmeta]; simp)).2
  have hne : st.head v.1 v.2 ≠ some (cur.tbl, tid) := by
    intro he
    have hp := h.path
    unfold Store.Path at hp
    rw [he] at hp
    generalize toPath ls bs = q at hp
    cases hp with
    | cons hn _ =>
      rw [hfresh] at hn
      cases hn
  have hpath := path_link_self h.path hfresh hslot h0 hv hnext hne
  rw [relinked_toPath h] at hpath
  -- the records are those before, the first with another back pointer
  have hmem : ∀ y ∈ (relinkHead (cur.tbl, tid) ls bs).1, ∃ x ∈ ls, y.1 = x.1 ∧
      y.2.ownerId = x.2.ownerId ∧ (NextOk x.2 → NextOk y.2) := by
    intro y hy
    cases ls with
    | nil => cases bs <;> cases hy
    | cons x ls =>
      rcases List.mem_cons.mp hy with rfl | hy
      · exact ⟨x, List.mem_cons_self, rfl, rfl, id⟩
      · exact ⟨y, List.mem_cons_of_mem _ hy, rfl, rfl, id⟩
  refine ⟨vslot_link h.slot _ _ _, hpath, fun y hy => ?_, ?_, ⟨hprev, ?_⟩, fun y hy => ?_⟩
  · rcases List.mem_cons.mp hy with rfl | hy
    · exact ⟨howner, hok, hsame.live _ _ hlive⟩
    · obtain ⟨x, hx, ha, ho, hn⟩ := hmem y hy
      obtain ⟨ho', hn', hl⟩ := h.linked x hx
      exact ⟨ho.trans ho', hn hn', hsame.live _ _ (ha ▸ hl)⟩
  · have hrank : ∀ o, st.LivePartition v.1 o →
        (st.link v (cur.tbl, tid) (.linked rec)).rank v.1 o = st.rank v.1 o := hsame.rank v.1
    refine List.pairwise_cons.mpr ⟨fun y hy => ?_, ?_⟩
    · obtain ⟨x, hx, ha, -, -⟩ := hmem y hy
      have hl := (h.linked x hx).2.2
      rw [← ha] at hl
      rw [hrank _ hl, hrank _ hlive]
      exact rank_le_active hcat hinfo hmeta hl
    · exact ordered_congr h.ordered (map_fst_relinkHead _ ls bs) fun x hx =>
        hrank _ (h.linked x hx).2.2
  · cases ls with
    | nil => cases bs <;> trivial
    | cons x ls => exact ⟨rfl, h.prevs.2⟩
  · have hmemb : ∃ x ∈ bs, y.1 = x.1 ∧ y.2.ownerId = x.2.ownerId := by
      cases ls with
      | cons x ls => exact ⟨y, hy, rfl, rfl⟩
      | nil =>
        cases bs with
        | nil => cases hy
        | cons x bs =>
          rcases List.mem_cons.mp hy with rfl | hy
          · exact ⟨x, List.mem_cons_self, rfl, rfl⟩
          · exact ⟨y, List.mem_cons_of_mem _ hy, rfl, rfl⟩
    obtain ⟨x, hx, ha, ho⟩ := hmemb
    obtain ⟨ho', har⟩ := h.blocks x hx
    exact ⟨ho.trans ho', hsame.array _ _ (ha ▸ har)⟩

/-- Linking at one vertex leaves the chain of another as it is. -/
theorem Layout.link_other (h : Layout st w ls bs) (hcat : Catalog st) {lsv : LinkedPath}
    {bsv : BlockPath} (hv : Layout st v lsv bsv) (hne : w ≠ v)
    (hslot : (w.1, headSlot w.2) ≠ (v.1, headSlot v.2)) (hfresh : st.node a = none) (n : AdjNode) :
    Layout (st.link v a n) w ls bs := by
  refine h.frame ?_ (fun b hb => node_link_of_ne ?_ fun hhead => ?_)
    (SameLabels.of_eq (vlabel_link _ _ _))
  · show Function.update _ _ _ _ = _
    rw [Function.update_of_ne hslot, Store.vslot_setPrev]
    rfl
  · rintro rfl
    exact notMem_of_fresh h.path hfresh hb
  · -- the old head of `v` is a node of the chain of `v`
    have hp := hv.path
    unfold Store.Path at hp
    rw [hhead] at hp
    generalize hq : toPath lsv bsv = q at hp
    cases hp with
    | @cons _ n xs _ _ _ =>
      refine hne (h.disjoint hcat hv hb ?_)
      rw [hq]
      exact List.mem_cons_self

end

/-! ## All chains -/

/-- The vertices `V` have slots of their own and chains with a layout, and every record of a partition
that is not compacted is on its owner's chain. -/
structure GraphLayout (st : Store) (V : List VertexKey) : Prop where
  catalog : Catalog st
  agree : ∀ v ∈ V, headSlot v.2 = entitySlot v.2
  slots : ∀ v ∈ V, ∀ w ∈ V, v.1 = w.1 → headSlot v.2 = headSlot w.2 → v = w
  chain : ∀ v ∈ V, ∃ ls bs, Layout st v ls bs
  cover : ∀ l a rec, st.LivePartition l a.1 → st.node a = some (.linked rec) →
    (l, rec.ownerId) ∈ V ∧ ∀ ls bs, Layout st (l, rec.ownerId) ls bs → a ∈ ls.map Prod.fst

section

variable {st st' : Store} {V : List VertexKey}

theorem GraphLayout.slot_ne (h : GraphLayout st V) {v w : VertexKey} (hv : v ∈ V) (hw : w ∈ V)
    (hne : w ≠ v) : (w.1, headSlot w.2) ≠ (v.1, headSlot v.2) := fun he =>
  hne (h.slots w hw v hv (Prod.mk.inj he).1 (Prod.mk.inj he).2)

/-- Relations belong to one label. -/
theorem label_of_live (hcat : Catalog st) {l l' : Nat} {o : Oid} (h : st.LivePartition l o)
    (h' : st.LivePartition l' o) : l = l' := by
  obtain ⟨info, hinfo, row, hrow, ht, -⟩ := h
  obtain ⟨info', hinfo', row', hrow', ht', -⟩ := h'
  exact hcat.partition_inj _ _ _ _ hinfo hinfo' _ hrow _ hrow' (ht.trans ht'.symm)

/-- **Linking an edge at a vertex keeps the layout of the graph.** -/
theorem GraphLayout.link {db db' : Db} {s : Session} {ownerV otherV : Vertex} {e : Edge} {dir : Nat}
    {u : Unit} (h : GraphLayout db.store V) (hmem : ownerV.key ∈ V)
    (hr : (insertEdgeOneDirection s ownerV otherV e dir).Runs db u db') :
    GraphLayout db'.store V := by
  obtain ⟨info, o, tid, rec, hinfo, hact, -, -, hfresh, hv, hslot, hst⟩ :=
    insertEdgeOneDirection_inv hr
  obtain ⟨old, cur, hmeta, hcur, -, hc, -⟩ := activeLinkedList_eq (h.catalog.rows _ _ hinfo)
  obtain rfl : cur.tbl = o := Option.some.inj (hcur.symm.trans hact)
  obtain ⟨ls, bs, hlay⟩ := h.chain _ hmem
  have hlive : db.store.LivePartition ownerV.labelId cur.tbl :=
    ⟨info, hinfo, cur, by rw [hmeta]; simp, rfl, hc⟩
  have hnext := next_newLinkedListRecord s ownerV otherV e dir rec.eTblId rec.eItemptr
    (cur.tbl, tid)
  have hhead : cursor rec.eTblId rec.eItemptr = db.store.head ownerV.labelId ownerV.id := by
    unfold Store.head
    rw [hslot]
    rfl
  rw [hhead] at hnext
  have hok : NextOk (newLinkedListRecord s ownerV otherV e dir rec.eTblId rec.eItemptr) := by
    unfold NextOk newLinkedListRecord
    by_cases hi : rec.eItemptr.isValid = true
    · exact Or.inr (by simp [hi])
    · exact Or.inl (by simp [hi])
  rw [hst]
  have hself := hlay.link h.catalog hinfo hmeta hc hfresh hv rfl hok rfl hnext
  refine ⟨h.catalog.link _ _ _, h.agree, h.slots, fun w hw => ?_, fun l a rec' hl hn => ?_⟩
  · by_cases he : w = ownerV.key
    · subst he
      exact ⟨_, _, hself⟩
    · obtain ⟨lsw, bsw, hlw⟩ := h.chain w hw
      exact ⟨lsw, bsw, hlw.link_other h.catalog hlay he (h.slot_ne hmem hw he) hfresh _⟩
  · have hl' : db.store.LivePartition l a.1 := by
      unfold Store.LivePartition at hl ⊢
      rw [vlabel_link] at hl
      exact hl
    by_cases ha : a = (cur.tbl, tid)
    · -- the new record
      subst ha
      obtain rfl := label_of_live h.catalog hl' hlive
      have howner : rec'.ownerId = ownerV.id := by
        rcases node_link ownerV.key (cur.tbl, tid) (.linked (newLinkedListRecord s ownerV otherV e dir
          rec.eTblId rec.eItemptr)) (cur.tbl, tid) with hn' | hn'
        · rw [hn', Function.update_self] at hn
          rw [← AdjNode.linked.inj (Option.some.inj hn)]
          rfl
        · rw [hn', Function.update_self] at hn
          rw [← AdjNode.linked.inj (Option.some.inj hn)]
          rfl
      rw [howner]
      refine ⟨hmem, fun ls' bs' hlay' => ?_⟩
      rw [(hlay'.unique hself).1]
      exact List.mem_cons_self
    · -- a record that was there before
      obtain ⟨rec₀, hn₀, howner⟩ : ∃ rec₀, db.store.node a = some (.linked rec₀) ∧
          rec₀.ownerId = rec'.ownerId := by
        rcases node_link ownerV.key (cur.tbl, tid) (.linked (newLinkedListRecord s ownerV otherV e dir
          rec.eTblId rec.eItemptr)) a with hn' | hn'
        · rw [hn', Function.update_of_ne ha] at hn
          exact ⟨rec', hn, rfl⟩
        · rw [hn', Function.update_of_ne ha] at hn
          obtain ⟨n₀, hn₀, he⟩ := Option.map_eq_some_iff.mp hn
          cases n₀ with
          | linked rec₀ => exact ⟨rec₀, hn₀, by rw [← AdjNode.linked.inj he]⟩
          | block rec₀ => cases he
      obtain ⟨hin, hon⟩ := h.cover l a rec₀ hl' hn₀
      rw [howner] at hin hon
      refine ⟨hin, fun ls' bs' hlay' => ?_⟩
      by_cases he : (l, rec'.ownerId) = ownerV.key
      · rw [he] at hlay' hon
        rw [(hlay'.unique hself).1, List.map_cons, map_fst_relinkHead]
        exact List.mem_cons_of_mem _ (hon _ _ hlay)
      · obtain ⟨lsw, bsw, hlw⟩ := h.chain _ hin
        have hlw' := hlw.link_other h.catalog hlay he (h.slot_ne hmem hin he) hfresh
          (.linked (newLinkedListRecord s ownerV otherV e dir rec.eTblId rec.eItemptr))
        rw [(hlay'.unique hlw').1]
        exact hon _ _ hlw

/-- The layout depends on the labels, relations, slots and nodes. -/
theorem GraphLayout.same (h : GraphLayout st V) (hl : st'.vlabel = st.vlabel)
    (hf : st'.format = st.format) (ho : st'.nextOid = st.nextOid) (hs : st'.vslot = st.vslot)
    (hn : st'.node = st.node) : GraphLayout st' V := by
  have hiff : ∀ v ls bs, Layout st v ls bs → Layout st' v ls bs := fun v ls bs hlay =>
    hlay.frame (by rw [hs]) (fun b _ => by rw [hn]) (SameLabels.of_eq hl)
  refine ⟨h.catalog.same hl hf ho, h.agree, h.slots, fun v hv => ?_, fun l a rec hlive hnode => ?_⟩
  · obtain ⟨ls, bs, hlay⟩ := h.chain v hv
    exact ⟨ls, bs, hiff v ls bs hlay⟩
  · unfold Store.LivePartition at hlive
    rw [hl] at hlive
    rw [hn] at hnode
    obtain ⟨hin, hon⟩ := h.cover l a rec hlive hnode
    obtain ⟨ls, bs, hlay⟩ := h.chain _ hin
    refine ⟨hin, fun ls' bs' hlay' => ?_⟩
    rw [(hlay'.unique (hiff _ _ _ hlay)).1]
    exact hon ls bs hlay

/-- **A deletion stamp keeps the layout.** -/
theorem GraphLayout.stamp (h : GraphLayout st V) (s : Session) (p : Position) :
    GraphLayout (st.stamp s p) V := by
  -- what the stamp does to a record and to a block
  let f : Addr → NeoLinkedListRecord → NeoLinkedListRecord := fun a r =>
    if a = p.1 ∧ p.2 = 0 then stampRecord s r else r
  let g : Addr → NeoArrayListRecord → NeoArrayListRecord := fun a r =>
    if a = p.1 then { r with adjList := r.adjList.modify p.2 (stampMember s) } else r
  have hnode : ∀ a, (st.stamp s p).node a =
      if a = p.1 then (st.node p.1).map (AdjNode.stampAt s p.2) else st.node a := fun a =>
    Function.update_apply ..
  have hlinked : ∀ a r, st.node a = some (.linked r) →
      (st.stamp s p).node a = some (.linked (f a r)) := by
    intro a r hn
    rw [hnode]
    by_cases ha : a = p.1
    · rw [if_pos ha, ← ha, hn]
      by_cases hi : p.2 = 0 <;> simp [f, ha, AdjNode.stampAt, hi]
    · simp [f, ha, hn]
  have hblock : ∀ a r, st.node a = some (.block r) →
      (st.stamp s p).node a = some (.block (g a r)) := by
    intro a r hn
    rw [hnode]
    by_cases ha : a = p.1
    · rw [if_pos ha, ← ha, hn]
      simp [g, ha, AdjNode.stampAt]
    · simp [g, ha, hn]
  have hf : ∀ a r, (f a r).ownerId = r.ownerId ∧ (f a r).nextTbl = r.nextTbl ∧
      (f a r).nextItemptr = r.nextItemptr ∧ (f a r).prevTbl = r.prevTbl ∧
      (f a r).prevItemptr = r.prevItemptr := by
    intro a r
    by_cases hc : a = p.1 ∧ p.2 = 0 <;> simp [f, hc, stampRecord]
  have hg : ∀ a r, (g a r).ownerId = r.ownerId ∧ (g a r).nextItemptr = r.nextItemptr := by
    intro a r
    by_cases hc : a = p.1 <;> simp [g, hc]
  have hmap : ∀ v ls bs, Layout st v ls bs → Layout (st.stamp s p) v
      (ls.map fun x => (x.1, f x.1 x.2)) (bs.map fun x => (x.1, g x.1 x.2)) := by
    intro v ls bs hlay
    refine hlay.map ?_ ?_ hf hg (fun x hx => hlinked _ _ (hlay.get_linked hx))
      fun x hx => hblock _ _ (hlay.get_block hx)
    · rfl
    · rfl
  refine ⟨h.catalog.same rfl rfl rfl, h.agree, h.slots, fun v hv => ?_, fun l a rec hlive hn => ?_⟩
  · obtain ⟨ls, bs, hlay⟩ := h.chain v hv
    exact ⟨_, _, hmap v ls bs hlay⟩
  · obtain ⟨rec₀, hn₀, howner⟩ : ∃ rec₀, st.node a = some (.linked rec₀) ∧
        rec₀.ownerId = rec.ownerId := by
      cases hn₀ : st.node a with
      | none =>
        rw [hnode] at hn
        split at hn
        · next he =>
          rw [← he, hn₀] at hn
          cases hn
        · rw [hn₀] at hn
          cases hn
      | some n =>
        cases n with
        | block r =>
          rw [hblock a r hn₀] at hn
          cases hn
        | linked r =>
          rw [hlinked a r hn₀] at hn
          exact ⟨r, rfl, by rw [← AdjNode.linked.inj (Option.some.inj hn), (hf a r).1]⟩
    obtain ⟨hin, hon⟩ := h.cover l a rec₀ hlive hn₀
    rw [howner] at hin hon
    obtain ⟨ls, bs, hlay⟩ := h.chain _ hin
    refine ⟨hin, fun ls' bs' hlay' => ?_⟩
    rw [(hlay'.unique (hmap _ _ _ hlay)).1, List.map_map]
    exact hon ls bs hlay

/-- A new vertex has an empty chain. -/
theorem GraphLayout.vertex {db db' : Db} {s : Session} {v : Vertex} {props : Gtype} {u : Unit}
    (h : GraphLayout db.store V) (hagree : headSlot v.id = entitySlot v.id)
    (hnew : ∀ w ∈ V, w.1 = v.labelId → headSlot w.2 ≠ headSlot v.id)
    (hr : (insertVertex s v props).Runs db u db') : GraphLayout db'.store (v.key :: V) := by
  obtain ⟨tid, -, -, -, -, hplaced, hst⟩ := npInternalInsertVertex_inv hr
  have hnode : db'.store.node = db.store.node := by rw [hst]
  have hlabel : db'.store.vlabel = db.store.vlabel := by rw [hst]
  have hnotin : v.key ∉ V := fun hm => hnew _ hm rfl rfl
  have hold : ∀ w ∈ V, ∀ ls bs, Layout db.store w ls bs → Layout db'.store w ls bs := by
    intro w hw ls bs hlay
    obtain ⟨rec, hrec⟩ := hlay.slot
    have hne : (w.1, headSlot w.2) ≠ (v.labelId, entitySlot v.id) := fun he => by
      rw [← hagree] at he
      exact hnew w hw (Prod.mk.inj he).1 (Prod.mk.inj he).2
    exact hlay.frame (by rw [hrec, hplaced.old hne hrec]) (fun b _ => by rw [hnode])
      (SameLabels.of_eq hlabel)
  have hself : Layout db'.store v.key [] [] := by
    have hslot : db'.store.vslot (v.key.1, headSlot v.key.2) =
        some ⟨tid, 0, .invalid, .invalid⟩ := by
      show db'.store.vslot (v.labelId, headSlot v.id) = _
      rw [hagree]
      exact hplaced.self.trans (if_pos (offset_le_of_agree hagree))
    refine ⟨⟨_, hslot⟩, ?_, by simp, List.Pairwise.nil, trivial, by simp⟩
    unfold Store.Path Store.head
    rw [hslot, Option.bind_some, cursor_invalid]
    exact Seg.nil none
  refine ⟨?_, fun w hw => ?_, fun w hw w' hw' hl he => ?_, fun w hw => ?_,
    fun l a rec hlive hn => ?_⟩
  · rw [hst]
    exact h.catalog.same rfl rfl rfl
  · rcases List.mem_cons.mp hw with rfl | hw
    · exact hagree
    · exact h.agree w hw
  · rcases List.mem_cons.mp hw with rfl | hw <;> rcases List.mem_cons.mp hw' with rfl | hw'
    · rfl
    · exact absurd he.symm (hnew w' hw' hl.symm)
    · exact absurd he (hnew w hw hl)
    · exact h.slots w hw w' hw' hl he
  · rcases List.mem_cons.mp hw with rfl | hw
    · exact ⟨[], [], hself⟩
    · obtain ⟨ls, bs, hlay⟩ := h.chain w hw
      exact ⟨ls, bs, hold w hw ls bs hlay⟩
  · unfold Store.LivePartition at hlive
    rw [hlabel] at hlive
    rw [hnode] at hn
    obtain ⟨hin, hon⟩ := h.cover l a rec hlive hn
    obtain ⟨ls, bs, hlay⟩ := h.chain _ hin
    refine ⟨List.mem_cons_of_mem _ hin, fun ls' bs' hlay' => ?_⟩
    rw [(hlay'.unique (hold _ hin _ _ hlay)).1]
    exact hon ls bs hlay

/-- The rows of partitions without records change no chain. -/
theorem GraphLayout.emptyPartitions (h : GraphLayout st V) (hcat : Catalog st')
    (hs : st'.vslot = st.vslot) (hn : st'.node = st.node)
    (hlive : ∀ l a, st.node a ≠ none → (st'.LivePartition l a.1 ↔ st.LivePartition l a.1))
    (hrank : ∀ l a, st.node a ≠ none → st.LivePartition l a.1 → st'.rank l a.1 = st.rank l a.1)
    (harray : ∀ l o, st.ArrayOf l o → st'.ArrayOf l o) : GraphLayout st' V := by
  have hlay : ∀ v ls bs, Layout st v ls bs → Layout st' v ls bs := fun v ls bs hlay => by
    have hne : ∀ x ∈ ls, st.node x.1 ≠ none := fun x hx => by
      rw [hlay.get_linked hx]
      simp
    exact hlay.congr (by rw [hs]) (fun b _ => by rw [hn])
      (fun x hx => (hlive _ _ (hne x hx)).mpr (hlay.linked x hx).2.2)
      (fun x hx => hrank _ _ (hne x hx) (hlay.linked x hx).2.2) (harray v.1)
  refine ⟨hcat, h.agree, h.slots, fun v hv => ?_, fun l a rec hl hnode => ?_⟩
  · obtain ⟨ls, bs, hls⟩ := h.chain v hv
    exact ⟨ls, bs, hlay v ls bs hls⟩
  · rw [hn] at hnode
    obtain ⟨hin, hon⟩ := h.cover l a rec ((hlive l a (by rw [hnode]; simp)).mp hl) hnode
    obtain ⟨ls, bs, hls⟩ := h.chain _ hin
    refine ⟨hin, fun ls' bs' hls' => ?_⟩
    rw [(hls'.unique (hlay _ _ _ hls)).1]
    exact hon ls bs hls

/-- Partitions under fresh oids hold no records, so they change no chain. -/
theorem GraphLayout.newPartitions (h : GraphLayout st V) (hcat : Catalog st')
    (hs : st'.vslot = st.vslot) (hn : st'.node = st.node) (hlab : SameLabels st st')
    (hlive : ∀ l a, st.node a ≠ none → st'.LivePartition l a.1 → st.LivePartition l a.1) :
    GraphLayout st' V :=
  h.emptyPartitions hcat hs hn (fun l a ha => ⟨hlive l a ha, hlab.live l a.1⟩)
    (fun l a _ => hlab.rank l a.1) hlab.array

/-- **A rotation keeps the layout.** -/
theorem GraphLayout.rotate {db : Db} (h : GraphLayout db.store V) {l : Nat} {info : LabelInfo}
    (hinfo : db.store.vlabel l = some info) : GraphLayout (db.store.rotate l info) V := by
  have hcat := h.catalog.rotate hinfo
  have hself : (db.store.rotate l info).vlabel l = some (info.rotate db.store.nextOid) :=
    Function.update_self ..
  have hother : ∀ l', l' ≠ l → (db.store.rotate l info).vlabel l' = db.store.vlabel l' := fun l' hl =>
    Function.update_of_ne hl ..
  refine h.newPartitions hcat rfl rfl ⟨fun l' o ho => ?_, fun l' o ho => ?_, fun l' o ho => ?_⟩
    fun l' a ha hlive => ?_
  · obtain ⟨i, hi, row, hrow, rfl, hc⟩ := ho
    by_cases hl : l' = l
    · subst hl
      obtain rfl := Option.some.inj (hinfo.symm.trans hi)
      obtain ⟨row', hrow', -, ht, hc'⟩ := exists_mem_deactivate hrow
      exact ⟨_, hself, row', List.mem_append_left _ hrow', ht, hc'.trans hc⟩
    · exact ⟨i, (hother l' hl).trans hi, row, hrow, rfl, hc⟩
  · obtain ⟨i, hi, row, hrow, rfl, -⟩ := ho
    by_cases hl : l' = l
    · subst hl
      obtain rfl := Option.some.inj (hinfo.symm.trans hi)
      obtain ⟨row', hrow', hid, ht, -⟩ := exists_mem_deactivate hrow
      rw [rank_eq h.catalog hi hrow, ← ht, rank_eq hcat hself (List.mem_append_left _ hrow'), hid]
    · rw [rank_eq h.catalog hi hrow, rank_eq hcat ((hother l' hl).trans hi) hrow]
  · obtain ⟨i, hi, he⟩ := ho
    by_cases hl : l' = l
    · subst hl
      obtain rfl := Option.some.inj (hinfo.symm.trans hi)
      exact ⟨_, hself, he⟩
    · exact ⟨i, (hother l' hl).trans hi, he⟩
  · obtain ⟨i, hi, row, hrow, ht, hc⟩ := hlive
    by_cases hl : l' = l
    · subst hl
      obtain rfl := Option.some.inj (hself.symm.trans hi)
      rcases List.mem_append.mp hrow with hrow | hrow
      · obtain ⟨row₀, hrow₀, -, ht₀, hc₀⟩ := exists_of_mem_deactivate hrow
        exact ⟨info, hinfo, row₀, hrow₀, ht₀.trans ht, hc₀.trans hc⟩
      · -- the new partition has no nodes
        rw [List.mem_singleton.mp hrow] at ht
        exact absurd (ht ▸ h.catalog.fresh _ (format_of_node ha)) (Nat.lt_irrefl _)
    · exact ⟨i, (hother l' hl).symm.trans hi, row, hrow, ht, hc⟩

/-- **A new label keeps the layout.** -/
theorem GraphLayout.addLabel {db : Db} (h : GraphLayout db.store V) {l : Nat}
    (hnew : db.store.vlabel l = none) : GraphLayout (db.store.addLabel l) V := by
  have hcat := h.catalog.addLabel hnew
  have hother : ∀ l', l' ≠ l → (db.store.addLabel l).vlabel l' = db.store.vlabel l' := fun l' hl =>
    Function.update_of_ne hl ..
  have hne : ∀ l' info, db.store.vlabel l' = some info → l' ≠ l := by
    rintro l' info hi rfl
    rw [hnew] at hi
    cases hi
  refine h.newPartitions hcat rfl rfl ⟨fun l' o ho => ?_, fun l' o ho => ?_, fun l' o ho => ?_⟩
    fun l' a ha hlive => ?_
  · obtain ⟨i, hi, hrow⟩ := ho
    exact ⟨i, (hother l' (hne _ _ hi)).trans hi, hrow⟩
  · obtain ⟨i, hi, row, hrow, rfl, -⟩ := ho
    rw [rank_eq h.catalog hi hrow, rank_eq hcat ((hother l' (hne _ _ hi)).trans hi) hrow]
  · obtain ⟨i, hi, he⟩ := ho
    exact ⟨i, (hother l' (hne _ _ hi)).trans hi, he⟩
  · obtain ⟨i, hi, row, hrow, ht, hc⟩ := hlive
    by_cases hl : l' = l
    · -- the partition of the new label has no nodes
      subst hl
      have hself : (db.store.addLabel l').vlabel l' = some
          ⟨db.store.nextOid, [⟨1, db.store.nextOid + 1, true, false⟩], 2, 1⟩ :=
        Function.update_self ..
      obtain rfl := Option.some.inj (hself.symm.trans hi)
      rw [List.mem_singleton.mp hrow] at ht
      have hlt := h.catalog.fresh _ (format_of_node ha)
      rw [← ht] at hlt
      exact absurd hlt (Nat.not_lt.mpr (Nat.le_succ _))
    · exact ⟨i, (hother l' hl).symm.trans hi, row, hrow, ht, hc⟩

/-- A graph without labels. -/
theorem graphLayout_empty (xacts : XactState) : GraphLayout (Db.empty xacts).store [] := by
  refine ⟨catalog_empty xacts, by simp, by simp, by simp, fun l a rec _ hn => ?_⟩
  cases hn

end

end NeoPostGraph
