import NeoPostGraph.Graph.Layout

/-!
# Rewriting one owner's records

The compaction of one owner (`compactEntry`): its records in the partition become array blocks, between
its newer records and its older blocks. The first older block, if there is one, is merged into the
new ones.

* `WritesBlocks A st st'`: the two stores differ in blocks at the addresses `A` only.
* `Rewrites v A st st'`: they differ in the slot of `v`, at `A` and at new addresses only.

Results:
* `chunks_flatten`: the chunks hold the members in order.
* `insertChunks_some_runs`, `insertChunks_none_runs`: the new blocks are linked in the order of the
  chunks.
* `compactEntry_runs`: the owner's chain keeps its newer records and its members.
-/

namespace NeoPostGraph

open SlottedPage LinkedChain

/-! ## Chunks -/

theorem flatten_take_drop {α : Type} (l : List α) (k n : Nat) :
    ((List.range n).map fun i => (l.drop (i * k)).take k).flatten = l.take (n * k) := by
  induction n with
  | zero => simp
  | succ n ih =>
    rw [List.range_succ, List.map_append, List.flatten_append, ih, Nat.succ_mul, List.take_add]
    simp

/-- **The chunks hold the members in order.** -/
theorem chunks_flatten (adj : List AdjListMember) : (chunks adj).flatten = adj := by
  unfold chunks
  rw [flatten_take_drop, maxEdgesPerBlock_eq]
  exact List.take_of_length_le (by omega)

theorem length_le_of_mem_chunks {adj c : List AdjListMember} (h : c ∈ chunks adj) :
    c.length ≤ maxEdgesPerBlock := by
  obtain ⟨i, -, rfl⟩ := List.mem_map.mp h
  exact List.length_take_le _ _

theorem chunks_ne_nil {adj : List AdjListMember} (h : adj ≠ []) : chunks adj ≠ [] := by
  intro hc
  have hflat := chunks_flatten adj
  rw [hc] at hflat
  exact h hflat.symm

/-! ## Writes to blocks -/

/-- The stores differ in blocks at these addresses only. -/
structure WritesBlocks (A : List Addr) (st st' : Store) : Prop where
  eq : st' = { st with node := st'.node }
  node : ∀ b, b ∉ A → st'.node b = st.node b
  linked : ∀ b rec, st'.node b = some (.linked rec) → st.node b = some (.linked rec)
  keeps : ∀ b, st'.node b = none → st.node b = none

section

variable {st st' st'' : Store} {A B : List Addr} {a : Addr}

theorem WritesBlocks.refl (st : Store) : WritesBlocks [] st st :=
  ⟨rfl, fun _ _ => rfl, fun _ _ => id, fun _ => id⟩

theorem WritesBlocks.trans (h : WritesBlocks A st st') (h' : WritesBlocks B st' st'') :
    WritesBlocks (A ++ B) st st'' where
  eq := by
    rw [h'.eq, h.eq]
  node b hb := by
    rw [List.mem_append, not_or] at hb
    rw [h'.node b hb.2, h.node b hb.1]
  linked b rec hb := h.linked b rec (h'.linked b rec hb)
  keeps b hb := h.keeps b (h'.keeps b hb)

theorem WritesBlocks.mono (h : WritesBlocks A st st') (hAB : ∀ a ∈ A, a ∈ B) :
    WritesBlocks B st st' where
  eq := h.eq
  node b hb := h.node b fun hc => hb (hAB b hc)
  linked := h.linked
  keeps := h.keeps

theorem writesBlocks_putNode (st : Store) (a : Addr) (rec : NeoArrayListRecord) :
    WritesBlocks [a] st (st.putNode a (.block rec)) where
  eq := rfl
  node b hb := by
    rw [List.mem_singleton] at hb
    exact Function.update_of_ne hb ..
  linked b r hb := by
    rw [Store.node_putNode, Function.update_apply] at hb
    split at hb
    · cases hb
    · exact hb
  keeps b hb := by
    rw [Store.node_putNode, Function.update_apply] at hb
    split at hb
    · cases hb
    · exact hb

end

/-! ## The steps on blocks -/

section

variable {db : Db} {o : Oid} {tid : ItemPointer} {rec : NeoArrayListRecord}

theorem npMergeExistingArraylist_runs (h : db.store.node (o, tid) = some (.block rec)) (s : Session)
    (adj : List AdjListMember) : ∃ db',
      (npMergeExistingArraylist s o tid adj).Runs db (adj ++ rec.adjList, rec.nextItemptr) db' ∧
      WritesBlocks [(o, tid)] db.store db'.store := by
  obtain ⟨t, ht, hget⟩ := rel_of_block h
  have h₁ : (readArraylistBlock o tid).Runs db (rec.adjList, rec.nextItemptr) db := by
    refine runs_readRel.mpr ⟨_, ht, ?_, rfl⟩
    simp only [if_neg (Nat.not_le.mpr (nblocks_of_get hget)), hget]
    rfl
  have h₂ : (deleteArraylistRecord s o tid).Runs db () _ := runs_onRel.mpr ⟨_, _, ht, rfl, rfl⟩
  refine ⟨_, h₁.bind (h₂.bind (Prog.runs_ret_iff.mpr ⟨rfl, rfl⟩)), ?_⟩
  rw [store_modifyBlock ht hget]
  exact writesBlocks_putNode _ _ _

/-- Storing a pointer keeps what it refers to. -/
theorem cursor_storedItemPointer (o : Oid) (p : ItemPointer) :
    cursor o (storedItemPointer p) = cursor o p := by
  unfold storedItemPointer
  split
  · rfl
  · next hv => simp [cursor, hv]

/-- The blocks are linked both ways, behind `q` and in front of `down`. -/
def BlocksLinked (down : ItemPointer) : Addr → BlockPath → Prop
  | _, [] => True
  | q, x :: xs => (x.2.prevTbl, x.2.prevItemptr) = q ∧
    x.2.nextItemptr = ((xs.head?.map fun y => y.1.2).getD down) ∧ BlocksLinked down x.1 xs

theorem npInsertArraylistBlock_runs (h : db.store.format o = some .arrayList)
    {adj : List AdjListMember} (hlen : adj.length ≤ maxEdgesPerBlock) (s : Session) (id : Nat)
    (prevTbl : Oid) (prevTid nextTid : ItemPointer) : ∃ tid db' rec,
      (npInsertArraylistBlock s o id adj prevTbl prevTid nextTid).Runs db tid db' ∧
      db.store.node (o, tid) = none ∧ tid.isValid = true ∧
      db'.store = db.store.putNode (o, tid) (.block rec) ∧ rec.adjList = adj ∧ rec.ownerId = id ∧
      (rec.prevTbl, rec.prevItemptr) = (prevTbl, storedItemPointer prevTid) ∧
      rec.nextItemptr = storedItemPointer nextTid := by
  obtain ⟨t, ht⟩ := exists_arrayList h
  obtain ⟨t', tid, hw⟩ := npWriteRecordToPage_of_fits t (NeoArrayListRecord.mk
    ⟨s.fxid, invalidFullTransactionId, s.cid, invalidCommandId⟩ 0 id prevTbl
    (storedItemPointer prevTid) (storedItemPointer nextTid) adj) (fits_arrayListSize hlen)
  have hr : (npInsertArraylistBlock s o id adj prevTbl prevTid nextTid).Runs db tid
      (db.setRel o (.arrayList t')) := by
    refine runs_onRel.mpr ⟨_, _, ht, ?_, rfl⟩
    simp only [hw]
    rfl
  have hw := npWriteRecordToPage_ok hw
  exact ⟨tid, _, _, hr, by rw [store_block ht, Table.write_fresh hw]; rfl, Table.write_valid hw,
    store_writeBlock ht hw, rfl, rfl, rfl, rfl⟩

theorem npUpdateArraylistNextPointerInplace_runs (h : db.store.node (o, tid) = some (.block rec))
    (newTid : ItemPointer) : ∃ db',
      (npUpdateArraylistNextPointerInplace o tid newTid).Runs db () db' ∧
      db'.store = db.store.putNode (o, tid) (.block { rec with nextItemptr := newTid }) := by
  obtain ⟨t, ht, hget⟩ := rel_of_block h
  have hr : (npUpdateArraylistNextPointerInplace o tid newTid).Runs db () (db.setRel o
      (.arrayList (t.modify tid fun rec => { rec with nextItemptr := newTid }))) := by
    refine runs_onRel.mpr ⟨_, _, ht, ?_, rfl⟩
    simp only [readItem_of_get hget]
    rfl
  exact ⟨_, hr, store_modifyBlock ht hget _⟩

/-- **The loop links the new blocks in the order of the chunks**, behind the block it inserted
last, and the last one in front of the downstream block. -/
theorem insertChunks_some_runs (hfmt : db.store.format o = some .arrayList) (s : Session) (id : Nat)
    (downstreamTid firstTid : ItemPointer) {cs : List (List AdjListMember)}
    (hlen : ∀ c ∈ cs, c.length ≤ maxEdgesPerBlock)
    (hprev : db.store.node (o, tid) = some (.block rec)) (hv : tid.isValid = true)
    (hlast : cs = [] → rec.nextItemptr = storedItemPointer downstreamTid) (ho : oidIsValid o = true) :
    ∃ db' rec' blocks, (insertChunks s o id downstreamTid cs o tid (some firstTid)).Runs db firstTid
        db' ∧
      rec'.adjList = rec.adjList ∧ rec'.ownerId = rec.ownerId ∧
      blocks.map (fun x => x.2.adjList) = cs ∧
      (∀ x ∈ blocks, x.2.ownerId = id ∧ x.1.1 = o ∧ db.store.node x.1 = none) ∧
      Seg db'.store.node AdjNode.next (some (o, tid)) (toPath [] (((o, tid), rec') :: blocks))
        (cursor o downstreamTid) ∧
      BlocksLinked (storedItemPointer downstreamTid) (rec.prevTbl, rec.prevItemptr)
        (((o, tid), rec') :: blocks) ∧
      WritesBlocks ((o, tid) :: blocks.map Prod.fst) db.store db'.store := by
  induction cs generalizing db tid rec with
  | nil =>
    refine ⟨db, rec, [], Prog.runs_ret_iff.mpr ⟨rfl, rfl⟩, rfl, rfl, rfl, by simp, ?_,
      ⟨rfl, hlast rfl, trivial⟩, (WritesBlocks.refl _).mono (by simp)⟩
    rw [← cursor_storedItemPointer, ← hlast rfl]
    exact Seg.cons hprev (Seg.nil _)
  | cons c cs ih =>
    obtain ⟨newTid, db₁, new, h₁, hfresh, hvnew, hst₁, hadj, howner, hback, hnext⟩ :=
      npInsertArraylistBlock_runs hfmt (hlen c List.mem_cons_self) s id o tid
        (if cs.isEmpty then downstreamTid else .invalid)
    have hne : (o, tid) ≠ (o, newTid) := fun he => by
      rw [← he, hprev] at hfresh
      cases hfresh
    have hprev₁ : db₁.store.node (o, tid) = some (.block rec) := by
      rw [hst₁, Store.node_putNode, Function.update_of_ne hne, hprev]
    obtain ⟨db₂, h₂, hst₂⟩ := npUpdateArraylistNextPointerInplace_runs hprev₁ newTid
    have hnew : db₂.store.node (o, newTid) = some (.block new) := by
      rw [hst₂, Store.node_putNode, Function.update_of_ne hne.symm, hst₁, Store.node_putNode,
        Function.update_self]
    have hfmt₂ : db₂.store.format o = some .arrayList := by
      rw [hst₂, hst₁]
      exact hfmt
    obtain ⟨db', new', blocks, h₃, hadj', howner', hcs, hblocks, hseg, hlinked, hwrites⟩ :=
      ih hfmt₂ (fun c' hc => hlen c' (List.mem_cons_of_mem _ hc)) hnew hvnew fun hnil => by
        rw [hnext, hnil]
        rfl
    have hprev₂ : db₂.store.node (o, tid) = some (.block { rec with nextItemptr := newTid }) := by
      rw [hst₂, Store.node_putNode, Function.update_self]
    have hwrites₂ := (writesBlocks_putNode db.store (o, newTid) new).trans
      (hst₁ ▸ hst₂ ▸ writesBlocks_putNode db₁.store (o, tid) { rec with nextItemptr := newTid })
    have hneBlocks : (o, tid) ∉ blocks.map Prod.fst := fun hm => by
      obtain ⟨x, hx, he⟩ := List.mem_map.mp hm
      have hnone := (hblocks x hx).2.2
      rw [he, hprev₂] at hnone
      cases hnone
    have hback' : (new.prevTbl, new.prevItemptr) = (o, tid) := by
      rw [hback, storedItemPointer, if_pos hv]
    refine ⟨db', { rec with nextItemptr := newTid }, ((o, newTid), new') :: blocks,
      h₁.bind (h₂.bind h₃), rfl, rfl, ?_, fun x hx => ?_, ?_, ⟨rfl, rfl, hback' ▸ hlinked⟩,
      (hwrites₂.trans hwrites).mono ?_⟩
    · rw [List.map_cons, hcs]
      exact congrArg (· :: cs) (hadj'.trans hadj)
    · rcases List.mem_cons.mp hx with rfl | hx
      · exact ⟨howner'.trans howner, rfl, hfresh⟩
      · obtain ⟨hi, hox, hnone⟩ := hblocks x hx
        have hx₁ : x.1 ≠ (o, newTid) := fun he => by
          rw [he, hnew] at hnone
          cases hnone
        have hx₂ : x.1 ≠ (o, tid) := fun he => hneBlocks (he ▸ List.mem_map_of_mem hx)
        exact ⟨hi, hox, by rw [← hwrites₂.node x.1 (by simp [hx₁, hx₂]), hnone]⟩
    · have hget : db'.store.node (o, tid) = some (.block { rec with nextItemptr := newTid }) := by
        rw [hwrites.node _ fun hm => (List.mem_cons.mp hm).elim hne hneBlocks, hprev₂]
      refine Seg.cons hget ?_
      have hcur : AdjNode.next (o, tid) (.block { rec with nextItemptr := newTid }) =
          some (o, newTid) := cursor_eq_some.mpr ⟨rfl, hvnew, ho⟩
      rw [hcur]
      exact hseg
    · intro a ha
      simp only [List.mem_append, List.mem_cons, List.map_cons, List.not_mem_nil, or_false] at ha ⊢
      tauto

/-- The blocks of a new chain. -/
theorem insertChunks_none_runs (hfmt : db.store.format o = some .arrayList) (s : Session) (id : Nat)
    (prevTbl : Oid) (prevTid downstreamTid : ItemPointer) {cs : List (List AdjListMember)}
    (hlen : ∀ c ∈ cs, c.length ≤ maxEdgesPerBlock) (hne : cs ≠ []) (ho : oidIsValid o = true) :
    ∃ db' firstTid blocks,
      (insertChunks s o id downstreamTid cs prevTbl prevTid none).Runs db firstTid db' ∧
      firstTid.isValid = true ∧ blocks.map (fun x => x.2.adjList) = cs ∧
      (∀ x ∈ blocks, x.2.ownerId = id ∧ x.1.1 = o ∧ db.store.node x.1 = none) ∧
      Seg db'.store.node AdjNode.next (some (o, firstTid)) (toPath [] blocks)
        (cursor o downstreamTid) ∧
      BlocksLinked (storedItemPointer downstreamTid) (prevTbl, storedItemPointer prevTid) blocks ∧
      WritesBlocks (blocks.map Prod.fst) db.store db'.store := by
  cases cs with
  | nil => exact absurd rfl hne
  | cons c cs =>
    obtain ⟨newTid, db₁, new, h₁, hfresh, hvnew, hst₁, hadj, howner, hback, hnext⟩ :=
      npInsertArraylistBlock_runs hfmt (hlen c List.mem_cons_self) s id prevTbl prevTid
        (if cs.isEmpty then downstreamTid else .invalid)
    have hnew : db₁.store.node (o, newTid) = some (.block new) := by
      rw [hst₁, Store.node_putNode, Function.update_self]
    have hfmt₁ : db₁.store.format o = some .arrayList := by
      rw [hst₁]
      exact hfmt
    obtain ⟨db', new', blocks, h₂, hadj', howner', hcs, hblocks, hseg, hlinked, hwrites⟩ :=
      insertChunks_some_runs hfmt₁ s id downstreamTid newTid
        (fun c' hc => hlen c' (List.mem_cons_of_mem _ hc)) hnew hvnew (fun hnil => by
          rw [hnext, hnil]
          rfl) ho
    have hwrites₁ := hst₁ ▸ writesBlocks_putNode db.store (o, newTid) new
    refine ⟨db', newTid, ((o, newTid), new') :: blocks, h₁.bind h₂, hvnew, ?_, fun x hx => ?_, hseg,
      hback ▸ hlinked, (hwrites₁.trans hwrites).mono ?_⟩
    · rw [List.map_cons, hcs]
      exact congrArg (· :: cs) (hadj'.trans hadj)
    · rcases List.mem_cons.mp hx with rfl | hx
      · exact ⟨howner'.trans howner, rfl, hfresh⟩
      · obtain ⟨hi, hox, hnone⟩ := hblocks x hx
        have hx₁ : x.1 ≠ (o, newTid) := fun he => by
          rw [he, hnew] at hnone
          cases hnone
        exact ⟨hi, hox, by rw [← hwrites₁.node x.1 (by simp [hx₁]), hnone]⟩
    · intro a ha
      simp only [List.mem_append, List.mem_cons, List.map_cons, List.not_mem_nil, or_false] at ha ⊢
      tauto

end

/-! ## One owner -/

/-- The address a record after `ls` points back to, when `q` is the one before `ls`. -/
def lastAddr (q : Addr) : LinkedPath → Addr
  | [] => q
  | x :: xs => lastAddr x.1 xs

theorem prevLinks_append {q : Addr} {xs ys : LinkedPath} :
    PrevLinks q (xs ++ ys) ↔ PrevLinks q xs ∧ PrevLinks (lastAddr q xs) ys := by
  induction xs generalizing q with
  | nil => exact (and_iff_right trivial).symm
  | cons x xs ih =>
    show _ ∧ PrevLinks x.1 (xs ++ ys) ↔ (_ ∧ PrevLinks x.1 xs) ∧ PrevLinks (lastAddr x.1 xs) ys
    rw [ih, and_assoc]

@[simp] theorem lastAddr_concat (q : Addr) (xs : LinkedPath) (x : Addr × NeoLinkedListRecord) :
    lastAddr q (xs ++ [x]) = x.1 := by
  induction xs generalizing q with
  | nil => rfl
  | cons y xs ih => exact ih y.1

/-- The chain of `v` once its head points to these blocks. -/
theorem layout_setHead {st : Store} {v : VertexKey} {bs : BlockPath} {a : Addr}
    (hslot : ∃ rec, st.vslot (v.1, headSlot v.2) = some rec)
    (hseg : Seg st.node AdjNode.next (some a) (toPath [] bs) none) (h0 : a.1 ≠ 0)
    (hv : a.2.isValid = true) (hblocks : ∀ x ∈ bs, x.2.ownerId = v.2 ∧ st.ArrayOf v.1 x.1.1) :
    Layout (st.setHead v a) v [] bs := by
  obtain ⟨rec, hrec⟩ := hslot
  refine ⟨⟨{ rec with eTblId := a.1, eItemptr := a.2 }, ?_⟩, ?_, by simp, List.Pairwise.nil,
    trivial, hblocks⟩
  · show Function.update _ _ _ _ = _
    rw [Function.update_self, hrec]
    rfl
  · unfold Store.Path
    rw [head_setHead hrec h0 hv]
    exact hseg

/-- The chain of `v` once its record `x` points to these blocks. -/
theorem Layout.setNext {st st' : Store} {v : VertexKey} {ls ls₂ : LinkedPath} {bs bs' : BlockPath}
    {x : Addr × NeoLinkedListRecord} {a : Addr} (h : Layout st v (ls ++ x :: ls₂) bs)
    (hlabel : st'.vlabel = st.vlabel) (hslot : st'.vslot = st.vslot)
    (hnode : ∀ y ∈ ls, st'.node y.1 = st.node y.1)
    (hseg : Seg st'.node AdjNode.next (some a) (toPath [] bs') none)
    (hx : x.1 ∉ bs'.map Prod.fst) (h0 : oidIsValid a.1 = true) (hv : a.2.isValid = true)
    (hblocks : ∀ x ∈ bs', x.2.ownerId = v.2 ∧ st.ArrayOf v.1 x.1.1) :
    Layout (st'.putNode x.1 (.linked { x.2 with nextTbl := a.1, nextItemptr := a.2 })) v
      (ls ++ [(x.1, { x.2 with nextTbl := a.1, nextItemptr := a.2 })]) bs' := by
  have hsame : SameLabels st (st'.putNode x.1
      (.linked { x.2 with nextTbl := a.1, nextItemptr := a.2 })) := SameLabels.of_eq hlabel
  have hin : ∀ y ∈ ls, y ∈ ls ++ x :: ls₂ := fun y hy => List.mem_append_left _ hy
  have hxin : x ∈ ls ++ x :: ls₂ := List.mem_append_right _ List.mem_cons_self
  have hnd := h.path.nodup
  rw [map_fst_toPath, List.map_append, List.map_cons] at hnd
  have hxls : ∀ y ∈ ls, y.1 ≠ x.1 := fun y hy he =>
    (List.nodup_append.mp (List.nodup_append.mp hnd).1).2.2 y.1 (List.mem_map_of_mem hy) x.1
      List.mem_cons_self he
  refine ⟨?_, ?_, fun y hy => ?_, ?_, ?_, fun y hy => ?_⟩
  · show ∃ rec, st'.vslot _ = _
    rw [hslot]
    exact h.slot
  · have hpath := h.path
    unfold Store.Path at hpath ⊢
    have happ : toPath (ls ++ x :: ls₂) bs = toPath ls [] ++ (x.1, .linked x.2) :: toPath ls₂ bs := by
      simp [toPath]
    have happ' : toPath (ls ++ [(x.1, { x.2 with nextTbl := a.1, nextItemptr := a.2 })]) bs' =
        toPath ls [] ++ (x.1, .linked { x.2 with nextTbl := a.1, nextItemptr := a.2 }) ::
          toPath [] bs' := by
      simp [toPath]
    rw [happ] at hpath
    rw [happ']
    obtain ⟨b, hpre, hpost⟩ := hpath.split
    obtain ⟨rfl, -, -⟩ := hpost.cons_inv
    have hhead : (st'.putNode x.1 (.linked { x.2 with nextTbl := a.1, nextItemptr := a.2 })).head
        v.1 v.2 = st.head v.1 v.2 := by
      unfold Store.head
      rw [show (st'.putNode x.1 _).vslot = st.vslot from hslot]
    rw [hhead]
    refine (hpre.frame fun y hy => ?_).append (Seg.cons (Function.update_self ..) ?_)
    · obtain ⟨z, hz, rfl⟩ := (mem_toPath.mp hy).resolve_right (by simp)
      show Function.update _ _ _ _ = _
      rw [Function.update_of_ne (hxls z hz), hnode z hz]
    · show Seg _ _ (cursor a.1 a.2) _ _
      rw [cursor_eq_some.mpr ⟨rfl, hv, h0⟩]
      exact hseg.update_ne (by rw [map_fst_toPath]; exact hx) _
  · rcases List.mem_append.mp hy with hy | hy
    · obtain ⟨ho, hn, hl⟩ := h.linked y (hin y hy)
      exact ⟨ho, hn, hsame.live _ _ hl⟩
    · obtain ⟨ho, -, hl⟩ := h.linked x hxin
      rw [List.mem_singleton.mp hy]
      exact ⟨ho, Or.inr hv, hsame.live _ _ hl⟩
  · have hord := h.ordered
    rw [List.append_cons, List.pairwise_append] at hord
    refine ordered_congr hord.1 (by simp) fun y hy => hsame.rank _ _ (h.linked y ?_).2.2
    rcases List.mem_append.mp hy with hy | hy
    · exact hin y hy
    · rw [List.mem_singleton.mp hy]
      exact hxin
  · have hp := prevLinks_append.mp h.prevs
    exact prevLinks_append.mpr ⟨hp.1, hp.2.1, trivial⟩
  · exact ⟨(hblocks y hy).1, hsame.array _ _ (hblocks y hy).2⟩

/-- The stores differ in the slot of `v`, in nodes at `A` and in new nodes only, and the records keep
their owners. -/
structure Rewrites (v : VertexKey) (A : List Addr) (st st' : Store) : Prop where
  vlabel : st'.vlabel = st.vlabel
  format : st'.format = st.format
  nextOid : st'.nextOid = st.nextOid
  vslot : ∀ k, k ≠ (v.1, headSlot v.2) → st'.vslot k = st.vslot k
  node : ∀ b, b ∉ A → st.node b ≠ none → st'.node b = st.node b
  linked : ∀ b rec', st'.node b = some (.linked rec') →
    ∃ rec, st.node b = some (.linked rec) ∧ rec.ownerId = rec'.ownerId

section

variable {db : Db} {s : Session} {v : VertexKey} {info : LabelInfo} {ls ls₁ ls₂ : LinkedPath}
  {bs : BlockPath} {entry : CompactedVertexEntry}

/-- Step 1: the members grow by those of the block that is merged, and the blocks after it stay. -/
theorem mergeDownstream_runs {o : Oid} (ho : oidIsValid o = true)
    (hseg : Seg db.store.node AdjNode.next (bs.head?.map Prod.fst) (toPath [] bs) none)
    (hbs : ∀ x ∈ bs, x.1.1 = o) (hdown : cursor o entry.downstreamTid = bs.head?.map Prod.fst)
    (s : Session) : ∃ adj nextTid db' bs',
      (mergeDownstream s o entry).Runs db (entry.adj ++ adj, nextTid) db' ∧
      bs.flatMap (fun x => x.2.adjList) = adj ++ bs'.flatMap (fun x => x.2.adjList) ∧
      (∀ x ∈ bs', x ∈ bs) ∧ Seg db'.store.node AdjNode.next (cursor o nextTid) (toPath [] bs') none ∧
      WritesBlocks (bs.map Prod.fst) db.store db'.store := by
  cases bs with
  | nil =>
    have hv : ¬ entry.downstreamTid.isValid = true := fun hc => by
      rw [cursor, hc, ho] at hdown
      cases hdown
    refine ⟨[], .invalid, db, [], ?_, rfl, by simp, ?_, WritesBlocks.refl _⟩
    · unfold mergeDownstream
      rw [if_neg hv, List.append_nil]
      exact Prog.runs_ret_iff.mpr ⟨rfl, rfl⟩
    · rw [cursor_invalid]
      exact Seg.nil none
  | cons b bs =>
    obtain ⟨hb, hv, -⟩ := cursor_eq_some.mp hdown
    obtain ⟨-, hn, hrest⟩ := hseg.cons_inv
    change db.store.node b.1 = some (.block b.2) at hn
    change Seg _ _ (cursor b.1.1 b.2.nextItemptr) (toPath [] bs) none at hrest
    rw [hbs b List.mem_cons_self] at hrest
    rw [hb] at hn
    obtain ⟨db', hr, hw⟩ := npMergeExistingArraylist_runs hn s entry.adj
    refine ⟨b.2.adjList, b.2.nextItemptr, db', bs, ?_, rfl, fun x hx => List.mem_cons_of_mem _ hx,
      hrest.frame fun x hx => hw.node x.1 ?_, hw.mono ?_⟩
    · unfold mergeDownstream
      rw [if_pos hv]
      exact hr
    · -- the chain does not come back to the merged block
      have hnd := hseg.nodup
      rw [List.mem_singleton, ← hb]
      exact fun he => (List.nodup_cons.mp hnd).1 (he ▸ List.mem_map_of_mem hx)
    · rw [← hb]
      simp

/-- Step 4 at a record: its forward pointer moves to the new blocks. -/
theorem wireUpstream_linked_runs (l id : Nat) (o : Oid) {a : Addr} {rec : NeoLinkedListRecord}
    (h : db.store.node a = some (.linked rec)) (ha : oidIsValid a.1 = true) (newTid : ItemPointer) :
    ∃ db', (wireUpstream l id o a.1 a.2 newTid).Runs db () db' ∧ db'.store = db.store.putNode a
      (.linked { rec with nextTbl := o, nextItemptr := newTid }) := by
  obtain ⟨t, ht, hget⟩ := rel_of_linked h
  have hr : (wireUpstream l id o a.1 a.2 newTid).Runs db () (db.setRel a.1 (.linkedList
      (t.modify a.2 fun rec => { rec with nextTbl := o, nextItemptr := newTid }))) := by
    unfold wireUpstream
    rw [if_pos ha]
    refine runs_onRel.mpr ⟨_, _, ht, ?_, rfl⟩
    simp only [readItem_of_get hget]
    rfl
  exact ⟨_, hr, store_modifyLinked ht hget _⟩

/-- Steps 1 to 3: the members and those of the downstream block go to new blocks in front of the
blocks that stay. -/
theorem compactEntry_blocks {o : Oid} (l id : Nat) (hfmt : db.store.format o = some .arrayList)
    (ho : oidIsValid o = true)
    (hseg : Seg db.store.node AdjNode.next (bs.head?.map Prod.fst) (toPath [] bs) none)
    (hbs : ∀ x ∈ bs, x.1.1 = o) (hdown : cursor o entry.downstreamTid = bs.head?.map Prod.fst)
    (hne : entry.adj ≠ []) (s : Session) : ∃ firstTid db₂ bs',
      (∀ db₃, (wireUpstream l id o entry.upstreamTbl entry.upstreamTid firstTid).Runs db₂ () db₃ →
        (compactEntry s l o id entry).Runs db () db₃) ∧
      firstTid.isValid = true ∧
      Seg db₂.store.node AdjNode.next (some (o, firstTid)) (toPath [] bs') none ∧
      bs'.flatMap (fun x => x.2.adjList) = entry.adj ++ bs.flatMap (fun x => x.2.adjList) ∧
      (∀ x ∈ bs', (x.2.ownerId = id ∧ x.1.1 = o ∧ db.store.node x.1 = none) ∨ x ∈ bs) ∧
      WritesBlocks (bs.map Prod.fst ++ bs'.map Prod.fst) db.store db₂.store := by
  obtain ⟨adj, nextTid, db₁, rest, h₁, hmem, hsub, hseg₁, hw₁⟩ :=
    mergeDownstream_runs ho hseg hbs hdown s
  have hne' : entry.adj ++ adj ≠ [] := fun he => hne (List.append_eq_nil_iff.mp he).1
  have hfmt₁ : db₁.store.format o = some .arrayList := by
    rw [hw₁.eq]
    exact hfmt
  obtain ⟨db₂, firstTid, blocks, h₂, hv, hcs, hblocks, hseg₂, -, hw₂⟩ :=
    insertChunks_none_runs hfmt₁ s id entry.upstreamTbl entry.upstreamTid nextTid
      (fun c hc => length_le_of_mem_chunks hc) (chunks_ne_nil hne') ho
  refine ⟨firstTid, db₂, blocks ++ rest, fun db₃ h₃ => h₁.bind (h₂.bind h₃), hv, ?_, ?_,
    fun x hx => ?_, (hw₁.trans hw₂).mono ?_⟩
  · have hkeep := hseg₁.frame fun x hx => hw₂.node x.1 fun hc => by
      obtain ⟨y, hy, he⟩ := List.mem_map.mp hc
      have hnone := (hblocks y hy).2.2
      rw [he, hseg₁.get_of_mem hx] at hnone
      cases hnone
    have happ : toPath [] (blocks ++ rest) = toPath [] blocks ++ toPath [] rest := by simp [toPath]
    rw [happ]
    exact hseg₂.append hkeep
  · rw [List.flatMap_append, List.flatMap_def, hcs, chunks_flatten, List.append_assoc, hmem]
  · rcases List.mem_append.mp hx with hx | hx
    · obtain ⟨hi, hox, hnone⟩ := hblocks x hx
      exact Or.inl ⟨hi, hox, hw₁.keeps _ hnone⟩
    · exact Or.inr (hsub x hx)
  · intro a ha
    rw [List.map_append, List.mem_append, List.mem_append]
    exact (List.mem_append.mp ha).imp_right Or.inl

/-- **The compaction of one owner** moves its records in the partition, with the first older block,
to new blocks behind its newer records. No member is lost, and no other chain is touched. -/
theorem compactEntry_runs (hcat : Catalog db.store) (hinfo : db.store.vlabel v.1 = some info)
    (hlay : Layout db.store v (ls₁ ++ ls₂) bs) (hne : ls₂ ≠ [])
    (hadj : entry.adj.Perm (ls₂.map fun x => x.2.toMember))
    (hup : (entry.upstreamTbl, entry.upstreamTid) = lastAddr (0, .invalid) ls₁)
    (hdown : cursor info.arraylist entry.downstreamTid = bs.head?.map Prod.fst) (s : Session) :
    ∃ db' ls' bs', (compactEntry s v.1 info.arraylist v.2 entry).Runs db () db' ∧
      Layout db'.store v ls' bs' ∧ ls'.map Prod.fst = ls₁.map Prod.fst ∧
      (toPath ls' bs').members.Perm (toPath (ls₁ ++ ls₂) bs).members ∧
      Rewrites v ((toPath (ls₁ ++ ls₂) bs).map Prod.fst) db.store db'.store := by
  obtain ⟨hfmt, h0⟩ := hcat.arraylist _ _ hinfo
  have ho : oidIsValid info.arraylist = true := by simp [oidIsValid, h0]
  have hbs : ∀ x ∈ bs, x.1.1 = info.arraylist := fun x hx => by
    obtain ⟨i, hi, he⟩ := (hlay.blocks x hx).2
    rw [← he, Option.some.inj (hinfo.symm.trans hi)]
  have hseg : Seg db.store.node AdjNode.next (bs.head?.map Prod.fst) (toPath [] bs) none := by
    have hpath := hlay.path
    unfold Store.Path at hpath
    have happ : toPath (ls₁ ++ ls₂) bs = toPath (ls₁ ++ ls₂) [] ++ toPath [] bs := by simp [toPath]
    rw [happ] at hpath
    obtain ⟨b, -, hpost⟩ := hpath.split
    cases bs with
    | nil => exact Seg.nil none
    | cons x bs =>
      obtain rfl := hpost.cons_inv.1
      exact hpost
  have hne' : entry.adj ≠ [] := fun he => hne (by
    have hlen := hadj.length_eq
    rw [he, List.length_map] at hlen
    exact List.length_eq_zero_iff.mp hlen.symm)
  obtain ⟨firstTid, db₂, bs', hruns, hv, hseg', hflat, hnew, hw⟩ :=
    compactEntry_blocks v.1 v.2 hfmt ho hseg hbs hdown hne' s
  have hslot₂ : db₂.store.vslot = db.store.vslot := by rw [hw.eq]
  have hlabel₂ : db₂.store.vlabel = db.store.vlabel := by rw [hw.eq]
  have hformat₂ : db₂.store.format = db.store.format := by rw [hw.eq]
  have hoid₂ : db₂.store.nextOid = db.store.nextOid := by rw [hw.eq]
  have hblocks : ∀ x ∈ bs', x.2.ownerId = v.2 ∧ db.store.ArrayOf v.1 x.1.1 := by
    intro x hx
    rcases hnew x hx with ⟨hi, hox, -⟩ | hx
    · exact ⟨hi, info, hinfo, hox.symm⟩
    · exact hlay.blocks x hx
  -- the old nodes that are not blocks of this chain are as they were, and not in the new blocks
  have hold : ∀ b, b ∉ bs.map Prod.fst → db.store.node b ≠ none → b ∉ bs'.map Prod.fst ∧
      db₂.store.node b = db.store.node b := by
    intro b hb hn
    have hb' : b ∉ bs'.map Prod.fst := fun hc => by
      obtain ⟨y, hy, rfl⟩ := List.mem_map.mp hc
      rcases hnew y hy with ⟨-, -, hnone⟩ | hy
      · exact hn hnone
      · exact hb (List.mem_map_of_mem hy)
    exact ⟨hb', hw.node b fun hc => (List.mem_append.mp hc).elim hb hb'⟩
  have hchain : ∀ b, b ∉ (toPath (ls₁ ++ ls₂) bs).map Prod.fst → b ∉ bs.map Prod.fst := by
    intro b hb hc
    rw [map_fst_toPath] at hb
    exact hb (List.mem_append_right _ hc)
  rcases List.eq_nil_or_concat' ls₁ with rfl | ⟨ls₀, x, rfl⟩
  · -- the partition's records come first: the head moves
    obtain ⟨hupTbl, -⟩ := Prod.mk.inj hup
    obtain ⟨rec, hrec⟩ := hlay.slot
    obtain ⟨db₃, h₃⟩ := writeHead_runs (by rw [hslot₂]; exact hrec) info.arraylist firstTid
    obtain ⟨-, -, hst₃⟩ := writeHead_inv h₃
    refine ⟨db₃, [], bs', hruns db₃ ?_, ?_, rfl, ?_, ?_⟩
    · unfold wireUpstream
      rw [hupTbl]
      exact h₃
    · rw [hst₃]
      refine layout_setHead (by rw [hslot₂]; exact hlay.slot) hseg' h0 hv fun y hy => ?_
      unfold Store.ArrayOf
      rw [hlabel₂]
      exact hblocks y hy
    · rw [members_toPath, members_toPath, hflat]
      exact hadj.append_right _
    · rw [hst₃]
      refine ⟨hlabel₂, hformat₂, hoid₂, fun k hk => ?_, fun b hb hn => (hold b (hchain b hb) hn).2,
        fun b rec' hb => ⟨rec', hw.linked b rec' hb, rfl⟩⟩
      show Function.update _ _ _ _ = _
      rw [Function.update_of_ne hk, hslot₂]
  · -- the last record before the partition points to the new blocks
    rw [lastAddr_concat] at hup
    obtain ⟨hupTbl, hupTid⟩ := Prod.mk.inj hup
    rw [List.append_assoc, List.singleton_append] at hlay hchain ⊢
    have hx : x ∈ ls₀ ++ x :: ls₂ := List.mem_append_right _ List.mem_cons_self
    have hlinked : ∀ y ∈ ls₀ ++ x :: ls₂, y.1 ∉ bs'.map Prod.fst ∧
        db₂.store.node y.1 = db.store.node y.1 := by
      intro y hy
      have hnd := hlay.path.nodup
      rw [map_fst_toPath] at hnd
      refine hold y.1 (fun hc => (List.nodup_append.mp hnd).2.2 _ (List.mem_map_of_mem hy) _ hc rfl) ?_
      rw [hlay.get_linked hy]
      exact Option.some_ne_none _
    have hx0 : oidIsValid x.1.1 = true := by
      obtain ⟨i, hi, row, hrow, ht, -⟩ := (hlay.linked x hx).2.2
      simpa [oidIsValid, ← ht] using (hcat.partition _ _ hi row hrow).2
    obtain ⟨db₃, h₃, hst₃⟩ := wireUpstream_linked_runs v.1 v.2 info.arraylist
      (by rw [(hlinked x hx).2, hlay.get_linked hx]) hx0 firstTid
    have hlay' := hlay.setNext hlabel₂ hslot₂
      (fun y hy => (hlinked y (List.mem_append_left _ hy)).2) hseg' (hlinked x hx).1 ho hv hblocks
    refine ⟨db₃, _, bs', hruns db₃ ?_, hst₃ ▸ hlay', by simp, ?_, ?_⟩
    · rw [hupTbl, hupTid]
      exact h₃
    · rw [members_toPath, members_toPath, hflat, List.map_append, List.map_append,
        List.append_assoc, List.append_assoc]
      refine List.Perm.append_left _ (List.Perm.append_left [x.2.toMember] ?_)
      exact hadj.append_right _
    · rw [hst₃]
      refine ⟨hlabel₂, hformat₂, hoid₂, fun k _ => congrFun hslot₂ k, fun b hb hn => ?_,
        fun b rec' hb => ?_⟩
      · have hbx : b ≠ x.1 := fun he => hb (by
          rw [he, map_fst_toPath]
          exact List.mem_append_left _ (List.mem_map_of_mem hx))
        show Function.update _ _ _ _ = _
        rw [Function.update_of_ne hbx]
        exact (hold b (hchain b hb) hn).2
      · rw [Store.node_putNode, Function.update_apply] at hb
        split at hb
        · next he =>
          rw [he]
          exact ⟨x.2, hlay.get_linked hx, by rw [← AdjNode.linked.inj (Option.some.inj hb)]⟩
        · exact ⟨rec', hw.linked b rec' hb, rfl⟩

end

end NeoPostGraph
