import Mathlib.Data.List.Dedup
import NeoPostGraph.Graph.Scan

/-!
# Compaction keeps the adjacency

`compact_oldest_linked_list_table` on a graph with a layout. The owners are rewritten one after the
other, in the order of a hash table; each leaves the chains of the others alone, so every chain keeps
its members.

* `Compacting st₀ st V l o D`: the state in the middle of a compaction of the partition `o`, when the
  owners `D` are done.

Results:
* `Compacting.step`, `Compacting.owners`: one owner after the other is done.
* `Compacting.finish`: when all are, every chain has the members it had.
* `compactOldestLinkedListTable_runs`: a compaction succeeds, and every vertex keeps its members.
-/

namespace NeoPostGraph

open SlottedPage LinkedChain

/-- In the middle of a compaction: the owners in `D` have no records in the partition `o` any more,
and the same members. The other chains are as they were. -/
structure Compacting (st₀ st : Store) (V : List VertexKey) (l : Nat) (o : Oid) (D : Nat → Prop) :
    Prop where
  vlabel : st.vlabel = st₀.vlabel
  format : st.format = st₀.format
  nextOid : st.nextOid = st₀.nextOid
  todo : ∀ v ∈ V, ¬ (v.1 = l ∧ D v.2) → ∀ ls bs, Layout st₀ v ls bs → Layout st v ls bs
  done : ∀ v ∈ V, v.1 = l → D v.2 → ∀ ls bs, Layout st₀ v ls bs → ∃ ls' bs', Layout st v ls' bs' ∧
    ls'.map Prod.fst = (ls.map Prod.fst).filter (fun a => a.1 ≠ o) ∧
    (toPath ls' bs').members.Perm (toPath ls bs).members
  linked : ∀ b rec', st.node b = some (.linked rec') →
    ∃ rec, st₀.node b = some (.linked rec) ∧ rec.ownerId = rec'.ownerId

/-- A rewrite of one chain leaves the others alone. -/
theorem Layout.rewrites {st st' : Store} {v w : VertexKey}
    {ls lsw : LinkedPath} {bs bsw : BlockPath} (hw : Layout st w lsw bsw) (hcat : Catalog st)
    (hv : Layout st v ls bs) (hne : w ≠ v)
    (hslot : (w.1, headSlot w.2) ≠ (v.1, headSlot v.2))
    (hr : Rewrites v ((toPath ls bs).map Prod.fst) st st') : Layout st' w lsw bsw := by
  refine hw.frame (hr.vslot _ hslot) (fun b hb => hr.node b (fun hc => hne ?_) ?_)
    (SameLabels.of_eq hr.vlabel)
  · exact hw.disjoint hcat hv hb hc
  · obtain ⟨x, hx, rfl⟩ := List.mem_map.mp hb
    rw [hw.path.get hx]
    exact Option.some_ne_none _

section

variable {db₀ db : Db} {V : List VertexKey} {l : Nat} {info : LabelInfo}
  {old rest : List LinkedListMeta} {row : LinkedListMeta} {t : Table NeoLinkedListRecord}
  {D : Nat → Prop}

/-- **One owner**: its entry is rewritten, and it is done. -/
theorem Compacting.step (h₀ : GraphLayout db₀.store V) (hold : Oldest db₀.store l info old row rest)
    (hrel : db₀.rels row.tbl = some (.linkedList t)) {id : Nat}
    (hid : ∃ x ∈ scanned t, x.2.ownerId = id) (hD : ¬ D id)
    (h : Compacting db₀.store db.store V l row.tbl D) (s : Session) :
    ∃ db', (compactEntry s l info.arraylist id
        (hashEntry row.tbl ((scanned t).map Prod.snd) id)).Runs db () db' ∧
      Compacting db₀.store db'.store V l row.tbl fun id' => id' = id ∨ D id' := by
  obtain ⟨x, hx, hxo⟩ := hid
  have hnode : db₀.store.node (row.tbl, x.1) = some (.linked x.2) := by
    rw [store_linked hrel, Table.mem_entries.mp ((scanned_perm t).mem_iff.mp hx)]
    rfl
  obtain ⟨hmem, hon⟩ := h₀.cover l (row.tbl, x.1) x.2 hold.live hnode
  rw [hxo] at hmem hon
  obtain ⟨ls, bs, hlay⟩ := h₀.chain _ hmem
  obtain ⟨ls₁, ls₂, rfl, h₁, h₂⟩ := hlay.split_oldest h₀.catalog hold
  have hne : ls₂ ≠ [] := by
    rintro rfl
    obtain ⟨y, hy, hya⟩ := List.mem_map.mp (hon _ _ hlay)
    rw [List.append_nil] at hy
    exact h₁ y hy (by rw [hya])
  have hlive := hold.live
  obtain ⟨hadj, hup, hdown⟩ := hashEntry_spec h₀.catalog hold.label hlive hlay h₁ h₂ hne
    (filter_scanned_perm h₀ hrel hlive hlay h₁ h₂)
  have hcat : Catalog db.store := h₀.catalog.same h.vlabel h.format h.nextOid
  have hlay' := h.todo _ hmem (fun hc => hD hc.2) _ _ hlay
  obtain ⟨db', ls', bs', hruns, hself, hfst, hperm, hr⟩ := compactEntry_runs hcat
    (by rw [h.vlabel]; exact hold.label) hlay' hne hadj hup hdown s
  have hother : ∀ w ∈ V, w ≠ (l, id) → ∀ lsw bsw, Layout db.store w lsw bsw →
      Layout db'.store w lsw bsw := fun w hw hwne lsw bsw hlw =>
    hlw.rewrites hcat hlay' hwne (h₀.slot_ne hmem hw hwne) hr
  refine ⟨db', hruns, hr.vlabel.trans h.vlabel, hr.format.trans h.format,
    hr.nextOid.trans h.nextOid, fun w hw hnot lsw bsw hlw => ?_, fun w hw hwl hd lsw bsw hlw => ?_,
    fun b rec' hb => ?_⟩
  · refine hother w hw (fun he => hnot ?_) _ _ (h.todo w hw (fun hc => hnot ⟨hc.1, Or.inr hc.2⟩) _ _ hlw)
    rw [he]
    exact ⟨rfl, Or.inl rfl⟩
  · by_cases hwid : w = (l, id)
    · subst hwid
      obtain ⟨rfl, rfl⟩ := hlw.unique hlay
      refine ⟨ls', bs', hself, ?_, hperm⟩
      rw [hfst, List.map_append, List.filter_append]
      have hall : (ls₁.map Prod.fst).filter (fun a => a.1 ≠ row.tbl) = ls₁.map Prod.fst := by
        refine List.filter_eq_self.mpr fun a ha => ?_
        obtain ⟨y, hy, rfl⟩ := List.mem_map.mp ha
        simpa using h₁ y hy
      have hnone : (ls₂.map Prod.fst).filter (fun a => a.1 ≠ row.tbl) = [] := by
        refine List.filter_eq_nil_iff.mpr fun a ha => ?_
        obtain ⟨y, hy, rfl⟩ := List.mem_map.mp ha
        simpa using h₂ y hy
      rw [hall, hnone, List.append_nil]
    · have hd' : D w.2 := hd.resolve_left fun he => hwid (Prod.ext hwl he)
      obtain ⟨ls', bs', hlw', hfst', hperm'⟩ := h.done w hw hwl hd' lsw bsw hlw
      exact ⟨ls', bs', hother w hw hwid _ _ hlw', hfst', hperm'⟩
  · obtain ⟨rec₁, hb₁, ho₁⟩ := hr.linked b rec' hb
    obtain ⟨rec₂, hb₂, ho₂⟩ := h.linked b rec₁ hb₁
    exact ⟨rec₂, hb₂, ho₂.trans ho₁⟩

/-- **The loop over the owners**: all of them are done. -/
theorem Compacting.owners (h₀ : GraphLayout db₀.store V)
    (hold : Oldest db₀.store l info old row rest)
    (hrel : db₀.rels row.tbl = some (.linkedList t)) {owners : List Nat} (hnd : owners.Nodup)
    (hown : ∀ id ∈ owners, ∃ x ∈ scanned t, x.2.ownerId = id) (hD : ∀ id ∈ owners, ¬ D id)
    (h : Compacting db₀.store db.store V l row.tbl D) (s : Session) :
    ∃ db', (compactOwners s l info.arraylist row.tbl ((scanned t).map Prod.snd) owners).Runs
        db () db' ∧
      Compacting db₀.store db'.store V l row.tbl fun id => id ∈ owners ∨ D id := by
  induction owners generalizing db D with
  | nil =>
    refine ⟨db, Prog.runs_ret_iff.mpr ⟨rfl, rfl⟩, ?_⟩
    simpa using h
  | cons id owners ih =>
    obtain ⟨hid, hnd⟩ := List.nodup_cons.mp hnd
    obtain ⟨db₁, hr₁, h₁⟩ := h.step h₀ hold hrel (hown id List.mem_cons_self)
      (hD id List.mem_cons_self) s
    obtain ⟨db₂, hr₂, h₂⟩ := ih hnd (fun i hi => hown i (List.mem_cons_of_mem _ hi))
      (fun i hi hc => hc.elim (fun he => hid (he ▸ hi)) (hD i (List.mem_cons_of_mem _ hi))) h₁
    refine ⟨db₂, hr₁.bind hr₂, ?_⟩
    have heq : (fun i => i ∈ owners ∨ i = id ∨ D i) = fun i => i ∈ id :: owners ∨ D i := by
      funext i
      rw [List.mem_cons, or_assoc, or_left_comm]
    rw [← heq]
    exact h₂

end

/-! ## The end of a compaction -/

theorem markCompacted_eq {old rest : List LinkedListMeta} {row : LinkedListMeta}
    (h : ∀ r ∈ old, r.tbl ≠ row.tbl) : markCompacted row.tbl (old ++ row :: rest) =
      old ++ { row with compacted := true } :: rest := by
  induction old with
  | nil => exact if_pos rfl
  | cons r old ih =>
    rw [List.cons_append, List.cons_append, ← ih fun r' hr' => h r' (List.mem_cons_of_mem _ hr')]
    exact if_neg (h r List.mem_cons_self)

/-- The label after the compaction of the partition `o`. -/
def LabelInfo.markCompacted (info : LabelInfo) (o : Oid) : LabelInfo :=
  { info with linkedListMeta := NeoPostGraph.markCompacted o info.linkedListMeta }

/-- The store with the partition `o` of `l` marked compacted. -/
def Store.markCompacted (st : Store) (l : Nat) (info : LabelInfo) (o : Oid) : Store :=
  { st with vlabel := Function.update st.vlabel l (some (info.markCompacted o)) }

section

variable {st : Store} {l : Nat} {info : LabelInfo} {old rest : List LinkedListMeta}
  {row : LinkedListMeta}

theorem Oldest.mark_rows (h : Oldest st l info old row rest) (hcat : Catalog st) :
    (info.markCompacted row.tbl).linkedListMeta = old ++ { row with compacted := true } :: rest := by
  have htbls := (hcat.rows l info h.label).tbls
  rw [h.rows, List.map_append, List.map_cons] at htbls
  show NeoPostGraph.markCompacted _ _ = _
  rw [h.rows, markCompacted_eq fun r hr he => ?_]
  exact (List.nodup_append.mp htbls).2.2 _ (List.mem_map_of_mem hr) row.tbl List.mem_cons_self he

theorem Oldest.mark_metaOk (h : Oldest st l info old row rest) (hcat : Catalog st) :
    MetaOk (info.markCompacted row.tbl).linkedListMeta
      (info.markCompacted row.tbl).linkedListSeq := by
  have hok := hcat.rows l info h.label
  rw [h.mark_rows hcat]
  rw [h.rows] at hok
  have hid : (old ++ { row with compacted := true } :: rest).map LinkedListMeta.id =
      (old ++ row :: rest).map LinkedListMeta.id := by simp
  have htbl : (old ++ { row with compacted := true } :: rest).map LinkedListMeta.tbl =
      (old ++ row :: rest).map LinkedListMeta.tbl := by simp
  refine ⟨?_, fun r hr => ?_, ?_, ?_, ?_⟩
  · rw [← List.pairwise_map (f := LinkedListMeta.id) (R := (· < ·)), hid, List.pairwise_map]
    exact hok.sorted
  · rw [List.mem_append, List.mem_cons] at hr
    rcases hr with hr | rfl | hr
    · exact hok.lt_seq r (by simp [hr])
    · exact hok.lt_seq row (by simp)
    · exact hok.lt_seq r (by simp [hr])
  · -- the active row is one of the rest
    obtain ⟨front, cur, hrows, ha, hc, hfront⟩ := hok.active
    rcases List.eq_nil_or_concat' rest with rfl | ⟨rest', last, rfl⟩
    · obtain ⟨-, he⟩ := List.append_inj' hrows rfl
      rw [← (List.cons.inj he).1, h.inactive] at ha
      cases ha
    · rw [← List.cons_append, ← List.append_assoc] at hrows
      obtain ⟨rfl, he⟩ := List.append_inj' hrows rfl
      refine ⟨old ++ { row with compacted := true } :: rest', last, by simp, ?_, ?_, fun r hr => ?_⟩
      · rw [(List.cons.inj he).1, ha]
      · rw [(List.cons.inj he).1, hc]
      · rw [List.mem_append, List.mem_cons] at hr
        rcases hr with hr | rfl | hr
        · exact hfront r (by simp [hr])
        · exact h.inactive
        · exact hfront r (by simp [hr])
  · refine List.pairwise_append.mpr ⟨?_, List.pairwise_cons.mpr ⟨fun _ _ _ => rfl, ?_⟩, ?_⟩
    · exact List.pairwise_of_forall_mem_list fun a ha b _ _ => h.before a ha
    · exact List.pairwise_of_forall_mem_list fun a _ b hb hcb => by
        rw [h.after b (List.mem_cons_of_mem _ hb)] at hcb
        cases hcb
    · exact fun a ha b _ _ => h.before a ha
  · rw [htbl]
    exact hok.tbls

/-- **Marking the oldest partition keeps the catalog.** -/
theorem Catalog.markCompacted (hcat : Catalog st) (h : Oldest st l info old row rest) :
    Catalog (st.markCompacted l info row.tbl) := by
  refine hcat.congr (fun l' info' hi => ?_) rfl rfl
  by_cases hl : l' = l
  · subst hl
    have hself : (st.markCompacted l' info row.tbl).vlabel l' =
        some (info.markCompacted row.tbl) := Function.update_self ..
    obtain rfl := Option.some.inj (hself.symm.trans hi)
    refine ⟨info, h.label, rfl, h.mark_metaOk hcat, fun r hr => ?_⟩
    rw [h.mark_rows hcat, List.mem_append, List.mem_cons] at hr
    rw [h.rows]
    rcases hr with hr | rfl | hr
    · exact ⟨r, by simp [hr], rfl⟩
    · exact ⟨row, by simp, rfl⟩
    · exact ⟨r, by simp [hr], rfl⟩
  · have hi' : st.vlabel l' = some info' := (Function.update_of_ne hl ..).symm.trans hi
    exact ⟨info', hi', rfl, hcat.rows l' info' hi', fun r hr => ⟨r, hr, rfl⟩⟩

/-- The partitions that are left. -/
theorem Oldest.live_markCompacted (h : Oldest st l info old row rest) (hcat : Catalog st) {l' : Nat}
    {o : Oid} :
    (st.markCompacted l info row.tbl).LivePartition l' o ↔ st.LivePartition l' o ∧ o ≠ row.tbl := by
  by_cases hl : l' = l
  · subst hl
    have hself : (st.markCompacted l' info row.tbl).vlabel l' =
        some (info.markCompacted row.tbl) := Function.update_self ..
    constructor
    · rintro ⟨info', hi, r, hr, rfl, hc⟩
      obtain rfl := Option.some.inj (hself.symm.trans hi)
      rw [h.mark_rows hcat, List.mem_append, List.mem_cons] at hr
      rcases hr with hr | rfl | hr
      · rw [h.before r hr] at hc
        cases hc
      · cases hc
      · have htbls := (hcat.rows l' info h.label).tbls
        rw [h.rows, List.map_append, List.map_cons] at htbls
        have hne := (List.nodup_cons.mp (List.nodup_append.mp htbls).2.1).1
        exact ⟨⟨info, h.label, r, by rw [h.rows]; simp [hr], rfl, hc⟩,
          fun he => hne (he ▸ List.mem_map_of_mem hr)⟩
    · rintro ⟨⟨info', hi, r, hr, rfl, hc⟩, hne⟩
      obtain rfl := Option.some.inj (h.label.symm.trans hi)
      refine ⟨_, hself, r, ?_, rfl, hc⟩
      rw [h.rows, List.mem_append, List.mem_cons] at hr
      rw [h.mark_rows hcat, List.mem_append, List.mem_cons]
      rcases hr with hr | rfl | hr
      · exact Or.inl hr
      · exact absurd rfl hne
      · exact Or.inr (Or.inr hr)
  · have hother : (st.markCompacted l info row.tbl).vlabel l' = st.vlabel l' :=
      Function.update_of_ne hl ..
    have hiff : (st.markCompacted l info row.tbl).LivePartition l' o ↔ st.LivePartition l' o := by
      unfold Store.LivePartition
      rw [hother]
    rw [hiff, iff_self_and]
    rintro hlive rfl
    exact hl (label_of_live hcat hlive h.live)

/-- The labels' rows keep their ids. -/
theorem Oldest.rank_markCompacted (h : Oldest st l info old row rest) (hcat : Catalog st) {l' : Nat}
    {o : Oid} (ho : (st.markCompacted l info row.tbl).LivePartition l' o) :
    (st.markCompacted l info row.tbl).rank l' o = st.rank l' o := by
  have hcat' := hcat.markCompacted h
  obtain ⟨info', hi, r, hr, rfl, hc⟩ := ho
  rw [rank_eq hcat' hi hr]
  by_cases hl : l' = l
  · subst hl
    have hself : (st.markCompacted l' info row.tbl).vlabel l' =
        some (info.markCompacted row.tbl) := Function.update_self ..
    obtain rfl := Option.some.inj (hself.symm.trans hi)
    rw [h.mark_rows hcat, List.mem_append, List.mem_cons] at hr
    have hmem : r ∈ info.linkedListMeta := by
      rw [h.rows, List.mem_append, List.mem_cons]
      rcases hr with hr | rfl | hr
      · exact Or.inl hr
      · cases hc
      · exact Or.inr (Or.inr hr)
    rw [rank_eq hcat h.label hmem]
  · have hi' : st.vlabel l' = some info' := (Function.update_of_ne hl ..).symm.trans hi
    rw [rank_eq hcat hi' hr]

end

/-- **When every owner is done and the partition is marked**, the layout is that of a graph, and
every chain has the members it had. -/
theorem Compacting.finish {st₀ st : Store} {V : List VertexKey} {l : Nat} {info : LabelInfo}
    {old rest : List LinkedListMeta} {row : LinkedListMeta} {D : Nat → Prop}
    (h₀ : GraphLayout st₀ V) (hold : Oldest st₀ l info old row rest)
    (h : Compacting st₀ st V l row.tbl D)
    (hall : ∀ v ∈ V, v.1 = l → ¬ D v.2 → ∀ ls bs, Layout st₀ v ls bs → ∀ x ∈ ls, x.1.1 ≠ row.tbl) :
    GraphLayout (st.markCompacted l info row.tbl) V ∧
      ∀ v ∈ V, ∀ ls bs, Layout st₀ v ls bs → ∃ ls' bs',
        Layout (st.markCompacted l info row.tbl) v ls' bs' ∧
        (toPath ls' bs').members.Perm (toPath ls bs).members := by
  have hcat : Catalog st := h₀.catalog.same h.vlabel h.format h.nextOid
  have hold' : Oldest st l info old row rest := ⟨h.vlabel ▸ hold.label, hold.rows, hold.before,
    hold.after, hold.inactive⟩
  -- every chain has lost its records in the partition
  have hchain : ∀ v ∈ V, ∀ ls bs, Layout st₀ v ls bs → ∃ ls' bs',
      Layout (st.markCompacted l info row.tbl) v ls' bs' ∧
      ls'.map Prod.fst = (ls.map Prod.fst).filter (fun a => a.1 ≠ row.tbl) ∧
      (toPath ls' bs').members.Perm (toPath ls bs).members := by
    intro v hv ls bs hlay
    obtain ⟨ls', bs', hlay', hfst, hperm⟩ : ∃ ls' bs', Layout st v ls' bs' ∧
        ls'.map Prod.fst = (ls.map Prod.fst).filter (fun a => a.1 ≠ row.tbl) ∧
        (toPath ls' bs').members.Perm (toPath ls bs).members := by
      by_cases hd : v.1 = l ∧ D v.2
      · exact h.done v hv hd.1 hd.2 ls bs hlay
      · refine ⟨ls, bs, h.todo v hv hd ls bs hlay, ?_, List.Perm.refl _⟩
        symm
        refine List.filter_eq_self.mpr fun a ha => ?_
        obtain ⟨x, hx, rfl⟩ := List.mem_map.mp ha
        rw [decide_eq_true_iff]
        intro he
        have hl : v.1 = l := label_of_live h₀.catalog (hlay.linked x hx).2.2 (he ▸ hold.live)
        exact hall v hv hl (fun hD => hd ⟨hl, hD⟩) ls bs hlay x hx he
    have hlive : ∀ x ∈ ls', (st.markCompacted l info row.tbl).LivePartition v.1 x.1.1 := by
      intro x hx
      refine (hold'.live_markCompacted hcat).mpr ⟨(hlay'.linked x hx).2.2, ?_⟩
      have hmem := List.mem_map_of_mem (f := Prod.fst) hx
      rw [hfst, List.mem_filter, decide_eq_true_iff] at hmem
      exact hmem.2
    refine ⟨ls', bs', hlay'.congr rfl (fun _ _ => rfl) hlive
      (fun x hx => hold'.rank_markCompacted hcat (hlive x hx)) fun o ho => ?_, hfst, hperm⟩
    obtain ⟨i, hi, ha⟩ := ho
    by_cases hl : v.1 = l
    · rw [hl] at hi ⊢
      obtain rfl := Option.some.inj (hold'.label.symm.trans hi)
      exact ⟨_, Function.update_self .., ha⟩
    · exact ⟨i, (Function.update_of_ne hl ..).trans hi, ha⟩
  refine ⟨⟨hcat.markCompacted hold', h₀.agree, h₀.slots, fun v hv => ?_, fun l' a rec hlive hn => ?_⟩,
    fun v hv ls bs hlay => ?_⟩
  · obtain ⟨ls, bs, hlay⟩ := h₀.chain v hv
    obtain ⟨ls', bs', hlay', -⟩ := hchain v hv ls bs hlay
    exact ⟨ls', bs', hlay'⟩
  · obtain ⟨hlive', hne⟩ := (hold'.live_markCompacted hcat).mp hlive
    obtain ⟨rec₀, hn₀, howner⟩ := h.linked a rec hn
    have hlive₀ : st₀.LivePartition l' a.1 := by
      unfold Store.LivePartition at hlive' ⊢
      rw [← h.vlabel]
      exact hlive'
    obtain ⟨hin, hon⟩ := h₀.cover l' a rec₀ hlive₀ hn₀
    rw [howner] at hin hon
    obtain ⟨ls, bs, hlay⟩ := h₀.chain _ hin
    obtain ⟨ls', bs', hlay', hfst, -⟩ := hchain _ hin ls bs hlay
    refine ⟨hin, fun ls'' bs'' hlay'' => ?_⟩
    rw [(hlay''.unique hlay').1, hfst, List.mem_filter]
    exact ⟨hon ls bs hlay, by simpa using hne⟩
  · obtain ⟨ls', bs', hlay', -, hperm⟩ := hchain v hv ls bs hlay
    exact ⟨ls', bs', hlay', hperm⟩

/-! ## A whole compaction -/

section

variable {db : Db} {V : List VertexKey} {l : Nat}

theorem mem_hashOwners {recs : List NeoLinkedListRecord} {id : Nat} :
    id ∈ hashOwners recs ↔ ∃ r ∈ recs, r.ownerId = id := by
  unfold hashOwners
  rw [List.mem_dedup, List.mem_map]

/-! ## What a compaction may write -/

/-- The step keeps the format of the relation. -/
def KeepsFormat {α : Type} (f : AdjRelation → Except Err (α × AdjRelation)) : Prop :=
  ∀ r a r', f r = .ok (a, r') → r'.format = r.format

theorem npInsertArraylistBlock_keeps {I : Db → Prop}
    (hrel : ∀ (α : Type) o (f : AdjRelation → Except Err (α × AdjRelation)), KeepsFormat f →
      (onRel o f).Keeps I) (s : Session) (o : Oid) (vertexId : Nat) (adj : List AdjListMember)
    (prevTbl : Oid) (prevTid nextTid : ItemPointer) :
    (npInsertArraylistBlock s o vertexId adj prevTbl prevTid nextTid).Keeps I := by
  refine hrel _ _ _ fun r a r' hf => ?_
  cases r with
  | linkedList t => cases hf
  | arrayList t =>
    obtain ⟨x, -, hf⟩ := bind_ok hf
    obtain ⟨-, rfl⟩ := Prod.mk.inj (Except.ok.inj hf)
    rfl

theorem npUpdateArraylistNextPointerInplace_keeps {I : Db → Prop}
    (hrel : ∀ (α : Type) o (f : AdjRelation → Except Err (α × AdjRelation)), KeepsFormat f →
      (onRel o f).Keeps I) (o : Oid) (tid newNextTid : ItemPointer) :
    (npUpdateArraylistNextPointerInplace o tid newNextTid).Keeps I := by
  refine hrel _ _ _ fun r a r' hf => ?_
  cases r with
  | linkedList t => cases hf
  | arrayList t =>
    obtain ⟨x, -, hf⟩ := bind_ok hf
    obtain ⟨-, rfl⟩ := Prod.mk.inj (Except.ok.inj hf)
    rfl

theorem insertChunks_keeps {I : Db → Prop}
    (hrel : ∀ (α : Type) o (f : AdjRelation → Except Err (α × AdjRelation)), KeepsFormat f →
      (onRel o f).Keeps I) (s : Session) (o : Oid) (vertexId : Nat) (down : ItemPointer) :
    ∀ (chunks : List (List AdjListMember)) (tbl : Oid) (tid : ItemPointer)
      (first : Option ItemPointer), (insertChunks s o vertexId down chunks tbl tid first).Keeps I
  | [], _, _, _ => Prog.keeps_ret _ _
  | _ :: rest, _, _, none => (npInsertArraylistBlock_keeps hrel ..).bind fun _ =>
      insertChunks_keeps hrel s o vertexId down rest _ _ _
  | _ :: rest, _, _, some _ => (npInsertArraylistBlock_keeps hrel ..).bind fun _ =>
      (npUpdateArraylistNextPointerInplace_keeps hrel ..).bind fun _ =>
        insertChunks_keeps hrel s o vertexId down rest _ _ _

theorem mergeDownstream_keeps {I : Db → Prop}
    (hrel : ∀ (α : Type) o (f : AdjRelation → Except Err (α × AdjRelation)), KeepsFormat f →
      (onRel o f).Keeps I) (s : Session) (o : Oid) (entry : CompactedVertexEntry) :
    (mergeDownstream s o entry).Keeps I := by
  have hdelete : (deleteArraylistRecord s o entry.downstreamTid).Keeps I := by
    refine hrel _ _ _ fun r a r' hf => ?_
    cases r with
    | linkedList t => cases hf
    | arrayList t =>
      obtain ⟨-, rfl⟩ := Prod.mk.inj (Except.ok.inj hf)
      rfl
  unfold mergeDownstream
  split
  · exact (Prog.keeps_read _ _).bind fun _ => hdelete.bind fun _ => Prog.keeps_ret _ _
  · exact Prog.keeps_ret _ _

theorem wireUpstream_keeps {I : Db → Prop}
    (hrel : ∀ (α : Type) o (f : AdjRelation → Except Err (α × AdjRelation)), KeepsFormat f →
      (onRel o f).Keeps I) (hhead : ∀ l id tbl tid, (writeHead l id tbl tid).Keeps I)
    (l ownerId : Nat) (arraylistOid upstreamTbl : Oid) (upstreamTid newArrayTid : ItemPointer) :
    (wireUpstream l ownerId arraylistOid upstreamTbl upstreamTid newArrayTid).Keeps I := by
  unfold wireUpstream
  split
  · refine hrel _ _ _ fun r a r' hf => ?_
    cases r with
    | linkedList t =>
      obtain ⟨x, -, hf⟩ := bind_ok hf
      obtain ⟨-, rfl⟩ := Prod.mk.inj (Except.ok.inj hf)
      rfl
    | arrayList t =>
      obtain ⟨x, -, hf⟩ := bind_ok hf
      obtain ⟨-, rfl⟩ := Prod.mk.inj (Except.ok.inj hf)
      rfl
  · exact hhead _ _ _ _

/-- **The loop over the owners writes to relations, whose formats it keeps, and to heads.** -/
theorem compactOwners_keeps {I : Db → Prop}
    (hrel : ∀ (α : Type) o (f : AdjRelation → Except Err (α × AdjRelation)), KeepsFormat f →
      (onRel o f).Keeps I) (hhead : ∀ l id tbl tid, (writeHead l id tbl tid).Keeps I) (s : Session)
    (l : Nat) (arraylist o : Oid) (recs : List NeoLinkedListRecord) :
    ∀ owners : List Nat, (compactOwners s l arraylist o recs owners).Keeps I
  | [] => Prog.keeps_ret _ _
  | id :: rest =>
    ((mergeDownstream_keeps hrel s arraylist _).bind fun _ =>
      (insertChunks_keeps hrel s arraylist id _ _ _ _ _).bind fun _ =>
        wireUpstream_keeps hrel hhead ..).bind fun _ =>
      compactOwners_keeps hrel hhead s l arraylist o recs rest

/-- The step that marks the partition. -/
theorem markCompacted_runs {info : LabelInfo} (h : db.store.vlabel l = some info) (o : Oid) :
    ∃ db', (onVertexLabel l (.labelNotFoundForGraph l) fun _ lab =>
        return ((), { lab with linkedListMeta := markCompacted o lab.linkedListMeta })).Runs
        db () db' ∧ db'.store = db.store.markCompacted l info o := by
  obtain ⟨lab, hlab⟩ := exists_vlabel (by rw [h]; rfl)
  rw [store_vlabel hlab, Option.some.injEq] at h
  subst h
  exact ⟨_, runs_onVertexLabel.mpr ⟨lab, _, hlab, rfl, rfl⟩, store_setInfo hlab rfl rfl⟩

/-- **A compaction succeeds and keeps the members of every vertex**, whatever the order of the hash
table. -/
theorem compactOldestLinkedListTable_runs (h : GraphLayout db.store V)
    (hl : (db.store.vlabel l).isSome) (x : Unspecified) (s : Session) :
    ∃ db', (compactOldestLinkedListTable x s l).Runs db () db' ∧ GraphLayout db'.store V ∧
      ∀ v ∈ V, ∃ p p', db.store.Path v p ∧ db'.store.Path v p' ∧ p'.members.Perm p.members := by
  obtain ⟨lab, hlab⟩ := exists_vlabel hl
  have hread : (readVertexLabel l (.labelNotFoundForGraph l) fun _ lab =>
      (return lab.arraylist : Except Err Oid)).Runs db lab.arraylist db :=
    runs_readVertexLabel.mpr ⟨lab, hlab, rfl, rfl⟩
  obtain ⟨db₁, info, old, row, rest, hchoose, hold, hst₁⟩ := chooseOldest_runs h.catalog hl
  have hlayout₁ : GraphLayout db₁.store V ∧ info.arraylist = lab.arraylist ∧
      ∀ v p, db₁.store.Path v p → db.store.Path v p := by
    rcases hst₁ with he | ⟨info₀, hinfo₀, he⟩
    · have hi := hold.label
      rw [he, store_vlabel hlab] at hi
      rw [he]
      exact ⟨h, by rw [← Option.some.inj hi]; rfl, fun _ _ hp => hp⟩
    · have hi := hold.label
      have hself : (db.store.rotate l info₀).vlabel l = some (info₀.rotate db.store.nextOid) :=
        Function.update_self ..
      rw [he] at hi
      obtain rfl := Option.some.inj (hself.symm.trans hi)
      rw [store_vlabel hlab] at hinfo₀
      rw [he]
      refine ⟨h.rotate (by rw [store_vlabel hlab]; exact hinfo₀), ?_, fun _ _ hp => hp⟩
      rw [← Option.some.inj hinfo₀]
      rfl
  obtain ⟨hlayout₁, harr, hpath₁⟩ := hlayout₁
  have hfmt := (hlayout₁.catalog.partition l info hold.label row (by rw [hold.rows]; simp)).1
  obtain ⟨t, ht⟩ := exists_linkedList hfmt
  have hblocks : (relationBlocks row.tbl).Runs db₁ t.nblocks db₁ :=
    runs_readRel.mpr ⟨_, ht, rfl, rfl⟩
  have hscan := scanBlocks_runs ht (List.range t.nblocks)
  -- the owners, in the order of the hash table
  have hperm := x.hashOrder_perm (hashOwners ((scanned t).map Prod.snd))
  have howners : ∀ id, id ∈ x.hashOrder (hashOwners ((scanned t).map Prod.snd)) ↔
      ∃ y ∈ scanned t, y.2.ownerId = id := by
    intro id
    rw [hperm.mem_iff, mem_hashOwners]
    constructor
    · rintro ⟨r, hr, ho⟩
      obtain ⟨y, hy, rfl⟩ := List.mem_map.mp hr
      exact ⟨y, hy, ho⟩
    · rintro ⟨y, hy, ho⟩
      exact ⟨y.2, List.mem_map_of_mem hy, ho⟩
  have hstart : Compacting db₁.store db₁.store V l row.tbl fun _ => False :=
    ⟨rfl, rfl, rfl, fun _ _ _ _ _ hlay => hlay, fun _ _ _ hf => hf.elim,
      fun b rec hb => ⟨rec, hb, rfl⟩⟩
  obtain ⟨db₂, hloop, hcomp⟩ := hstart.owners hlayout₁ hold ht
    (hperm.nodup_iff.mpr (List.nodup_dedup _)) (fun id hid => (howners id).mp hid)
    (fun _ _ hf => hf) s
  obtain ⟨db₃, hmark, hst₃⟩ := markCompacted_runs (by rw [hcomp.vlabel]; exact hold.label) row.tbl
  rw [harr] at hloop
  -- a vertex whose owner is not met has no records in the partition
  have hall : ∀ v ∈ V, v.1 = l →
      ¬ (v.2 ∈ x.hashOrder (hashOwners ((scanned t).map Prod.snd)) ∨ False) →
      ∀ ls bs, Layout db₁.store v ls bs → ∀ y ∈ ls, y.1.1 ≠ row.tbl := by
    intro v hv hvl hnot ls bs hlay y hy he
    refine hnot (Or.inl ((howners v.2).mpr ⟨(y.1.2, y.2), ?_, (hlay.linked y hy).1⟩))
    rw [(scanned_perm t).mem_iff, Table.mem_entries]
    have hget := hlay.get_linked hy
    rw [← Prod.mk.eta (p := y.1), he, store_linked ht] at hget
    obtain ⟨rec, hrec, hre⟩ := Option.map_eq_some_iff.mp hget
    rw [hrec, AdjNode.linked.inj hre]
  obtain ⟨hlayout₃, hmembers⟩ := hcomp.finish hlayout₁ hold hall
  rw [← hst₃] at hlayout₃ hmembers
  refine ⟨db₃, hread.bind (hchoose.bind (hblocks.bind (hscan.bind (hloop.bind hmark)))), hlayout₃,
    fun v hv => ?_⟩
  obtain ⟨ls, bs, hlay⟩ := hlayout₁.chain v hv
  obtain ⟨ls', bs', hlay', hp⟩ := hmembers v hv ls bs hlay
  exact ⟨_, _, hpath₁ v _ hlay.path, hlay'.path, hp⟩

end

end NeoPostGraph
