import NeoPostGraph.Graph.Steps

/-!
# The catalog of a graph

Which relations the labels own. Every partition and array list is a relation of its own, made
under a fresh oid. The rows of a label's meta table have increasing ids; the last one is active and
the compacted ones come first.

* `MetaOk`: the rows of one label. `Catalog`: the labels of a graph.
* `createNewActiveLinkedList_inv`, `buildVertexLabelInfrastructure_inv`: the two steps that add a
  partition.

Results: both keep the catalog (`Catalog.rotate`, `Catalog.addLabel`), and so does every step that
leaves labels and relations alone (`Catalog.congr`).
-/

namespace NeoPostGraph

open SlottedPage

/-- The rows of a label's meta table, given the next partition id. -/
structure MetaOk (rows : List LinkedListMeta) (seq : Nat) : Prop where
  sorted : rows.Pairwise fun a b => a.id < b.id
  lt_seq : ∀ row ∈ rows, row.id < seq
  active : ∃ old cur, rows = old ++ [cur] ∧ cur.active = true ∧ cur.compacted = false ∧
    ∀ row ∈ old, row.active = false
  compacted : rows.Pairwise fun a b => b.compacted = true → a.compacted = true
  tbls : (rows.map LinkedListMeta.tbl).Nodup

/-- The labels of a graph own relations of their own. -/
structure Catalog (st : Store) : Prop where
  pos : 0 < st.nextOid
  fresh : ∀ o, (st.format o).isSome → o < st.nextOid
  rows : ∀ l info, st.vlabel l = some info → MetaOk info.linkedListMeta info.linkedListSeq
  partition : ∀ l info, st.vlabel l = some info → ∀ row ∈ info.linkedListMeta,
    st.format row.tbl = some .linkedList ∧ row.tbl ≠ 0
  arraylist : ∀ l info, st.vlabel l = some info →
    st.format info.arraylist = some .arrayList ∧ info.arraylist ≠ 0
  partition_inj : ∀ l info l' info', st.vlabel l = some info → st.vlabel l' = some info' →
    ∀ row ∈ info.linkedListMeta, ∀ row' ∈ info'.linkedListMeta, row.tbl = row'.tbl → l = l'
  arraylist_inj : ∀ l info l' info', st.vlabel l = some info → st.vlabel l' = some info' →
    info.arraylist = info'.arraylist → l = l'

theorem activeLinkedList_eq {rows : List LinkedListMeta} {seq : Nat} (h : MetaOk rows seq) :
    ∃ old cur, rows = old ++ [cur] ∧ activeLinkedList rows = some cur.tbl ∧
      cur.active = true ∧ cur.compacted = false ∧ ∀ row ∈ old, row.active = false := by
  obtain ⟨old, cur, rfl, ha, hc, hold⟩ := h.active
  have hnone : old.find? (fun row => row.active) = none :=
    List.find?_eq_none.mpr fun row hrow => by rw [hold row hrow]; decide
  refine ⟨old, cur, rfl, ?_, ha, hc, hold⟩
  unfold activeLinkedList
  rw [List.find?_append, hnone]
  simp [ha]

/-- A step that changes the rows of a label, but not which relations they name, keeps the catalog. -/
theorem Catalog.congr_le {st st' : Store} (h : Catalog st)
    (hl : ∀ l info', st'.vlabel l = some info' → ∃ info, st.vlabel l = some info ∧
      info'.arraylist = info.arraylist ∧ MetaOk info'.linkedListMeta info'.linkedListSeq ∧
      ∀ row ∈ info'.linkedListMeta, ∃ row₀ ∈ info.linkedListMeta, row₀.tbl = row.tbl)
    (hf : st'.format = st.format) (hn : st.nextOid ≤ st'.nextOid) : Catalog st' where
  pos := Nat.lt_of_lt_of_le h.pos hn
  fresh o ho := by
    rw [hf] at ho
    exact Nat.lt_of_lt_of_le (h.fresh o ho) hn
  rows l info' hi := by
    obtain ⟨-, -, -, hm, -⟩ := hl l info' hi
    exact hm
  partition l info' hi row hrow := by
    obtain ⟨info, hinfo, -, -, hr⟩ := hl l info' hi
    obtain ⟨row₀, hrow₀, he⟩ := hr row hrow
    rw [hf, ← he]
    exact h.partition l info hinfo row₀ hrow₀
  arraylist l info' hi := by
    obtain ⟨info, hinfo, ha, -, -⟩ := hl l info' hi
    rw [ha, hf]
    exact h.arraylist l info hinfo
  partition_inj l₁ info₁' l₂ info₂' h₁ h₂ row hrow row' hrow' he := by
    obtain ⟨info₁, hi₁, -, -, hr₁⟩ := hl l₁ info₁' h₁
    obtain ⟨info₂, hi₂, -, -, hr₂⟩ := hl l₂ info₂' h₂
    obtain ⟨r₁, hm₁, he₁⟩ := hr₁ row hrow
    obtain ⟨r₂, hm₂, he₂⟩ := hr₂ row' hrow'
    exact h.partition_inj l₁ info₁ l₂ info₂ hi₁ hi₂ r₁ hm₁ r₂ hm₂
      (he₁.trans (he.trans he₂.symm))
  arraylist_inj l₁ info₁' l₂ info₂' h₁ h₂ he := by
    obtain ⟨info₁, hi₁, ha₁, -, -⟩ := hl l₁ info₁' h₁
    obtain ⟨info₂, hi₂, ha₂, -, -⟩ := hl l₂ info₂' h₂
    rw [ha₁, ha₂] at he
    exact h.arraylist_inj l₁ info₁ l₂ info₂ hi₁ hi₂ he

theorem Catalog.congr {st st' : Store} (h : Catalog st)
    (hl : ∀ l info', st'.vlabel l = some info' → ∃ info, st.vlabel l = some info ∧
      info'.arraylist = info.arraylist ∧ MetaOk info'.linkedListMeta info'.linkedListSeq ∧
      ∀ row ∈ info'.linkedListMeta, ∃ row₀ ∈ info.linkedListMeta, row₀.tbl = row.tbl)
    (hf : st'.format = st.format) (hn : st'.nextOid = st.nextOid) : Catalog st' :=
  h.congr_le hl hf hn.ge

theorem Catalog.same {st st' : Store} (h : Catalog st) (hl : st'.vlabel = st.vlabel)
    (hf : st'.format = st.format) (hn : st'.nextOid = st.nextOid) : Catalog st' :=
  h.congr (fun l info' hi => ⟨info', hl ▸ hi, rfl, h.rows l info' (hl ▸ hi),
    fun row hrow => ⟨row, hrow, rfl⟩⟩) hf hn

/-! ## A new partition -/

theorem deactivate_append {old : List LinkedListMeta} (h : ∀ row ∈ old, row.active = false)
    {cur : LinkedListMeta} (hc : cur.active = true) :
    deactivate (old ++ [cur]) = old ++ [{ cur with active := false }] := by
  induction old with
  | nil => simp [deactivate, hc]
  | cons row old ih =>
    have hrow := h row List.mem_cons_self
    simp only [List.cons_append, deactivate, hrow, Bool.false_eq_true, if_false, List.cons.injEq,
      true_and]
    exact ih fun r hr => h r (List.mem_cons_of_mem _ hr)

/-- The label after a rotation under this oid. -/
def LabelInfo.rotate (info : LabelInfo) (o : Oid) : LabelInfo :=
  { info with
    linkedListMeta := deactivate info.linkedListMeta ++ [⟨info.linkedListSeq, o, true, false⟩]
    linkedListSeq := info.linkedListSeq + 1 }

/-- The rows after a rotation: the old ones, none of them active, and the new one. -/
theorem MetaOk.rotate {rows : List LinkedListMeta} {seq : Nat} (h : MetaOk rows seq) {o : Oid}
    (ho : ∀ row ∈ rows, row.tbl ≠ o) :
    MetaOk (deactivate rows ++ [⟨seq, o, true, false⟩]) (seq + 1) ∧
      (deactivate rows).map LinkedListMeta.tbl = rows.map LinkedListMeta.tbl ∧
      (deactivate rows).map LinkedListMeta.id = rows.map LinkedListMeta.id ∧
      (deactivate rows).map LinkedListMeta.compacted = rows.map LinkedListMeta.compacted ∧
      ∀ row ∈ deactivate rows, row.active = false := by
  obtain ⟨old, cur, rfl, ha, hc, hold⟩ := h.active
  rw [deactivate_append hold ha]
  have hid : (old ++ [{ cur with active := false }]).map LinkedListMeta.id =
      (old ++ [cur]).map LinkedListMeta.id := by simp
  have htbl : (old ++ [{ cur with active := false }]).map LinkedListMeta.tbl =
      (old ++ [cur]).map LinkedListMeta.tbl := by simp
  have hcomp : (old ++ [{ cur with active := false }]).map LinkedListMeta.compacted =
      (old ++ [cur]).map LinkedListMeta.compacted := by simp
  have hinactive : ∀ row ∈ old ++ [{ cur with active := false }], row.active = false := by
    intro row hrow
    rcases List.mem_append.mp hrow with hrow | hrow
    · exact hold row hrow
    · rw [List.mem_singleton.mp hrow]
  have hmem : ∀ row ∈ old ++ [{ cur with active := false }], row.id < seq ∧ row.tbl ≠ o := by
    intro row hrow
    rcases List.mem_append.mp hrow with hrow | hrow
    · exact ⟨h.lt_seq row (by simp [hrow]), ho row (by simp [hrow])⟩
    · rw [List.mem_singleton.mp hrow]
      exact ⟨h.lt_seq cur (by simp), ho cur (by simp)⟩
  refine ⟨⟨?_, ?_, ⟨_, _, rfl, rfl, rfl, hinactive⟩, ?_, ?_⟩, htbl, hid, hcomp, hinactive⟩
  · refine List.pairwise_append.mpr ⟨?_, List.pairwise_singleton _ _, fun a ha b hb => ?_⟩
    · rw [← List.pairwise_map (f := LinkedListMeta.id) (R := (· < ·)), hid, List.pairwise_map]
      exact h.sorted
    · rw [List.mem_singleton.mp hb]
      exact (hmem a ha).1
  · intro row hrow
    rcases List.mem_append.mp hrow with hrow | hrow
    · exact Nat.lt_succ_of_lt (hmem row hrow).1
    · rw [List.mem_singleton.mp hrow]
      exact Nat.lt_succ_self _
  · refine List.pairwise_append.mpr ⟨?_, List.pairwise_singleton _ _, fun a _ b hb => ?_⟩
    · rw [← List.pairwise_map (f := LinkedListMeta.compacted) (R := fun a b => b = true → a = true),
        hcomp, List.pairwise_map]
      exact h.compacted
    · rw [List.mem_singleton.mp hb]
      intro hcon
      cases hcon
  · rw [List.map_append, htbl]
    refine List.nodup_append.mpr ⟨h.tbls, List.nodup_singleton _, ?_⟩
    intro t ht t' ht' he
    rw [← htbl] at ht
    obtain ⟨row, hrow, rfl⟩ := List.mem_map.mp ht
    exact (hmem row hrow).2 (he.trans (List.mem_singleton.mp ht'))

/-- The store after a rotation of a label. -/
def Store.rotate (st : Store) (l : Nat) (info : LabelInfo) : Store :=
  { st with
    vlabel := Function.update st.vlabel l (some (info.rotate st.nextOid))
    format := Function.update st.format st.nextOid (some .linkedList)
    nextOid := st.nextOid + 1 }

section

variable {db db' : Db} {l : Nat} {o : Oid}

theorem nextPartitionId_inv {id : Nat} (h : (nextPartitionId l).Runs db id db') :
    ∃ info, db.store.vlabel l = some info ∧ id = info.linkedListSeq ∧
      db'.store = { db.store with
        vlabel := Function.update db.store.vlabel l
          (some { info with linkedListSeq := info.linkedListSeq + 1 }) } := by
  obtain ⟨lab, lab', hlab, hf, rfl⟩ := runs_onVertexLabel.mp h
  obtain ⟨rfl, rfl⟩ := Prod.mk.inj (Except.ok.inj hf)
  exact ⟨lab.info, store_vlabel hlab, rfl, store_setInfo hlab rfl rfl⟩

/-- The oid of a new relation has no nodes under it yet. -/
theorem node_of_format_none {tid : ItemPointer} (h : db.store.format o = none) :
    db.store.node (o, tid) = none := by
  have hr : db.rels o = none := Option.map_eq_none_iff.mp h
  simp [Db.store, hr]

/-- A node is in a relation. -/
theorem format_of_node {db : Db} {a : Addr} (h : db.store.node a ≠ none) :
    (db.store.format a.1).isSome := by
  by_contra hc
  exact h (node_of_format_none (Option.not_isSome_iff_eq_none.mp hc))

theorem createLinkedListTable_inv (hfresh : db.store.format db.store.nextOid = none)
    (h : createLinkedListTable.Runs db o db') :
    o = db.store.nextOid ∧ db'.store = { db.store with
      format := Function.update db.store.format o (some .linkedList)
      nextOid := o + 1 } := by
  unfold createLinkedListTable at h
  obtain ⟨rfl, rfl⟩ := Prod.mk.inj (Except.ok.inj (Prog.runs_step_iff.mp h))
  refine ⟨rfl, ?_⟩
  unfold Db.store Db.setRel
  simp only [Store.mk.injEq, true_and, and_true]
  constructor
  · funext o'
    by_cases ho : o' = db.nextOid <;> simp [ho, AdjRelation.format]
  · funext k
    obtain ⟨o', tid⟩ := k
    by_cases ho : o' = db.nextOid
    · subst ho
      simpa [AdjRelation.node, Db.store] using (node_of_format_none hfresh).symm
    · simp [ho]

theorem createNewActiveLinkedList_inv (hcat : Catalog db.store)
    (h : (createNewActiveLinkedList l).Runs db o db') :
    ∃ info, db.store.vlabel l = some info ∧ o = db.store.nextOid ∧
      db'.store = db.store.rotate l info := by
  obtain ⟨id, db₁, h₁, h⟩ := Prog.runs_bind_iff.mp h
  obtain ⟨o', db₂, h₂, h⟩ := Prog.runs_bind_iff.mp h
  obtain ⟨u, db₃, h₃, h⟩ := Prog.runs_bind_iff.mp h
  obtain ⟨rfl, rfl⟩ := Prog.runs_ret_iff.mp h
  obtain ⟨info, hinfo, rfl, hst₁⟩ := nextPartitionId_inv h₁
  have hfresh : db₁.store.format db₁.store.nextOid = none := by
    rw [hst₁]
    by_contra hne
    exact absurd (hcat.fresh _ (Option.isSome_iff_ne_none.mpr hne)) (Nat.lt_irrefl _)
  obtain ⟨rfl, hst₂⟩ := createLinkedListTable_inv hfresh h₂
  obtain ⟨lab, lab', hlab, hf, rfl⟩ := runs_onVertexLabel.mp h₃
  obtain ⟨-, rfl⟩ := Prod.mk.inj (Except.ok.inj hf)
  have hlabinfo : lab.info = { info with linkedListSeq := info.linkedListSeq + 1 } := by
    have hl := store_vlabel hlab
    rw [hst₂, hst₁] at hl
    simpa using hl.symm
  refine ⟨info, hinfo, by rw [hst₁], Eq.trans (store_setInfo hlab ?_ ?_) ?_⟩
  · rfl
  · rfl
  have hmeta : lab.linkedListMeta = info.linkedListMeta :=
    congrArg LabelInfo.linkedListMeta hlabinfo
  have harr : lab.arraylist = info.arraylist := congrArg LabelInfo.arraylist hlabinfo
  have hseq : lab.linkedListSeq = info.linkedListSeq + 1 :=
    congrArg LabelInfo.linkedListSeq hlabinfo
  have hid : lab.vertexIdSeq = info.vertexIdSeq := congrArg LabelInfo.vertexIdSeq hlabinfo
  rw [hst₂, hst₁]
  unfold Store.rotate LabelInfo.rotate VertexLabel.info
  simp [hmeta, harr, hseq, hid]

theorem createNewActiveLinkedList_runs (h : (db.store.vlabel l).isSome) :
    ∃ o db', (createNewActiveLinkedList l).Runs db o db' := by
  obtain ⟨lab, hlab⟩ := exists_vlabel h
  obtain ⟨db₁, h₁⟩ : ∃ db₁, (nextPartitionId l).Runs db lab.linkedListSeq db₁ :=
    onVertexLabel_runs hlab rfl
  obtain ⟨info, -, -, hst₁⟩ := nextPartitionId_inv h₁
  obtain ⟨o, db₂, h₂⟩ : ∃ o db₂, createLinkedListTable.Runs db₁ o db₂ :=
    ⟨_, _, Prog.runs_step_iff.mpr rfl⟩
  have hlab₂ : ∃ lab₂, db₂.vlabels l = some lab₂ := by
    obtain ⟨-, rfl⟩ := Prod.mk.inj (Except.ok.inj (Prog.runs_step_iff.mp h₂))
    have hs : (db₁.store.vlabel l).isSome := by
      rw [hst₁]
      simp
    exact exists_vlabel hs
  obtain ⟨lab₂, hlab₂⟩ := hlab₂
  obtain ⟨db₃, h₃⟩ := onVertexLabel_runs (e := .noLinkedListSetup) (a := ())
    (f := fun _ lab => .ok ((), { lab with
      linkedListMeta := deactivate lab.linkedListMeta ++ [⟨_, o, true, false⟩] })) hlab₂ rfl
  exact ⟨o, db₃, h₁.bind (h₂.bind (h₃.bind (Prog.runs_ret_iff.mpr ⟨rfl, rfl⟩)))⟩

end

/-- **A rotation keeps the catalog.** -/
theorem Catalog.rotate {st : Store} (h : Catalog st) {l : Nat} {info : LabelInfo}
    (hinfo : st.vlabel l = some info) : Catalog (st.rotate l info) := by
  have hold : ∀ o, (st.format o).isSome → o ≠ st.nextOid := fun o ho he =>
    Nat.lt_irrefl _ (he ▸ h.fresh o ho)
  have hformat : ∀ o f, st.format o = some f → (st.rotate l info).format o = some f := by
    intro o f ho
    show Function.update _ _ _ _ = _
    rw [Function.update_of_ne (hold o (by rw [ho]; rfl)), ho]
  have hne : ∀ l' info', st.vlabel l' = some info' → ∀ row ∈ info'.linkedListMeta,
      row.tbl ≠ st.nextOid := fun l' info' hi row hrow =>
    hold _ (by rw [(h.partition l' info' hi row hrow).1]; rfl)
  obtain ⟨hrows, htbl, -, -, -⟩ := (h.rows l info hinfo).rotate (hne l info hinfo)
  -- a row of the new store is the new partition, or has the relation of a row before
  have hrow : ∀ l' info', (st.rotate l info).vlabel l' = some info' →
      ∃ info₀, st.vlabel l' = some info₀ ∧ info'.arraylist = info₀.arraylist ∧
        ∀ row ∈ info'.linkedListMeta, (l' = l ∧ row.tbl = st.nextOid) ∨
          ∃ row₀ ∈ info₀.linkedListMeta, row₀.tbl = row.tbl := by
    intro l' info' hi
    by_cases hl : l' = l
    · subst hl
      obtain rfl : info.rotate st.nextOid = info' := by simpa [Store.rotate] using hi
      refine ⟨info, hinfo, rfl, fun row hrow => ?_⟩
      rcases List.mem_append.mp hrow with hrow | hrow
      · have hmem := List.mem_map_of_mem (f := LinkedListMeta.tbl) hrow
        rw [htbl] at hmem
        exact Or.inr (List.mem_map.mp hmem)
      · rw [List.mem_singleton.mp hrow]
        exact Or.inl ⟨rfl, rfl⟩
    · have hi' : st.vlabel l' = some info' := by simpa [Store.rotate, hl] using hi
      exact ⟨info', hi', rfl, fun row hrow => Or.inr ⟨row, hrow, rfl⟩⟩
  refine ⟨Nat.succ_pos _, fun o ho => ?_, fun l' info' hi => ?_, fun l' info' hi row hr => ?_,
    fun l' info' hi => ?_, fun l₁ i₁ l₂ i₂ h₁ h₂ row hr row' hr' he => ?_,
    fun l₁ i₁ l₂ i₂ h₁ h₂ he => ?_⟩
  · by_cases he : o = st.nextOid
    · rw [he]
      exact Nat.lt_succ_self _
    · have ho' : (st.format o).isSome := by simpa [Store.rotate, he] using ho
      exact Nat.lt_succ_of_lt (h.fresh o ho')
  · by_cases hl : l' = l
    · subst hl
      obtain rfl : info.rotate st.nextOid = info' := by simpa [Store.rotate] using hi
      exact hrows
    · exact h.rows l' info' (by simpa [Store.rotate, hl] using hi)
  · obtain ⟨info₀, hi₀, -, hall⟩ := hrow l' info' hi
    rcases hall row hr with ⟨-, he⟩ | ⟨row₀, hr₀, he⟩
    · rw [he]
      exact ⟨Function.update_self .., Nat.pos_iff_ne_zero.mp h.pos⟩
    · obtain ⟨hf, h0⟩ := h.partition l' info₀ hi₀ row₀ hr₀
      rw [← he]
      exact ⟨hformat _ _ hf, h0⟩
  · obtain ⟨info₀, hi₀, ha, -⟩ := hrow l' info' hi
    obtain ⟨hf, h0⟩ := h.arraylist l' info₀ hi₀
    rw [ha]
    exact ⟨hformat _ _ hf, h0⟩
  · obtain ⟨j₁, hj₁, -, hall₁⟩ := hrow l₁ i₁ h₁
    obtain ⟨j₂, hj₂, -, hall₂⟩ := hrow l₂ i₂ h₂
    rcases hall₁ row hr with ⟨e₁, t₁⟩ | ⟨r₁, hr₁, t₁⟩ <;>
      rcases hall₂ row' hr' with ⟨e₂, t₂⟩ | ⟨r₂, hr₂, t₂⟩
    · rw [e₁, e₂]
    · exact absurd (t₂.trans (he.symm.trans t₁)) (hne l₂ j₂ hj₂ r₂ hr₂)
    · exact absurd (t₁.trans (he.trans t₂)) (hne l₁ j₁ hj₁ r₁ hr₁)
    · exact h.partition_inj l₁ j₁ l₂ j₂ hj₁ hj₂ r₁ hr₁ r₂ hr₂ (t₁.trans (he.trans t₂.symm))
  · obtain ⟨j₁, hj₁, ha₁, -⟩ := hrow l₁ i₁ h₁
    obtain ⟨j₂, hj₂, ha₂, -⟩ := hrow l₂ i₂ h₂
    rw [ha₁, ha₂] at he
    exact h.arraylist_inj l₁ j₁ l₂ j₂ hj₁ hj₂ he

/-! ## A new label -/

/-- The store after a new vertex label. -/
def Store.addLabel (st : Store) (l : Nat) : Store :=
  { st with
    vlabel := Function.update st.vlabel l
      (some ⟨st.nextOid, [⟨1, st.nextOid + 1, true, false⟩], 2, 1⟩)
    format := Function.update (Function.update st.format st.nextOid (some .arrayList))
      (st.nextOid + 1) (some .linkedList)
    nextOid := st.nextOid + 2 }

section

variable {db db' : Db} {l : Nat} {u : Unit}

theorem buildVertexLabelInfrastructure_inv (hcat : Catalog db.store)
    (hnew : db.store.vlabel l = none) (h : (buildVertexLabelInfrastructure l).Runs db u db') :
    db'.store = db.store.addLabel l := by
  obtain rfl := Except.ok.inj (Prog.runs_write_iff.mp h)
  have hnone : ∀ o, db.nextOid ≤ o → db.rels o = none := by
    intro o ho
    by_contra hne
    have hs : (db.store.format o).isSome := by
      simpa [Db.store, Option.isSome_iff_ne_none] using hne
    exact Nat.lt_irrefl _ (Nat.lt_of_lt_of_le (hcat.fresh o hs) ho)
  have hl : db.vlabels l = none := Option.map_eq_none_iff.mp hnew
  unfold Db.store Db.setVertexLabel Db.setRel Store.addLabel
  simp only [Store.mk.injEq, true_and, and_true]
  refine ⟨?_, ?_, ?_, ?_, ?_⟩
  · funext l'
    by_cases he : l' = l <;> simp [he, newVertexLabel, VertexLabel.info]
  · funext k
    obtain ⟨l', tid⟩ := k
    by_cases he : l' = l
    · subst he
      simp [newVertexLabel, hl]
    · simp [he]
  · funext k
    obtain ⟨l', tid⟩ := k
    by_cases he : l' = l
    · subst he
      simp [newVertexLabel, PhysMap.empty, hl]
    · simp [he]
  · funext o
    by_cases h₁ : o = db.nextOid + 1
    · subst h₁
      simp [AdjRelation.format]
    · by_cases h₂ : o = db.nextOid
      · subst h₂
        simp [AdjRelation.format]
      · simp [h₁, h₂]
  · funext k
    obtain ⟨o, tid⟩ := k
    by_cases h₁ : o = db.nextOid + 1
    · subst h₁
      simp [AdjRelation.node, hnone _ (Nat.le_succ _)]
    · by_cases h₂ : o = db.nextOid
      · subst h₂
        simp [AdjRelation.node, hnone _ (Nat.le_refl _)]
      · simp [h₁, h₂]

end

/-- **A new label keeps the catalog.** -/
theorem Catalog.addLabel {st : Store} (h : Catalog st) {l : Nat} (hnew : st.vlabel l = none) :
    Catalog (st.addLabel l) := by
  have hold : ∀ o, (st.format o).isSome → o < st.nextOid := h.fresh
  have hformat : ∀ o f, st.format o = some f → (st.addLabel l).format o = some f := by
    intro o f ho
    have hlt := hold o (by rw [ho]; rfl)
    show Function.update _ _ _ _ = _
    rw [Function.update_of_ne (Nat.ne_of_lt (Nat.lt_succ_of_lt hlt)),
      Function.update_of_ne (Nat.ne_of_lt hlt), ho]
  -- a label of the new store is the new one or was there before
  have hlabel : ∀ l' info', (st.addLabel l).vlabel l' = some info' →
      (l' = l ∧ info' = ⟨st.nextOid, [⟨1, st.nextOid + 1, true, false⟩], 2, 1⟩) ∨
        (l' ≠ l ∧ st.vlabel l' = some info') := by
    intro l' info' hi
    by_cases he : l' = l
    · subst he
      exact Or.inl ⟨rfl, by simpa [Store.addLabel, eq_comm] using hi⟩
    · exact Or.inr ⟨he, by simpa [Store.addLabel, he] using hi⟩
  have hlt : ∀ l' info', st.vlabel l' = some info' → info'.arraylist < st.nextOid ∧
      ∀ row ∈ info'.linkedListMeta, row.tbl < st.nextOid := by
    intro l' info' hi
    refine ⟨hold _ (by rw [(h.arraylist l' info' hi).1]; rfl), fun row hrow => hold _ ?_⟩
    rw [(h.partition l' info' hi row hrow).1]
    rfl
  refine ⟨Nat.succ_pos _, fun o ho => ?_, fun l' info' hi => ?_, fun l' info' hi row hr => ?_,
    fun l' info' hi => ?_, fun l₁ i₁ l₂ i₂ h₁ h₂ row hr row' hr' he => ?_,
    fun l₁ i₁ l₂ i₂ h₁ h₂ he => ?_⟩
  · show o < st.nextOid + 2
    by_cases h₁ : o = st.nextOid + 1
    · exact Nat.lt_of_le_of_lt (Nat.le_of_eq h₁) (Nat.lt_succ_self _)
    · by_cases h₂ : o = st.nextOid
      · exact h₂ ▸ Nat.lt_succ_of_lt (Nat.lt_succ_self _)
      · have ho' : (st.format o).isSome := by simpa [Store.addLabel, h₁, h₂] using ho
        exact Nat.lt_succ_of_lt (Nat.lt_succ_of_lt (hold o ho'))
  · rcases hlabel l' info' hi with ⟨-, rfl⟩ | ⟨-, hi⟩
    · refine ⟨List.pairwise_singleton _ _, ?_, ⟨[], _, rfl, rfl, rfl, ?_⟩,
        List.pairwise_singleton _ _, List.nodup_singleton _⟩
      · intro row hrow
        rw [List.mem_singleton.mp hrow]
        exact Nat.lt_succ_self _
      · intro row hrow
        cases hrow
    · exact h.rows l' info' hi
  · rcases hlabel l' info' hi with ⟨-, rfl⟩ | ⟨-, hi⟩
    · rw [List.mem_singleton.mp hr]
      exact ⟨Function.update_self .., Nat.succ_ne_zero _⟩
    · obtain ⟨hf, h0⟩ := h.partition l' info' hi row hr
      exact ⟨hformat _ _ hf, h0⟩
  · rcases hlabel l' info' hi with ⟨-, rfl⟩ | ⟨-, hi⟩
    · refine ⟨?_, Nat.pos_iff_ne_zero.mp h.pos⟩
      show Function.update _ _ _ _ = _
      rw [Function.update_of_ne (Nat.ne_of_lt (Nat.lt_succ_self _)), Function.update_self]
    · obtain ⟨hf, h0⟩ := h.arraylist l' info' hi
      exact ⟨hformat _ _ hf, h0⟩
  · rcases hlabel l₁ i₁ h₁ with ⟨e₁, rfl⟩ | ⟨-, h₁⟩ <;>
      rcases hlabel l₂ i₂ h₂ with ⟨e₂, rfl⟩ | ⟨-, h₂⟩
    · rw [e₁, e₂]
    · rw [List.mem_singleton.mp hr] at he
      have := (hlt l₂ i₂ h₂).2 row' hr'
      exact absurd (show row'.tbl = st.nextOid + 1 from he.symm)
        (Nat.ne_of_lt (Nat.lt_succ_of_lt this))
    · rw [List.mem_singleton.mp hr'] at he
      have := (hlt l₁ i₁ h₁).2 row hr
      exact absurd (show row.tbl = st.nextOid + 1 from he) (Nat.ne_of_lt (Nat.lt_succ_of_lt this))
    · exact h.partition_inj l₁ i₁ l₂ i₂ h₁ h₂ row hr row' hr' he
  · rcases hlabel l₁ i₁ h₁ with ⟨e₁, rfl⟩ | ⟨-, h₁⟩ <;>
      rcases hlabel l₂ i₂ h₂ with ⟨e₂, rfl⟩ | ⟨-, h₂⟩
    · rw [e₁, e₂]
    · exact absurd (show i₂.arraylist = st.nextOid from he.symm)
        (Nat.ne_of_lt (hlt l₂ i₂ h₂).1)
    · exact absurd (show i₁.arraylist = st.nextOid from he) (Nat.ne_of_lt (hlt l₁ i₁ h₁).1)
    · exact h.arraylist_inj l₁ i₁ l₂ i₂ h₁ h₂ he

theorem catalog_empty (xacts : XactState) : Catalog (Db.empty xacts).store := by
  refine ⟨?_, ?_, ?_, ?_, ?_, ?_, ?_⟩
  · show 0 < firstNormalObjectId
    decide
  all_goals simp [Db.store, Db.empty]

end NeoPostGraph
