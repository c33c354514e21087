import NeoPostGraph.Graph.AdjRun

/-!
# The partitions of a label over a run

A label's `linked_list_meta` has a row for each partition. Three operations edit it: creating the
label, `create_new_active_linked_list`, and the end of a compaction. Here they follow each other in
any order, with anything else in between that leaves these rows alone, in transactions that commit or
roll back.

A call that fails rolls back, wherever it stopped: the rows go back, and the oids and the values drawn
from the sequences do not. A second compaction in the command of a first is such a call: it still
reads the row the first has marked as it was, and fails when it updates it again.

* `PartitionRun x saved db`: such a run, `saved` being the state its open transaction began in.
* `PartitionsOk rows`: one row is active, it is not compacted, and ids are unique.
* `CompactsOldest x s l db db'`: what one compaction does.

Results:
* `PartitionRun.inv`: the catalog of relations and sequences, over a run.
* `partitions_run`: the rows of every label, and every compaction from every state.
-/

namespace NeoPostGraph

open SlottedPage

/-! ## Runs -/

/-- The labels have the same partitions, and the relations are the same. -/
structure SamePartitions (st st' : Store) : Prop where
  label : ∀ l info', st'.vlabel l = some info' → ∃ info, st.vlabel l = some info ∧
    info'.arraylist = info.arraylist ∧ info'.linkedListMeta = info.linkedListMeta ∧
    info'.linkedListSeq = info.linkedListSeq
  kept : ∀ l, (st.vlabel l).isSome → (st'.vlabel l).isSome
  format : st'.format = st.format
  nextOid : st.nextOid ≤ st'.nextOid

/-- The rows and the relations of `st` go back to those of `saved`; oids and sequences do not. -/
structure RolledBack (saved st st' : Store) : Prop where
  label : ∀ l info', st'.vlabel l = some info' → ∃ info, saved.vlabel l = some info ∧
    info'.arraylist = info.arraylist ∧ info'.linkedListMeta = info.linkedListMeta ∧
    ∀ info₁, st.vlabel l = some info₁ → info₁.linkedListSeq ≤ info'.linkedListSeq
  kept : ∀ l, (saved.vlabel l).isSome → (st'.vlabel l).isSome
  format : st'.format = saved.format
  nextOid : st.nextOid ≤ st'.nextOid

/-- The states label creations, rotations and compactions lead to, with the state the transaction
began in. -/
inductive PartitionRun (x : Unspecified) : Db → Db → Prop
  | empty (xacts : XactState) : PartitionRun x (Db.empty xacts) (Db.empty xacts)
  | label {saved db db' : Db} {l : Nat} (h : PartitionRun x saved db)
      (hnew : db.store.vlabel l = none) (hr : (buildVertexLabelInfrastructure l).Runs db () db') :
      PartitionRun x saved db'
  | rotate {saved db db' : Db} {l : Nat} (h : PartitionRun x saved db)
      (hr : (rotateActiveLinkedListTable l).Runs db () db') : PartitionRun x saved db'
  | compact {saved db db' : Db} {s : Session} {l : Nat} (h : PartitionRun x saved db)
      (hr : (compactOldestLinkedListTable x s l).Runs db () db') : PartitionRun x saved db'
  /-- Inserts, updates, deletes, and what else is not one of the three. -/
  | other {saved db db' : Db} (h : PartitionRun x saved db)
      (hsame : SamePartitions db.store db'.store) : PartitionRun x saved db'
  | commit {saved db : Db} (h : PartitionRun x saved db) : PartitionRun x db db
  | rollback {saved db db' : Db} (h : PartitionRun x saved db)
      (hback : RolledBack saved.store db.store db'.store) : PartitionRun x db' db'

/-! ## What holds of the rows -/

/-- A partition that can be compacted: it is neither active nor compacted. -/
def LinkedListMeta.Waiting (row : LinkedListMeta) : Prop :=
  row.active = false ∧ row.compacted = false

/-- One row is active, it is not compacted, and ids are unique. -/
structure PartitionsOk (rows : List LinkedListMeta) : Prop where
  one_active : ∃ row, rows.filter (fun row => row.active) = [row]
  active_uncompacted : ∀ row ∈ rows, row.active = true → row.compacted = false
  ids : (rows.map LinkedListMeta.id).Nodup

theorem MetaOk.partitionsOk {rows : List LinkedListMeta} {seq : Nat} (h : MetaOk rows seq) :
    PartitionsOk rows := by
  obtain ⟨old, cur, rfl, hcur, hcomp, hold⟩ := h.active
  refine ⟨⟨cur, ?_⟩, fun row hrow hact => ?_, ?_⟩
  · have hnone : old.filter (fun row => row.active) = [] :=
      List.filter_eq_nil_iff.mpr fun row hrow => by simp [hold row hrow]
    rw [List.filter_append, hnone]
    simp [hcur]
  · rcases List.mem_append.mp hrow with hrow | hrow
    · rw [hold row hrow] at hact
      cases hact
    · rw [List.mem_singleton.mp hrow]
      exact hcomp
  · rw [List.nodup_iff_pairwise_ne, List.pairwise_map]
    exact h.sorted.imp fun hlt => Nat.ne_of_lt hlt

theorem MetaOk.mono {rows : List LinkedListMeta} {seq seq' : Nat} (h : MetaOk rows seq)
    (hle : seq ≤ seq') : MetaOk rows seq' :=
  ⟨h.sorted, fun row hrow => Nat.lt_of_lt_of_le (h.lt_seq row hrow) hle, h.active, h.compacted,
    h.tbls⟩

/-- Oids and sequences only go on, and labels stay. -/
structure SequencesGrow (st st' : Store) : Prop where
  nextOid : st.nextOid ≤ st'.nextOid
  label : ∀ l info, st.vlabel l = some info → ∃ info', st'.vlabel l = some info' ∧
    info.linkedListSeq ≤ info'.linkedListSeq

theorem SequencesGrow.refl (st : Store) : SequencesGrow st st :=
  ⟨Nat.le_refl _, fun _ info h => ⟨info, h, Nat.le_refl _⟩⟩

theorem SequencesGrow.trans {st st' st'' : Store} (h : SequencesGrow st st')
    (h' : SequencesGrow st' st'') : SequencesGrow st st'' := by
  refine ⟨Nat.le_trans h.nextOid h'.nextOid, fun l info hi => ?_⟩
  obtain ⟨info', hi', hle⟩ := h.label l info hi
  obtain ⟨info'', hi'', hle'⟩ := h'.label l info' hi'
  exact ⟨info'', hi'', Nat.le_trans hle hle'⟩

/-- One label's entry changes, and its sequence does not go back. -/
theorem sequencesGrow_update {st st' : Store} {l : Nat} {info' : LabelInfo}
    (hn : st.nextOid ≤ st'.nextOid) (hv : st'.vlabel = Function.update st.vlabel l (some info'))
    (hseq : ∀ info, st.vlabel l = some info → info.linkedListSeq ≤ info'.linkedListSeq) :
    SequencesGrow st st' := by
  refine ⟨hn, fun l₁ info hi => ?_⟩
  by_cases hl : l₁ = l
  · subst hl
    exact ⟨info', by rw [hv, Function.update_self], hseq info hi⟩
  · exact ⟨info, by rw [hv, Function.update_of_ne hl, hi], Nat.le_refl _⟩

theorem sequencesGrow_rotate {st : Store} {l : Nat} {info : LabelInfo}
    (h : st.vlabel l = some info) : SequencesGrow st (st.rotate l info) := by
  refine sequencesGrow_update (Nat.le_succ _) rfl fun info₁ hi => ?_
  obtain rfl := Option.some.inj (h.symm.trans hi)
  exact Nat.le_succ _

/-! ## One compaction -/

theorem olderInactive_of_not_waiting {row : LinkedListMeta} (h : ¬ row.Waiting)
    (best : Option LinkedListMeta) : olderInactive best row = best := by
  unfold olderInactive
  rw [if_neg]
  simpa [LinkedListMeta.Waiting] using h

theorem olderInactive_of_waiting {row : LinkedListMeta} (h : row.Waiting)
    (best : Option LinkedListMeta) : ∃ b, olderInactive best row = some b ∧ b.id ≤ row.id ∧
      (b = row ∨ some b = best) ∧ ∀ a ∈ best, b.id ≤ a.id := by
  unfold olderInactive
  rw [if_pos (by simp [h.1, h.2])]
  cases best with
  | none => exact ⟨row, rfl, Nat.le_refl _, Or.inl rfl, fun a ha => by cases ha⟩
  | some b =>
    by_cases hlt : row.id < b.id
    · refine ⟨row, if_pos hlt, Nat.le_refl _, Or.inl rfl, fun a ha => ?_⟩
      obtain rfl := Option.mem_some.mp ha
      exact Nat.le_of_lt hlt
    · refine ⟨b, if_neg hlt, Nat.not_lt.mp hlt, Or.inr rfl, fun a ha => ?_⟩
      obtain rfl := Option.mem_some.mp ha
      exact Nat.le_refl _

/-- The scan finds the waiting row of the least id, among `rows` and the best one so far. -/
theorem foldl_olderInactive (rows : List LinkedListMeta) (best : Option LinkedListMeta) :
    match rows.foldl olderInactive best with
    | none => best = none ∧ ∀ row ∈ rows, ¬ row.Waiting
    | some b => (some b = best ∨ b ∈ rows ∧ b.Waiting) ∧ (∀ a ∈ best, b.id ≤ a.id) ∧
        ∀ row ∈ rows, row.Waiting → b.id ≤ row.id := by
  induction rows generalizing best with
  | nil => cases best <;> simp
  | cons row rows ih =>
    rw [List.foldl_cons]
    have h := ih (olderInactive best row)
    by_cases hw : row.Waiting
    · obtain ⟨b, hb, hrow, hfrom, hle⟩ := olderInactive_of_waiting hw best
      rw [hb] at h ⊢
      cases hf : rows.foldl olderInactive (some b) with
      | none =>
        rw [hf] at h
        cases h.1
      | some c =>
        rw [hf] at h
        obtain ⟨hc, hcb, hcr⟩ := h
        have hcb := hcb b rfl
        refine ⟨?_, fun a ha => Nat.le_trans hcb (hle a ha), ?_⟩
        · rcases hc with hc | ⟨hc, hcw⟩
          · obtain rfl := Option.some.inj hc
            rcases hfrom with rfl | hfrom
            · exact Or.inr ⟨List.mem_cons_self, hw⟩
            · exact Or.inl hfrom
          · exact Or.inr ⟨List.mem_cons_of_mem _ hc, hcw⟩
        · intro r hr hrw
          rcases List.mem_cons.mp hr with rfl | hr
          · exact Nat.le_trans hcb hrow
          · exact hcr r hr hrw
    · rw [olderInactive_of_not_waiting hw] at h ⊢
      cases hf : rows.foldl olderInactive best with
      | none =>
        rw [hf] at h
        refine ⟨h.1, fun r hr => ?_⟩
        rcases List.mem_cons.mp hr with rfl | hr
        · exact hw
        · exact h.2 r hr
      | some c =>
        rw [hf] at h
        obtain ⟨hc, hcb, hcr⟩ := h
        refine ⟨hc.imp id fun hc => ⟨List.mem_cons_of_mem _ hc.1, hc.2⟩, hcb, fun r hr hrw => ?_⟩
        rcases List.mem_cons.mp hr with rfl | hr
        · exact absurd hrw hw
        · exact hcr r hr hrw

theorem oldestInactive_eq_none {rows : List LinkedListMeta} (h : oldestInactive rows = none) :
    ∀ row ∈ rows, ¬ row.Waiting := by
  have hf := foldl_olderInactive rows none
  unfold oldestInactive at h
  rw [h] at hf
  exact hf.2

theorem oldestInactive_eq_some {rows : List LinkedListMeta} {row : LinkedListMeta}
    (h : oldestInactive rows = some row) :
    row ∈ rows ∧ row.Waiting ∧ ∀ r ∈ rows, r.Waiting → row.id ≤ r.id := by
  have hf := foldl_olderInactive rows none
  unfold oldestInactive at h
  rw [h] at hf
  obtain ⟨hrow, -, hle⟩ := hf
  rcases hrow with hrow | ⟨hmem, hw⟩
  · cases hrow
  · exact ⟨hmem, hw, hle⟩

/-- The row of this id is marked, the others are as they were. -/
def markRow (id : Nat) (rows : List LinkedListMeta) : List LinkedListMeta :=
  rows.map fun r => if r.id = id then { r with compacted := true } else r

theorem markRow_of_ne {id : Nat} {rows : List LinkedListMeta} (h : ∀ r ∈ rows, r.id ≠ id) :
    markRow id rows = rows := by
  unfold markRow
  rw [List.map_congr_left (fun r hr => if_neg (h r hr)), List.map_id']

theorem markCompacted_eq_markRow {rows : List LinkedListMeta} {row : LinkedListMeta}
    (htbls : (rows.map LinkedListMeta.tbl).Nodup) (hids : (rows.map LinkedListMeta.id).Nodup)
    (hrow : row ∈ rows) : markCompacted row.tbl rows = markRow row.id rows := by
  obtain ⟨old, rest, rfl⟩ := List.append_of_mem hrow
  rw [List.map_append, List.map_cons] at htbls hids
  have htbl : ∀ r ∈ old, r.tbl ≠ row.tbl := fun r hr =>
    (List.nodup_append.mp htbls).2.2 _ (List.mem_map_of_mem hr) _ List.mem_cons_self
  have hold : ∀ r ∈ old, r.id ≠ row.id := fun r hr =>
    (List.nodup_append.mp hids).2.2 _ (List.mem_map_of_mem hr) _ List.mem_cons_self
  have hrest : ∀ r ∈ rest, r.id ≠ row.id := fun r hr he =>
    (List.nodup_cons.mp (List.nodup_append.mp hids).2.1).1 (he ▸ List.mem_map_of_mem hr)
  have hmark : markRow row.id (old ++ row :: rest) =
      markRow row.id old ++ { row with compacted := true } :: markRow row.id rest := by
    unfold markRow
    rw [List.map_append, List.map_cons, if_pos rfl]
  rw [markCompacted_eq htbl, hmark, markRow_of_ne hold, markRow_of_ne hrest]

/-- **One compaction**: it rotates first when no partition is waiting, takes the waiting partition
of the least id, rewrites the records in it, and marks its row and nothing else. -/
structure CompactsOldest (x : Unspecified) (s : Session) (l : Nat) (db db₁ db' : Db)
    (info₀ info : LabelInfo) (row : LinkedListMeta) : Prop where
  label : db.store.vlabel l = some info₀
  rotates : (∃ r ∈ info₀.linkedListMeta, r.Waiting) ∧ db₁ = db ∨
    (∀ r ∈ info₀.linkedListMeta, ¬ r.Waiting) ∧ ∃ o, (createNewActiveLinkedList l).Runs db o db₁
  chosen : db₁.store.vlabel l = some info
  mem : row ∈ info.linkedListMeta
  waiting : row.Waiting
  least : ∀ r ∈ info.linkedListMeta, r.Waiting → row.id ≤ r.id
  /-- The records in the partition are the ones that are rewritten. -/
  processed : ∃ t db₂, db₁.rels row.tbl = some (.linkedList t) ∧
    (compactOwners s l info.arraylist row.tbl ((scanned t).map Prod.snd)
      (x.hashOrder (hashOwners ((scanned t).map Prod.snd)))).Runs db₁ () db₂
  marked : (db'.store.vlabel l).map LabelInfo.linkedListMeta =
    some (markRow row.id info.linkedListMeta)
  others : ∀ l', l' ≠ l → (db'.store.vlabel l').map LabelInfo.linkedListMeta =
    (db.store.vlabel l').map LabelInfo.linkedListMeta

section

variable {x : Unspecified} {s : Session} {db db₁ db' saved : Db} {l : Nat} {o : Oid}

theorem getOldestInactiveLinkedList_inv {r : Option Oid}
    (h : (getOldestInactiveLinkedList l).Runs db r db₁) : ∃ info, db.store.vlabel l = some info ∧
      r = (oldestInactive info.linkedListMeta).map LinkedListMeta.tbl ∧ db₁ = db := by
  obtain ⟨lab, hlab, hf, rfl⟩ := runs_readVertexLabel.mp h
  exact ⟨lab.info, store_vlabel hlab, (Except.ok.inj hf).symm, rfl⟩

/-- The partition a compaction takes, and the rotation before. -/
theorem chooseOldest_inv (hcat : Catalog db.store) (h : (chooseOldest l).Runs db o db₁) :
    ∃ info₀ info row, db.store.vlabel l = some info₀ ∧
      ((∃ r ∈ info₀.linkedListMeta, r.Waiting) ∧ db₁ = db ∨
        (∀ r ∈ info₀.linkedListMeta, ¬ r.Waiting) ∧
          ∃ o', (createNewActiveLinkedList l).Runs db o' db₁) ∧
      db₁.store.vlabel l = some info ∧ row ∈ info.linkedListMeta ∧ row.Waiting ∧
      (∀ r ∈ info.linkedListMeta, r.Waiting → row.id ≤ r.id) ∧ o = row.tbl ∧
      info.arraylist = info₀.arraylist ∧ (db₁.store = db.store ∨
        db₁.store = db.store.rotate l info₀) := by
  obtain ⟨r, db₂, h₁, hk⟩ := Prog.runs_bind_iff.mp h
  obtain ⟨info₀, hinfo₀, rfl, rfl⟩ := getOldestInactiveLinkedList_inv h₁
  cases hold : oldestInactive info₀.linkedListMeta with
  | some row =>
    rw [hold] at hk
    obtain ⟨rfl, rfl⟩ := Prog.runs_ret_iff.mp hk
    obtain ⟨hmem, hw, hle⟩ := oldestInactive_eq_some hold
    exact ⟨info₀, info₀, row, hinfo₀, Or.inl ⟨⟨row, hmem, hw⟩, rfl⟩, hinfo₀, hmem, hw, hle, rfl,
      rfl, Or.inl rfl⟩
  | none =>
    rw [hold] at hk
    obtain ⟨o', db₃, h₂, hk₂⟩ := Prog.runs_bind_iff.mp hk
    obtain ⟨r, db₄, h₃, hk₃⟩ := Prog.runs_bind_iff.mp hk₂
    obtain ⟨info, hinfo, rfl, rfl⟩ := getOldestInactiveLinkedList_inv h₃
    obtain ⟨info', hinfo', -, hst⟩ := createNewActiveLinkedList_inv hcat h₂
    obtain rfl := Option.some.inj (hinfo₀.symm.trans hinfo')
    have hself : (db₂.store.rotate l info₀).vlabel l = some (info₀.rotate db₂.store.nextOid) :=
      Function.update_self ..
    have harr : info.arraylist = info₀.arraylist := by
      rw [hst] at hinfo
      rw [← Option.some.inj (hself.symm.trans hinfo)]
      rfl
    cases hnew : oldestInactive info.linkedListMeta with
    | none =>
      rw [hnew] at hk₃
      cases Prog.runs_fail_iff.mp hk₃
    | some row =>
      rw [hnew] at hk₃
      obtain ⟨rfl, rfl⟩ := Prog.runs_ret_iff.mp hk₃
      obtain ⟨hmem, hw, hle⟩ := oldestInactive_eq_some hnew
      exact ⟨info₀, info, row, hinfo₀, Or.inr ⟨oldestInactive_eq_none hold, o', h₂⟩, hinfo, hmem,
        hw, hle, rfl, harr, Or.inr hst⟩

/-- What the loop over the owners leaves alone. -/
def SameCatalog (st st' : Store) : Prop :=
  st'.vlabel = st.vlabel ∧ st'.format = st.format ∧ st'.nextOid = st.nextOid

theorem sameCatalog_link (st : Store) (v : VertexKey) (a : Addr) (n : AdjNode) :
    SameCatalog st (st.link v a n) := ⟨vlabel_link v a n, format_link v a n, nextOid_link v a n⟩

theorem SameCatalog.trans {st st' st'' : Store} (h : SameCatalog st st') (h' : SameCatalog st' st'') :
    SameCatalog st st'' := ⟨h'.1.trans h.1, h'.2.1.trans h.2.1, h'.2.2.trans h.2.2⟩

theorem SameCatalog.samePartitions {st st' : Store} (h : SameCatalog st st') : SamePartitions st st' where
  label l info' hi := ⟨info', by rw [← h.1]; exact hi, rfl, rfl, rfl⟩
  kept l hl := by rwa [h.1]
  format := h.2.1
  nextOid := Nat.le_of_eq h.2.2.symm

/-- A vertex insert leaves the catalog. -/
theorem sameCatalog_insertVertex {v : Vertex} {props : Gtype} (hr : (insertVertex s v props).Runs db () db') :
    SameCatalog db.store db'.store := by
  obtain ⟨_, -, -, -, -, -, hst⟩ := npInternalInsertVertex_inv hr
  rw [hst]
  exact ⟨rfl, rfl, rfl⟩

/-- So does an edge insert. -/
theorem sameCatalog_insertEdge {startV endV : Vertex} {e : Edge} {props : Gtype}
    (hr : (npInternalInsertEdge x s startV endV e props).Runs db () db') :
    SameCatalog db.store db'.store := by
  obtain ⟨_, db₁, db₂, -, -, -, -, -, hst, hlink, hlink'⟩ := npInternalInsertEdge_inv hr
  obtain ⟨_, _, _, _, -, -, -, -, -, -, -, hst₂⟩ := insertEdgeOneDirection_inv hlink
  obtain ⟨_, _, _, _, -, -, -, -, -, -, -, hst'⟩ := insertEdgeOneDirection_inv hlink'
  have h₁ : SameCatalog db.store db₁.store := by
    rw [hst]
    exact ⟨rfl, rfl, rfl⟩
  rw [hst']
  refine SameCatalog.trans (h₁.trans ?_) (sameCatalog_link _ _ _ _)
  rw [hst₂]
  exact sameCatalog_link _ _ _ _

theorem compactOwners_sameCatalog (st₀ : Store) (s : Session) (l : Nat) (arraylist o : Oid)
    (recs : List NeoLinkedListRecord) (owners : List Nat) :
    (compactOwners s l arraylist o recs owners).Keeps fun db => SameCatalog st₀ db.store := by
  refine compactOwners_keeps (fun α o f hf => ?_) (fun l id tbl tid => ?_) s l arraylist o recs owners
  · refine Prog.keeps_of_runs fun db a db' h hr => ?_
    obtain ⟨r, r', hro, hrun, rfl⟩ := runs_onRel.mp hr
    refine ⟨h.1, Eq.trans (funext fun o' => ?_) h.2.1, h.2.2⟩
    show (Function.update db.rels o (some r') o').map AdjRelation.format =
      (db.rels o').map AdjRelation.format
    by_cases ho : o' = o
    · rw [ho, Function.update_self, hro]
      exact congrArg some (hf r a r' hrun)
    · rw [Function.update_of_ne ho]
  · refine Prog.keeps_of_runs fun db u db' h hr => ?_
    obtain ⟨rec, -, hst⟩ := writeHead_inv hr
    rw [hst]
    exact h

/-- **What a compaction does**, and that it keeps the catalog. -/
theorem compactOldestLinkedListTable_inv (hcat : Catalog db.store)
    (h : (compactOldestLinkedListTable x s l).Runs db () db') :
    (∃ db₁ info₀ info row, CompactsOldest x s l db db₁ db' info₀ info row) ∧
      Catalog db'.store ∧ SequencesGrow db.store db'.store := by
  obtain ⟨arraylist, db₂, h₁, hk₁⟩ := Prog.runs_bind_iff.mp h
  obtain ⟨lab, hlab, hf, rfl⟩ := runs_readVertexLabel.mp h₁
  obtain rfl := Except.ok.inj hf
  obtain ⟨o, db₁, h₂, hk₂⟩ := Prog.runs_bind_iff.mp hk₁
  obtain ⟨info₀, info, row, hinfo₀, hrot, hinfo, hmem, hw, hle, rfl, harr, hst₁⟩ :=
    chooseOldest_inv hcat h₂
  have harr₀ : info₀.arraylist = lab.arraylist := by
    rw [store_vlabel hlab] at hinfo₀
    rw [← Option.some.inj hinfo₀]
    rfl
  have hgrow₁ : SequencesGrow db₂.store db₁.store := by
    rcases hst₁ with he | he
    · rw [he]
      exact SequencesGrow.refl _
    · rw [he]
      exact sequencesGrow_rotate hinfo₀
  have hcat₁ : Catalog db₁.store := by
    rcases hst₁ with he | he
    · rwa [he]
    · rw [he]
      exact hcat.rotate hinfo₀
  have hothers : ∀ l', l' ≠ l → db₁.store.vlabel l' = db₂.store.vlabel l' := fun l' hl => by
    rcases hst₁ with he | he
    · rw [he]
    · rw [he]
      exact Function.update_of_ne hl ..
  obtain ⟨t, ht⟩ := exists_linkedList (hcat₁.partition l info hinfo row hmem).1
  obtain ⟨n, db₃, h₃, hk₃⟩ := Prog.runs_bind_iff.mp hk₂
  have hblocks : (relationBlocks row.tbl).Runs db₁ t.nblocks db₁ :=
    runs_readRel.mpr ⟨_, ht, rfl, rfl⟩
  obtain ⟨rfl, rfl⟩ := h₃.det hblocks
  obtain ⟨recs, db₄, h₄, hk₄⟩ := Prog.runs_bind_iff.mp hk₃
  obtain ⟨rfl, rfl⟩ := h₄.det (scanBlocks_runs ht (List.range t.nblocks))
  obtain ⟨u, db₅, h₅, h₆⟩ := Prog.runs_bind_iff.mp hk₄
  obtain ⟨hvl, hfmt, hoid⟩ :=
    (compactOwners_sameCatalog db₄.store s l _ _ _ _).runs h₅ ⟨rfl, rfl, rfl⟩
  have hinfo₅ : db₅.store.vlabel l = some info := by rw [hvl, hinfo]
  obtain ⟨db₆, hmark, hst⟩ := markCompacted_runs hinfo₅ row.tbl
  obtain ⟨-, rfl⟩ := h₆.det hmark
  have hok := hcat₁.rows l info hinfo
  have hself : (db₅.store.markCompacted l info row.tbl).vlabel l =
      some (info.markCompacted row.tbl) := Function.update_self ..
  refine ⟨⟨db₄, info₀, info, row, hinfo₀, hrot, hinfo, hmem, hw, hle, ⟨t, db₅, ht, ?_⟩, ?_, ?_⟩,
    ?_, ?_⟩
  · rw [harr, harr₀]
    exact h₅
  · rw [hst, hself]
    exact congrArg some (markCompacted_eq_markRow hok.tbls hok.partitionsOk.ids hmem)
  · intro l' hl
    have hne : (db₅.store.markCompacted l info row.tbl).vlabel l' = db₅.store.vlabel l' :=
      Function.update_of_ne hl ..
    rw [hst, hne, hvl, hothers l' hl]
  · -- the row taken is the first one that is not compacted
    obtain ⟨db₇, info', old, row', rest, hrun, hold, -⟩ :=
      chooseOldest_runs hcat (by rw [hinfo₀]; rfl : (db₂.store.vlabel l).isSome)
    obtain ⟨htbl, rfl⟩ := h₂.det hrun
    obtain rfl := Option.some.inj (hinfo.symm.trans hold.label)
    have hold₅ : Oldest db₅.store l info old row' rest :=
      ⟨hinfo₅, hold.rows, hold.before, hold.after, hold.inactive⟩
    rw [hst, htbl]
    exact (hcat₁.same hvl hfmt hoid).markCompacted hold₅
  · refine hgrow₁.trans ?_
    rw [hst]
    have hv : (db₅.store.markCompacted l info row.tbl).vlabel =
        Function.update db₄.store.vlabel l (some (info.markCompacted row.tbl)) := by
      rw [← hvl]
      rfl
    refine sequencesGrow_update (Nat.le_of_eq hoid.symm) hv fun info' hi => ?_
    · obtain rfl := Option.some.inj (hinfo.symm.trans hi)
      exact Nat.le_refl _

/-! ## Over a run -/

/-- The catalogs of a run. -/
structure PartitionInv (saved st : Store) : Prop where
  before : Catalog saved
  now : Catalog st
  grow : SequencesGrow saved st

theorem SamePartitions.catalog {st st' : Store} (h : SamePartitions st st') (hcat : Catalog st) :
    Catalog st' := by
  refine hcat.congr_le (fun l info' hi => ?_) h.format h.nextOid
  obtain ⟨info, hinfo, harr, hmeta, hseq⟩ := h.label l info' hi
  rw [hmeta, hseq]
  exact ⟨info, hinfo, harr, hcat.rows l info hinfo, fun row hrow => ⟨row, hrow, rfl⟩⟩

theorem SamePartitions.grow {st st' : Store} (h : SamePartitions st st') : SequencesGrow st st' := by
  refine ⟨h.nextOid, fun l info hi => ?_⟩
  obtain ⟨info', hi'⟩ := Option.isSome_iff_exists.mp (h.kept l (by rw [hi]; rfl))
  obtain ⟨info₁, hinfo₁, -, -, hseq⟩ := h.label l info' hi'
  obtain rfl := Option.some.inj (hi.symm.trans hinfo₁)
  exact ⟨info', hi', Nat.le_of_eq hseq.symm⟩

/-- The rows a rollback restores are below the sequence, which has gone on. -/
theorem PartitionInv.rollback {saved st st' : Store} (h : PartitionInv saved st)
    (hback : RolledBack saved st st') : Catalog st' := by
  refine h.before.congr_le (fun l info' hi => ?_) hback.format
    (Nat.le_trans h.grow.nextOid hback.nextOid)
  obtain ⟨info, hinfo, harr, hmeta, hseq⟩ := hback.label l info' hi
  obtain ⟨info₁, hinfo₁, hle⟩ := h.grow.label l info hinfo
  rw [hmeta]
  exact ⟨info, hinfo, harr, (h.before.rows l info hinfo).mono (Nat.le_trans hle (hseq info₁ hinfo₁)),
    fun row hrow => ⟨row, hrow, rfl⟩⟩

theorem rotateActiveLinkedListTable_inv (hcat : Catalog db.store)
    (h : (rotateActiveLinkedListTable l).Runs db () db') :
    ∃ info, db.store.vlabel l = some info ∧ db'.store = db.store.rotate l info := by
  obtain ⟨o, db₁, h₁, hk⟩ := Prog.runs_bind_iff.mp h
  obtain ⟨-, rfl⟩ := Prog.runs_ret_iff.mp hk
  obtain ⟨info, hinfo, -, hst⟩ := createNewActiveLinkedList_inv hcat h₁
  exact ⟨info, hinfo, hst⟩

/-- **The catalogs hold over a run.** -/
theorem PartitionRun.inv (h : PartitionRun x saved db) : PartitionInv saved.store db.store := by
  induction h with
  | empty xacts => exact ⟨catalog_empty xacts, catalog_empty xacts, SequencesGrow.refl _⟩
  | label _ hnew hr ih =>
    have hst := buildVertexLabelInfrastructure_inv ih.now hnew hr
    refine ⟨ih.before, by rw [hst]; exact ih.now.addLabel hnew, ih.grow.trans ?_⟩
    rw [hst]
    refine sequencesGrow_update (Nat.le_add_right _ _) rfl fun info hi => ?_
    cases hnew.symm.trans hi
  | rotate _ hr ih =>
    obtain ⟨info, hinfo, hst⟩ := rotateActiveLinkedListTable_inv ih.now hr
    rw [hst]
    exact ⟨ih.before, ih.now.rotate hinfo, ih.grow.trans (sequencesGrow_rotate hinfo)⟩
  | compact _ hr ih =>
    obtain ⟨-, hcat, hgrow⟩ := compactOldestLinkedListTable_inv ih.now hr
    exact ⟨ih.before, hcat, ih.grow.trans hgrow⟩
  | other _ hsame ih => exact ⟨ih.before, hsame.catalog ih.now, ih.grow.trans hsame.grow⟩
  | commit _ ih => exact ⟨ih.now, ih.now, SequencesGrow.refl _⟩
  | rollback _ hback ih =>
    have hcat := ih.rollback hback
    exact ⟨hcat, hcat, SequencesGrow.refl _⟩

/-- **The partitions of every label, over every run**: one is active and not compacted, ids are
unique, and a compaction takes the oldest that is waiting, after a rotation if there is none, and marks
it and nothing else. -/
theorem partitions_run (h : PartitionRun x saved db) :
    (∀ l info, db.store.vlabel l = some info → PartitionsOk info.linkedListMeta) ∧
      ∀ s l db', (compactOldestLinkedListTable x s l).Runs db () db' →
        ∃ db₁ info₀ info row, CompactsOldest x s l db db₁ db' info₀ info row :=
  ⟨fun l info hi => (h.inv.now.rows l info hi).partitionsOk,
    fun _ _ _ hr => (compactOldestLinkedListTable_inv h.inv.now hr).1⟩

end

/-- The first of the calls of `exampleAdjacency`. -/
def examplePrefix (n : Nat) : Db := execAll (exampleAdjacency.take n) (Db.empty exampleXacts5)

theorem examplePrefix_run :
    PartitionRun exampleUnspecified (Db.empty exampleXacts5) (examplePrefix 7) := by
  have hlabel : PartitionRun exampleUnspecified (Db.empty exampleXacts5) (examplePrefix 1) :=
    (PartitionRun.empty exampleXacts5).label rfl (Prog.runs_of_ok rfl)
  have helabel : SameCatalog (examplePrefix 1).store (examplePrefix 2).store := ⟨rfl, rfl, rfl⟩
  have hv : (insertVertex ⟨5, 0⟩ ⟨1, 1, 0⟩ npEmptyGtypeObject).Runs (examplePrefix 2) () (examplePrefix 3) :=
    Prog.runs_of_ok rfl
  have hw : (insertVertex ⟨5, 0⟩ ⟨2, 1, 0⟩ npEmptyGtypeObject).Runs (examplePrefix 3) () (examplePrefix 4) :=
    Prog.runs_of_ok rfl
  have hedge : (insertEdge exampleUnspecified ⟨5, 0⟩ ⟨1, 1, 0⟩ ⟨2, 1, 0⟩ ⟨1, 1, 0, 1, 1, 1, 2⟩
      npEmptyGtypeObject).Runs (examplePrefix 4) () (examplePrefix 5) := Prog.runs_of_ok rfl
  have hloop : (insertEdge exampleUnspecified ⟨5, 0⟩ ⟨1, 1, 0⟩ ⟨1, 1, 0⟩ ⟨2, 1, 0, 1, 1, 1, 1⟩
      npEmptyGtypeObject).Runs (examplePrefix 5) () (examplePrefix 6) := Prog.runs_of_ok rfl
  have hinserts := ((helabel.trans (sameCatalog_insertVertex hv)).trans (sameCatalog_insertVertex hw)).trans
    ((sameCatalog_insertEdge hedge).trans (sameCatalog_insertEdge hloop))
  exact (hlabel.other hinserts.samePartitions).rotate (Prog.runs_of_ok rfl)

/-- After a rotation the partition with the records of two edges is compacted. -/
theorem partitions_run_example :
    (∀ l info, (examplePrefix 7).store.vlabel l = some info → PartitionsOk info.linkedListMeta) ∧
      ∃ db', (compactOldestLinkedListTable exampleUnspecified ⟨5, 0⟩ 1).Runs (examplePrefix 7) () db' ∧
        ∃ db₁ info₀ info row,
          CompactsOldest exampleUnspecified ⟨5, 0⟩ 1 (examplePrefix 7) db₁ db' info₀ info row := by
  obtain ⟨hrows, hcompacts⟩ := partitions_run examplePrefix_run
  have hr : (compactOldestLinkedListTable exampleUnspecified ⟨5, 0⟩ 1).Runs (examplePrefix 7) () _ :=
    Prog.runs_of_ok rfl
  exact ⟨hrows, _, hr, hcompacts _ _ _ hr⟩

end NeoPostGraph
