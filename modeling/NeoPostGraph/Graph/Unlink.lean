import NeoPostGraph.Graph.Adjacency

/-!
# Deleting one edge

`np_delete_edge_from_adj_list` walks a chain and stamps the first undeleted member with the edge's
id. It does not compare the label, and edge ids are drawn per label.

* `Position`: a member's node and its place in the node.
* `Store.FirstOpen`: the member the walk stops at.
* `DeletesExactly`: what deleting an edge is meant to do: one member of the edge stamped in the
  chain of each endpoint, its tuple stamped, nothing else changed.

Results:
* `unlinkWalk_runs`, `unlinkWalk_inv`: the walk stamps the first open member, or nothing.
* `deleteEdge_exact_iff`: deleting an edge is exact just when the first open members belong to it.
-/

namespace NeoPostGraph

open SlottedPage LinkedChain

/-- A member of an adjacency node: the node's address, the member's index. -/
abbrev Position := Addr × Nat

/-- The test of the walk, on a member. -/
def AdjListMember.Matches (targetEdgeId : Nat) (m : AdjListMember) : Prop :=
  matchesEdge targetEdgeId m.edgeId m.toRecordHeader = true

instance (targetEdgeId : Nat) (m : AdjListMember) : Decidable (m.Matches targetEdgeId) :=
  inferInstanceAs (Decidable (_ = _))

namespace AdjNode

/-- Stamp the member at an index deleted. -/
def stampAt (s : Session) (i : Nat) : AdjNode → AdjNode
  | linked rec => linked (if i = 0 then stampRecord s rec else rec)
  | block rec => block { rec with adjList := rec.adjList.modify i (stampMember s) }

@[simp] theorem next_stampAt (a : Addr) (s : Session) (i : Nat) (n : AdjNode) :
    (n.stampAt s i).next a = n.next a := by
  cases n with
  | linked rec => cases i <;> rfl
  | block rec => rfl

@[simp] theorem members_stampAt (s : Session) (i : Nat) (n : AdjNode) :
    (n.stampAt s i).members = n.members.modify i (stampMember s) := by
  cases n with
  | linked rec =>
    cases i with
    | zero => rfl
    | succ i => simp [stampAt, members]
  | block rec => rfl

end AdjNode

namespace Store

/-- The member at a position. -/
def memberAt (st : Store) (p : Position) : Option AdjListMember :=
  (st.node p.1).bind fun n => n.members[p.2]?

/-- Stamp the member at a position deleted. -/
def stamp (st : Store) (s : Session) (p : Position) : Store :=
  { st with node := Function.update st.node p.1 ((st.node p.1).map (AdjNode.stampAt s p.2)) }

/-- The position is in a node that the links from `start` lead to. -/
def InChain (st : Store) (start : Option Addr) (p : Position) : Prop :=
  ∃ pre, Seg st.node AdjNode.next start pre (some p.1)

/-- The member at `p` is the first one from `start` that the walk for this edge id stops at, when
the one at `skip` has been stamped already. -/
def FirstOpen (st : Store) (start : Option Addr) (edgeId : Nat) (skip : Option Position)
    (p : Position) : Prop :=
  skip ≠ some p ∧ (∃ m, st.memberAt p = some m ∧ m.Matches edgeId) ∧
    ∃ pre, Seg st.node AdjNode.next start pre (some p.1) ∧
      ∀ q m, (q.1 ∈ pre.map Prod.fst ∨ q.1 = p.1 ∧ q.2 < p.2) → st.memberAt q = some m →
        m.Matches edgeId → skip = some q

end Store

section

variable {st : Store} {s : Session} {p q : Position} {edgeId : Nat}

theorem stamped_not_matches (hs : fullXidIsValid s.fxid = true) (m : AdjListMember) :
    ¬ (stampMember s m).Matches edgeId := by
  unfold AdjListMember.Matches matchesEdge stampMember
  simp [hs]

/-- **A stamp changes one member.** -/
theorem memberAt_stamp (st : Store) (s : Session) (p q : Position) :
    (st.stamp s p).memberAt q =
      if q = p then (st.memberAt q).map (stampMember s) else st.memberAt q := by
  unfold Store.memberAt Store.stamp
  by_cases ha : q.1 = p.1
  · simp only [ha, Function.update_self]
    cases hn : st.node p.1 with
    | none => simp
    | some n =>
      simp only [Option.map_some, Option.bind_some, AdjNode.members_stampAt, List.getElem?_modify]
      by_cases hi : q.2 = p.2
      · have hqp : q = p := Prod.ext ha hi
        simp [hqp]
      · have hqp : q ≠ p := fun he => hi (by rw [he])
        simp [Ne.symm hi, hqp]
  · have hqp : q ≠ p := fun he => ha (by rw [he])
    simp only [Function.update_of_ne ha, hqp, if_false]

/-- A stamp keeps every link. -/
theorem seg_stamp {a b : Option Addr} {path : NodePath}
    (h : Seg st.node AdjNode.next a path b) (s : Session) (p : Position) :
    Seg (st.stamp s p).node AdjNode.next a (setNode p.1 (AdjNode.stampAt s p.2) path) b := by
  refine h.set (fun y => ?_) fun n _ => AdjNode.next_stampAt _ _ _ _
  show Function.update _ _ _ _ = _
  rw [Function.update_apply]
  split
  · next he => rw [he]
  · rfl

/-- Stamping twice at one place is stamping once, so a stamp can be taken back for the links. -/
theorem seg_of_stamp {a b : Option Addr} {path : NodePath}
    (h : Seg (st.stamp s p).node AdjNode.next a path b) :
    ∃ path', path'.map Prod.fst = path.map Prod.fst ∧ Seg st.node AdjNode.next a path' b := by
  induction h with
  | nil a => exact ⟨[], rfl, Seg.nil a⟩
  | @cons a n xs b hn _ ih =>
    obtain ⟨path', hfst, hseg⟩ := ih
    change Function.update _ _ _ _ = _ at hn
    rw [Function.update_apply] at hn
    split at hn
    · next he =>
      obtain ⟨n', hn', rfl⟩ := Option.map_eq_some_iff.mp hn
      rw [← he] at hn'
      rw [AdjNode.next_stampAt] at hseg
      exact ⟨(a, n') :: path', by rw [List.map_cons, List.map_cons, hfst], Seg.cons hn' hseg⟩
    · exact ⟨(a, n) :: path', by rw [List.map_cons, List.map_cons, hfst], Seg.cons hn hseg⟩

/-- **The first open member after a stamp** is the first one before it that is not the stamped. -/
theorem firstOpen_stamp (hs : fullXidIsValid s.fxid = true) {start : Option Addr} :
    (st.stamp s p).FirstOpen start edgeId none q ↔ st.FirstOpen start edgeId (some p) q := by
  have hopen : ∀ r, (∃ m, (st.stamp s p).memberAt r = some m ∧ m.Matches edgeId) ↔
      p ≠ r ∧ ∃ m, st.memberAt r = some m ∧ m.Matches edgeId := by
    intro r
    rw [memberAt_stamp]
    by_cases hr : r = p
    · subst hr
      simp only [if_true, ne_eq, not_true_eq_false, false_and, iff_false]
      rintro ⟨m, hm, hmatch⟩
      obtain ⟨m', -, rfl⟩ := Option.map_eq_some_iff.mp hm
      exact stamped_not_matches hs m' hmatch
    · simp [hr, Ne.symm hr]
  unfold Store.FirstOpen
  constructor
  · rintro ⟨-, hm, pre, hseg, hbefore⟩
    obtain ⟨hne, hm⟩ := (hopen q).mp hm
    obtain ⟨pre', hfst, hseg'⟩ := seg_of_stamp hseg
    refine ⟨fun he => hne (Option.some.inj he), hm, pre', hseg', fun r m hr hmr hmatch => ?_⟩
    by_contra hc
    have hne' : p ≠ r := fun he => hc (by rw [he])
    obtain ⟨m', hm', hmatch'⟩ := (hopen r).mpr ⟨hne', m, hmr, hmatch⟩
    rw [hfst] at hr
    cases hbefore r m' hr hm' hmatch'
  · rintro ⟨hne, hm, pre, hseg, hbefore⟩
    have hne' : p ≠ q := fun he => hne (by rw [he])
    refine ⟨by simp, (hopen q).mpr ⟨hne', hm⟩, _, seg_stamp hseg s p, fun r m hr hmr hmatch => ?_⟩
    rw [map_fst_setNode] at hr
    obtain ⟨hpr, m', hm', hmatch'⟩ := (hopen r).mp ⟨m, hmr, hmatch⟩
    exact absurd (Option.some.inj (hbefore r m' hr hm' hmatch')) hpr

end

/-! ## The walk -/

section

variable {db db' : Db} {s : Session} {targetEdgeId : Nat} {tbl : Oid} {tid : ItemPointer}

/-- The index of the first member of a node that the walk stops at. -/
def AdjNode.firstMatch (targetEdgeId : Nat) (n : AdjNode) : Option Nat :=
  n.members.findIdx? fun m => matchesEdge targetEdgeId m.edgeId m.toRecordHeader

theorem stampFirstMember_eq {ms : List AdjListMember} {i : Nat}
    (h : (ms.findIdx? fun m => matchesEdge targetEdgeId m.edgeId m.toRecordHeader) = some i) :
    stampFirstMember s targetEdgeId ms = ms.modify i (stampMember s) := by
  induction ms generalizing i with
  | nil => cases h
  | cons m ms ih =>
    rw [List.findIdx?_cons] at h
    unfold stampFirstMember
    split at h
    · next hm =>
      obtain rfl := Option.some.inj h
      rw [if_pos hm]
      rfl
    · next hm =>
      obtain ⟨j, hj, rfl⟩ := Option.map_eq_some_iff.mp h
      rw [if_neg hm, ih hj]
      rfl

theorem unlinkAt_inv {r : Option (Oid × ItemPointer)}
    (h : (unlinkAt s targetEdgeId tbl tid).Runs db r db') :
    ∃ n, db.store.node (tbl, tid) = some n ∧
      ((∃ i, n.firstMatch targetEdgeId = some i ∧ r = none ∧
          db'.store = db.store.stamp s ((tbl, tid), i)) ∨
        (n.firstMatch targetEdgeId = none ∧ db'.store = db.store ∧
          ∃ p, r = some p ∧ cursor p.1 p.2 = n.next (tbl, tid))) := by
  obtain ⟨r₀, r₁, hr, hf, rfl⟩ := runs_onRel.mp h
  cases r₀ with
  | linkedList t =>
    obtain ⟨rec, hi, hf⟩ := bind_ok hf
    have hget := readItem_ok hi
    have hnode : db.store.node (tbl, tid) = some (.linked rec) := by
      rw [store_linked hr, hget]
      rfl
    refine ⟨.linked rec, hnode, ?_⟩
    unfold AdjNode.firstMatch AdjNode.members
    rw [List.findIdx?_singleton]
    change (if matchesEdge targetEdgeId rec.id rec.toRecordHeader = true then _ else _) = _ at hf
    split at hf
    · next hm =>
      obtain ⟨rfl, rfl⟩ := Prod.mk.inj (Except.ok.inj hf)
      refine Or.inl ⟨0, if_pos hm, rfl, (store_modifyLinked hr hget _).trans ?_⟩
      unfold Store.stamp
      rw [hnode]
      rfl
    · next hm =>
      obtain ⟨rfl, rfl⟩ := Prod.mk.inj (Except.ok.inj hf)
      refine Or.inr ⟨if_neg hm, ?_, _, rfl, rfl⟩
      unfold Db.setRel
      rw [Function.update_eq_self_iff.mpr hr.symm]
  | arrayList t =>
    obtain ⟨rec, hi, hf⟩ := bind_ok hf
    have hget := readItem_ok hi
    have hnode : db.store.node (tbl, tid) = some (.block rec) := by
      rw [store_block hr, hget]
      rfl
    refine ⟨.block rec, hnode, ?_⟩
    change (if rec.adjList.any _ = true then _ else _) = _ at hf
    unfold AdjNode.firstMatch AdjNode.members
    split at hf
    · next hm =>
      obtain ⟨rfl, rfl⟩ := Prod.mk.inj (Except.ok.inj hf)
      have hs : ∃ i, (rec.adjList.findIdx? fun m =>
          matchesEdge targetEdgeId m.edgeId m.toRecordHeader) = some i := by
        rw [← Option.isSome_iff_exists, List.findIdx?_isSome]
        exact hm
      obtain ⟨i, hi⟩ := hs
      refine Or.inl ⟨i, hi, rfl, (store_modifyBlock hr hget _).trans ?_⟩
      unfold Store.stamp
      rw [hnode, stampFirstMember_eq hi]
      rfl
    · next hm =>
      obtain ⟨rfl, rfl⟩ := Prod.mk.inj (Except.ok.inj hf)
      refine Or.inr ⟨?_, ?_, _, rfl, rfl⟩
      · rw [List.findIdx?_eq_none_iff]
        simpa using hm
      · unfold Db.setRel
        rw [Function.update_eq_self_iff.mpr hr.symm]

theorem unlinkAt_runs {n : AdjNode} (h : db.store.node (tbl, tid) = some n) (s : Session)
    (targetEdgeId : Nat) : ∃ r db', (unlinkAt s targetEdgeId tbl tid).Runs db r db' := by
  cases n with
  | linked rec =>
    obtain ⟨t, ht, hget⟩ := rel_of_linked h
    by_cases hm : matchesEdge targetEdgeId rec.id rec.toRecordHeader = true
    · exact ⟨none, onRel_runs ht (by
        simp only [readItem_of_get hget, bind, Except.bind, if_pos hm]
        rfl)⟩
    · exact ⟨some (rec.nextTbl, rec.nextItemptr), onRel_runs ht (by
        simp only [readItem_of_get hget, bind, Except.bind, if_neg hm]
        rfl)⟩
  | block rec =>
    obtain ⟨t, ht, hget⟩ := rel_of_block h
    by_cases hm : (rec.adjList.any fun m =>
        matchesEdge targetEdgeId m.edgeId m.toRecordHeader) = true
    · exact ⟨none, onRel_runs ht (by
        simp only [readItem_of_get hget, bind, Except.bind, if_pos hm]
        rfl)⟩
    · exact ⟨some (tbl, rec.nextItemptr), onRel_runs ht (by
        simp only [readItem_of_get hget, bind, Except.bind, if_neg hm]
        rfl)⟩

/-- A member before the first match of a node does not match. -/
theorem firstMatch_before {n : AdjNode} {i j : Nat} {m : AdjListMember}
    (h : n.firstMatch targetEdgeId = some i) (hj : j < i) (hm : n.members[j]? = some m) :
    ¬ m.Matches targetEdgeId := by
  obtain ⟨hi, -, hbefore⟩ := List.findIdx?_eq_some_iff_getElem.mp h
  obtain ⟨hlt, rfl⟩ := List.getElem?_eq_some_iff.mp hm
  exact hbefore j hj

theorem firstMatch_none {n : AdjNode} (h : n.firstMatch targetEdgeId = none) {j : Nat}
    {m : AdjListMember} (hm : n.members[j]? = some m) : ¬ m.Matches targetEdgeId := by
  have hno := List.findIdx?_eq_none_iff.mp h m (List.mem_of_getElem? hm)
  unfold AdjListMember.Matches
  rw [hno]
  exact Bool.false_ne_true

/-- The node of the first open member has it first. -/
theorem firstMatch_of_firstOpen {st : Store} {start : Option Addr} {p : Position}
    (h : st.FirstOpen start targetEdgeId none p) :
    ∃ n, st.node p.1 = some n ∧ n.firstMatch targetEdgeId = some p.2 := by
  obtain ⟨-, ⟨m, hm, hmatch⟩, pre, -, hbefore⟩ := h
  obtain ⟨n, hn, hget⟩ := Option.bind_eq_some_iff.mp hm
  obtain ⟨hlt, rfl⟩ := List.getElem?_eq_some_iff.mp hget
  refine ⟨n, hn, List.findIdx?_eq_some_iff_getElem.mpr ⟨hlt, hmatch, fun j hj hc => ?_⟩⟩
  have hjm : st.memberAt (p.1, j) = some n.members[j] := by
    unfold Store.memberAt
    rw [hn]
    exact List.getElem?_eq_getElem _
  cases hbefore (p.1, j) _ (Or.inr ⟨rfl, hj⟩) hjm hc

/-- The walk passes a node without open members. -/
theorem firstMatch_eq_none {st : Store} {a : Addr} {n : AdjNode} (hn : st.node a = some n)
    (h : ∀ i m, st.memberAt (a, i) = some m → ¬ m.Matches targetEdgeId) :
    n.firstMatch targetEdgeId = none := by
  refine List.findIdx?_eq_none_iff.mpr fun m hm => ?_
  obtain ⟨i, hi⟩ := List.mem_iff_getElem?.mp hm
  have hmem : st.memberAt (a, i) = some m := by
    unfold Store.memberAt
    rw [hn]
    exact hi
  exact Bool.not_eq_true _ ▸ h i m hmem

/-- **The walk stamps the first open member**, given fuel to get there. -/
theorem unlinkWalk_runs {p : Position} {pre : NodePath} {n : AdjNode}
    (hpre : Seg db.store.node AdjNode.next (cursor tbl tid) pre (some p.1))
    (hbefore : ∀ x ∈ pre, x.2.firstMatch targetEdgeId = none) (hn : db.store.node p.1 = some n)
    (hfm : n.firstMatch targetEdgeId = some p.2) :
    ∃ db', db'.store = db.store.stamp s p ∧
      ∀ fuel, pre.length < fuel → (unlinkWalk s targetEdgeId fuel tbl tid).Runs db () db' := by
  induction pre generalizing db tbl tid with
  | nil =>
    obtain ⟨hp, hv⟩ := cursor_eq_some.mp hpre.nil_inv
    rw [hp] at hn
    obtain ⟨r, db', hr⟩ := unlinkAt_runs hn s targetEdgeId
    obtain ⟨n', hn', hcase⟩ := unlinkAt_inv hr
    obtain rfl := Option.some.inj (hn.symm.trans hn')
    rw [hfm] at hcase
    rcases hcase with ⟨i, hi, rfl, hst⟩ | ⟨hno, -⟩
    · obtain rfl := Option.some.inj hi
      refine ⟨db', by rw [hst, ← hp], fun fuel hfuel => ?_⟩
      obtain ⟨k, rfl⟩ := Nat.exists_eq_succ_of_ne_zero (Nat.ne_of_gt hfuel)
      unfold unlinkWalk
      rw [if_pos (by rw [Bool.and_eq_true]; exact hv)]
      exact hr.bind (Prog.runs_ret_iff.mpr ⟨rfl, rfl⟩)
    · cases hno
  | cons x pre ih =>
    obtain ⟨hcur, hxn, hrest⟩ := hpre.cons_inv
    obtain ⟨hx, hv⟩ := cursor_eq_some.mp hcur
    rw [hx] at hxn hrest
    obtain ⟨r, db₁, hr⟩ := unlinkAt_runs hxn s targetEdgeId
    obtain ⟨n', hn', hcase⟩ := unlinkAt_inv hr
    obtain rfl := Option.some.inj (hxn.symm.trans hn')
    rw [hbefore x List.mem_cons_self] at hcase
    rcases hcase with ⟨i, hi, -⟩ | ⟨-, hst, ⟨ntbl, ntid⟩, rfl, hnext⟩
    · cases hi
    · rw [← hnext, ← hst] at hrest
      rw [← hst] at hn
      obtain ⟨db', hst', hruns⟩ := ih hrest (fun y hy => hbefore y (List.mem_cons_of_mem _ hy)) hn
      refine ⟨db', by rw [hst', hst], fun fuel hfuel => ?_⟩
      obtain ⟨k, rfl⟩ := Nat.exists_eq_succ_of_ne_zero (Nat.ne_of_gt (Nat.zero_lt_of_lt hfuel))
      unfold unlinkWalk
      rw [if_pos (by rw [Bool.and_eq_true]; exact hv)]
      exact hr.bind (hruns k (Nat.lt_of_succ_lt_succ hfuel))

/-- What a walk that ends has done: it stamped the first open member, or there is none. -/
theorem unlinkWalk_inv {fuel : Nat} {u : Unit}
    (h : (unlinkWalk s targetEdgeId fuel tbl tid).Runs db u db') :
    (∃ p, db.store.FirstOpen (cursor tbl tid) targetEdgeId none p ∧
        db'.store = db.store.stamp s p) ∨
      (db'.store = db.store ∧ ∃ path, Seg db.store.node AdjNode.next (cursor tbl tid) path none ∧
        ∀ x ∈ path, x.2.firstMatch targetEdgeId = none) := by
  induction fuel generalizing db tbl tid with
  | zero => exact absurd h Prog.runs_fail_iff.mp
  | succ fuel ih =>
    unfold unlinkWalk at h
    split at h
    · next hv =>
      obtain ⟨r, db₁, h₁, h₂⟩ := Prog.runs_bind_iff.mp h
      obtain ⟨n, hn, hcase⟩ := unlinkAt_inv h₁
      have hcur : cursor tbl tid = some (tbl, tid) := if_pos hv
      rw [hcur]
      rcases hcase with ⟨i, hi, rfl, hst⟩ | ⟨hno, hst, ⟨ntbl, ntid⟩, rfl, hnext⟩
      · obtain ⟨-, rfl⟩ := Prog.runs_ret_iff.mp h₂
        obtain ⟨hlt, hm, -⟩ := List.findIdx?_eq_some_iff_getElem.mp hi
        have hget : ∀ j, db.store.memberAt ((tbl, tid), j) = n.members[j]? := by
          intro j
          unfold Store.memberAt
          rw [hn]
          rfl
        refine Or.inl ⟨((tbl, tid), i), ⟨by simp, ⟨_, ?_, hm⟩, [], Seg.nil _, ?_⟩, hst⟩
        · rw [hget]
          exact List.getElem?_eq_getElem hlt
        · rintro ⟨a, j⟩ m (hc | ⟨rfl, hj⟩) hmj hmatch
          · cases hc
          · rw [hget] at hmj
            exact absurd hmatch (firstMatch_before hi hj hmj)
      · rcases ih h₂ with ⟨p, ⟨-, hm, pre, hseg, hbefore⟩, hst'⟩ | ⟨hst', path, hseg, hnone⟩
        · rw [hst, hnext] at hseg
          rw [hst] at hm hbefore hst'
          refine Or.inl ⟨p, ⟨by simp, hm, _, Seg.cons hn hseg, fun q m hq hmq hmatch => ?_⟩, hst'⟩
          rw [List.map_cons, List.mem_cons, or_assoc] at hq
          rcases hq with hq | hq
          · unfold Store.memberAt at hmq
            rw [hq, hn] at hmq
            exact absurd hmatch (firstMatch_none hno hmq)
          · exact hbefore q m hq hmq hmatch
        · rw [hst, hnext] at hseg
          rw [hst] at hst'
          refine Or.inr ⟨hst', _, Seg.cons hn hseg, fun x hx => ?_⟩
          rcases List.mem_cons.mp hx with rfl | hx
          · exact hno
          · exact hnone x hx
    · next hv =>
      obtain ⟨-, rfl⟩ := Prog.runs_ret_iff.mp h
      have hcur : cursor tbl tid = none := if_neg hv
      rw [hcur]
      exact Or.inr ⟨rfl, [], Seg.nil none, fun x hx => absurd hx List.not_mem_nil⟩

theorem npDeleteEdgeFromAdjList_inv {fuel l id : Nat} {u : Unit}
    (h : (npDeleteEdgeFromAdjList fuel s id l targetEdgeId).Runs db u db') :
    (∃ p, db.store.FirstOpen (db.store.head l id) targetEdgeId none p ∧
        db'.store = db.store.stamp s p) ∨ db'.store = db.store := by
  obtain ⟨r, db₁, h₁, h₂⟩ := Prog.runs_bind_iff.mp h
  obtain ⟨hr, rfl⟩ := Prog.runs_read_iff.mp h₁
  cases hlab : db₁.vlabels l with
  | none =>
    simp only [hlab] at hr
    obtain rfl := Except.ok.inj hr
    obtain ⟨-, rfl⟩ := Prog.runs_ret_iff.mp h₂
    exact Or.inr rfl
  | some lab =>
    simp only [hlab] at hr
    obtain rfl := Except.ok.inj hr
    have hcur : cursor (getCurrentHeadTid lab.physMap.table id).1
        (getCurrentHeadTid lab.physMap.table id).2 = db₁.store.head l id :=
      readHead_cursor (runs_readVertexLabel.mpr ⟨lab, hlab, rfl, rfl⟩)
    rw [← hcur]
    exact (unlinkWalk_inv h₂).imp (fun hp => hp) And.left

theorem npDeleteEdgeFromAdjList_runs {l id : Nat} {p : Position}
    (h : db.store.FirstOpen (db.store.head l id) targetEdgeId none p) (s : Session) :
    ∃ db' fuel₀, db'.store = db.store.stamp s p ∧ ∀ fuel, fuel₀ ≤ fuel →
      (npDeleteEdgeFromAdjList fuel s id l targetEdgeId).Runs db () db' := by
  obtain ⟨n, hn, hfm⟩ := firstMatch_of_firstOpen h
  obtain ⟨-, -, pre, hseg, hbefore⟩ := h
  have hnone : ∀ x ∈ pre, x.2.firstMatch targetEdgeId = none := fun x hx =>
    firstMatch_eq_none (hseg.get_of_mem hx) fun i m hm hmatch => by
      cases hbefore (x.1, i) m (Or.inl (List.mem_map_of_mem hx)) hm hmatch
  cases hlab : db.vlabels l with
  | none =>
    have hhead : db.store.head l id = none := by
      unfold Store.head Db.store
      simp [hlab]
    rw [hhead] at hseg
    cases hseg
  | some lab =>
    have hcur : cursor (getCurrentHeadTid lab.physMap.table id).1
        (getCurrentHeadTid lab.physMap.table id).2 = db.store.head l id :=
      readHead_cursor (runs_readVertexLabel.mpr ⟨lab, hlab, rfl, rfl⟩)
    rw [← hcur] at hseg
    obtain ⟨db', hst, hruns⟩ := unlinkWalk_runs (s := s) hseg hnone hn hfm
    refine ⟨db', pre.length + 1, hst, fun fuel hfuel => ?_⟩
    refine Prog.Runs.bind (a := some (getCurrentHeadTid lab.physMap.table id))
      (Prog.runs_read_iff.mpr ⟨?_, rfl⟩) (hruns fuel hfuel)
    simp only [hlab]

end

/-! ## Deleting an edge -/

/-- The edge of this label and id is live to the session: some tuple of it is, and no other
transaction is deleting it. -/
structure LiveEdge (st : Store) (s : Session) (l id : Nat) (tid : ItemPointer)
    (t : EntityTuple Edge) : Prop where
  tuple : st.etuple (l, tid) = some t
  id_eq : t.hdr.id = id
  live : Updatable st.xacts s.own t

/-- The start vertex of an edge. -/
def Edge.startKey (e : Edge) : VertexKey := (e.startLabel, e.startId)

/-- The end vertex of an edge. -/
def Edge.endKey (e : Edge) : VertexKey := (e.endLabel, e.endId)

/-- An undeleted member of the edge `id` of label `l` in the chain of `v`. -/
def Store.OwnMember (st : Store) (v : VertexKey) (l id : Nat) (p : Position) : Prop :=
  st.InChain (st.head v.1 v.2) p ∧ ∃ m, st.memberAt p = some m ∧ m.edgeLid = l ∧ m.Matches id

/-- The store with the edge tuple stamped. -/
def Store.stampEdge (st : Store) (s : Session) (l : Nat) (tid : ItemPointer)
    (t : EntityTuple Edge) : Store :=
  { st with etuple := Function.update st.etuple (l, tid) (some (stampTuple s t)) }

/-- **What deleting a live edge is meant to do**: it ends, and has stamped one member of the edge in
the chain of each endpoint, two different ones, and the edge's tuple. Nothing else has changed. -/
def DeletesExactly (db : Db) (s : Session) (l id : Nat) (tid : ItemPointer)
    (t : EntityTuple Edge) : Prop :=
  ∃ db' fuel₀ p₁ p₂, (∀ fuel, fuel₀ ≤ fuel → (deleteEdge fuel s id l).Runs db () db') ∧
    p₁ ≠ p₂ ∧ db.store.OwnMember t.entity.startKey l id p₁ ∧
    db.store.OwnMember t.entity.endKey l id p₂ ∧
    db'.store = ((db.store.stampEdge s l tid t).stamp s p₁).stamp s p₂

/-- The edge's map slot points to its tuple, and the first open members of its id in the chains of
its endpoints are members of its label: in the chain of the end, the first one besides the one
already stamped, which for a self-loop is the second. -/
def FirstOpenOwn (st : Store) (l id : Nat) (tid : ItemPointer) (e : Edge) : Prop :=
  (∃ rec, st.eslot (l, edgeSlot id) = some rec ∧ rec.eItemptr = tid) ∧
  ∃ p₁ p₂, st.FirstOpen (st.head e.startKey.1 e.startKey.2) id none p₁ ∧
    st.FirstOpen (st.head e.endKey.1 e.endKey.2) id (some p₁) p₂ ∧
    (∃ m, st.memberAt p₁ = some m ∧ m.edgeLid = l) ∧ ∃ m, st.memberAt p₂ = some m ∧ m.edgeLid = l

section

variable {db db' : Db} {s : Session} {l id fuel : Nat} {tid : ItemPointer} {t : EntityTuple Edge}

/-- Stamp the members at these positions. -/
def Store.stamps (st : Store) (s : Session) (ps : List Position) : Store :=
  ps.foldl (fun st p => st.stamp s p) st

theorem deleteEdge_inv {u : Unit} (h : (deleteEdge fuel s id l).Runs db u db') :
    ∃ rec t ps, db.store.eslot (l, edgeSlot id) = some rec ∧
      db.store.etuple (l, rec.eItemptr) = some t ∧ Updatable db.store.xacts s.own t ∧
      db'.store = (db.store.stampEdge s l rec.eItemptr t).stamps s ps ∧
      (ps.length ≤ 1 ∨ ∃ p₁ p₂, ps = [p₁, p₂] ∧
        db.store.FirstOpen (db.store.head t.entity.startKey.1 t.entity.startKey.2) id none p₁ ∧
        (db.store.stamp s p₁).FirstOpen
          (db.store.head t.entity.endKey.1 t.entity.endKey.2) id none p₂) := by
  obtain ⟨rec, db₀, h₀, h⟩ := Prog.runs_bind_iff.mp h
  obtain ⟨e, db₁, h₁, h⟩ := Prog.runs_bind_iff.mp h
  obtain ⟨u₂, db₂, h₂, h₃⟩ := Prog.runs_bind_iff.mp h
  obtain ⟨rfl, hrec⟩ := readEdgeSlot_iff.mp h₀
  obtain ⟨t, ht, hup, rfl, hst₁⟩ := tombstoneEdge_inv h₁
  change db₁.store = db₀.store.stampEdge s l rec.eItemptr t at hst₁
  rcases npDeleteEdgeFromAdjList_inv h₂ with ⟨p₁, hp₁, hst₂⟩ | hst₂ <;>
    rcases npDeleteEdgeFromAdjList_inv h₃ with ⟨p₂, hp₂, hst₃⟩ | hst₃
  · rw [hst₁] at hp₁ hst₂
    rw [hst₂] at hp₂ hst₃
    exact ⟨rec, t, [p₁, p₂], hrec, ht, hup, hst₃, Or.inr ⟨p₁, p₂, rfl, hp₁, hp₂⟩⟩
  · rw [hst₁] at hst₂
    rw [hst₂] at hst₃
    exact ⟨rec, t, [p₁], hrec, ht, hup, hst₃, Or.inl (by simp)⟩
  · rw [hst₁] at hst₂
    rw [hst₂] at hst₃
    exact ⟨rec, t, [p₂], hrec, ht, hup, hst₃, Or.inl (by simp)⟩
  · rw [hst₁] at hst₂
    rw [hst₂] at hst₃
    exact ⟨rec, t, [], hrec, ht, hup, hst₃, Or.inl (by simp)⟩

theorem deleteEdge_runs {rec : NeoEdgePhysMapRecord} {p₁ p₂ : Position}
    (hrec : db.store.eslot (l, edgeSlot id) = some rec)
    (ht : db.store.etuple (l, rec.eItemptr) = some t) (hup : Updatable db.store.xacts s.own t)
    (hp₁ : db.store.FirstOpen (db.store.head t.entity.startKey.1 t.entity.startKey.2) id none p₁)
    (hp₂ : (db.store.stamp s p₁).FirstOpen
      (db.store.head t.entity.endKey.1 t.entity.endKey.2) id none p₂) :
    ∃ db' fuel₀, db'.store = ((db.store.stampEdge s l rec.eItemptr t).stamp s p₁).stamp s p₂ ∧
      ∀ fuel, fuel₀ ≤ fuel → (deleteEdge fuel s id l).Runs db () db' := by
  obtain ⟨db₁, h₁⟩ := tombstoneEdge_runs ht hup id
  obtain ⟨t', ht', -, -, hst₁⟩ := tombstoneEdge_inv h₁
  obtain rfl := Option.some.inj (ht.symm.trans ht')
  change db₁.store = db.store.stampEdge s l rec.eItemptr t at hst₁
  have hp₁' : db₁.store.FirstOpen (db₁.store.head t.entity.startLabel t.entity.startId) id none
      p₁ := by
    rw [hst₁]
    exact hp₁
  obtain ⟨db₂, n₁, hst₂, h₂⟩ := npDeleteEdgeFromAdjList_runs hp₁' s
  rw [hst₁] at hst₂
  have hp₂' : db₂.store.FirstOpen (db₂.store.head t.entity.endLabel t.entity.endId) id none
      p₂ := by
    rw [hst₂]
    exact hp₂
  obtain ⟨db₃, n₂, hst₃, h₃⟩ := npDeleteEdgeFromAdjList_runs hp₂' s
  rw [hst₂] at hst₃
  refine ⟨db₃, max n₁ n₂, hst₃, fun fuel hfuel => ?_⟩
  have hle := Nat.max_le.mp hfuel
  exact (readEdgeSlot_iff.mpr ⟨rfl, hrec⟩).bind
    (h₁.bind ((h₂ fuel hle.1).bind (h₃ fuel hle.2)))

/-- A position whose member is undeleted. -/
def Store.Open (st : Store) (id : Nat) (p : Position) : Prop :=
  ∃ m, st.memberAt p = some m ∧ m.Matches id

/-- The first match of a node is open. -/
theorem open_of_firstMatch {st : Store} {a : Addr} {n : AdjNode} {i : Nat}
    (hn : st.node a = some n) (h : n.firstMatch targetEdgeId = some i) :
    st.Open targetEdgeId (a, i) := by
  obtain ⟨hlt, hmatch, -⟩ := List.findIdx?_eq_some_iff_getElem.mp h
  refine ⟨n.members[i], ?_, hmatch⟩
  unfold Store.memberAt
  rw [hn]
  exact List.getElem?_eq_getElem hlt

/-- An invariant that stamps of open members keep survives the walk of a chain. -/
theorem npDeleteEdgeFromAdjList_keeps_of_open {I : Store → Prop} (s : Session) {id : Nat}
    (hstamp : ∀ st p, st.Open id p → I st → I (st.stamp s p))
    (fuel vertexId vertexLabelId : Nat) :
    (npDeleteEdgeFromAdjList fuel s vertexId vertexLabelId id).Keeps fun db => I db.store := by
  have hwalk : ∀ n tbl tid, (unlinkWalk s id n tbl tid).Keeps fun db => I db.store := by
    intro n
    induction n with
    | zero => exact fun _ _ => Prog.keeps_fail _ _
    | succ n ih =>
      intro tbl tid
      unfold unlinkWalk
      split
      · refine Prog.Keeps.bind (Prog.keeps_of_runs fun db r db' hI hr => ?_) fun r => ?_
        · change (unlinkAt s id tbl tid).Runs db r db' at hr
          obtain ⟨n, hn, ⟨i, hi, -, hst⟩ | ⟨-, hst, -⟩⟩ := unlinkAt_inv hr
          · rw [hst]
            exact hstamp _ _ (open_of_firstMatch hn hi) hI
          · rw [hst]
            exact hI
        · cases r with
          | none => exact Prog.keeps_ret _ _
          | some p => exact ih p.1 p.2
      · exact Prog.keeps_ret _ _
  refine (Prog.keeps_read _ _).bind fun r => ?_
  cases r with
  | none => exact Prog.keeps_ret _ _
  | some p => exact hwalk fuel p.1 p.2

/-- An invariant the stamps keep survives the walk of a chain. -/
theorem npDeleteEdgeFromAdjList_keeps {I : Store → Prop} (s : Session)
    (hstamp : ∀ st p, I st → I (st.stamp s p)) (fuel vertexId vertexLabelId id : Nat) :
    (npDeleteEdgeFromAdjList fuel s vertexId vertexLabelId id).Keeps fun db => I db.store :=
  npDeleteEdgeFromAdjList_keeps_of_open s (fun st p _ => hstamp st p) fuel vertexId vertexLabelId

/-- **An invariant that the stamps of the edge tuple and of open members keep survives the deletion
of an edge**, however it ends. -/
theorem deleteEdge_keeps_of_label {I : Store → Prop} (s : Session) {l : Nat}
    (hedge : ∀ st tid t, st.etuple (l, tid) = some t → Updatable st.xacts s.own t → I st →
      I (st.stampEdge s l tid t)) {id : Nat}
    (hstamp : ∀ st p, st.Open id p → I st → I (st.stamp s p)) (fuel : Nat) :
    (deleteEdge fuel s id l).Keeps fun db => I db.store := by
  refine (Prog.keeps_read _ _).bind fun rec => Prog.Keeps.bind ?_ fun e =>
    (npDeleteEdgeFromAdjList_keeps_of_open s hstamp fuel _ _).bind fun _ =>
      npDeleteEdgeFromAdjList_keeps_of_open s hstamp fuel _ _
  refine Prog.keeps_of_runs fun db r db' hI hr => ?_
  change (tombstoneEdge s l id rec.eItemptr).Runs db r db' at hr
  obtain ⟨t, ht, hup, -, hst⟩ := tombstoneEdge_inv hr
  rw [hst]
  exact hedge _ rec.eItemptr t ht hup hI

theorem deleteEdge_keeps_of_open {I : Store → Prop} (s : Session)
    (hedge : ∀ st l tid t, st.etuple (l, tid) = some t → Updatable st.xacts s.own t → I st →
      I (st.stampEdge s l tid t)) {id : Nat}
    (hstamp : ∀ st p, st.Open id p → I st → I (st.stamp s p)) (fuel l : Nat) :
    (deleteEdge fuel s id l).Keeps fun db => I db.store :=
  deleteEdge_keeps_of_label s (fun st tid t => hedge st l tid t) hstamp fuel

/-- **An invariant the stamps keep survives the deletion of an edge**, however it ends. -/
theorem deleteEdge_keeps {I : Store → Prop} (s : Session)
    (hedge : ∀ st l tid t, I st → I (st.stampEdge s l tid t)) (hstamp : ∀ st p, I st → I (st.stamp s p))
    (fuel id l : Nat) : (deleteEdge fuel s id l).Keeps fun db => I db.store :=
  deleteEdge_keeps_of_open s (fun st l tid t _ _ => hedge st l tid t) (fun st p _ => hstamp st p)
    fuel l

/-- A tuple the session has stamped is not live to it. -/
theorem npEntityTupleIsLive_stampTuple {μ : Type} (x : XactState)
    (hs : fullXidIsValid s.fxid = true) (t : EntityTuple μ) :
    npEntityTupleIsLive x s.own (stampTuple s t).hdr.toRecordHeader = false := by
  have hcur : transactionIdIsCurrent s.own (xidFromFull s.fxid) = true := by
    simp [transactionIdIsCurrent, Session.own]
  unfold npEntityTupleIsLive stampTuple
  simp only [hs, hcur, Bool.and_self, Bool.not_true, if_true]
  split
  · rfl
  · split
    · rfl
    · split <;> rfl

theorem not_updatable_stampTuple {μ : Type} (x : XactState) (hs : fullXidIsValid s.fxid = true)
    (t : EntityTuple μ) : ¬ Updatable x s.own (stampTuple s t) := by
  rintro ⟨hlive, -⟩
  rw [npEntityTupleIsLive_stampTuple x hs t] at hlive
  cases hlive

theorem open_stamp {st : Store} (hs : fullXidIsValid s.fxid = true) (p q : Position) :
    (st.stamp s p).Open id q ↔ q ≠ p ∧ st.Open id q := by
  unfold Store.Open
  rw [memberAt_stamp]
  by_cases hq : q = p
  · subst hq
    simp only [if_true, ne_eq, not_true_eq_false, false_and, iff_false]
    rintro ⟨m, hm, hmatch⟩
    obtain ⟨m', -, rfl⟩ := Option.map_eq_some_iff.mp hm
    exact stamped_not_matches hs m' hmatch
  · simp [hq]

theorem open_stamps {st : Store} (hs : fullXidIsValid s.fxid = true) (ps : List Position)
    (q : Position) : (st.stamps s ps).Open id q ↔ q ∉ ps ∧ st.Open id q := by
  induction ps generalizing st with
  | nil => simp [Store.stamps]
  | cons p ps ih =>
    show ((st.stamp s p).stamps s ps).Open id q ↔ _
    rw [ih, open_stamp hs, List.mem_cons, not_or, and_left_comm, and_assoc]

theorem deletesExactly_of_firstOpenOwn (hs : fullXidIsValid s.fxid = true)
    (hlive : LiveEdge db.store s l id tid t) (h : FirstOpenOwn db.store l id tid t.entity) :
    DeletesExactly db s l id tid t := by
  obtain ⟨⟨rec, hrec, rfl⟩, p₁, p₂, hp₁, hp₂, ⟨m₁, hm₁, hl₁⟩, m₂, hm₂, hl₂⟩ := h
  obtain ⟨db', n, hst, hruns⟩ := deleteEdge_runs hrec hlive.tuple hlive.live hp₁
    ((firstOpen_stamp hs).mpr hp₂)
  have hown : ∀ (v : VertexKey) (skip : Option Position) (p : Position) (m : AdjListMember),
      db.store.FirstOpen (db.store.head v.1 v.2) id skip p → db.store.memberAt p = some m →
      m.edgeLid = l → db.store.OwnMember v l id p := by
    rintro v skip p m ⟨-, ⟨m', hm', hmatch⟩, pre, hseg, -⟩ hm hl
    obtain rfl := Option.some.inj (hm.symm.trans hm')
    exact ⟨⟨pre, hseg⟩, m, hm, hl, hmatch⟩
  exact ⟨db', n, p₁, p₂, hruns, fun he => hp₂.1 (by rw [he]), hown _ _ _ _ hp₁ hm₁ hl₁,
    hown _ _ _ _ hp₂ hm₂ hl₂, hst⟩

theorem firstOpenOwn_of_deletesExactly (hs : fullXidIsValid s.fxid = true)
    (hlive : LiveEdge db.store s l id tid t) (h : DeletesExactly db s l id tid t) :
    FirstOpenOwn db.store l id tid t.entity := by
  obtain ⟨db', n, p₁, p₂, hruns, hne, ⟨-, m₁, hm₁, hl₁, hmatch₁⟩, ⟨-, m₂, hm₂, hl₂, hmatch₂⟩,
    hst⟩ := h
  obtain ⟨rec, t', ps, hrec, ht', hup, hst', hfirst⟩ :=
    deleteEdge_inv (hruns n (Nat.le_refl n))
  have htid : rec.eItemptr = tid := by
    by_contra hc
    -- the tuple the slot points to would be stamped and unchanged at once
    have hstamped : db'.store.etuple (l, rec.eItemptr) = some (stampTuple s t') := by
      rw [hst']
      have hfold : ∀ (ps : List Position) (st : Store), (st.stamps s ps).etuple = st.etuple := by
        intro ps
        induction ps with
        | nil => exact fun _ => rfl
        | cons p ps ih => exact fun st => ih (st.stamp s p)
      rw [hfold]
      exact Function.update_self ..
    rw [hst] at hstamped
    have hsame : (((db.store.stampEdge s l tid t).stamp s p₁).stamp s p₂).etuple
        (l, rec.eItemptr) = some t' := by
      rw [← ht']
      exact Function.update_of_ne (fun he => hc (Prod.mk.inj he).2) ..
    have hself : t' = stampTuple s t' := Option.some.inj (hsame.symm.trans hstamped)
    rw [hself] at hup
    exact not_updatable_stampTuple _ hs t' hup
  subst htid
  obtain rfl := Option.some.inj (hlive.tuple.symm.trans ht')
  -- the open members that are gone are the two of the edge, and those the walks stamped
  have hgone : ∀ q, db.store.Open id q → (q ∈ ps ↔ q = p₁ ∨ q = p₂) := by
    intro q hq
    have h₁ : db'.store.Open id q ↔ q ∉ ps := by
      rw [hst', open_stamps hs]
      exact and_iff_left hq
    have h₂ : db'.store.Open id q ↔ q ≠ p₂ ∧ q ≠ p₁ := by
      rw [hst, open_stamp hs, open_stamp hs]
      exact ⟨fun h => ⟨h.1, h.2.1⟩, fun h => ⟨h.1, h.2, hq⟩⟩
    rw [h₁] at h₂
    tauto
  have hin₁ : p₁ ∈ ps := (hgone p₁ ⟨m₁, hm₁, hmatch₁⟩).mpr (Or.inl rfl)
  have hin₂ : p₂ ∈ ps := (hgone p₂ ⟨m₂, hm₂, hmatch₂⟩).mpr (Or.inr rfl)
  rcases hfirst with hlen | ⟨q₁, q₂, rfl, hq₁, hq₂⟩
  · cases ps with
    | nil => cases hin₁
    | cons q ps =>
      have hnil : ps = [] := List.length_eq_zero_iff.mp (Nat.le_zero.mp (Nat.le_of_succ_le_succ hlen))
      rw [hnil, List.mem_singleton] at hin₁ hin₂
      exact absurd (hin₁.trans hin₂.symm) hne
  · rw [firstOpen_stamp hs] at hq₂
    have hlabel : ∀ q, q ∈ [q₁, q₂] → db.store.Open id q →
        ∃ m, db.store.memberAt q = some m ∧ m.edgeLid = l := by
      intro q hq hopen
      rcases (hgone q hopen).mp hq with rfl | rfl
      · exact ⟨m₁, hm₁, hl₁⟩
      · exact ⟨m₂, hm₂, hl₂⟩
    exact ⟨⟨rec, hrec, rfl⟩, q₁, q₂, hq₁, hq₂, hlabel q₁ (by simp) hq₁.2.1,
      hlabel q₂ (by simp) hq₂.2.1⟩

/-- **Deleting a live edge stamps its two members and its tuple, and nothing else, exactly when the
walk of each endpoint meets the edge's own member first.** -/
theorem deleteEdge_exact_iff (hs : fullXidIsValid s.fxid = true)
    (hlive : LiveEdge db.store s l id tid t) :
    DeletesExactly db s l id tid t ↔ FirstOpenOwn db.store l id tid t.entity :=
  ⟨firstOpenOwn_of_deletesExactly hs hlive, deletesExactly_of_firstOpenOwn hs hlive⟩

end

/-! ## Two edges of one id -/

/-- The first open member from a node that has one is in that node. -/
theorem firstOpen_head {st : Store} {a : Addr} {n : AdjNode} {id i : Nat} {p : Position}
    (hn : st.node a = some n) (hi : n.firstMatch id = some i)
    (h : st.FirstOpen (some a) id none p) : p = (a, i) := by
  obtain ⟨n', hn', hi'⟩ := firstMatch_of_firstOpen h
  obtain ⟨-, -, pre, hseg, hbefore⟩ := h
  cases pre with
  | nil =>
    have ha : a = p.1 := Option.some.inj hseg.nil_inv
    rw [← ha] at hn'
    obtain rfl := Option.some.inj (hn.symm.trans hn')
    exact Prod.ext ha.symm (Option.some.inj (hi'.symm.trans hi))
  | cons x pre =>
    obtain ⟨hx, -, -⟩ := hseg.cons_inv
    obtain ⟨hlt, hm, -⟩ := List.findIdx?_eq_some_iff_getElem.mp hi
    have hget : st.memberAt (a, i) = some n.members[i] := by
      unfold Store.memberAt
      rw [hn]
      exact List.getElem?_eq_getElem hlt
    cases hbefore (a, i) _ (Or.inl (by rw [Option.some.inj hx]; exact List.mem_cons_self)) hget hm

/-- Transactions below 6 committed, 6 runs. -/
def exampleXacts6 : XactState := ⟨7, fun x => if x = 6 then .inProgress else .committed⟩

/-- Two vertices with two edges between them, both with id 1, of labels 1 and 2. -/
def exampleTwoLabels : List (Op Unit) :=
  let s : Session := ⟨5, 0⟩
  let v : Vertex := ⟨1, 1, 0⟩
  let w : Vertex := ⟨2, 1, 0⟩
  [buildVertexLabelInfrastructure 1, createElabelInternal 1, createElabelInternal 2,
    insertVertex s v npEmptyGtypeObject, insertVertex s w npEmptyGtypeObject,
    insertEdge exampleUnspecified s v w ⟨1, 1, 0, 1, 1, 1, 2⟩ npEmptyGtypeObject,
    insertEdge exampleUnspecified s v w ⟨1, 2, 0, 1, 1, 1, 2⟩ npEmptyGtypeObject]

/-- The state they leave. -/
def exampleTwoLabelsDb : Db := execAll exampleTwoLabels (Db.empty exampleXacts6)

/-- The tuple of the edge of a label there. -/
def exampleEdgeTuple (l : Nat) : EntityTuple Edge :=
  newEntityTuple ⟨5, 0⟩ 1 .invalid ⟨1, l, 0, 1, 1, 1, 2⟩ npEmptyGtypeObject

theorem exampleTwoLabels_live (l : Nat) (h : l = 1 ∨ l = 2) :
    LiveEdge exampleTwoLabelsDb.store ⟨6, 0⟩ l 1 ⟨0, 1⟩ (exampleEdgeTuple l) := by
  rcases h with rfl | rfl
  · exact ⟨rfl, rfl, by decide⟩
  · exact ⟨rfl, rfl, by decide⟩

/-- Deleting the edge of label 2, whose members are newer. -/
theorem deleteEdge_exact_iff_example :
    DeletesExactly exampleTwoLabelsDb ⟨6, 0⟩ 2 1 ⟨0, 1⟩ (exampleEdgeTuple 2) ↔
      FirstOpenOwn exampleTwoLabelsDb.store 2 1 ⟨0, 1⟩ (exampleEdgeTuple 2).entity :=
  deleteEdge_exact_iff (by decide) (exampleTwoLabels_live 2 (Or.inr rfl))

/-- Deleting the edge of label 1 stamps the members of the other edge: they come first, and have the
same id. -/
theorem deleteEdge_exact_fails :
    LiveEdge exampleTwoLabelsDb.store ⟨6, 0⟩ 1 1 ⟨0, 1⟩ (exampleEdgeTuple 1) ∧
    ¬ DeletesExactly exampleTwoLabelsDb ⟨6, 0⟩ 1 1 ⟨0, 1⟩ (exampleEdgeTuple 1) := by
  have hlive := exampleTwoLabels_live 1 (Or.inl rfl)
  refine ⟨hlive, fun h => ?_⟩
  obtain ⟨-, p₁, -, hp₁, -, ⟨m, hm, hl⟩, -⟩ := firstOpenOwn_of_deletesExactly (by decide) hlive h
  -- the head of vertex 1 is the second record of its partition, a member of label 2
  have hhead : exampleTwoLabelsDb.store.head 1 1 = some (16385, ⟨0, 3⟩) := rfl
  change exampleTwoLabelsDb.store.FirstOpen (exampleTwoLabelsDb.store.head 1 1) 1 none p₁ at hp₁
  rw [hhead] at hp₁
  obtain rfl := firstOpen_head rfl rfl hp₁
  obtain rfl := Option.some.inj hm
  exact absurd hl (by decide)

end NeoPostGraph
