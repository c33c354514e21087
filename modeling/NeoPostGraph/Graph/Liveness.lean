import Mathlib.Data.List.TakeWhile
import NeoPostGraph.Graph.Partition
import NeoPostGraph.Graph.Writes

/-!
# What the walks take for an edge

Three walks over a chain decide for themselves which adjacency members are edges: the check of
`delete_vertex`, the search of `np_delete_edge_from_adj_list` and `migrate_vertex_edges`. All three
ask one thing, whether the member has a deleter, and none asks how the inserter or the deleter
ended. The walk of `delete_vertex` also reads array blocks as heap tuples, and finds nothing there.

* `AdjListMember.existing`: an edge by commit status, for a session.
* `collectedAt`, `unlinkedAt`, `migratedAt`: the members of a node that each walk takes for edges.
* `WalksFollowStatus`: each walk takes a member for an edge exactly when it is one by status.

Results:
* `collectWalk_detach`, `collectWalk_check`, `migrateFetch_filter`: the walks are made of these.
* `FollowsStatus.collects`, `FollowsStatus.unlinks`, `FollowsStatus.migrates`: where the walks follow
  the status, each does what it is for with the edges that exist.
* `walksFollowStatus_iff`: the walks follow the status exactly when no member of the chain is stale
  and none that exists stands at or behind an array block.
* `EdgeHistory.not_stale`: nothing is stale while every transaction that wrote the adjacency is
  committed or the reader's own.
-/

namespace NeoPostGraph

open SlottedPage LinkedChain

/-! ## The tests -/

/-- The test of the walks: no deleter. -/
def AdjListMember.undeleted (m : AdjListMember) : Bool := !fullXidIsValid m.xmax

/-- An edge by commit status: the session sees the inserter, and does not see the deleter. -/
def AdjListMember.existing (x : XactState) (own : List Nat) (m : AdjListMember) : Bool :=
  x.seen own m.xmin && !(fullXidIsValid m.xmax && x.seen own m.xmax)

/-- A member whose deleter mark does not tell what its status does: undeleted by a transaction the
session does not see, or deleted by one while its inserter is seen. -/
def AdjListMember.Stale (x : XactState) (own : List Nat) (m : AdjListMember) : Prop :=
  if m.undeleted then x.seen own m.xmin = false
  else x.seen own m.xmin = true ∧ x.seen own m.xmax = false

/-- The members the walk of `delete_vertex` takes for edges at a node. -/
def collectedAt (u : Unspecified) : AdjNode → List AdjListMember
  | .linked rec => [rec.toMember].filter AdjListMember.undeleted
  | .block rec => ((deformBlock u rec).1.getD []).filter AdjListMember.undeleted

/-- The walk of `delete_vertex` goes on from a node to the one after it: behind a block, it does so
if it reads the next pointer that is there. -/
def collectPasses (u : Unspecified) : AdjNode → Bool
  | .linked _ => true
  | .block rec =>
    rec.nextItemptr.isValid && (deformBlock u rec).2.getD .invalid == rec.nextItemptr

/-- The members `np_delete_edge_from_adj_list` takes for edges at a node, each asked for by its own
edge id. -/
def unlinkedAt (n : AdjNode) : List AdjListMember :=
  n.members.filter fun m => matchesEdge m.edgeId m.edgeId m.toRecordHeader

/-- The members `migrate_vertex_edges` takes for edges at a node. -/
def migratedAt (n : AdjNode) : List AdjListMember := n.members.filter AdjListMember.undeleted

/-- At every node of the path and for every member there, each walk takes the member for an edge
exactly when it is one by status. The walk of `delete_vertex` takes what it reads at the node, if
it gets there. -/
def FollowsStatus (x : XactState) (own : List Nat) (p : NodePath) : Prop :=
  ∀ u pre a n post, p = pre ++ (a, n) :: post → ∀ m ∈ n.members,
    ((pre.all (fun y => collectPasses u y.2) = true ∧ m ∈ collectedAt u n) ↔
      m.existing x own = true) ∧
    (m ∈ unlinkedAt n ↔ m.existing x own = true) ∧ (m ∈ migratedAt n ↔ m.existing x own = true)

/-- The walks of a session over the chain of `v` follow the status. -/
def WalksFollowStatus (db : Db) (s : Session) (v : VertexKey) : Prop :=
  ∀ p, db.store.Path v p → FollowsStatus db.xacts s.own p

/-- A node in the linked-list format. -/
def AdjNode.isLinked : AdjNode → Bool
  | .linked _ => true
  | .block _ => false

/-- The nodes before the first array block. -/
def NodePath.linkedPart (p : NodePath) : NodePath := p.takeWhile fun y => y.2.isLinked

/-- The nodes from the first array block on. -/
def NodePath.blockPart (p : NodePath) : NodePath := p.dropWhile fun y => y.2.isLinked

section

variable {x : XactState} {own : List Nat} {u : Unspecified} {p : NodePath} {m : AdjListMember}
  {n : AdjNode}

theorem mem_unlinkedAt : m ∈ unlinkedAt n ↔ m ∈ n.members ∧ m.undeleted = true := by
  unfold unlinkedAt matchesEdge AdjListMember.undeleted
  rw [List.mem_filter]
  simp

theorem mem_migratedAt : m ∈ migratedAt n ↔ m ∈ n.members ∧ m.undeleted = true := List.mem_filter

theorem undeleted_of_mem_collectedAt (h : m ∈ collectedAt u n) : m.undeleted = true := by
  cases n with
  | linked rec => exact (List.mem_filter.mp h).2
  | block rec => exact (List.mem_filter.mp h).2

/-- A member is not stale exactly when it exists just in case it is undeleted. -/
theorem not_stale_iff : ¬ m.Stale x own ↔ (m.undeleted = true ↔ m.existing x own = true) := by
  unfold AdjListMember.Stale AdjListMember.existing AdjListMember.undeleted
  cases fullXidIsValid m.xmax <;> cases x.seen own m.xmin <;> cases x.seen own m.xmax <;> simp

/-- The path is its two parts. -/
theorem linkedPart_append_blockPart (p : NodePath) : p.linkedPart ++ p.blockPart = p :=
  List.takeWhile_append_dropWhile

/-- The first node of the block part is a block. -/
theorem blockPart_cons {y : Addr × AdjNode} {q : NodePath} (h : p.blockPart = y :: q) :
    ∃ rec, y.2 = .block rec := by
  have hy := List.head?_dropWhile_not (fun y : Addr × AdjNode => y.2.isLinked) p
  rw [show p.dropWhile _ = y :: q from h] at hy
  cases hn : y.2 with
  | linked rec => simp [hn, AdjNode.isLinked] at hy
  | block rec => exact ⟨rec, rfl⟩

theorem isLinked_of_mem_linkedPart {y : Addr × AdjNode} (h : y ∈ p.linkedPart) :
    y.2.isLinked = true :=
  List.mem_takeWhile_imp (p := fun y : Addr × AdjNode => y.2.isLinked) h

/-- Where the uninitialised reads give nothing, a block gives nothing and ends the walk. -/
theorem collect_exampleUnspecified (rec : NeoArrayListRecord) :
    collectedAt exampleUnspecified (.block rec) = [] ∧
      collectPasses exampleUnspecified (.block rec) = false := by
  have hdeform : deformBlock exampleUnspecified rec = (none, none) := by
    unfold deformBlock
    split <;> rfl
  simp only [collectedAt, collectPasses, hdeform]
  refine ⟨rfl, ?_⟩
  by_cases hv : rec.nextItemptr.isValid = true
  · have hne : ItemPointer.invalid ≠ rec.nextItemptr := fun he => by
      rw [← he] at hv
      cases hv
    simp [hne]
  · simp [hv]

/-- **The walks follow the commit status of a chain exactly when** no member is stale and none that
exists stands in or behind an array block. -/
theorem followsStatus_iff : FollowsStatus x own p ↔
    (∀ y ∈ p, ∀ m ∈ y.2.members, ¬ m.Stale x own) ∧
      ∀ y ∈ p.blockPart, ∀ m ∈ y.2.members, m.existing x own = false := by
  constructor
  · intro h
    refine ⟨fun y hy m hm => ?_, fun y hy m hm => ?_⟩
    · obtain ⟨pre, post, rfl⟩ := List.append_of_mem hy
      obtain ⟨-, -, hmig⟩ := h exampleUnspecified pre y.1 y.2 post rfl m hm
      rw [mem_migratedAt] at hmig
      rw [not_stale_iff, ← hmig]
      exact ⟨fun hu => ⟨hm, hu⟩, fun hu => hu.2⟩
    · obtain ⟨pre, post, hsplit⟩ := List.append_of_mem hy
      have hp : p = (p.linkedPart ++ pre) ++ (y.1, y.2) :: post := by
        rw [List.append_assoc, ← hsplit, linkedPart_append_blockPart]
      obtain ⟨hcol, -, -⟩ := h exampleUnspecified _ y.1 y.2 post hp m hm
      rw [Bool.eq_false_iff]
      intro hex
      obtain ⟨hpass, hmem⟩ := hcol.mpr hex
      cases pre with
      | nil =>
        obtain ⟨rec, hrec⟩ := blockPart_cons hsplit
        rw [hrec, (collect_exampleUnspecified rec).1] at hmem
        cases hmem
      | cons z pre =>
        obtain ⟨rec, hrec⟩ := blockPart_cons hsplit
        have hz := List.all_eq_true.mp hpass z (by simp)
        rw [hrec, (collect_exampleUnspecified rec).2] at hz
        cases hz
  · rintro ⟨hstale, hblock⟩ u pre a n post hp m hm
    have hiff := not_stale_iff.mp (hstale (a, n) (by rw [hp]; simp) m hm)
    refine ⟨⟨fun hc => hiff.mp (undeleted_of_mem_collectedAt hc.2), fun hex => ?_⟩, ?_, ?_⟩
    · -- a member that exists stands in the linked part, and so does everything before it
      have hsplit := (linkedPart_append_blockPart p).trans hp
      rcases List.append_eq_append_iff.mp hsplit with ⟨c, hpre, hb⟩ | ⟨c, hl, hb⟩
      · rw [hblock (a, n) (by rw [hb]; simp) m hm] at hex
        cases hex
      · cases c with
        | nil =>
          rw [hblock (a, n) (by rw [show p.blockPart = (a, n) :: post from hb.symm]; simp) m hm]
            at hex
          cases hex
        | cons z c =>
          obtain ⟨rfl, -⟩ := List.cons.inj hb
          have hlinked : ∀ y ∈ pre ++ [(a, n)], y.2.isLinked = true := fun y hy =>
            isLinked_of_mem_linkedPart (p := p) (by
              rw [hl]
              rcases List.mem_append.mp hy with hy | hy
              · exact List.mem_append_left _ hy
              · rw [List.mem_singleton.mp hy]
                simp)
          refine ⟨List.all_eq_true.mpr fun y hy => ?_, ?_⟩
          · have hy' := hlinked y (List.mem_append_left _ hy)
            cases hn : y.2 with
            | linked rec => rfl
            | block rec =>
              rw [hn] at hy'
              cases hy'
          · have hn := hlinked (a, n) (by simp)
            cases n with
            | block rec => cases hn
            | linked rec => exact List.mem_filter.mpr ⟨hm, hiff.mpr hex⟩
    · rw [mem_unlinkedAt, ← hiff]
      exact ⟨fun h => h.2, fun h => ⟨hm, h⟩⟩
    · rw [mem_migratedAt, ← hiff]
      exact ⟨fun h => h.2, fun h => ⟨hm, h⟩⟩

end

/-! ## The walks are made of these -/

/-- An edge as `delete_vertex` collects it. -/
def AdjListMember.edgeKey (m : AdjListMember) : Nat × Nat := (m.edgeId, m.edgeLid)

section

variable {db : Db} {u : Unspecified} {arraylist tbl : Oid} {tid : ItemPointer} {detach : Bool}
  {vertexId id : Nat} {edges : List (Nat × Nat)} {s : Session}

theorem collectedAt_linked (u : Unspecified) (rec : NeoLinkedListRecord) :
    collectedAt u (.linked rec) = if fullXidIsValid rec.xmax then [] else [rec.toMember] := by
  show List.filter _ [rec.toMember] = _
  rw [List.filter_singleton]
  unfold AdjListMember.undeleted
  cases h : fullXidIsValid rec.xmax <;> simp [NeoLinkedListRecord.toMember, h]

/-- A turn at a linked-list record: it is collected, or it ends the check. -/
theorem collectAt_linked (u : Unspecified) (detach : Bool) (vertexId : Nat)
    (edges : List (Nat × Nat)) {rec : NeoLinkedListRecord}
    (hn : db.store.node (tbl, tid) = some (.linked rec)) (harr : tbl ≠ arraylist) :
    (collectAt u arraylist detach vertexId tbl tid edges).exec db =
      (if detach = false ∧ collectedAt u (.linked rec) ≠ [] then .error (.activeEdges vertexId)
        else .ok (edges ++ (collectedAt u (.linked rec)).map AdjListMember.edgeKey, rec.nextTbl,
          rec.nextItemptr), db) := by
  obtain ⟨t, ht, hget⟩ := rel_of_linked hn
  unfold collectAt
  rw [if_neg harr, collectedAt_linked]
  unfold collectAtRecord readRel
  rw [Prog.exec_read, ht]
  simp only [readItem_of_get hget]
  cases hx : fullXidIsValid rec.xmax <;> cases detach <;>
    simp [hx, bind, Except.bind, pure, Except.pure, AdjListMember.edgeKey,
      NeoLinkedListRecord.toMember]

/-- The undeleted members of a block are collected, or the first of them ends the walk: in the check
it is an active edge, and where nothing is collected yet there is no array to grow. -/
theorem collectMembers_eq (detach : Bool) (vertexId : Nat) (ms : List AdjListMember)
    (edges : List (Nat × Nat)) :
    collectMembers detach vertexId edges ms =
      if ms.filter AdjListMember.undeleted = [] then .ok edges
      else if detach = false then .error (.activeEdges vertexId)
      else if edges = [] then .error .invalidChunk
      else .ok (edges ++ (ms.filter AdjListMember.undeleted).map AdjListMember.edgeKey) := by
  induction ms generalizing edges with
  | nil => rfl
  | cons m ms ih =>
    rw [collectMembers]
    by_cases hm : m.undeleted = true
    · rw [if_pos (show (!fullXidIsValid m.xmax) = true from hm), List.filter_cons_of_pos hm,
        if_neg (List.cons_ne_nil _ _)]
      cases detach with
      | false => rfl
      | true =>
        cases edges with
        | nil => rfl
        | cons e es =>
          simp only [Bool.not_true, Bool.false_eq_true, List.isEmpty_cons, if_false, ih,
            Bool.true_eq_false, reduceCtorEq, List.append_eq_nil_iff, and_self, List.map_cons]
          split
          · next hnone =>
            rw [hnone]
            rfl
          · rw [List.append_assoc]
            rfl
    · rw [if_neg (show ¬ (!fullXidIsValid m.xmax) = true from hm), List.filter_cons_of_neg hm, ih]

/-- A turn at an array block: what is read there for undeleted members is collected, or ends the
walk. -/
theorem collectAt_block (u : Unspecified) (detach : Bool) (vertexId : Nat)
    (edges : List (Nat × Nat)) {rec : NeoArrayListRecord}
    (hn : db.store.node (tbl, tid) = some (.block rec)) (harr : tbl = arraylist) :
    (collectAt u arraylist detach vertexId tbl tid edges).exec db =
      (if collectedAt u (.block rec) = [] then
          .ok (edges, tbl, (deformBlock u rec).2.getD .invalid)
        else if detach = false then .error (.activeEdges vertexId)
        else if edges = [] then .error .invalidChunk
        else .ok (edges ++ (collectedAt u (.block rec)).map AdjListMember.edgeKey, tbl,
          (deformBlock u rec).2.getD .invalid), db) := by
  obtain ⟨t, ht, hget⟩ := rel_of_block hn
  unfold collectAt
  rw [if_pos harr]
  unfold collectAtBlock readRel collectedAt
  rw [Prog.exec_read, ht]
  simp only [readItem_of_get hget, collectMembers_eq, bind, Except.bind, pure, Except.pure]
  split_ifs <;> rfl

/-- At a node of the chain `delete_vertex` finds the format it expects in the relation, and the next
pointer that is there. -/
def CollectReads (u : Unspecified) (arraylist : Oid) (x : Addr × AdjNode) : Prop :=
  match x.2 with
  | .linked _ => x.1.1 ≠ arraylist
  | .block rec => x.1.1 = arraylist ∧ (deformBlock u rec).2.getD .invalid = rec.nextItemptr

/-- A turn of the check, at a node of either format. -/
theorem collectAt_check (vertexId : Nat) (edges : List (Nat × Nat)) {n : AdjNode}
    (hn : db.store.node (tbl, tid) = some n) (hr : CollectReads u arraylist ((tbl, tid), n)) :
    ∃ tbl' tid', cursor tbl' tid' = n.next (tbl, tid) ∧
      (collectAt u arraylist false vertexId tbl tid edges).exec db =
        (if collectedAt u n = [] then .ok (edges, tbl', tid') else .error (.activeEdges vertexId),
          db) := by
  cases n with
  | linked rec =>
    refine ⟨rec.nextTbl, rec.nextItemptr, rfl, ?_⟩
    rw [collectAt_linked u false vertexId edges hn hr]
    by_cases hnone : collectedAt u (.linked rec) = []
    · rw [if_neg (fun h => h.2 hnone), if_pos hnone, hnone, List.map_nil, List.append_nil]
    · rw [if_pos ⟨rfl, hnone⟩, if_neg hnone]
  | block rec =>
    refine ⟨tbl, rec.nextItemptr, rfl, ?_⟩
    rw [collectAt_block u false vertexId edges hn hr.1, hr.2, if_pos rfl]

/-- A turn of the walk, at a node of either format: it collects, unless it were to begin at a
block. -/
theorem collectAt_detach (vertexId : Nat) (edges : List (Nat × Nat)) {n : AdjNode}
    (hn : db.store.node (tbl, tid) = some n) (hr : CollectReads u arraylist ((tbl, tid), n))
    (hfirst : edges = [] → n.isLinked = false → collectedAt u n = []) :
    ∃ tbl' tid', cursor tbl' tid' = n.next (tbl, tid) ∧
      (collectAt u arraylist true vertexId tbl tid edges).exec db =
        (.ok (edges ++ (collectedAt u n).map AdjListMember.edgeKey, tbl', tid'), db) := by
  cases n with
  | linked rec =>
    refine ⟨rec.nextTbl, rec.nextItemptr, rfl, ?_⟩
    rw [collectAt_linked u true vertexId edges hn hr, if_neg (fun h => Bool.noConfusion h.1)]
  | block rec =>
    refine ⟨tbl, rec.nextItemptr, rfl, ?_⟩
    rw [collectAt_block u true vertexId edges hn hr.1, hr.2]
    by_cases hnone : collectedAt u (.block rec) = []
    · rw [if_pos hnone, hnone, List.map_nil, List.append_nil]
    · rw [if_neg hnone, if_neg (fun h => Bool.noConfusion h),
        if_neg (fun he => hnone (hfirst he rfl))]

/-- **The walk of `delete_vertex`** collects what it takes for edges, and goes on, unless the first
of them were to stand in a block. -/
theorem collectWalk_detach {p : NodePath} {y : Option Addr}
    (hp : Seg db.store.node AdjNode.next (cursor tbl tid) p y)
    (hr : ∀ x ∈ p, CollectReads u arraylist x)
    (hfirst : edges = [] → ∀ x ∈ p, x.2.isLinked = false → collectedAt u x.2 = []) :
    ∃ tbl' tid', cursor tbl' tid' = y ∧ ∀ fuel,
      (collectWalk u arraylist true vertexId (p.length + fuel) tbl tid edges).exec db =
        (collectWalk u arraylist true vertexId fuel tbl' tid'
          (edges ++ (p.flatMap fun x => collectedAt u x.2).map AdjListMember.edgeKey)).exec db := by
  induction p generalizing tbl tid edges with
  | nil =>
    refine ⟨tbl, tid, hp.nil_inv, fun fuel => ?_⟩
    rw [List.length_nil, Nat.zero_add, List.flatMap_nil, List.map_nil, List.append_nil]
  | cons x p ih =>
    obtain ⟨hc, hn, hseg⟩ := hp.cons_inv
    obtain ⟨hrx, hrest⟩ := List.forall_mem_cons.mp hr
    obtain ⟨⟨o, i⟩, n⟩ := x
    obtain ⟨he, hv⟩ := cursor_eq_some.mp hc
    obtain ⟨rfl, rfl⟩ := Prod.mk.inj he
    obtain ⟨tbl₁, tid₁, hcur₁, hturn⟩ := collectAt_detach vertexId edges hn hrx fun he =>
      hfirst he _ List.mem_cons_self
    rw [← hcur₁] at hseg
    have hfirst' : edges ++ (collectedAt u n).map AdjListMember.edgeKey = [] → ∀ x ∈ p,
        x.2.isLinked = false → collectedAt u x.2 = [] := fun he x hx =>
      hfirst (List.append_eq_nil_iff.mp he).1 x (List.mem_cons_of_mem _ hx)
    obtain ⟨tbl', tid', hcur, hwalk⟩ := ih hseg hrest hfirst'
    refine ⟨tbl', tid', hcur, fun fuel => ?_⟩
    rw [List.length_cons, Nat.succ_add, collectWalk,
      if_pos (Bool.and_eq_true_iff.mpr hv), Prog.exec_bind, hturn]
    simp only []
    rw [hwalk fuel, List.flatMap_cons, List.map_append, List.append_assoc]

/-- **The check of `delete_vertex`** fails at the first member it takes for an edge. -/
theorem collectWalk_check {p : NodePath} {y : Option Addr}
    (hp : Seg db.store.node AdjNode.next (cursor tbl tid) p y)
    (hr : ∀ x ∈ p, CollectReads u arraylist x) :
    ∃ tbl' tid', cursor tbl' tid' = y ∧ ∀ fuel,
      (collectWalk u arraylist false vertexId (p.length + fuel) tbl tid edges).exec db =
        if p.flatMap (fun x => collectedAt u x.2) = [] then
          (collectWalk u arraylist false vertexId fuel tbl' tid' edges).exec db
        else (.error (.activeEdges vertexId), db) := by
  induction p generalizing tbl tid with
  | nil =>
    refine ⟨tbl, tid, hp.nil_inv, fun fuel => ?_⟩
    rw [List.length_nil, Nat.zero_add, List.flatMap_nil, if_pos rfl]
  | cons x p ih =>
    obtain ⟨hc, hn, hseg⟩ := hp.cons_inv
    obtain ⟨hrx, hrest⟩ := List.forall_mem_cons.mp hr
    obtain ⟨⟨o, i⟩, n⟩ := x
    obtain ⟨he, hv⟩ := cursor_eq_some.mp hc
    obtain ⟨rfl, rfl⟩ := Prod.mk.inj he
    obtain ⟨tbl₁, tid₁, hcur₁, hturn⟩ := collectAt_check vertexId edges hn hrx
    rw [← hcur₁] at hseg
    obtain ⟨tbl', tid', hcur, hwalk⟩ := ih hseg hrest
    refine ⟨tbl', tid', hcur, fun fuel => ?_⟩
    rw [List.length_cons, Nat.succ_add, collectWalk,
      if_pos (Bool.and_eq_true_iff.mpr hv), Prog.exec_bind, hturn, List.flatMap_cons]
    by_cases hnone : collectedAt u n = []
    · simp only [hnone, List.nil_append, if_true]
      exact hwalk fuel
    · rw [if_neg hnone, if_neg (fun h => hnone (List.append_eq_nil_iff.mp h).1)]

theorem collectWalk_end (hc : cursor tbl tid = none) (u : Unspecified) (arraylist : Oid)
    (detach : Bool) (vertexId fuel : Nat) (edges : List (Nat × Nat)) (db : Db) :
    (collectWalk u arraylist detach vertexId (fuel + 1) tbl tid edges).exec db = (.ok edges, db) := by
  unfold cursor at hc
  unfold collectWalk
  split at hc
  · cases hc
  · next hv =>
    rw [if_neg hv]
    rfl

/-- The walk of `np_delete_edge_from_adj_list` stops at a node exactly when it takes a member there
for the edge it looks for. -/
theorem firstMatch_isSome_iff {n : AdjNode} :
    (n.firstMatch id).isSome = true ↔ ∃ m ∈ unlinkedAt n, m.edgeId = id := by
  unfold AdjNode.firstMatch
  rw [List.findIdx?_isSome, List.any_eq_true]
  constructor
  · rintro ⟨m, hm, hmatch⟩
    unfold matchesEdge at hmatch
    obtain ⟨hid, hx⟩ := Bool.and_eq_true_iff.mp hmatch
    exact ⟨m, mem_unlinkedAt.mpr ⟨hm, hx⟩, beq_iff_eq.mp hid⟩
  · rintro ⟨m, hm, rfl⟩
    obtain ⟨hmem, hu⟩ := mem_unlinkedAt.mp hm
    exact ⟨m, hmem, Bool.and_eq_true_iff.mpr ⟨beq_self_eq_true _, hu⟩⟩

/-- `migrate_vertex_edges` passes a record it does not take for an edge. -/
theorem migrateRecord_skip {rec : NeoLinkedListRecord} (h : migratedAt (.linked rec) = [])
    (u : Unspecified) (fuel : Nat) (s : Session) (oldV newV : Vertex) :
    migrateRecord u fuel s oldV newV rec = return () := by
  have hx : fullXidIsValid rec.xmax = true := by
    have hnone := List.filter_eq_nil_iff.mp h rec.toMember (List.mem_singleton.mpr rfl)
    unfold AdjListMember.undeleted at hnone
    rwa [Bool.not_eq_true, Bool.not_eq_false'] at hnone
  unfold migrateRecord
  rw [if_pos hx]

/-- `migrate_vertex_edges` fetches from a block what it takes for edges there. -/
theorem migrateFetch_filter (fuel : Nat) (s : Session) (ms : List AdjListMember) :
    migrateFetch fuel s ms = migrateFetch fuel s (ms.filter AdjListMember.undeleted) := by
  induction ms with
  | nil => rfl
  | cons m ms ih =>
    by_cases hx : fullXidIsValid m.xmax = true
    · have hu : ¬ m.undeleted = true := by
        unfold AdjListMember.undeleted
        rw [hx]
        exact Bool.false_ne_true
      rw [List.filter_cons_of_neg hu, ← ih, migrateFetch, if_pos hx]
    · have hu : m.undeleted = true := by
        unfold AdjListMember.undeleted
        rw [Bool.eq_false_iff.mpr hx]
        rfl
      rw [List.filter_cons_of_pos hu, migrateFetch, migrateFetch, if_neg hx, if_neg hx, ih]

end

/-! ## What they do where they follow the status -/

section

variable {x : XactState} {own : List Nat} {db : Db} {u : Unspecified} {arraylist tbl : Oid}
  {tid : ItemPointer} {p : NodePath} {y : Addr × AdjNode} {s : Session}

theorem FollowsStatus.undeleted_iff (h : FollowsStatus x own p) (hy : y ∈ p) {m : AdjListMember}
    (hm : m ∈ y.2.members) : m.undeleted = true ↔ m.existing x own = true :=
  not_stale_iff.mp ((followsStatus_iff.mp h).1 y hy m hm)

theorem mem_blockPart (hy : y ∈ p) (hb : y.2.isLinked = false) : y ∈ p.blockPart := by
  rw [← linkedPart_append_blockPart p] at hy
  rcases List.mem_append.mp hy with hl | hy
  · rw [isLinked_of_mem_linkedPart hl] at hb
    cases hb
  · exact hy

/-- At a node where only its own members are read, the walk of `delete_vertex` takes those that
exist. -/
theorem FollowsStatus.collectedAt_eq (h : FollowsStatus x own p) (hy : y ∈ p)
    (hown : ∀ m ∈ collectedAt u y.2, m ∈ y.2.members) :
    collectedAt u y.2 = y.2.members.filter (AdjListMember.existing x own) := by
  cases hn : y.2 with
  | linked rec =>
    refine List.filter_congr fun m hm => Bool.eq_iff_iff.mpr (h.undeleted_iff hy ?_)
    rw [hn]
    exact hm
  | block rec =>
    rw [hn] at hown
    have hnone : ∀ m ∈ AdjNode.members (.block rec), m.existing x own = false := fun m hm =>
      (followsStatus_iff.mp h).2 y (mem_blockPart hy (by rw [hn]; rfl)) m (by rw [hn]; exact hm)
    rw [List.filter_eq_nil_iff.mpr fun m hm => by rw [hnone m hm]; exact Bool.false_ne_true]
    refine List.eq_nil_iff_forall_not_mem.mpr fun m hm => ?_
    have hex := (h.undeleted_iff hy (by rw [hn]; exact hown m hm)).mp (undeleted_of_mem_collectedAt hm)
    rw [hnone m (hown m hm)] at hex
    cases hex

/-- **`delete_vertex`** collects the edges that exist, and without `detach` there may be none. -/
theorem FollowsStatus.collects (h : FollowsStatus x own p)
    (hp : Seg db.store.node AdjNode.next (cursor tbl tid) p none)
    (hr : ∀ y ∈ p, CollectReads u arraylist y)
    (hown : ∀ y ∈ p, ∀ m ∈ collectedAt u y.2, m ∈ y.2.members) (detach : Bool)
    (vertexId fuel : Nat) :
    (collectWalk u arraylist detach vertexId (p.length + (fuel + 1)) tbl tid []).exec db =
      (if detach = false ∧ p.members.filter (AdjListMember.existing x own) ≠ [] then
          .error (.activeEdges vertexId)
        else .ok ((p.members.filter (AdjListMember.existing x own)).map AdjListMember.edgeKey),
        db) := by
  have hcollected : (p.flatMap fun y => collectedAt u y.2) =
      p.members.filter (AdjListMember.existing x own) := by
    unfold NodePath.members
    rw [List.filter_flatMap]
    exact List.flatMap_congr fun y hy => h.collectedAt_eq hy (hown y hy)
  cases detach with
  | true =>
    obtain ⟨tbl', tid', hcur, hwalk⟩ := @collectWalk_detach db u _ _ _ vertexId [] p none hp hr
      fun _ y hy hb => by
        rw [h.collectedAt_eq hy (hown y hy)]
        exact List.filter_eq_nil_iff.mpr fun m hm => by
          rw [(followsStatus_iff.mp h).2 y (mem_blockPart hy hb) m hm]
          exact Bool.false_ne_true
    rw [hwalk, collectWalk_end hcur, List.nil_append, hcollected,
      if_neg (fun hc => Bool.noConfusion hc.1)]
  | false =>
    obtain ⟨tbl', tid', hcur, hwalk⟩ := @collectWalk_check db u _ _ _ vertexId [] p none hp hr
    rw [hwalk, collectWalk_end hcur, hcollected]
    by_cases hnone : p.members.filter (AdjListMember.existing x own) = []
    · rw [if_pos hnone, if_neg (fun hc => hc.2 hnone), hnone]
      rfl
    · rw [if_neg hnone, if_pos ⟨rfl, hnone⟩]

/-- **`np_delete_edge_from_adj_list`** stops at a node just when the edge exists there. -/
theorem FollowsStatus.unlinks (h : FollowsStatus x own p) (hy : y ∈ p) (id : Nat) :
    (y.2.firstMatch id).isSome = true ↔
      ∃ m ∈ y.2.members, m.existing x own = true ∧ m.edgeId = id := by
  rw [firstMatch_isSome_iff]
  constructor
  · rintro ⟨m, hm, hid⟩
    obtain ⟨hmem, hu⟩ := mem_unlinkedAt.mp hm
    exact ⟨m, hmem, (h.undeleted_iff hy hmem).mp hu, hid⟩
  · rintro ⟨m, hm, hex, hid⟩
    exact ⟨m, mem_unlinkedAt.mpr ⟨hm, (h.undeleted_iff hy hm).mpr hex⟩, hid⟩

/-- **`migrate_vertex_edges`** passes a record that is of no edge, and fetches from a block the edges
that exist. -/
theorem FollowsStatus.migrates (h : FollowsStatus x own p) (hy : y ∈ p) (fuel : Nat) (s : Session) :
    match y.2 with
    | .linked rec => rec.toMember.existing x own = false → ∀ oldV newV,
        migrateRecord u fuel s oldV newV rec = return ()
    | .block rec => migrateFetch fuel s rec.adjList =
        migrateFetch fuel s (rec.adjList.filter (AdjListMember.existing x own)) := by
  cases hn : y.2 with
  | linked rec =>
    intro hno oldV newV
    refine migrateRecord_skip ?_ u fuel s oldV newV
    refine List.filter_eq_nil_iff.mpr fun m hm hu => ?_
    have hex := (h.undeleted_iff hy (by rw [hn]; exact hm)).mp hu
    obtain rfl := List.mem_singleton.mp hm
    rw [hno] at hex
    cases hex
  | block rec =>
    show migrateFetch fuel s rec.adjList = _
    rw [migrateFetch_filter]
    refine congrArg _ (List.filter_congr fun m hm => Bool.eq_iff_iff.mpr (h.undeleted_iff hy ?_))
    rw [hn]
    exact hm

end

/-! ## Histories -/

/-- Every node is a linked-list record, created and deleted by transactions of `T`. -/
def WrittenBy (T : List Nat) (st : Store) : Prop :=
  ∀ a n, st.node a = some n → ∃ rec, n = .linked rec ∧ rec.xmin ∈ T ∧
    (fullXidIsValid rec.xmax = true → rec.xmax ∈ T)

/-- Histories of edge operations without compactions, with the transactions that ran them.
Transactions begin and end between the operations; an operation that fails keeps what it wrote. -/
inductive EdgeHistory (x : Unspecified) : List Nat → Db → Prop
  | empty (xacts : XactState) : EdgeHistory x [] (Db.empty xacts)
  | xacts {T : List Nat} {db : Db} (h : EdgeHistory x T db) (xacts : XactState) :
      EdgeHistory x T { db with xacts := xacts }
  | vertexLabel {T : List Nat} {db : Db} (h : EdgeHistory x T db) (l : Nat) :
      EdgeHistory x T ((buildVertexLabelInfrastructure l).exec db).2
  | edgeLabel {T : List Nat} {db : Db} (h : EdgeHistory x T db) (l : Nat) :
      EdgeHistory x T ((createElabelInternal l).exec db).2
  | rotate {T : List Nat} {db : Db} (h : EdgeHistory x T db) (l : Nat) :
      EdgeHistory x T ((rotateActiveLinkedListTable l).exec db).2
  | insertVertex {T : List Nat} {db : Db} (h : EdgeHistory x T db) (s : Session) (v : Vertex)
      (props : Gtype) : EdgeHistory x (s.fxid :: T) ((insertVertex s v props).exec db).2
  | insertEdge {T : List Nat} {db : Db} (h : EdgeHistory x T db) (s : Session)
      (startV endV : Vertex) (e : Edge) (props : Gtype) :
      EdgeHistory x (s.fxid :: T) ((insertEdge x s startV endV e props).exec db).2
  | deleteEdge {T : List Nat} {db : Db} (h : EdgeHistory x T db) (fuel : Nat) (s : Session)
      (id l : Nat) : EdgeHistory x (s.fxid :: T) ((deleteEdge fuel s id l).exec db).2
  | deleteVertex {T : List Nat} {db : Db} (h : EdgeHistory x T db) (fuel : Nat) (s : Session)
      (id l : Nat) (detach : Bool) :
      EdgeHistory x (s.fxid :: T) ((deleteVertex x fuel s id l detach).exec db).2
  | setVertexLabel {T : List Nat} {db : Db} (h : EdgeHistory x T db) (fuel : Nat) (s : Session)
      (id l target : Nat) :
      EdgeHistory x (s.fxid :: T) ((setVertexLabel x fuel s id l target).exec db).2
  | removeVertexLabel {T : List Nat} {db : Db} (h : EdgeHistory x T db) (fuel : Nat) (s : Session)
      (id l target : Nat) :
      EdgeHistory x (s.fxid :: T) ((removeVertexLabel x fuel s id l target).exec db).2

section

variable {x : Unspecified} {T T' : List Nat} {st st' : Store} {db : Db} {s : Session}
  {v : VertexKey}

theorem WrittenBy.of_nodes (h : WrittenBy T st)
    (hsub : ∀ a n, st'.node a = some n → st.node a = some n) : WrittenBy T st' :=
  fun a n hn => h a n (hsub a n hn)

theorem WrittenBy.cons (h : WrittenBy T st) (t : Nat) : WrittenBy (t :: T) st := by
  intro a n hn
  obtain ⟨rec, rfl, hmin, hmax⟩ := h a n hn
  exact ⟨rec, rfl, List.mem_cons_of_mem _ hmin, fun hv => List.mem_cons_of_mem _ (hmax hv)⟩

/-- A node that is put in keeps the property if it has it. -/
theorem WrittenBy.putNode (h : WrittenBy T st) {a : Addr} {rec : NeoLinkedListRecord}
    (hmin : rec.xmin ∈ T) (hmax : fullXidIsValid rec.xmax = true → rec.xmax ∈ T) :
    WrittenBy T (st.putNode a (.linked rec)) := by
  intro b n hn
  change Function.update st.node a _ b = some n at hn
  rw [Function.update_apply] at hn
  split at hn
  · obtain rfl := Option.some.inj hn
    exact ⟨rec, rfl, hmin, hmax⟩
  · exact h b n hn

/-- **What a session of `T` writes** to the adjacency is written by `T`. -/
theorem adjKept_writtenBy (hs : s.fxid ∈ T) : AdjKept s (WrittenBy T) where
  same st st' hsame h := h.of_nodes fun a n hn => by
    rw [← hsame]
    exact hn
  append st a rec hmin hmax h := by
    refine h.putNode (by rw [hmin]; exact hs) fun hv => ?_
    rw [hmax] at hv
    cases hv
  setPrev st a n tbl tid hn h := by
    obtain ⟨rec, rfl, hmin, hmax⟩ := h a n hn
    exact h.putNode hmin hmax
  stamp st p h := by
    intro b n hn
    change Function.update st.node p.1 _ b = some n at hn
    rw [Function.update_apply] at hn
    split at hn
    · obtain ⟨n₀, hn₀, rfl⟩ := Option.map_eq_some_iff.mp hn
      obtain ⟨rec, rfl, hmin, hmax⟩ := h _ _ hn₀
      refine ⟨_, rfl, ?_, fun hv => ?_⟩
      · split
        · exact hmin
        · exact hmin
      · split
        · exact hs
        · next hi =>
          rw [if_neg hi] at hv
          exact hmax hv
    · exact h b n hn

theorem WrittenBy.rotate (l : Nat) :
    (rotateActiveLinkedListTable l).Keeps fun db => WrittenBy T db.store := by
  have hlab : ∀ {α : Type} (e : Err) (f : XactState → VertexLabel → Except Err (α × VertexLabel)),
      (onVertexLabel l e f).Keeps fun db => WrittenBy T db.store := fun e f =>
    Prog.keeps_of_runs fun db a db' h hr => by
      obtain ⟨lab, lab', -, -, rfl⟩ := runs_onVertexLabel.mp hr
      exact h.of_nodes fun a n hn => hn
  refine Prog.Keeps.bind ((hlab _ _).bind fun id => Prog.Keeps.bind ?_ fun o =>
    (hlab _ _).bind fun _ => Prog.keeps_ret _ _) fun _ => Prog.keeps_ret _ _
  refine Prog.keeps_step fun db o db' h hr => ?_
  obtain ⟨-, rfl⟩ := Prod.mk.inj (Except.ok.inj hr)
  exact h.of_nodes fun a n hn => node_setRel_empty db _ node_emptyLinkedList hn

/-- **The transactions of a history wrote all of its adjacency.** -/
theorem EdgeHistory.writtenBy (h : EdgeHistory x T db) : WrittenBy T db.store := by
  have hop : ∀ {T : List Nat} {s : Session} {α : Type} {p : Op α} {db : Db},
      WrittenBy T db.store → (AdjKept s (WrittenBy (s.fxid :: T)) →
        p.Keeps fun db => WrittenBy (s.fxid :: T) db.store) →
      WrittenBy (s.fxid :: T) (p.exec db).2.store := fun {_ s _ _ _} hw hp =>
    (hp (adjKept_writtenBy (List.mem_cons_self ..))).exec (hw.cons s.fxid)
  induction h with
  | empty xacts =>
    intro a n hn
    cases hn
  | xacts _ _ ih => exact ih
  | vertexLabel _ l ih =>
    refine ih.of_nodes fun a n hn => ?_
    exact node_setRel_empty _ _ node_emptyArrayList (node_setRel_empty _ _ node_emptyLinkedList hn)
  | edgeLabel _ l ih => exact ih
  | rotate _ l ih => exact (WrittenBy.rotate l).exec ih
  | insertVertex _ s v props ih => exact hop ih fun hk => hk.insertVertex v props
  | insertEdge _ s a b e props ih => exact hop ih fun hk => hk.insertEdge x a b e props
  | deleteEdge _ fuel s id l ih => exact hop ih fun hk => hk.deleteEdge fuel id l
  | deleteVertex _ fuel s id l detach ih => exact hop ih fun hk => hk.deleteVertex x fuel id l detach
  | setVertexLabel _ fuel s id l target ih =>
    exact hop ih fun hk => hk.setVertexLabel x fuel id l target
  | removeVertexLabel _ fuel s id l target ih =>
    exact hop ih fun hk => hk.removeVertexLabel x fuel id l target

/-- Nothing is stale for a session that sees every transaction of the history. -/
theorem EdgeHistory.not_stale (h : EdgeHistory x T db)
    (hseen : ∀ t ∈ T, db.xacts.seen s.own t = true) {p : NodePath} (hp : db.store.Path v p) :
    ∀ y ∈ p, y.2.isLinked = true ∧ ∀ m ∈ y.2.members, ¬ m.Stale db.xacts s.own := by
  intro y hy
  obtain ⟨rec, hrec, hmin, hmax⟩ := h.writtenBy y.1 y.2 (hp.get hy)
  rw [hrec]
  refine ⟨rfl, fun m hm hstale => ?_⟩
  obtain rfl := List.mem_singleton.mp hm
  unfold AdjListMember.Stale at hstale
  split at hstale
  · exact Bool.noConfusion ((hseen _ hmin).symm.trans hstale)
  · next hu =>
    have hv : fullXidIsValid rec.xmax = true := by
      unfold AdjListMember.undeleted at hu
      rwa [Bool.not_eq_true, Bool.not_eq_false'] at hu
    exact Bool.noConfusion ((hseen _ (hmax hv)).symm.trans hstale.2)

/-- **The walks of a session follow the commit status exactly when** no member of the chain is stale
and none that exists stands at or behind an array block. In a history without compactions they do
whenever each transaction that changed the graph has committed or is the session's own. -/
theorem walksFollowStatus_iff (db : Db) (s : Session) (v : VertexKey) :
    (WalksFollowStatus db s v ↔ ∀ p, db.store.Path v p →
      (∀ y ∈ p, ∀ m ∈ y.2.members, ¬ m.Stale db.xacts s.own) ∧
        ∀ y ∈ p.blockPart, ∀ m ∈ y.2.members, m.existing db.xacts s.own = false) ∧
    ∀ x T, EdgeHistory x T db → (∀ t ∈ T, db.xacts.seen s.own t = true) →
      WalksFollowStatus db s v := by
  have hiff : WalksFollowStatus db s v ↔ ∀ p, db.store.Path v p →
      (∀ y ∈ p, ∀ m ∈ y.2.members, ¬ m.Stale db.xacts s.own) ∧
        ∀ y ∈ p.blockPart, ∀ m ∈ y.2.members, m.existing db.xacts s.own = false :=
    forall_congr' fun p => imp_congr_right fun _ => followsStatus_iff
  refine ⟨hiff, fun x T h hseen => hiff.mpr fun p hp => ⟨fun y hy => ?_, fun y hy => ?_⟩⟩
  · exact (h.not_stale hseen hp y hy).2
  · -- a history without compactions has no block
    cases hb : p.blockPart with
    | nil =>
      rw [hb] at hy
      cases hy
    | cons z q =>
      obtain ⟨rec, hrec⟩ := blockPart_cons hb
      have hz : z ∈ p := by
        rw [← linkedPart_append_blockPart p, hb]
        simp
      have hlinked := (h.not_stale hseen hp z hz).1
      rw [hrec] at hlinked
      cases hlinked

end

/-- Two edges of a committed transaction, seen by a later one. -/
theorem walksFollowStatus_iff_example : WalksFollowStatus exampleTwoLabelsDb ⟨6, 0⟩ (1, 1) := by
  have h₀ := EdgeHistory.empty (x := exampleUnspecified) exampleXacts6
  have h₃ := ((h₀.vertexLabel 1).edgeLabel 1).edgeLabel 2
  have h₅ := (h₃.insertVertex ⟨5, 0⟩ ⟨1, 1, 0⟩ npEmptyGtypeObject).insertVertex ⟨5, 0⟩ ⟨2, 1, 0⟩
    npEmptyGtypeObject
  have h₇ := (h₅.insertEdge ⟨5, 0⟩ ⟨1, 1, 0⟩ ⟨2, 1, 0⟩ ⟨1, 1, 0, 1, 1, 1, 2⟩
    npEmptyGtypeObject).insertEdge ⟨5, 0⟩ ⟨1, 1, 0⟩ ⟨2, 1, 0⟩ ⟨1, 2, 0, 1, 1, 1, 2⟩
    npEmptyGtypeObject
  refine (walksFollowStatus_iff exampleTwoLabelsDb ⟨6, 0⟩ (1, 1)).2 _ _ h₇ fun t ht => ?_
  have ht5 : t = 5 := by simpa using ht
  rw [ht5]
  rfl

/-- Transaction 6 has aborted, 7 runs. -/
def exampleXacts7 : XactState :=
  ⟨8, fun x => if x = 6 then .aborted else if x = 7 then .inProgress else .committed⟩

/-- Two vertices of transaction 5, and an edge of transaction 6 between them. -/
def exampleAbortedEdge : List (Op Unit) :=
  let v : Vertex := ⟨1, 1, 0⟩
  let w : Vertex := ⟨2, 1, 0⟩
  [buildVertexLabelInfrastructure 1, createElabelInternal 1,
    insertVertex ⟨5, 0⟩ v npEmptyGtypeObject, insertVertex ⟨5, 0⟩ w npEmptyGtypeObject,
    insertEdge exampleUnspecified ⟨6, 0⟩ v w ⟨1, 1, 0, 1, 1, 1, 2⟩ npEmptyGtypeObject]

/-- The state they leave, once transaction 6 has aborted. -/
def exampleAbortedEdgeDb : Db :=
  { execAll exampleAbortedEdge (Db.empty exampleXacts6) with xacts := exampleXacts7 }

/-- The walks of transaction 7 take the edge of the aborted transaction 6 for one: the vertex, which
has no other edge, cannot be deleted without `detach`. -/
theorem walksFollowStatus_fails :
    EdgeHistory exampleUnspecified [6, 5, 5] exampleAbortedEdgeDb ∧
      ¬ WalksFollowStatus exampleAbortedEdgeDb ⟨7, 0⟩ (1, 1) ∧
      ((deleteVertex exampleUnspecified 10 ⟨7, 0⟩ 1 1 false).exec exampleAbortedEdgeDb).1 =
        .error (.activeEdges 1) := by
  have h₀ := EdgeHistory.empty (x := exampleUnspecified) exampleXacts6
  have h₂ := (h₀.vertexLabel 1).edgeLabel 1
  have h₄ := (h₂.insertVertex ⟨5, 0⟩ ⟨1, 1, 0⟩ npEmptyGtypeObject).insertVertex ⟨5, 0⟩ ⟨2, 1, 0⟩
    npEmptyGtypeObject
  have h₅ := h₄.insertEdge ⟨6, 0⟩ ⟨1, 1, 0⟩ ⟨2, 1, 0⟩ ⟨1, 1, 0, 1, 1, 1, 2⟩ npEmptyGtypeObject
  refine ⟨h₅.xacts exampleXacts7, fun h => ?_, rfl⟩
  -- the chain of vertex 1 is the one record of that edge, the first of its partition
  let rec' : NeoLinkedListRecord :=
    newLinkedListRecord ⟨6, 0⟩ ⟨1, 1, 0⟩ ⟨2, 1, 0⟩ ⟨1, 1, 0, 1, 1, 1, 2⟩ 0 0 .invalid
  have hpath : exampleAbortedEdgeDb.store.Path (1, 1) [((16385, ⟨0, 1⟩), .linked rec')] :=
    Seg.cons rfl (Seg.nil none)
  obtain ⟨-, -, hmig⟩ := h _ hpath exampleUnspecified [] _ _ [] rfl rec'.toMember
    (List.mem_singleton.mpr rfl)
  have hex := hmig.mp (List.mem_singleton.mpr rfl)
  cases hex

end NeoPostGraph
