import NeoPostGraph.Graph.GraphRun

/-!
# The adjacency as lists of members

What the chains are for: each vertex has a list of adjacency members. On this view the writes of the
code are what their names say: linking an edge at a vertex puts a member in front of its list, and
unlinking one stamps the first undeleted member of its id there.

* `AdjView`: a list of members for each vertex; `AdjView.link`, `AdjView.unlink`, `AdjView.unlinkEdge`,
  `AdjView.linkEdge`.
* `Shows st V A`: the chains of the vertices `V` hold the members `A` says.

Results:
* `Shows.link_runs`, `Shows.unlink_runs`: the code does on the chains what the view says, and always
  succeeds, given fuel.
* `Shows.compact`: a compaction permutes each list.
-/

namespace NeoPostGraph

open SlottedPage LinkedChain

/-- The adjacency members of each vertex, newest first. -/
abbrev AdjView := VertexKey → List AdjListMember

/-- The member an edge insert adds at one end. -/
def newMember (s : Session) (otherV : Vertex) (e : Edge) (direction : Nat) : AdjListMember where
  xmin := s.fxid
  xmax := invalidFullTransactionId
  cmin := s.cid
  cmax := invalidCommandId
  flags := 0
  dir := direction
  edgeId := e.id
  edgeLid := e.labelId
  otherId := otherV.id
  otherLid := otherV.labelId

namespace AdjView

/-- A member is put in front. -/
def link (A : AdjView) (v : VertexKey) (m : AdjListMember) : AdjView :=
  Function.update A v (m :: A v)

/-- The first undeleted member of an edge id is stamped. -/
def unlink (A : AdjView) (s : Session) (id : Nat) (v : VertexKey) : AdjView :=
  Function.update A v (stampFirstMember s id (A v))

/-- The two members of an edge are put in. -/
def linkEdge (A : AdjView) (s : Session) (startV endV : Vertex) (e : Edge) : AdjView :=
  (A.link startV.key (newMember s endV e 0)).link endV.key (newMember s startV e 1)

/-- What a delete of an edge does: the start is unlinked, and then the end. -/
def unlinkEdge (A : AdjView) (s : Session) (id : Nat) (e : Edge) : AdjView :=
  (A.unlink s id e.startKey).unlink s id e.endKey

end AdjView

/-- The chain of a vertex holds these members. -/
def Store.Holds (st : Store) (v : VertexKey) (ms : List AdjListMember) : Prop :=
  ∃ p : NodePath, st.Path v p ∧ p.members = ms

/-- The chains of a graph hold what the view says. -/
structure Shows (st : Store) (V : List VertexKey) (A : AdjView) : Prop where
  layout : GraphLayout st V
  holds : ∀ v ∈ V, st.Holds v (A v)

section

variable {st st' : Store} {V : List VertexKey} {A A' : AdjView} {v w : VertexKey} {s : Session}
  {db db' : Db} {id : Nat} {ms ms' : List AdjListMember}

theorem Store.Holds.det (h : st.Holds v ms) (h' : st.Holds v ms') : ms = ms' := by
  obtain ⟨p, hp, rfl⟩ := h
  obtain ⟨p', hp', rfl⟩ := h'
  rw [hp.det hp']

/-- Every graph has a view. -/
theorem GraphLayout.shows (h : GraphLayout st V) : ∃ A, Shows st V A := by
  have hex : ∀ v, ∃ ms, v ∈ V → st.Holds v ms := fun v => by
    by_cases hv : v ∈ V
    · obtain ⟨ls, bs, hlay⟩ := h.chain v hv
      exact ⟨_, fun _ => ⟨_, hlay.path, rfl⟩⟩
    · exact ⟨[], fun hc => absurd hc hv⟩
  choose A hA using hex
  exact ⟨A, h, hA⟩

theorem Shows.congr (h : Shows st V A) (hA : ∀ v ∈ V, A' v = A v) : Shows st V A' :=
  ⟨h.layout, fun v hv => by
    rw [hA v hv]
    exact h.holds v hv⟩

/-! ## Linking -/

/-- **Linking puts the new member in front of the owner's list**, and succeeds. -/
theorem Shows.link_runs (h : Shows db.store V A) {ownerV : Vertex} (hmem : ownerV.key ∈ V)
    (s : Session) (otherV : Vertex) (e : Edge) (dir : Nat) :
    ∃ db', (insertEdgeOneDirection s ownerV otherV e dir).Runs db () db' ∧
      Shows db'.store V (A.link ownerV.key (newMember s otherV e dir)) := by
  obtain ⟨db', hr, hlay'⟩ := h.layout.link_runs hmem s otherV e dir
  refine ⟨db', hr, hlay', fun w hw => ?_⟩
  obtain ⟨info, o, tid, rec, -, -, h0, -, hfresh, hv, hslot, hst⟩ := insertEdgeOneDirection_inv hr
  obtain ⟨p, hp, hms⟩ := h.holds w hw
  rw [hst]
  by_cases hwv : w = ownerV.key
  · subst hwv
    have hnext := next_newLinkedListRecord s ownerV otherV e dir rec.eTblId rec.eItemptr (o, tid)
    have hhead : cursor rec.eTblId rec.eItemptr = db.store.head ownerV.key.1 ownerV.key.2 := by
      unfold Store.head
      rw [show db.store.vslot (ownerV.key.1, headSlot ownerV.key.2) = some rec from hslot]
      rfl
    rw [hhead] at hnext
    refine ⟨_, path_link_self hp hfresh hslot h0 hv hnext fun he => ?_, ?_⟩
    · unfold Store.Path at hp
      rw [he] at hp
      cases p with
      | nil => cases hp.nil_inv
      | cons x p =>
        obtain ⟨hx, hn, -⟩ := hp.cons_inv
        rw [← Option.some.inj hx, hfresh] at hn
        cases hn
    · unfold AdjView.link
      rw [Function.update_self, ← hms]
      show AdjNode.members _ ++ NodePath.members _ = _
      rw [members_relinked]
      rfl
  · refine ⟨_, path_link_other hp hfresh (h.layout.slot_ne hmem hw hwv), ?_⟩
    unfold AdjView.link
    rw [Function.update_of_ne hwv, members_relinked, hms]

/-! ## Unlinking -/

/-- Members before the first match stay. -/
theorem stampFirstMember_append {xs ys : List AdjListMember}
    (h : ∀ m ∈ xs, ¬ m.Matches id) :
    stampFirstMember s id (xs ++ ys) = xs ++ stampFirstMember s id ys := by
  induction xs with
  | nil => rfl
  | cons m xs ih =>
    have hm : ¬ matchesEdge id m.edgeId m.toRecordHeader = true := h m List.mem_cons_self
    rw [List.cons_append, List.cons_append, ← ih fun m' hm' => h m' (List.mem_cons_of_mem _ hm')]
    exact if_neg hm

theorem stampFirstMember_eq_self {xs : List AdjListMember} (h : ∀ m ∈ xs, ¬ m.Matches id) :
    stampFirstMember s id xs = xs := by
  have happ : stampFirstMember s id (xs ++ []) = xs ++ [] := stampFirstMember_append h
  rwa [List.append_nil] at happ

/-- Members after the first match stay. -/
theorem stampFirstMember_append_of_mem {xs ys : List AdjListMember}
    (h : ∃ m ∈ xs, m.Matches id) :
    stampFirstMember s id (xs ++ ys) = stampFirstMember s id xs ++ ys := by
  induction xs with
  | nil =>
    obtain ⟨m, hm, -⟩ := h
    cases hm
  | cons m xs ih =>
    rw [List.cons_append]
    unfold stampFirstMember
    split
    · rfl
    · next hm =>
      obtain ⟨m', hm', hmatch⟩ := h
      rcases List.mem_cons.mp hm' with rfl | hm'
      · exact absurd hmatch hm
      · rw [ih ⟨m', hm', hmatch⟩]
        rfl

/-- The members of a path without matches. -/
theorem not_matches_of_firstMatch {p : NodePath} (h : ∀ x ∈ p, x.2.firstMatch id = none) :
    ∀ m ∈ p.members, ¬ m.Matches id := by
  intro m hm
  obtain ⟨x, hx, hmx⟩ := List.mem_flatMap.mp hm
  obtain ⟨j, hj⟩ := List.mem_iff_getElem?.mp hmx
  exact firstMatch_none (h x hx) hj

/-- A path has no match, or a first one. -/
theorem firstMatch_cases (id : Nat) (p : NodePath) : (∀ x ∈ p, x.2.firstMatch id = none) ∨
    ∃ pre x post i, p = pre ++ x :: post ∧ (∀ y ∈ pre, y.2.firstMatch id = none) ∧
      x.2.firstMatch id = some i := by
  induction p with
  | nil => exact Or.inl fun x hx => absurd hx List.not_mem_nil
  | cons x p ih =>
    cases hx : x.2.firstMatch id with
    | some i =>
      exact Or.inr ⟨[], x, p, i, rfl, fun y hy => absurd hy List.not_mem_nil, hx⟩
    | none =>
      rcases ih with hall | ⟨pre, y, post, i, rfl, hpre, hy⟩
      · refine Or.inl fun y hy => ?_
        rcases List.mem_cons.mp hy with rfl | hy
        · exact hx
        · exact hall y hy
      · refine Or.inr ⟨x :: pre, y, post, i, rfl, fun z hz => ?_, hy⟩
        rcases List.mem_cons.mp hz with rfl | hz
        · exact hx
        · exact hpre z hz

/-- The members of a path after its first match is stamped. -/
theorem members_stamp {pre post : NodePath} {x : Addr × AdjNode} {i : Nat}
    (hnodup : ((pre ++ x :: post).map Prod.fst).Nodup)
    (hpre : ∀ y ∈ pre, y.2.firstMatch id = none) (hx : x.2.firstMatch id = some i) :
    NodePath.members (setNode x.1 (AdjNode.stampAt s i) (pre ++ x :: post)) =
      stampFirstMember s id (NodePath.members (pre ++ x :: post)) := by
  have happ : ∀ xs ys : NodePath, NodePath.members (xs ++ ys) = xs.members ++ ys.members :=
    fun xs ys => List.flatMap_append
  rw [List.map_append, List.map_cons] at hnodup
  obtain ⟨-, hpost, hdisj⟩ := List.nodup_append.mp hnodup
  have hnpre : x.1 ∉ pre.map Prod.fst := fun hc => hdisj _ hc _ List.mem_cons_self rfl
  have hnpost : x.1 ∉ post.map Prod.fst := (List.nodup_cons.mp hpost).1
  obtain ⟨hlt, hmatch, -⟩ := List.findIdx?_eq_some_iff_getElem.mp hx
  rw [setNode_append, setNode_of_notMem _ hnpre, setNode_cons_self _ hnpost, happ, happ,
    stampFirstMember_append (not_matches_of_firstMatch hpre)]
  show _ ++ ((x.2.stampAt s i).members ++ post.members) =
    _ ++ stampFirstMember s id (x.2.members ++ post.members)
  rw [stampFirstMember_append_of_mem ⟨_, List.getElem_mem hlt, hmatch⟩, stampFirstMember_eq hx,
    AdjNode.members_stampAt]

/-- A walk that meets no match ends, and has changed nothing. -/
theorem unlinkWalk_runs_none {tbl : Oid} {tid : ItemPointer} {p : NodePath}
    (hp : Seg db.store.node AdjNode.next (cursor tbl tid) p none)
    (hall : ∀ x ∈ p, x.2.firstMatch id = none) (s : Session) :
    ∃ db', db'.store = db.store ∧
      ∀ fuel, p.length < fuel → (unlinkWalk s id fuel tbl tid).Runs db () db' := by
  induction p generalizing db tbl tid with
  | nil =>
    refine ⟨db, rfl, fun fuel hfuel => ?_⟩
    obtain ⟨k, rfl⟩ := Nat.exists_eq_succ_of_ne_zero (Nat.ne_of_gt hfuel)
    have hcur := hp.nil_inv
    unfold unlinkWalk
    unfold cursor at hcur
    split
    · next hv =>
      rw [if_pos hv] at hcur
      cases hcur
    · exact Prog.runs_ret_iff.mpr ⟨rfl, rfl⟩
  | cons x p ih =>
    obtain ⟨hcur, hxn, hrest⟩ := hp.cons_inv
    obtain ⟨hx, hv⟩ := cursor_eq_some.mp hcur
    rw [hx] at hxn hrest
    obtain ⟨r, db₁, hr⟩ := unlinkAt_runs hxn s id
    obtain ⟨n', hn', hcase⟩ := unlinkAt_inv hr
    obtain rfl := Option.some.inj (hxn.symm.trans hn')
    rw [hall x List.mem_cons_self] at hcase
    rcases hcase with ⟨i, hi, -⟩ | ⟨-, hst, ⟨ntbl, ntid⟩, rfl, hnext⟩
    · cases hi
    · rw [← hnext, ← hst] at hrest
      obtain ⟨db', hst', hruns⟩ := ih hrest fun y hy => hall y (List.mem_cons_of_mem _ hy)
      refine ⟨db', hst'.trans hst, fun fuel hfuel => ?_⟩
      obtain ⟨k, rfl⟩ := Nat.exists_eq_succ_of_ne_zero (Nat.ne_of_gt (Nat.zero_lt_of_lt hfuel))
      unfold unlinkWalk
      rw [if_pos (by rw [Bool.and_eq_true]; exact hv)]
      exact hr.bind (hruns k (Nat.lt_of_succ_lt_succ hfuel))

/-- A stamp in the chain of one vertex leaves that of another. -/
theorem Shows.holds_stamp_other (h : Shows st V A) {p : NodePath} (hv : v ∈ V) (hp : st.Path v p)
    {x : Addr × AdjNode} (hx : x ∈ p) (hw : w ∈ V) (hne : w ≠ v) (s : Session) (i : Nat) :
    (st.stamp s (x.1, i)).Holds w (A w) := by
  obtain ⟨q, hq, hms⟩ := h.holds w hw
  obtain ⟨ls, bs, hlv⟩ := h.layout.chain v hv
  obtain ⟨ls', bs', hlw⟩ := h.layout.chain w hw
  obtain rfl := hlv.path.det hp
  obtain rfl := hlw.path.det hq
  refine ⟨_, Seg.frame hq fun y hy => Function.update_of_ne (fun he => hne ?_) .., hms⟩
  exact hlw.disjoint h.layout.catalog hlv (List.mem_map_of_mem hy)
    (he ▸ List.mem_map_of_mem hx)

/-- **Unlinking stamps the first undeleted member of the id in the list**, if there is one, and
succeeds, given fuel. -/
theorem Shows.unlink_runs (h : Shows db.store V A) (hv : v ∈ V) (s : Session) (id : Nat) :
    ∃ db' fuel₀, Shows db'.store V (A.unlink s id v) ∧
      (db'.store = db.store ∨ ∃ p, db'.store = db.store.stamp s p) ∧ ∀ fuel, fuel₀ ≤ fuel →
        (npDeleteEdgeFromAdjList fuel s v.2 v.1 id).Runs db () db' := by
  obtain ⟨ls, bs, hlay⟩ := h.layout.chain v hv
  obtain ⟨rec, hrec⟩ := hlay.slot
  obtain ⟨lab, hlab⟩ := exists_vlabel_of_vslot hrec
  obtain ⟨p, hp, hms⟩ := h.holds v hv
  have hcur : cursor (getCurrentHeadTid lab.physMap.table v.2).1
      (getCurrentHeadTid lab.physMap.table v.2).2 = db.store.head v.1 v.2 :=
    readHead_cursor (runs_readVertexLabel.mpr ⟨lab, hlab, rfl, rfl⟩)
  have hp' := hp
  unfold Store.Path at hp'
  rw [← hcur] at hp'
  have hread : ∀ {fuel : Nat} {db' : Db}, (unlinkWalk s id fuel
      (getCurrentHeadTid lab.physMap.table v.2).1
      (getCurrentHeadTid lab.physMap.table v.2).2).Runs db () db' →
      (npDeleteEdgeFromAdjList fuel s v.2 v.1 id).Runs db () db' := fun hr =>
    Prog.Runs.bind (a := some (getCurrentHeadTid lab.physMap.table v.2))
      (Prog.runs_read_iff.mpr ⟨by simp only [hlab], rfl⟩) hr
  rcases firstMatch_cases id p with hall | ⟨pre, x, post, i, rfl, hpre, hx⟩
  · obtain ⟨db', hst, hruns⟩ := unlinkWalk_runs_none hp' hall s
    refine ⟨db', p.length + 1, ?_, Or.inl hst, fun fuel hfuel => hread (hruns fuel hfuel)⟩
    rw [hst]
    refine h.congr fun w hw => ?_
    unfold AdjView.unlink
    by_cases hwv : w = v
    · subst hwv
      rw [Function.update_self, ← hms, stampFirstMember_eq_self (not_matches_of_firstMatch hall)]
    · rw [Function.update_of_ne hwv]
  · obtain ⟨b, hseg, hrest⟩ := hp'.split
    obtain ⟨rfl, hxn, -⟩ := hrest.cons_inv
    obtain ⟨db', hst, hruns⟩ := unlinkWalk_runs (p := (x.1, i)) (s := s) hseg hpre hxn hx
    refine ⟨db', pre.length + 1, ⟨?_, fun w hw => ?_⟩, Or.inr ⟨_, hst⟩,
      fun fuel hfuel => hread (hruns fuel hfuel)⟩
    · rw [hst]
      exact h.layout.stamp s _
    · rw [hst]
      unfold AdjView.unlink
      by_cases hwv : w = v
      · subst hwv
        refine ⟨_, seg_stamp hp s (x.1, i), ?_⟩
        rw [Function.update_self, ← hms]
        exact members_stamp hp.nodup hpre hx
      · rw [Function.update_of_ne hwv]
        exact h.holds_stamp_other hv hp (List.mem_append_right _ List.mem_cons_self) hw hwv s i

/-! ## Whole operations -/

theorem Shows.same (h : Shows st V A) (hl : GraphLayout st' V) (hs : st'.vslot = st.vslot)
    (hn : st'.node = st.node) : Shows st' V A := by
  refine ⟨hl, fun v hv => ?_⟩
  obtain ⟨p, hp, hms⟩ := h.holds v hv
  refine ⟨p, ?_, hms⟩
  unfold Store.Path Store.head at hp ⊢
  rw [hs, hn]
  exact hp

theorem Shows.stampEdge (h : Shows st V A) (s : Session) (l : Nat) (tid : ItemPointer)
    (t : EntityTuple Edge) : Shows (st.stampEdge s l tid t) V A :=
  h.same (h.layout.same rfl rfl rfl rfl rfl) rfl rfl

theorem sameTuples_of_stamps (h : st' = st ∨ ∃ p, st' = st.stamp s p) : SameTuples st st' := by
  rcases h with rfl | ⟨p, rfl⟩
  · exact SameTuples.refl _
  · exact (sameEntities_stamp st s p).tuples

/-- **A delete of an edge unlinks it at both ends**, whosever members it meets there. -/
theorem Shows.deleteEdge_runs {l : Nat} {rec : NeoEdgePhysMapRecord} {t : EntityTuple Edge}
    (h : Shows db.store V A) (hrec : db.store.eslot (l, edgeSlot id) = some rec)
    (ht : db.store.etuple (l, rec.eItemptr) = some t) (hup : Updatable db.store.xacts s.own t)
    (hstart : t.entity.startKey ∈ V) (hend : t.entity.endKey ∈ V) :
    ∃ db' fuel₀, Shows db'.store V (A.unlinkEdge s id t.entity) ∧
      SameTuples (db.store.stampEdge s l rec.eItemptr t) db'.store ∧
      db'.store.elabel = db.store.elabel ∧ ∀ fuel, fuel₀ ≤ fuel →
        (npInternalDeleteEdge fuel s l id).Runs db () db' := by
  obtain ⟨db₁, h₁⟩ := tombstoneEdge_runs ht hup id
  obtain ⟨t', ht', -, -, hst₁⟩ := tombstoneEdge_inv h₁
  obtain rfl := Option.some.inj (ht.symm.trans ht')
  change db₁.store = db.store.stampEdge s l rec.eItemptr t at hst₁
  have hs₁ : Shows db₁.store V A := by
    rw [hst₁]
    exact h.stampEdge s l rec.eItemptr t
  obtain ⟨db₂, n₁, hs₂, hst₂, h₂⟩ := hs₁.unlink_runs hstart s id
  obtain ⟨db₃, n₂, hs₃, hst₃, h₃⟩ := hs₂.unlink_runs hend s id
  have hlab : ∀ {st st' : Store}, (st' = st ∨ ∃ p, st' = st.stamp s p) →
      st'.elabel = st.elabel := by
    rintro st st' (rfl | ⟨p, rfl⟩) <;> rfl
  refine ⟨db₃, max n₁ n₂, hs₃, ?_, ?_, fun fuel hfuel => ?_⟩
  · rw [← hst₁]
    exact (sameTuples_of_stamps hst₂).trans (sameTuples_of_stamps hst₃)
  · rw [hlab hst₃, hlab hst₂, hst₁]
    rfl
  · have hle := Nat.max_le.mp hfuel
    exact (readEdgeSlot_iff.mpr ⟨rfl, hrec⟩).bind
      (h₁.bind ((h₂ fuel hle.1).bind (h₃ fuel hle.2)))

/-- **An insert of an edge links it at both ends.** -/
theorem Shows.insertEdge_runs {startV endV : Vertex} {e : Edge} {props : Gtype}
    (h : Shows db.store V A) (hl : db.store.elabel e.labelId = true)
    (hfits : Fits (totalTupleSize sizeOfEdge props)) (hstart : startV.key ∈ V)
    (hend : endV.key ∈ V) (u : Unspecified) (s : Session) :
    ∃ db' tid eslot, (npInternalInsertEdge u s startV endV e props).Runs db () db' ∧
      Shows db'.store V (A.linkEdge s startV endV e) ∧
      db.store.etuple (e.labelId, tid) = none ∧
      Placed db.store.eslot eslot e.labelId (edgeSlot e.id)
        (pageCapacity sizeOfNeoEdgePhysMapRecord) emptyEdgePad ⟨tid, u.stackItemptr e⟩ ∧
      SameTuples { db.store with
        etuple := Function.update db.store.etuple (e.labelId, tid)
          (some (newEntityTuple s e.id .invalid e props))
        eslot := eslot } db'.store := by
  obtain ⟨tid₀, db₁, h₁⟩ := writeEdgeTuple_runs (e := .edgeLabelTableNotFound) hl
    (show Fits (totalTupleSize sizeOfEdge (newEntityTuple s e.id .invalid e props).props) from hfits)
  obtain ⟨-, -, -, -, -, hst₁⟩ := writeEdgeTuple_inv h₁
  have hl₁ : db₁.store.elabel e.labelId = true := by
    rw [hst₁]
    exact hl
  obtain ⟨db₂, h₂⟩ := setEdgeSlot_runs hl₁ e.id .edgeLabelTableNotFound ⟨tid₀, u.stackItemptr e⟩
  obtain ⟨-, -, hst₂⟩ := setEdgeSlot_inv h₂
  have hs₂ : Shows db₂.store V A := by
    rw [hst₂, hst₁]
    exact h.same (h.layout.same rfl rfl rfl rfl rfl) rfl rfl
  obtain ⟨db₃, h₃, hs₃⟩ := hs₂.link_runs hstart s endV e 0
  obtain ⟨db₄, h₄, hs₄⟩ := hs₃.link_runs hend s startV e 1
  have hr : (npInternalInsertEdge u s startV endV e props).Runs db () db₄ :=
    h₁.bind (h₂.bind (h₃.bind h₄))
  obtain ⟨tid, db₅, db₆, -, hnone, -, -, hplaced, hst, hlink, hlink'⟩ := npInternalInsertEdge_inv hr
  refine ⟨db₄, tid, db₅.store.eslot, hr, hs₄, hnone, hplaced, ?_⟩
  rw [← hst]
  exact (sameTuples_of_link hlink).trans (sameTuples_of_link hlink')

/-- A new vertex has an empty list. -/
theorem Shows.insertVertex {v : Vertex} {props : Gtype} {w : Unit} (h : Shows db.store V A)
    (hagree : headSlot v.id = entitySlot v.id)
    (hnew : ∀ w ∈ V, w.1 = v.labelId → headSlot w.2 ≠ headSlot v.id)
    (hr : (insertVertex s v props).Runs db w db') :
    Shows db'.store (v.key :: V) (Function.update A v.key []) := by
  have hlay := h.layout.vertex hagree hnew hr
  obtain ⟨tid, -, -, -, -, hplaced, hst⟩ := npInternalInsertVertex_inv hr
  refine ⟨hlay, fun w hw => ?_⟩
  by_cases hwv : w = v.key
  · subst hwv
    have hslot : db'.store.vslot (v.labelId, headSlot v.id) = some ⟨tid, 0, .invalid, .invalid⟩ := by
      rw [hagree]
      exact hplaced.self.trans (if_pos (offset_le_of_agree hagree))
    refine ⟨[], ?_, ?_⟩
    · unfold Store.Path Store.head
      rw [show db'.store.vslot (v.key.1, headSlot v.key.2) = _ from hslot, Option.bind_some,
        cursor_invalid]
      exact Seg.nil none
    · rw [Function.update_self]
      rfl
  · have hw' : w ∈ V := (List.mem_cons.mp hw).resolve_left hwv
    obtain ⟨p, hp, hms⟩ := h.holds w hw'
    obtain ⟨ls, bs, hlw⟩ := h.layout.chain w hw'
    obtain ⟨rec, hrec⟩ := hlw.slot
    have hne : (w.1, headSlot w.2) ≠ (v.labelId, entitySlot v.id) := fun he => by
      rw [← hagree] at he
      exact hnew w hw' (Prod.mk.inj he).1 (Prod.mk.inj he).2
    rw [Function.update_of_ne hwv]
    refine ⟨p, ?_, hms⟩
    have hnode : db'.store.node = db.store.node := by rw [hst]
    unfold Store.Path Store.head at hp ⊢
    rw [hnode, hplaced.old hne hrec]
    rw [hrec] at hp
    exact hp

/-- **A compaction permutes each list.** -/
theorem Shows.compact (h : Shows db.store V A) {l : Nat} (hl : (db.store.vlabel l).isSome)
    (u : Unspecified) (s : Session) :
    ∃ db' A', (compactOldestLinkedListTable u s l).Runs db () db' ∧ Shows db'.store V A' ∧
      ∀ v ∈ V, (A' v).Perm (A v) := by
  obtain ⟨db', hr, hlay, hperm⟩ := compactOldestLinkedListTable_runs h.layout hl u s
  obtain ⟨A', hA'⟩ := hlay.shows
  refine ⟨db', A', hr, hA', fun v hv => ?_⟩
  obtain ⟨p, p', hp, hp', hms⟩ := hperm v hv
  rw [(h.holds v hv).det ⟨p, hp, rfl⟩, (hA'.holds v hv).det ⟨p', hp', rfl⟩]
  exact hms

end

end NeoPostGraph
