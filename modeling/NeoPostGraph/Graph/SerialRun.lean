import NeoPostGraph.Graph.SerialCall

/-!
# Serial runs

Transactions one after the other, each of which commits. The property graph in the store is then what
the operations make of the empty one.

* `LiveRun os G`: the operations, in order, make `G`.
* `SerialRun u base os tx db`: such a run has made the calls `os`, and leads from an empty graph to
  `db`. `tx` is the open transaction.

Results:
* `SerialRun.graph`: the state depicts what the operations make, and nothing else.
* `SerialRun.call_settles`: each call does its operation and the run goes on, or it is refused and
  fails.
-/

namespace NeoPostGraph

open SlottedPage LinkedChain

/-- What operations make of the empty graph. -/
inductive LiveRun : List GraphOp → LiveGraph → Prop
  | nil : LiveRun [] PropertyGraph.empty
  | snoc {os : List GraphOp} {o : GraphOp} {G G' : LiveGraph} (h : LiveRun os G) (hd : o.Does G G') :
      LiveRun (os ++ [o]) G'

/-- **Transactions one after the other**, with the calls they have made. A run uses fewer than 2^31
transaction ids. -/
inductive SerialRun (u : Unspecified) (base : Nat) : List GraphOp → Option Nat → Db → Prop
  | empty (status : Nat → XidStatus) (hbase : firstNormalTransactionId ≤ xidFromFull base) :
      SerialRun u base [] none (Db.empty ⟨base, status⟩)
  | vertexLabel {os : List GraphOp} {tx : Option Nat} {db db' : Db} {l : Nat}
      (h : SerialRun u base os tx db) (hnew : db.store.vlabel l = none)
      (hr : (buildVertexLabelInfrastructure l).Runs db () db') : SerialRun u base os tx db'
  | edgeLabel {os : List GraphOp} {tx : Option Nat} {db : Db} {l : Nat}
      (h : SerialRun u base os tx db) (hnew : db.store.elabel l = false) :
      SerialRun u base os tx ((createElabelInternal l).exec db).2
  | begin {os : List GraphOp} {db : Db} (h : SerialRun u base os none db)
      (hroom : db.xacts.begin.nextFxid ≤ base + 2 ^ 31) :
      SerialRun u base os (some db.xacts.nextFxid) db.begin
  | commit {os : List GraphOp} {db : Db} {t : Nat} (h : SerialRun u base os (some t) db) :
      SerialRun u base os none (db.commit t)
  | call {os : List GraphOp} {db db' : Db} {s : Session} {o : GraphOp}
      (h : SerialRun u base os (some s.fxid) db) (ho : o.Ready db.store s)
      (hr : o.Completes u s db db') : SerialRun u base (os ++ [o]) (some s.fxid) db'

section

variable {u : Unspecified} {base t : Nat} {os : List GraphOp} {tx : Option Nat} {db db' db'' : Db}
  {s : Session} {o : GraphOp} {V : List VertexKey} {A : AdjView} {G : LiveGraph} {x : XactState}
  {st : Store}

/-! ## Transactions -/

/-- Between the next id and the one after it there is no id of a transaction. -/
theorem eq_next_of_begun (ht : x.begin.Begun base t) (hn : x.nextFxid ≤ t) : t = x.nextFxid := by
  obtain ⟨-, hlt, hnormal⟩ := ht
  change t < fullTransactionIdAdvance x.nextFxid at hlt
  change firstNormalTransactionId ≤ xidFromFull t at hnormal
  unfold fullTransactionIdAdvance at hlt
  unfold firstNormalTransactionId xidFromFull at *
  omega

theorem SerialXacts.begin (h : SerialXacts base none x) :
    SerialXacts base (some x.nextFxid) x.begin := by
  intro t ht
  by_cases hn : x.nextFxid ≤ t
  · exact Or.inr (congrArg some (eq_next_of_begun ht hn).symm)
  · have hold : x.Begun base t := ⟨ht.1, Nat.lt_of_not_le hn, ht.2.2⟩
    refine Or.inl ?_
    rcases h t hold with hc | hnone
    · exact (Function.update_of_ne (fun he => hn (Nat.le_of_eq he.symm)) ..).trans hc
    · cases hnone

theorem SerialXacts.commit (h : SerialXacts base (some t) x) : SerialXacts base none (x.commit t) := by
  intro v hv
  refine Or.inl ?_
  by_cases hvt : v = t
  · rw [hvt]
    exact Function.update_self ..
  · refine (Function.update_of_ne hvt ..).trans ?_
    rcases h v hv with hc | he
    · exact hc
    · exact absurd (Option.some.inj he).symm hvt

/-- Tuples, slots and lists are not a matter of who is running. -/
theorem Depicts.later (h : Depicts st V A G) (x : XactState) :
    Depicts { st with xacts := x } V A G :=
  ⟨h.vertices, h.edges, h.shows.same (h.shows.layout.same rfl rfl rfl rfl rfl) rfl rfl, h.ends⟩

theorem Refines.begin (h : Refines base none db.store V A G)
    (hroom : db.xacts.begin.nextFxid ≤ base + 2 ^ 31) :
    Refines base (some db.xacts.nextFxid) db.begin.store V A G :=
  ⟨h.inv.later (XactState.later_begin base _) (XactState.settles_begin base _) hroom
      (fullTransactionIdAdvance_normal _),
    SerialXacts.begin h.serial, h.depicts.later db.xacts.begin⟩

theorem Refines.commit (h : Refines base (some t) db.store V A G) (ht : db.xacts.Open base t) :
    Refines base none (db.commit t).store V A G :=
  ⟨h.inv.later (XactState.later_commit base _ _) (XactState.settles_commit ht) h.inv.room
      h.inv.normal,
    SerialXacts.commit h.serial, h.depicts.later (db.xacts.commit t)⟩

/-! ## New labels -/

theorem Refines.vertexLabel {l : Nat} (h : Refines base tx db.store V A G)
    (hnew : db.store.vlabel l = none) (hr : (buildVertexLabelInfrastructure l).Runs db () db') :
    Refines base tx db'.store V A G := by
  rw [buildVertexLabelInfrastructure_inv h.inv.layout.catalog hnew hr]
  exact h.same ⟨rfl, rfl, fun _ _ => rfl, rfl, rfl⟩ (h.inv.layout.addLabel hnew) rfl rfl

theorem Refines.edgeLabel {l : Nat} (h : Refines base tx db.store V A G)
    (hnew : db.store.elabel l = false) :
    Refines base tx ((createElabelInternal l).exec db).2.store V A G := by
  rw [createElabelInternal_inv hnew]
  exact h.same ⟨rfl, rfl, fun _ _ => rfl, rfl, rfl⟩ (h.inv.layout.same rfl rfl rfl rfl rfl) rfl rfl

/-! ## Calls -/

theorem GraphOp.Completes.det (h : o.Completes u s db db') (h' : o.Completes u s db db'') :
    db' = db'' := by
  obtain ⟨n, hn⟩ := h
  obtain ⟨m, hm⟩ := h'
  exact ((hn (n + m) (Nat.le_add_right n m)).det (hm (n + m) (Nat.le_add_left m n))).2

theorem GraphOp.Completes.not_fails (h : o.Completes u s db db') : ¬ o.Fails u s db := by
  rintro ⟨m, er, hm⟩
  obtain ⟨n, hn⟩ := h
  have hok := hn (n + m) (Nat.le_add_right n m)
  have herr := hm (n + m) (Nat.le_add_left m n)
  unfold Prog.Runs at hok
  rw [hok] at herr
  cases herr

/-- What holds in every state of a serial run. -/
structure SerialState (base : Nat) (os : List GraphOp) (tx : Option Nat) (db : Db) (G : LiveGraph) :
    Prop where
  realizes : Realizes base tx db G
  history : LiveRun os G
  isOpen : ∀ t, tx = some t → db.xacts.Open base t

/-- A call that completes has done its operation. -/
theorem SerialState.call (h : SerialState base os (some s.fxid) db G) (ho : o.Ready db.store s)
    (hr : o.Completes u s db db') :
    ∃ G', o.Does G G' ∧ SerialState base (os ++ [o]) (some s.fxid) db' G' := by
  have hs := h.isOpen _ rfl
  rcases h.realizes.call hs ho u with ⟨db'', G', hd, hc, h', hx⟩ | ⟨-, hf⟩
  · obtain rfl := hr.det hc
    refine ⟨G', hd, h', h.history.snoc hd, fun t ht => ?_⟩
    obtain rfl := Option.some.inj ht
    rw [hx]
    exact hs
  · exact absurd hf hr.not_fails

theorem serialState_empty (status : Nat → XidStatus)
    (hbase : firstNormalTransactionId ≤ xidFromFull base) :
    SerialState base [] none (Db.empty ⟨base, status⟩) PropertyGraph.empty := by
  refine ⟨⟨[], fun _ => [], graphInv_empty status hbase, fun t ht => ?_, fun l => ?_, fun l => ?_,
    ⟨graphLayout_empty _, fun v hv => absurd hv List.not_mem_nil⟩,
    fun v hv => absurd hv List.not_mem_nil⟩, LiveRun.nil, nofun⟩
  · exact absurd ht.2.1 (Nat.not_lt.mpr ht.1)
  · exact ⟨nofun, nofun⟩
  · exact ⟨nofun, nofun⟩

theorem SerialRun.state (h : SerialRun u base os tx db) : ∃ G, SerialState base os tx db G := by
  induction h with
  | empty status hbase => exact ⟨_, serialState_empty status hbase⟩
  | vertexLabel _ hnew hr ih =>
    obtain ⟨G, ⟨V, A, h⟩, hos, htx⟩ := ih
    have hst := buildVertexLabelInfrastructure_inv h.inv.layout.catalog hnew hr
    refine ⟨G, ⟨V, A, h.vertexLabel hnew hr⟩, hos, fun t ht => ?_⟩
    have hx : ∀ {x : XactState}, x = _ → x.Open base t := fun he => he ▸ htx t ht
    exact hx (congrArg Store.xacts hst)
  | edgeLabel _ hnew ih =>
    obtain ⟨G, ⟨V, A, h⟩, hos, htx⟩ := ih
    exact ⟨G, ⟨V, A, h.edgeLabel hnew⟩, hos, htx⟩
  | begin _ hroom ih =>
    obtain ⟨G, ⟨V, A, h⟩, hos, -⟩ := ih
    refine ⟨G, ⟨V, A, h.begin hroom⟩, hos, fun t ht => ?_⟩
    obtain rfl := Option.some.inj ht
    exact XactState.open_begin h.inv.base_le h.inv.normal
  | commit _ ih =>
    obtain ⟨G, ⟨V, A, h⟩, hos, htx⟩ := ih
    exact ⟨G, ⟨V, A, h.commit (htx _ rfl)⟩, hos, nofun⟩
  | call _ ho hr ih =>
    obtain ⟨G, h⟩ := ih
    obtain ⟨G', -, h'⟩ := h.call ho hr
    exact ⟨G', h'⟩

end

/-! ## The graph of a run -/

section

variable {u : Unspecified} {base : Nat} {os : List GraphOp} {tx : Option Nat} {db : Db} {s : Session}
  {o : GraphOp}

/-- **A serial run makes the graph its operations say**, and the state says no other. -/
theorem SerialRun.graph (h : SerialRun u base os tx db) :
    ∃ G, LiveRun os G ∧ Realizes base tx db G ∧ ∀ G', Realizes base tx db G' → G' = G := by
  obtain ⟨G, hstate⟩ := h.state
  exact ⟨G, hstate.history, hstate.realizes, fun G' h' => h'.unique hstate.realizes⟩

/-- **Each call of a serial run does its operation**, and the run goes on, or the graph refuses the
operation and the call fails. -/
theorem SerialRun.call_settles (h : SerialRun u base os (some s.fxid) db) (ho : o.Ready db.store s) :
    ∃ G, Realizes base (some s.fxid) db G ∧
      ((∃ db' G', o.Does G G' ∧ o.Completes u s db db' ∧ Realizes base (some s.fxid) db' G' ∧
          SerialRun u base (os ++ [o]) (some s.fxid) db') ∨
        (∀ G', ¬ o.Does G G') ∧ o.Fails u s db) := by
  obtain ⟨G, hstate⟩ := h.state
  refine ⟨G, hstate.realizes, ?_⟩
  rcases hstate.realizes.call (hstate.isOpen _ rfl) ho u with ⟨db', G', hd, hc, h', -⟩ | hrefused
  · exact Or.inl ⟨db', G', hd, hc, h', h.call ho hc⟩
  · exact Or.inr hrefused

end

/-! ## A run -/

/-- The calls of `exampleEdge`. -/
def exampleSerialOps : List GraphOp :=
  [.insertVertex ⟨1, 1, 0⟩ npEmptyGtypeObject, .insertVertex ⟨2, 1, 0⟩ npEmptyGtypeObject,
    .insertEdge ⟨1, 1, 0⟩ ⟨2, 1, 0⟩ ⟨1, 1, 0, 1, 1, 1, 2⟩ npEmptyGtypeObject]

theorem not_seesEdge_of_empty {db : Db} (s : Session) (id : Nat)
    (h : ∀ l lab, db.elabels l = some lab → lab.vertexTbl = Table.empty) :
    ¬ db.store.SeesEdge s id := by
  rintro ⟨l, tid, t, ht, -⟩
  obtain ⟨lab, hlab⟩ := exists_elabel_of_etuple ht
  rw [store_etuple hlab, h l lab hlab, Table.get_empty] at ht
  cases ht

theorem ownEdgeSlot_of_entries {db : Db} {l id : Nat} {lab : EdgeLabel}
    (hlab : db.elabels l = some lab)
    (h : ∀ a ∈ lab.vertexTbl.entries, edgeSlot a.2.hdr.id = edgeSlot id → a.2.hdr.id = id) :
    OwnEdgeSlot db.store l id := by
  intro tid t ht hslot
  rw [store_etuple hlab] at ht
  exact h (tid, t) (Table.mem_entries.mpr ht) hslot

theorem serialRun_exampleEdge : SerialRun exampleUnspecified 5 exampleSerialOps (some 5) exampleEdge := by
  have h₀ : SerialRun exampleUnspecified 5 [] none _ :=
    SerialRun.empty (fun _ => .committed) (by decide)
  have h₁ := h₀.vertexLabel (l := 1) rfl (Prog.runs_of_ok rfl)
  have h₂ := (h₁.edgeLabel (l := 1) rfl).edgeLabel (l := 2) rfl
  have h₃ := h₂.begin (by decide)
  have h₄ := h₃.call (s := ⟨5, 0⟩) (o := .insertVertex ⟨1, 1, 0⟩ npEmptyGtypeObject)
    ⟨rfl, freshVertex_of_entries rfl (by decide) (by decide)⟩ ⟨0, fun _ _ => Prog.runs_of_ok rfl⟩
  have h₅ := h₄.call (s := ⟨5, 0⟩) (o := .insertVertex ⟨2, 1, 0⟩ npEmptyGtypeObject)
    ⟨rfl, freshVertex_of_entries rfl (by decide) (by decide)⟩ ⟨0, fun _ _ => Prog.runs_of_ok rfl⟩
  refine h₅.call (s := ⟨5, 0⟩) (o := .insertEdge ⟨1, 1, 0⟩ ⟨2, 1, 0⟩ ⟨1, 1, 0, 1, 1, 1, 2⟩
    npEmptyGtypeObject) ⟨rfl, rfl, rfl, ⟨⟨0, 1⟩, _, rfl, rfl, by decide⟩,
      ⟨⟨0, 2⟩, _, rfl, rfl, by decide⟩, not_seesEdge_of_empty _ _ fun l lab hlab => ?_,
      ownEdgeSlot_of_entries rfl (by decide),
      (by decide : (edgeSlot 1).offset ≤ pageCapacity sizeOfNeoEdgePhysMapRecord)⟩
    ⟨0, fun _ _ => Prog.runs_of_ok rfl⟩
  -- both tables of edges are as they were made
  by_cases h2 : l = 2
  · subst h2
    obtain rfl := Option.some.inj hlab
    rfl
  by_cases h1 : l = 1
  · subst h1
    obtain rfl := Option.some.inj hlab
    rfl
  · have hnone : Function.update (Function.update (fun _ => none) 1 (some newEdgeLabel)) 2
        (some newEdgeLabel) l = some lab := hlab
    rw [Function.update_of_ne h2, Function.update_of_ne h1] at hnone
    cases hnone

theorem SerialRun.graph_example :
    ∃ G, LiveRun exampleSerialOps G ∧ Realizes 5 none (exampleEdge.commit 5) G ∧
      ∀ G', Realizes 5 none (exampleEdge.commit 5) G' → G' = G :=
  serialRun_exampleEdge.commit.graph

/-- The next transaction deletes the edge. -/
theorem SerialRun.call_settles_example :
    ∃ G, Realizes 5 (some 6) (exampleEdges []) G ∧
      ((∃ db' G', (GraphOp.deleteEdge 0 1 1).Does G G' ∧
          (GraphOp.deleteEdge 0 1 1).Completes exampleUnspecified ⟨6, 0⟩ (exampleEdges []) db' ∧
          Realizes 5 (some 6) db' G' ∧
          SerialRun exampleUnspecified 5 (exampleSerialOps ++ [.deleteEdge 0 1 1]) (some 6) db') ∨
        (∀ G', ¬ (GraphOp.deleteEdge 0 1 1).Does G G') ∧
          (GraphOp.deleteEdge 0 1 1).Fails exampleUnspecified ⟨6, 0⟩ (exampleEdges [])) :=
  SerialRun.call_settles (s := ⟨6, 0⟩) (serialRun_exampleEdge.commit.begin (by decide))
    (ownEdgeSlot_of_entries rfl (by decide))

end NeoPostGraph
