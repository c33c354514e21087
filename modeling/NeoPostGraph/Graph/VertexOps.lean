import NeoPostGraph.Graph.GraphOps

/-!
# The operations on vertices keep the invariant

A vertex that changes its label becomes another vertex: `relabel` inserts it under a fresh id of the
target label, moves its edges, stamps the old tuple and clears the old slot.

* `Grown`: what holds after an operation, which may have added a vertex.

Results: one triple for each function that changes a label, `relabelVertex_grown`,
`setVertexLabel_grown`, `removeVertexLabel_grown`, and one lemma for each other call,
`GraphInv.deleteEdge_exec`, `GraphInv.deleteVertex_exec`, `GraphInv.updateVertex_exec` and
`GraphInv.updateEdge_exec`.
-/

namespace NeoPostGraph

open SlottedPage LinkedChain

/-- The invariant of a graph with at least the vertices `V`, with the transactions as they were. -/
def Grown (base : Nat) (x : XactState) (V : List VertexKey) (db : Db) : Prop :=
  ∃ V', (∀ k ∈ V, k ∈ V') ∧ GraphInv base V' db.store ∧ db.store.xacts = x

section

variable {base l id fuel : Nat} {x : XactState} {V : List VertexKey} {s : Session} {st st' : Store}
  {db db' : Db} {u : Unspecified} {w : Unit}

theorem GraphInv.grown (h : GraphInv base V db.store) (hx : db.store.xacts = x) :
    Grown base x V db :=
  ⟨V, fun _ hk => hk, h, hx⟩

theorem OpState.grown {vt : Nat × ItemPointer → Option (EntityTuple Vertex)} {K : List (Nat × Nat)}
    (h : OpState base x V vt s K db.store) : Grown base x V db :=
  h.inv.grown h.xacts

theorem Grown.mono {V₀ : List VertexKey} (h : Grown base x V db) (hV : ∀ k ∈ V₀, k ∈ V) :
    Grown base x V₀ db := by
  obtain ⟨V', hsub, hinv, hx⟩ := h
  exact ⟨V', fun k hk => hsub k (hV k hk), hinv, hx⟩

/-! ## A vertex that changes its label -/

theorem clearVertexSlot_inv (h : (clearVertexSlot l id).Runs db w db') :
    ∃ rec, db.store.vslot (l, entitySlot id) = some rec ∧
      db'.store = { db.store with
        vslot := Function.update db.store.vslot (l, entitySlot id)
          (some { rec with vItemptr := .invalid }) } := by
  obtain ⟨lab, lab', hlab, hf, rfl⟩ := runs_onVertexLabel.mp h
  obtain ⟨rec, hi, hf⟩ := bind_ok hf
  obtain ⟨-, rfl⟩ := Prod.mk.inj (Except.ok.inj hf)
  have hrec : db.store.vslot (l, entitySlot id) = some rec := by
    rw [store_vslot hlab]
    exact readItem_ok hi
  refine ⟨rec, hrec, ?_⟩
  rw [store_modifySlot hlab (entitySlot id) (fun rec => { rec with vItemptr := .invalid }) rfl, hrec]
  rfl

theorem SameTuples.freshVertex (h : SameTuples st st') (hf : FreshVertex st l id) :
    FreshVertex st' l id :=
  ⟨hf.1, fun k hk => hf.2 k ((h.hasVertex k).mp hk)⟩

/-- A new vertex leaves the tuples that were there. -/
theorem vtuple_insertVertex {v : Vertex} {props : Gtype} (hr : (insertVertex s v props).Runs db w db')
    {tid : ItemPointer} {t : EntityTuple Vertex} (ht : db.store.vtuple (l, tid) = some t) :
    db'.store.vtuple (l, tid) = some t := by
  obtain ⟨tid', -, hnone, -, -, -, hst⟩ := npInternalInsertVertex_inv hr
  rw [hst]
  refine (Function.update_of_ne (fun he => ?_) ..).trans ht
  rw [he, hnone] at ht
  cases ht

theorem xacts_insertVertex {v : Vertex} {props : Gtype}
    (hr : (insertVertex s v props).Runs db w db') : db'.store.xacts = db.store.xacts := by
  obtain ⟨tid', -, -, -, -, -, hst⟩ := npInternalInsertVertex_inv hr
  rw [hst]

/-- A vertex insert fails at once or succeeds. -/
theorem insertVertex_cases (s : Session) (v : Vertex) (props : Gtype) (db : Db) :
    (∃ er, (insertVertex s v props).exec db = (.error er, db)) ∨
      ∃ db', (insertVertex s v props).Runs db () db' := by
  rcases Prog.step_cases _ db with ⟨er, he⟩ | ⟨tid, db₁, h₁⟩
  · exact Or.inl ⟨er, Prog.exec_bind_error he _⟩
  · replace h₁ : (writeVertexTuple v.labelId (newEntityTuple s v.id .invalid v props)).Runs
      db tid db₁ := h₁
    obtain ⟨hl, -, -, -, -, hst₁⟩ := writeVertexTuple_inv h₁
    have hl₁ : (db₁.store.vlabel v.labelId).isSome := by
      rw [hst₁]
      exact hl
    obtain ⟨db₂, h₂⟩ := placeVertexSlot_runs hl₁ v.id ⟨tid, 0, .invalid, .invalid⟩
    exact Or.inr ⟨db₂, h₁.bind h₂⟩

/-- The last two steps: the old tuple is stamped and its slot cleared. -/
theorem retire_grown (hs : x.Open base s.fxid) {vt : Nat × ItemPointer → Option (EntityTuple Vertex)}
    {tid : ItemPointer} {t : EntityTuple Vertex} (ht : vt (l, tid) = some t)
    (hup : Updatable x s.own t) (id : Nat) (newV : Vertex) :
    Prog.Triple (fun db => OpState base x V vt s [] db.store)
      (stampVertexTuple s l tid >>= fun _ => clearVertexSlot l id >>= fun _ => pure newV)
      (fun _ => Grown base x V) (Grown base x V) := by
  refine Prog.Triple.bind (Q := fun _ db => GraphInv base V db.store ∧ db.store.xacts = x)
    (Prog.triple_step (fun db w db' h hr => ?_) fun db h => h.grown) fun _ =>
    Prog.Triple.bind (Q := fun _ => Grown base x V)
      (Prog.triple_step (fun db w db' h hr => ?_) fun db h => h.1.grown h.2) fun _ =>
      Prog.triple_ret fun _ h => h
  · rw [← h.vtuple] at ht
    rw [stampVertexTuple_inv ht hr]
    have hs' : db.store.xacts.Open base s.fxid := by
      rw [h.xacts]
      exact hs
    refine ⟨h.inv.stampVertex hs' ht ?_, h.xacts⟩
    rw [h.xacts]
    exact hup
  · obtain ⟨rec, hrec, hst⟩ := clearVertexSlot_inv hr
    refine GraphInv.grown ?_ ?_
    · rw [hst]
      exact h.1.clearSlot hrec
    · rw [hst]
      exact h.2

/-- The next id of a label is fresh. -/
def FreshNextId (st : Store) (l : Nat) : Prop :=
  ∀ info, st.vlabel l = some info → FreshVertex st l info.vertexIdSeq

/-- **Moving a vertex to another label keeps the invariant**, however far it comes. -/
theorem relabelVertex_grown (hs : x.Open base s.fxid) {oldVid cur target : Nat}
    {pmapRec : NeoPhysMapRecord} :
    Prog.Triple
      (fun db => GraphInv base V db.store ∧ db.store.xacts = x ∧ FreshNextId db.store target)
      (relabelVertex u fuel s oldVid cur target pmapRec) (fun _ => Grown base x V)
      (Grown base x V) := by
  -- the old tuple is there and may be superseded, until the end
  refine Prog.Triple.bind (Q := fun t db => (GraphInv base V db.store ∧ db.store.xacts = x ∧
      FreshNextId db.store target) ∧ db.store.vtuple (cur, pmapRec.vItemptr) = some t ∧
      Updatable x s.own t)
    (Prog.triple_step (fun db t db' h hr => ?_) fun db h => h.1.grown h.2.1) fun t => ?_
  · obtain ⟨rfl, ht, hup⟩ := readVertexTuple_iff.mp hr
    rw [h.2.1] at hup
    exact ⟨h, ht, hup⟩
  refine Prog.triple_assume (fun _ h => h.2.2) fun hup => Prog.Triple.bind
    (Q := fun newId db => GraphInv base V db.store ∧ db.store.xacts = x ∧
      FreshVertex db.store target newId ∧ db.store.vtuple (cur, pmapRec.vItemptr) = some t)
    (Prog.triple_step (fun db newId db' h hr => ?_) fun db h => h.1.1.grown h.1.2.1) fun newId => ?_
  · obtain ⟨hinv, hsame, info, hinfo, rfl⟩ := h.1.1.nextVertexId hr
    exact ⟨hinv, hsame.xacts.trans h.1.2.1, hsame.freshVertex (h.1.2.2 info hinfo),
      by rw [hsame.vtuple]; exact h.2.1⟩
  dsimp only
  generalize hnew : ({ t.entity with id := newId, labelId := target } : Vertex) = newV
  have hkey : newV.labelId = target ∧ newV.id = newId := by
    rw [← hnew]
    exact ⟨rfl, rfl⟩
  refine Prog.Triple.bind (Q := fun _ db => GraphInv base (newV.key :: V) db.store ∧
      db.store.xacts = x ∧ db.store.vtuple (cur, pmapRec.vItemptr) = some t)
    (fun db h => ⟨fun w db' hr => ?_, fun er db' hr => ?_⟩) fun _ => ?_
  · obtain ⟨hinv, hx, hfresh, ht⟩ := h
    rw [← hkey.1, ← hkey.2] at hfresh
    have hs' : db.store.xacts.Begun base s.fxid := by
      rw [hx]
      exact hs.1
    exact ⟨hinv.insertVertex hs' hfresh hr, (xacts_insertVertex hr).trans hx,
      vtuple_insertVertex hr ht⟩
  · obtain ⟨hinv, hx, -⟩ := h
    have he : (insertVertex s newV t.props).exec db = (.error er, db') := hr
    rcases insertVertex_cases s newV t.props db with ⟨er', he'⟩ | ⟨db'', hr'⟩
    · rw [he'] at he
      rw [← (Prod.mk.inj he).2]
      exact hinv.grown hx
    · rw [hr'] at he
      cases (Prod.mk.inj he).1
  · intro db h
    have hmem : newV.key ∈ newV.key :: V := List.mem_cons_self
    have hop := h.1.opState s
    have hwalk : Prog.Triple (fun db' => OpState base x (newV.key :: V) db.store.vtuple s [] db'.store)
        (migrateWalk u fuel s t.entity newV fuel pmapRec.eTblId pmapRec.eItemptr)
        (fun _ db' => OpState base x (newV.key :: V) db.store.vtuple s [] db'.store)
        fun db' => OpState base x (newV.key :: V) db.store.vtuple s [] db'.store :=
      migrateWalk_opState hs hmem fuel pmapRec.eTblId pmapRec.eItemptr
    have htriple := (hwalk.weaken (fun _ h => h) (fun _ _ h => h) fun _ h => h.grown).bind fun _ =>
      retire_grown hs h.2.2 hup oldVid newV
    rw [h.2.1] at hop
    obtain ⟨hok, herr⟩ := htriple db hop
    exact ⟨fun a s' hr => (hok a s' hr).mono fun k hk => List.mem_cons_of_mem _ hk,
      fun e s' hr => (herr e s' hr).mono fun k hk => List.mem_cons_of_mem _ hk⟩

/-- A read first. -/
theorem read_grown {α β : Type} {P : Db → Prop} {f : Db → Except Err α} {g : α → Op β}
    (hP : ∀ db, P db → Grown base x V db)
    (hg : ∀ a, Prog.Triple P (g a) (fun _ => Grown base x V) (Grown base x V)) :
    Prog.Triple P (Prog.read f >>= g) (fun _ => Grown base x V) (Grown base x V) :=
  Prog.Triple.bind ((Prog.keeps_read _ _).triple.weaken (fun _ h => h) (fun _ _ h => h) hP) hg

/-- **`set_vertex_label` keeps the invariant.** -/
theorem setVertexLabel_grown (hs : x.Open base s.fxid) (oldVid cur target : Nat) :
    Prog.Triple
      (fun db => GraphInv base V db.store ∧ db.store.xacts = x ∧ FreshNextId db.store target)
      (setVertexLabel u fuel s oldVid cur target) (fun _ => Grown base x V) (Grown base x V) := by
  refine read_grown (fun _ h => h.1.grown h.2.1) fun _ => ?_
  split
  · exact Prog.triple_ret fun _ h => h.1.grown h.2.1
  · exact read_grown (fun _ h => h.1.grown h.2.1) fun _ =>
      (relabelVertex_grown hs).bind fun _ => Prog.triple_ret fun _ h => h

/-- **`remove_vertex_label` keeps the invariant.** -/
theorem removeVertexLabel_grown (hs : x.Open base s.fxid) (oldVid cur target : Nat) :
    Prog.Triple
      (fun db => GraphInv base V db.store ∧ db.store.xacts = x ∧ FreshNextId db.store target)
      (removeVertexLabel u fuel s oldVid cur target) (fun _ => Grown base x V)
      (Grown base x V) := by
  refine read_grown (fun _ h => h.1.grown h.2.1) fun rec => ?_
  split
  · exact Prog.triple_fail fun _ h => h.1.grown h.2.1
  · exact relabelVertex_grown hs

/-! ## Deletes -/

theorem GraphInv.deleteEdge_exec (h : GraphInv base V db.store)
    (hs : db.store.xacts.Open base s.fxid) (fuel id l : Nat) :
    Grown base db.store.xacts V ((deleteEdge fuel s id l).exec db).2 :=
  ((OpState.deleteEdge_keeps hs fuel id l).exec (h.opState s)).grown

theorem GraphInv.deleteVertex_exec (h : GraphInv base V db.store)
    (hs : db.store.xacts.Open base s.fxid) (u : Unspecified) (fuel id l : Nat) (detach : Bool) :
    Grown base db.store.xacts V ((deleteVertex u fuel s id l detach).exec db).2 := by
  have hk : (deleteVertex u fuel s id l detach).Keeps
      fun db' => GraphInv base V db'.store ∧ db'.store.xacts = db.store.xacts := by
    refine (Prog.keeps_read _ _).bind fun r =>
      (collectWalk_keeps _ _ _ _ _ _ _ _ _).bind fun edges => Prog.Keeps.bind ?_ fun _ =>
        Prog.keeps_of_runs fun db₁ w db₂ h₁ hr => ?_
    · refine deleteCollected_keeps_of_open
        (I := fun st => GraphInv base V st ∧ st.xacts = db.store.xacts) s
        (fun st l tid t ht hup hI => ⟨hI.1.stampEdge ?_ ht hup, hI.2⟩)
        (fun _ st p _ hI => ⟨hI.1.stamp s p, hI.2⟩) fuel edges
      rw [hI.2]
      exact hs
    · obtain ⟨t, ht, hup, hst⟩ := tombstoneVertex_inv hr
      rw [hst]
      refine ⟨h₁.1.stampVertex ?_ ht hup, h₁.2⟩
      rw [h₁.2]
      exact hs
  obtain ⟨h', hx⟩ := hk.exec ⟨h, rfl⟩
  exact h'.grown hx

/-! ## Updates -/

/-- The tuple the slot of an id points to is of that id, if no other id has the slot. -/
theorem TableOk.id_of_slot {μ : Type} {slotOf : Nat → ItemPointer} {ok : Nat → μ → Gtype → Prop}
    {tuple : ItemPointer → Option (EntityTuple μ)} {slot : ItemPointer → Option ItemPointer}
    (h : TableOk base x slotOf ok tuple slot) {p : ItemPointer} {t : EntityTuple μ}
    (hslot : slot (slotOf id) = some p) (ht : tuple p = some t)
    (hown : ∀ q u, tuple q = some u → slotOf u.hdr.id = slotOf id → u.hdr.id = id) :
    t.hdr.id = id := by
  obtain ⟨t', ht', hid⟩ := h.sound _ p hslot (h.valid p t ht)
  obtain rfl := Option.some.inj (ht.symm.trans ht')
  exact hown p t ht hid

/-- A slot set to another tuple, as the tables read it. -/
theorem vertexPtr_update {k : ItemPointer} {rec' : NeoPhysMapRecord} (j q : ItemPointer)
    (hq : (Function.update st.vslot (l, k) (some rec') (l, j)).map NeoPhysMapRecord.vItemptr =
      some q) :
    st.vertexPtr l j = some q ∨ q.isValid = false ∨ j = k ∧ q = rec'.vItemptr := by
  by_cases hj : j = k
  · subst hj
    rw [Function.update_self] at hq
    exact Or.inr (Or.inr ⟨rfl, (Option.some.inj hq).symm⟩)
  · rw [Function.update_of_ne fun he => hj (Prod.mk.inj he).2] at hq
    exact Or.inl hq

/-- **`update_vertex` keeps the invariant.** -/
theorem GraphInv.updateVertex_exec (h : GraphInv base V db.store)
    (hs : db.store.xacts.Open base s.fxid) (hown : OwnVertexSlot db.store l id) (props : Gtype) :
    Grown base db.store.xacts V ((updateVertex s l id props).exec db).2 := by
  by_cases hrun : ∃ db', (updateVertex s l id props).Runs db () db'
  · obtain ⟨db', hr⟩ := hrun
    rw [hr]
    obtain ⟨rec, t, tid, hrec, ht, hup, hfits, hnone, hv, -, hst⟩ := updateVertex_inv hr
    have hptr : db.store.vertexPtr l (entitySlot id) = some rec.vItemptr :=
      congrArg (Option.map NeoPhysMapRecord.vItemptr) hrec
    obtain rfl := (h.vertex l).id_of_slot hptr ht hown
    have hlayout : GraphLayout db'.store V := by
      rw [hst]
      exact h.layout.heads rfl rfl rfl rfl (sameHeads_update hrec (by rfl) (by rfl) rfl)
    refine GraphInv.grown ?_ (by rw [hst])
    rw [hst] at hlayout ⊢
    have ht₁ : Function.update db.store.vtuple (l, tid)
        (some (newVertexVersion s l t.hdr.id rec.vItemptr t props)) (l, rec.vItemptr) = some t := by
      refine (Function.update_of_ne (fun he => ?_) ..).trans ht
      rw [he, hnone] at ht
      cases ht
    refine ⟨h.base_le, h.room, h.normal, hlayout, fun k => ?_, fun l' => ?_, h.edge⟩
    · let st₁ : Store := { db.store with
        vtuple := Function.update db.store.vtuple (l, tid)
          (some (newVertexVersion s l t.hdr.id rec.vItemptr t props))
        vslot := Function.update db.store.vslot (l, entitySlot t.hdr.id)
          (some { rec with vItemptr := tid }) }
      let vt₁ := Function.update st₁.vtuple (l, rec.vItemptr) (some (stampTuple s t))
      have hstamp : ({ st₁ with vtuple := vt₁ } : Store).HasVertex k ↔ st₁.HasVertex k :=
        hasVertex_stampTuple ht₁ k
      have hhas := hstamp.trans (hasVertex_write hnone k)
      refine (h.mem k).trans (Iff.trans ?_ hhas.symm)
      refine ⟨Or.inr, fun hk => hk.elim (fun he => ?_) fun hk => hk⟩
      rw [he]
      exact ⟨rec.vItemptr, t, ht, rfl⟩
    · show TableOk _ _ _ _ (fun tid' => Function.update (Function.update db.store.vtuple (l, tid) _)
        (l, rec.vItemptr) _ (l', tid')) fun k =>
        (Function.update db.store.vslot (l, entitySlot t.hdr.id) _ (l', k)).map _
      by_cases hl : l' = l
      · subst hl
        rw [update_label_self, update_label_self]
        exact (h.vertex l').supersede h.room_le hs ht hup hv hnone ⟨rfl, hfits⟩ vertexPtr_update
      · rw [update_label_ne _ hl, update_label_ne _ hl]
        refine (h.vertex l').repoint fun k q hq => Or.inl ?_
        rw [Function.update_of_ne fun he => hl (Prod.mk.inj he).1] at hq
        exact hq
  · rw [updateVertex_error hrun]
    exact h.grown rfl

/-- **`update_edge` keeps the invariant.** -/
theorem GraphInv.updateEdge_exec (h : GraphInv base V db.store)
    (hs : db.store.xacts.Open base s.fxid) (hown : OwnEdgeSlot db.store l id) (u : Unspecified)
    (props : Gtype) : Grown base db.store.xacts V ((updateEdge u s l id props).exec db).2 := by
  by_cases hrun : ∃ db', (updateEdge u s l id props).Runs db () db'
  · obtain ⟨db', hr⟩ := hrun
    rw [hr]
    obtain ⟨rec, t, tid, hrec, ht, hup, hfits, hnone, hv, -, hplaced, hst⟩ := updateEdge_inv hr
    have hptr : db.store.edgePtr l (edgeSlot id) = some rec.eItemptr :=
      congrArg (Option.map NeoEdgePhysMapRecord.eItemptr) hrec
    obtain rfl := (h.edge l).id_of_slot hptr ht hown
    refine GraphInv.grown ?_ (by rw [hst])
    rw [hst]
    refine ⟨h.base_le, h.room, h.normal, h.layout.same rfl rfl rfl rfl rfl, h.mem, h.vertex,
      fun l' => ?_⟩
    show TableOk _ _ _ _ (fun tid' => Function.update (Function.update db.store.etuple (l, tid) _)
      (l, rec.eItemptr) _ (l', tid')) fun k => (db'.store.eslot (l', k)).map _
    by_cases hl : l' = l
    · subst hl
      rw [update_label_self, update_label_self]
      obtain ⟨hlab, hid, hsm, hem, -⟩ := (h.edge l').entity _ t ht
      exact (h.edge l').supersede h.room_le hs ht hup hv hnone ⟨hlab, hid, hsm, hem, hfits⟩
        (hplaced.repointed NeoEdgePhysMapRecord.eItemptr rfl).cases
    · rw [update_label_ne _ hl, update_label_ne _ hl]
      exact (h.edge l').repoint
        (padded_cases (hplaced.padded hl NeoEdgePhysMapRecord.eItemptr rfl))
  · rw [updateEdge_error hrun]
    exact h.grown rfl

end

end NeoPostGraph
