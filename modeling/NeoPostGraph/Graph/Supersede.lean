import NeoPostGraph.Graph.Steps

/-!
# What an update does to the store

`update_vertex` and `update_edge` as a whole. Every check comes before the first write, and after it
nothing can fail.

Results: `updateVertex_inv`, `updateEdge_inv` say what an update that succeeds found and did,
`updateVertex_runs`, `updateEdge_runs` when it succeeds, and `updateVertex_error`, `updateEdge_error`
that one that fails changes nothing.
-/

namespace NeoPostGraph

open SlottedPage

variable {db db' : Db} {s : Session} {l id : Nat} {props : Gtype} {u : Unit} {e : Err}

/-! ## Vertices -/

/-- The version `update_vertex` writes over the tuple at `tid`. -/
def newVertexVersion (s : Session) (l id : Nat) (tid : ItemPointer) (t : EntityTuple Vertex)
    (props : Gtype) : EntityTuple Vertex :=
  newEntityTuple s id tid ⟨id, l, t.entity.dictionaryId⟩ props

theorem updateVertex_inv (h : (updateVertex s l id props).Runs db u db') :
    ∃ rec t tid, db.store.vslot (l, entitySlot id) = some rec ∧
      db.store.vtuple (l, rec.vItemptr) = some t ∧ Updatable db.store.xacts s.own t ∧
      Fits (totalTupleSize sizeOfVertex props) ∧ db.store.vtuple (l, tid) = none ∧
      tid.isValid = true ∧ (∀ tid' t', db.store.vtuple (l, tid') = some t' → tid'.Before tid) ∧
      db'.store = { db.store with
        vtuple := Function.update (Function.update db.store.vtuple (l, tid)
          (some (newVertexVersion s l id rec.vItemptr t props)))
          (l, rec.vItemptr) (some (stampTuple s t))
        vslot := Function.update db.store.vslot (l, entitySlot id)
          (some { rec with vItemptr := tid }) } := by
  obtain ⟨rec, db₁, h₁, hk₁⟩ := Prog.runs_bind_iff.mp h
  obtain ⟨hdb₁, hrec⟩ := readVertexSlot_iff.mp h₁
  obtain ⟨t, db₂, h₂, hk₂⟩ := Prog.runs_bind_iff.mp hk₁
  obtain ⟨hdb₂, ht, hup⟩ := readVertexTuple_iff.mp h₂
  obtain ⟨tid, db₃, h₃, hk₃⟩ := Prog.runs_bind_iff.mp hk₂
  obtain ⟨-, hfits, hfresh, hv, hbefore, hst₃⟩ := writeVertexTuple_inv h₃
  obtain ⟨_, db₄, h₄, h₅⟩ := Prog.runs_bind_iff.mp hk₃
  have hst₄ := npOverwritePhysmapInPage_inv h₄
  rw [hdb₂, hdb₁] at hfresh hbefore hst₃
  rw [hdb₁] at ht hup
  have hne : (l, rec.vItemptr) ≠ (l, tid) := fun he => by
    rw [he, hfresh] at ht
    cases ht
  have ht₄ : db₄.store.vtuple (l, rec.vItemptr) = some t := by
    rw [hst₄, hst₃]
    exact (Function.update_of_ne hne ..).trans ht
  refine ⟨rec, t, tid, hrec, ht, hup, hfits, hfresh, hv, hbefore, ?_⟩
  rw [stampVertexTuple_inv ht₄ h₅, hst₄, hst₃]
  rfl

theorem updateVertex_runs {rec : NeoPhysMapRecord} {t : EntityTuple Vertex}
    (hrec : db.store.vslot (l, entitySlot id) = some rec)
    (ht : db.store.vtuple (l, rec.vItemptr) = some t) (hup : Updatable db.store.xacts s.own t)
    (hfits : Fits (totalTupleSize sizeOfVertex props)) :
    ∃ db', (updateVertex s l id props).Runs db () db' := by
  obtain ⟨lab, hlab⟩ := exists_vlabel_of_vtuple ht
  have hl : (db.store.vlabel l).isSome := by
    rw [store_vlabel hlab]
    rfl
  obtain ⟨tid, db₁, h₁⟩ := writeVertexTuple_runs hl
    (show Fits (totalTupleSize sizeOfVertex (newVertexVersion s l id rec.vItemptr t props).props)
      from hfits)
  obtain ⟨-, -, hfresh, -, -, hst₁⟩ := writeVertexTuple_inv h₁
  have hne : (l, rec.vItemptr) ≠ (l, tid) := fun he => by
    rw [he, hfresh] at ht
    cases ht
  have hrec₁ : db₁.store.vslot (l, entitySlot id) = some rec := by rw [hst₁, hrec]
  obtain ⟨db₂, h₂⟩ := npOverwritePhysmapInPage_runs hrec₁ { rec with vItemptr := tid }
  have ht₂ : db₂.store.vtuple (l, rec.vItemptr) = some t := by
    rw [npOverwritePhysmapInPage_inv h₂, hst₁]
    exact (Function.update_of_ne hne ..).trans ht
  obtain ⟨db₃, h₃⟩ := stampVertexTuple_runs ht₂ s
  exact ⟨db₃, (readVertexSlot_iff.mpr ⟨rfl, hrec⟩).bind
    ((readVertexTuple_iff.mpr ⟨rfl, ht, hup⟩).bind (h₁.bind (h₂.bind h₃)))⟩

/-- An update that does not succeed changes nothing. -/
theorem updateVertex_error (h : ¬ ∃ db', (updateVertex s l id props).Runs db () db') :
    ((updateVertex s l id props).exec db).2 = db := by
  refine Prog.exec_bind_ind (I := (· = db)) (fun _ _ he => Prog.step_error he) fun rec db₁ h₁ => ?_
  obtain ⟨rfl, hrec⟩ := readVertexSlot_iff.mp h₁
  refine Prog.exec_bind_ind (I := (· = db₁)) (fun _ _ he => Prog.step_error he) fun t db₂ h₂ => ?_
  obtain ⟨rfl, ht, hup⟩ := readVertexTuple_iff.mp h₂
  refine Prog.exec_bind_ind (I := (· = db₂)) (fun _ _ he => Prog.step_error he) fun tid db₃ h₃ => ?_
  obtain ⟨-, hfits, -⟩ := writeVertexTuple_inv h₃
  exact absurd (updateVertex_runs hrec ht hup hfits) h

/-! ## Edges -/

theorem updateEdge_inv {x : Unspecified} (h : (updateEdge x s l id props).Runs db u db') :
    ∃ rec t tid, db.store.eslot (l, edgeSlot id) = some rec ∧
      db.store.etuple (l, rec.eItemptr) = some t ∧ Updatable db.store.xacts s.own t ∧
      Fits (totalTupleSize sizeOfEdge props) ∧ db.store.etuple (l, tid) = none ∧
      tid.isValid = true ∧ (∀ tid' t', db.store.etuple (l, tid') = some t' → tid'.Before tid) ∧
      Placed db.store.eslot db'.store.eslot l (edgeSlot id)
        (pageCapacity sizeOfNeoEdgePhysMapRecord) emptyEdgePad ⟨tid, x.stackItemptr t.entity⟩ ∧
      db'.store = { db.store with
        etuple := Function.update (Function.update db.store.etuple (l, tid)
          (some (newEntityTuple s id rec.eItemptr t.entity props)))
          (l, rec.eItemptr) (some (stampTuple s t))
        eslot := db'.store.eslot } := by
  obtain ⟨rec, db₁, h₁, hk₁⟩ := Prog.runs_bind_iff.mp h
  obtain ⟨hdb₁, hrec⟩ := readEdgeSlot_iff.mp h₁
  obtain ⟨t, db₂, h₂, hk₂⟩ := Prog.runs_bind_iff.mp hk₁
  obtain ⟨hdb₂, ht, hup⟩ := readEdgeTuple_iff.mp h₂
  obtain ⟨tid, db₃, h₃, hk₃⟩ := Prog.runs_bind_iff.mp hk₂
  obtain ⟨-, hfits, hfresh, hv, hbefore, hst₃⟩ := writeEdgeTuple_inv h₃
  obtain ⟨_, db₄, h₄, h₅⟩ := Prog.runs_bind_iff.mp hk₃
  obtain ⟨-, hplaced, hst₄⟩ := setEdgeSlot_inv h₄
  rw [hdb₂, hdb₁] at hfresh hbefore hst₃
  rw [hdb₁] at ht hup
  rw [hst₃] at hst₄ hplaced
  have hne : (l, rec.eItemptr) ≠ (l, tid) := fun he => by
    rw [he, hfresh] at ht
    cases ht
  have ht₄ : db₄.store.etuple (l, rec.eItemptr) = some t := by
    rw [hst₄]
    exact (Function.update_of_ne hne ..).trans ht
  have hst₅ := stampEdgeTuple_inv ht₄ h₅
  have hslot : db'.store.eslot = db₄.store.eslot := by rw [hst₅]
  refine ⟨rec, t, tid, hrec, ht, hup, hfits, hfresh, hv, hbefore, ?_, ?_⟩
  · rw [hslot]
    exact hplaced
  · rw [hslot, hst₅]
    rw [hst₄]

theorem updateEdge_runs {rec : NeoEdgePhysMapRecord} {t : EntityTuple Edge}
    (hrec : db.store.eslot (l, edgeSlot id) = some rec)
    (ht : db.store.etuple (l, rec.eItemptr) = some t) (hup : Updatable db.store.xacts s.own t)
    (hfits : Fits (totalTupleSize sizeOfEdge props)) (x : Unspecified) :
    ∃ db', (updateEdge x s l id props).Runs db () db' := by
  obtain ⟨lab, hlab⟩ := exists_elabel_of_etuple ht
  obtain ⟨tid, db₁, h₁⟩ := writeEdgeTuple_runs (store_elabel hlab)
    (show Fits (totalTupleSize sizeOfEdge (newEntityTuple s id rec.eItemptr t.entity props).props)
      from hfits)
  obtain ⟨-, -, hfresh, -, -, hst₁⟩ := writeEdgeTuple_inv h₁
  have hne : (l, rec.eItemptr) ≠ (l, tid) := fun he => by
    rw [he, hfresh] at ht
    cases ht
  have hl₁ : db₁.store.elabel l = true := by
    rw [hst₁]
    exact store_elabel hlab
  obtain ⟨db₂, h₂⟩ := setEdgeSlot_runs hl₁ id (.edgeLabelNotFound l) ⟨tid, x.stackItemptr t.entity⟩
  obtain ⟨-, -, hst₂⟩ := setEdgeSlot_inv h₂
  have ht₂ : db₂.store.etuple (l, rec.eItemptr) = some t := by
    rw [hst₂, hst₁]
    exact (Function.update_of_ne hne ..).trans ht
  obtain ⟨db₃, h₃⟩ := stampEdgeTuple_runs ht₂ s
  exact ⟨db₃, (readEdgeSlot_iff.mpr ⟨rfl, hrec⟩).bind
    ((readEdgeTuple_iff.mpr ⟨rfl, ht, hup⟩).bind (h₁.bind (h₂.bind h₃)))⟩

/-- An update that does not succeed changes nothing. -/
theorem updateEdge_error {x : Unspecified}
    (h : ¬ ∃ db', (updateEdge x s l id props).Runs db () db') :
    ((updateEdge x s l id props).exec db).2 = db := by
  refine Prog.exec_bind_ind (I := (· = db)) (fun _ _ he => Prog.step_error he) fun rec db₁ h₁ => ?_
  obtain ⟨rfl, hrec⟩ := readEdgeSlot_iff.mp h₁
  refine Prog.exec_bind_ind (I := (· = db₁)) (fun _ _ he => Prog.step_error he) fun t db₂ h₂ => ?_
  obtain ⟨rfl, ht, hup⟩ := readEdgeTuple_iff.mp h₂
  refine Prog.exec_bind_ind (I := (· = db₂)) (fun _ _ he => Prog.step_error he) fun tid db₃ h₃ => ?_
  obtain ⟨-, hfits, -⟩ := writeEdgeTuple_inv h₃
  exact absurd (updateEdge_runs hrec ht hup hfits x) h

end NeoPostGraph
