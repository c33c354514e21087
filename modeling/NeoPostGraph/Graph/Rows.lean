import NeoPostGraph.Access.CatalogHeap
import NeoPostGraph.Graph.History
import NeoPostGraph.Lib.RowLog

/-!
# What the operations of a transaction write to rows

The rows of a graph are its entity tuples, its adjacency members and its catalog items. Each has the
same header, and whatever an operation does, it does two things to rows: it adds rows with its
transaction id in `xmin`, and it stamps rows with that id in `xmax`.

* `RowKey`, `Row`, `Instance.row`: the rows and where they are.
* `OwnRow t c`, `Marks x t c`: the rows transaction `t` writes and the stamps it puts, by commands
  before `c`. An entity tuple or catalog item is stamped only where the transaction may supersede it,
  an adjacency member only where it has no deleter.

Result: `RowOp.wrote`, an operation of `t` changes every row by these rules, however it ends.
-/

namespace NeoPostGraph

open SlottedPage RowLog

/-! ## Rows -/

/-- Where a row is. -/
inductive RowKey where
  | vertex (l : Nat) (tid : ItemPointer)
  | edge (l : Nat) (tid : ItemPointer)
  | member (p : Position)
  | catalog (rel : Oid) (tid : ItemPointer)
deriving DecidableEq

/-- A row. -/
inductive Row where
  | vertex (t : EntityTuple Vertex)
  | edge (t : EntityTuple Edge)
  | member (m : AdjListMember)
  | catalog (item : CatalogItem)
deriving DecidableEq

namespace Row

/-- The header of a row. -/
def hdr : Row → RecordHeader
  | vertex t => t.hdr.toRecordHeader
  | edge t => t.hdr.toRecordHeader
  | member m => m.toRecordHeader
  | catalog item => item.toRecordHeader

/-- Stamp a row deleted. -/
def stamp (s : Session) : Row → Row
  | vertex t => vertex (stampTuple s t)
  | edge t => edge (stampTuple s t)
  | member m => member (stampMember s m)
  | catalog item => catalog (stampItem s item)

@[simp] theorem hdr_stamp (s : Session) (r : Row) :
    (r.stamp s).hdr = { r.hdr with xmax := s.fxid, cmax := s.cid } := by cases r <;> rfl

/-- What a writer asks of a row before it stamps it. -/
def Stampable (x : XactState) (own : List Nat) : Row → Prop
  | member m => fullXidIsValid m.xmax = false
  | r => npEntityTupleIsLive x own r.hdr = true ∧ npEntityTupleXmaxOther x own r.hdr = false

end Row

/-- The rows of a graph without catalogs. -/
def Store.row (st : Store) : RowKey → Option Row
  | .vertex l tid => (st.vtuple (l, tid)).map .vertex
  | .edge l tid => (st.etuple (l, tid)).map .edge
  | .member p => (st.memberAt p).map .member
  | .catalog _ _ => none

/-- The rows of a graph with its catalogs. -/
def Instance.row (i : Instance) : RowKey → Option Row
  | .catalog rel tid => ((i.catalogs rel).bind fun t => t.get tid).map .catalog
  | k => i.db.store.row k

/-- Deleted by transaction `t`, at a command before `c`. -/
def DeadRow (t c : Nat) (r : Row) : Prop := r.hdr.xmax = t ∧ r.hdr.cmax < c

/-- Written by transaction `t`, and either undeleted or deleted by it again. -/
def OwnRow (t c : Nat) (r : Row) : Prop :=
  r.hdr.xmin = t ∧ (fullXidIsValid r.hdr.xmax = false ∨ DeadRow t c r)

/-- Transaction `t` stamps a row that it may stamp, at a command before `c`. -/
def Marks (x : XactState) (t c : Nat) (r r' : Row) : Prop :=
  r.Stampable x [t] ∧ ∃ cid < c, r' = r.stamp ⟨t, cid⟩

section

variable {x : XactState} {t c c' : Nat} {s : Session} {r r' : Row}

/-- A row with the transaction's own id in `xmax` is not live to it. -/
theorem not_live_of_xmax_own (ht : fullXidIsValid t = true) {hdr : RecordHeader}
    (h : hdr.xmax = t) : npEntityTupleIsLive x [t] hdr = false := by
  have hcur : transactionIdIsCurrent [t] (xidFromFull t) = true := by
    simp [transactionIdIsCurrent]
  unfold npEntityTupleIsLive
  simp only [h, ht, hcur, Bool.and_self, Bool.not_true, if_true]
  split
  · rfl
  · split
    · rfl
    · split <;> rfl

theorem not_stampable_stamp (ht : fullXidIsValid t = true) (r : Row) (cid : Nat) :
    ¬ (r.stamp ⟨t, cid⟩).Stampable x [t] := by
  intro h
  cases r with
  | member m => exact Bool.noConfusion (ht.symm.trans h)
  | vertex u => exact Bool.noConfusion (h.1.symm.trans (not_live_of_xmax_own ht rfl))
  | edge u => exact Bool.noConfusion (h.1.symm.trans (not_live_of_xmax_own ht rfl))
  | catalog u => exact Bool.noConfusion (h.1.symm.trans (not_live_of_xmax_own ht rfl))

/-- **The rules the writes of one transaction follow.** -/
theorem rules_ownRow (ht : fullXidIsValid t = true) (c : Nat) :
    Rules (OwnRow t c) (Marks x t c) where
  own_marks r r' hown hm := by
    obtain ⟨-, cid, hcid, rfl⟩ := hm
    refine ⟨?_, Or.inr ⟨?_, ?_⟩⟩
    · rw [Row.hdr_stamp]
      exact hown.1
    · rw [Row.hdr_stamp]
    · rw [Row.hdr_stamp]
      exact hcid
  once r r' r'' hm hm' := by
    obtain ⟨-, cid, -, rfl⟩ := hm
    exact not_stampable_stamp ht r cid hm'.1

theorem OwnRow.mono (hc : c ≤ c') (h : OwnRow t c r) : OwnRow t c' r :=
  ⟨h.1, h.2.imp id fun hd => ⟨hd.1, Nat.lt_of_lt_of_le hd.2 hc⟩⟩

theorem Marks.mono (hc : c ≤ c') (h : Marks x t c r r') : Marks x t c' r r' := by
  obtain ⟨hs, cid, hcid, he⟩ := h
  exact ⟨hs, cid, Nat.lt_of_lt_of_le hcid hc, he⟩

end

/-- What transaction `t` has done to rows by its commands before `c`, from `f` to `g`. -/
def Wrote (x : XactState) (t c : Nat) (f g : RowKey → Option Row) : Prop :=
  ∀ k, Change (OwnRow t c) (Marks x t c) (f k) (g k)

theorem Wrote.trans {x : XactState} {t c : Nat} {f g h : RowKey → Option Row}
    (ht : fullXidIsValid t = true) (h₁ : Wrote x t c f g) (h₂ : Wrote x t c g h) :
    Wrote x t c f h := fun k => (h₁ k).trans (rules_ownRow ht c) (h₂ k)

theorem Wrote.mono {x : XactState} {t c c' : Nat} {f g : RowKey → Option Row} (hc : c ≤ c')
    (h : Wrote x t c f g) : Wrote x t c' f g := fun k =>
  (h k).mono (fun _ hr => hr.mono hc) fun _ _ hm => hm.mono hc

theorem wrote_refl (x : XactState) (t c : Nat) (f : RowKey → Option Row) : Wrote x t c f f :=
  fun _ => Change.same _

/-! ## Steps -/

section

variable {x : XactState} {t c : Nat} {st st' : Store}

/-- What a step leaves alone. -/
theorem wrote_of_same (hv : st'.vtuple = st.vtuple) (he : st'.etuple = st.etuple)
    (hm : ∀ p, st'.memberAt p = st.memberAt p) : Wrote x t c st.row st'.row := by
  intro k
  have hk : st'.row k = st.row k := by
    cases k with
    | vertex l tid => exact congrArg (fun f => (f (l, tid)).map Row.vertex) hv
    | edge l tid => exact congrArg (fun f => (f (l, tid)).map Row.edge) he
    | member p => exact congrArg (Option.map Row.member) (hm p)
    | catalog rel tid => rfl
  rw [hk]
  exact Change.same _

/-- A step that changes one vertex tuple. -/
theorem wrote_vtuple {l : Nat} {tid : ItemPointer} {o : Option (EntityTuple Vertex)}
    (hv : st'.vtuple = Function.update st.vtuple (l, tid) o) (he : st'.etuple = st.etuple)
    (hn : st'.node = st.node)
    (hch : Change (OwnRow t c) (Marks x t c) ((st.vtuple (l, tid)).map Row.vertex)
      (o.map Row.vertex)) : Wrote x t c st.row st'.row := by
  intro k
  cases k with
  | vertex l' tid' =>
    show Change _ _ _ ((st'.vtuple (l', tid')).map Row.vertex)
    rw [hv]
    by_cases hk : (l', tid') = (l, tid)
    · rw [hk, Function.update_self]
      obtain ⟨rfl, rfl⟩ := Prod.mk.inj hk
      exact hch
    · rw [Function.update_of_ne hk]
      exact Change.same _
  | edge l' tid' =>
    show Change _ _ _ ((st'.etuple (l', tid')).map Row.edge)
    rw [he]
    exact Change.same _
  | member p =>
    show Change _ _ _ ((st'.memberAt p).map Row.member)
    unfold Store.memberAt
    rw [hn]
    exact Change.same _
  | catalog rel tid' => exact Change.same _

/-- A step that changes one edge tuple. -/
theorem wrote_etuple {l : Nat} {tid : ItemPointer} {o : Option (EntityTuple Edge)}
    (he : st'.etuple = Function.update st.etuple (l, tid) o) (hv : st'.vtuple = st.vtuple)
    (hn : st'.node = st.node)
    (hch : Change (OwnRow t c) (Marks x t c) ((st.etuple (l, tid)).map Row.edge)
      (o.map Row.edge)) : Wrote x t c st.row st'.row := by
  intro k
  cases k with
  | vertex l' tid' =>
    show Change _ _ _ ((st'.vtuple (l', tid')).map Row.vertex)
    rw [hv]
    exact Change.same _
  | edge l' tid' =>
    show Change _ _ _ ((st'.etuple (l', tid')).map Row.edge)
    rw [he]
    by_cases hk : (l', tid') = (l, tid)
    · rw [hk, Function.update_self]
      obtain ⟨rfl, rfl⟩ := Prod.mk.inj hk
      exact hch
    · rw [Function.update_of_ne hk]
      exact Change.same _
  | member p =>
    show Change _ _ _ ((st'.memberAt p).map Row.member)
    unfold Store.memberAt
    rw [hn]
    exact Change.same _
  | catalog rel tid' => exact Change.same _

/-- A step that changes adjacency members, by what it does to each. -/
theorem wrote_members (hv : st'.vtuple = st.vtuple) (he : st'.etuple = st.etuple)
    (hm : ∀ p, Change (OwnRow t c) (Marks x t c) ((st.memberAt p).map Row.member)
      ((st'.memberAt p).map Row.member)) : Wrote x t c st.row st'.row := by
  intro k
  cases k with
  | vertex l tid =>
    show Change _ _ _ ((st'.vtuple (l, tid)).map Row.vertex)
    rw [hv]
    exact Change.same _
  | edge l tid =>
    show Change _ _ _ ((st'.etuple (l, tid)).map Row.edge)
    rw [he]
    exact Change.same _
  | member p => exact hm p
  | catalog rel tid => exact Change.same _

end

/-- A state that transaction `t` has led to from rows `f`, by commands before `c` and with the other
transactions standing still. -/
def WroteTo (x : XactState) (t c : Nat) (f : RowKey → Option Row) (st : Store) : Prop :=
  st.xacts = x ∧ Wrote x t c f st.row

section

variable {x : XactState} {c : Nat} {f : RowKey → Option Row} {st st' : Store} {s : Session}

theorem WroteTo.step (h : WroteTo x s.fxid c f st) (hs : fullXidIsValid s.fxid = true)
    (hx : st'.xacts = st.xacts) (hw : Wrote x s.fxid c st.row st'.row) :
    WroteTo x s.fxid c f st' :=
  ⟨hx.trans h.1, h.2.trans hs hw⟩

theorem ownRow_new {μ : Type} (mk : EntityTuple μ → Row) (hmk : ∀ t, (mk t).hdr =
    t.hdr.toRecordHeader) (s : Session) (c id : Nat) (prev : ItemPointer) (entity : μ)
    (props : Gtype) : OwnRow s.fxid c (mk (newEntityTuple s id prev entity props)) := by
  refine ⟨?_, Or.inl ?_⟩
  · rw [hmk]
    rfl
  · rw [hmk]
    rfl

theorem keeps_writeVertexTuple (hs : fullXidIsValid s.fxid = true) (l id : Nat)
    (prev : ItemPointer) (v : Vertex) (props : Gtype) :
    (writeVertexTuple l (newEntityTuple s id prev v props)).Keeps
      fun db => WroteTo x s.fxid c f db.store :=
  Prog.keeps_of_runs fun db tid db' h hr => by
    obtain ⟨-, -, hnone, -, -, hst⟩ := writeVertexTuple_inv hr
    refine h.step hs (by rw [hst]) (wrote_vtuple (by rw [hst]) (by rw [hst]) (by rw [hst]) ?_)
    rw [hnone]
    exact Change.new (ownRow_new Row.vertex (fun _ => rfl) s c id prev v props)

theorem keeps_writeEdgeTuple (hs : fullXidIsValid s.fxid = true) (l id : Nat) (er : Err)
    (prev : ItemPointer) (e : Edge) (props : Gtype) :
    (writeEdgeTuple l er (newEntityTuple s id prev e props)).Keeps
      fun db => WroteTo x s.fxid c f db.store :=
  Prog.keeps_of_runs fun db tid db' h hr => by
    obtain ⟨-, -, hnone, -, -, hst⟩ := writeEdgeTuple_inv hr
    refine h.step hs (by rw [hst]) (wrote_etuple (by rw [hst]) (by rw [hst]) (by rw [hst]) ?_)
    rw [hnone]
    exact Change.new (ownRow_new Row.edge (fun _ => rfl) s c id prev e props)

theorem keeps_insertEdgeOneDirection (hs : fullXidIsValid s.fxid = true) (ownerV otherV : Vertex)
    (e : Edge) (dir : Nat) : (insertEdgeOneDirection s ownerV otherV e dir).Keeps
      fun db => WroteTo x s.fxid c f db.store := by
  refine (Prog.keeps_read _ _).bind fun o => (Prog.keeps_read _ _).bind fun hd =>
    Prog.Keeps.bind (Prog.keeps_of_runs fun db tid db' h hr => ?_) fun tid =>
      Prog.Keeps.bind ?_ fun _ => Prog.keeps_of_runs fun db u db' h hr => ?_
  · obtain ⟨-, hnone, -, hst⟩ := insertLinkedListRecord_inv hr
    refine h.step hs (by rw [hst]; rfl) (wrote_members (by rw [hst]; rfl) (by rw [hst]; rfl)
      fun p => ?_)
    rw [hst]
    unfold Store.memberAt
    change Change _ _ _ (((Function.update db.store.node (o, tid) _ p.1).bind _).map _)
    by_cases hp : p.1 = (o, tid)
    · rw [hp, hnone, Function.update_self]
      -- the only member of the new record
      cases hi : p.2 with
      | zero => exact Change.new ⟨rfl, Or.inl rfl⟩
      | succ j => exact Change.same _
    · rw [Function.update_of_ne hp]
      exact Change.same _
  · unfold updateOldHead
    split
    · refine Prog.keeps_of_runs fun db u db' h hr => ?_
      obtain ⟨n, hn, hst⟩ := updatePrevPointer_inv hr
      refine h.step hs (by rw [hst]; rfl) (wrote_of_same (by rw [hst]; rfl) (by rw [hst]; rfl)
        fun p => ?_)
      rw [hst]
      unfold Store.memberAt
      change (Function.update db.store.node _ _ p.1).bind _ = _
      rw [Function.update_apply]
      split
      · next hp => rw [hp, hn, Option.bind_some, Option.bind_some, AdjNode.members_setPrev]
      · rfl
    · exact Prog.keeps_ret _ _
  · obtain ⟨rec, -, hst⟩ := writeHead_inv hr
    exact h.step hs (by rw [hst]; rfl) (wrote_of_same (by rw [hst]; rfl) (by rw [hst]; rfl)
      fun p => by rw [hst]; rfl)

/-- A tuple that may be superseded is stamped. -/
theorem wrote_stampVertex (hc : s.cid < c) {l : Nat} {tid : ItemPointer} {t : EntityTuple Vertex}
    (ht : st.vtuple (l, tid) = some t) (hup : Updatable x s.own t)
    (hv : st'.vtuple = Function.update st.vtuple (l, tid) (some (stampTuple s t)))
    (he : st'.etuple = st.etuple) (hn : st'.node = st.node) :
    Wrote x s.fxid c st.row st'.row := by
  refine wrote_vtuple hv he hn ?_
  rw [ht]
  exact Change.mark ⟨hup, s.cid, hc, rfl⟩

theorem wrote_stampEdge (hc : s.cid < c) {l : Nat} {tid : ItemPointer} {t : EntityTuple Edge}
    (ht : st.etuple (l, tid) = some t) (hup : Updatable x s.own t)
    (he : st'.etuple = Function.update st.etuple (l, tid) (some (stampTuple s t)))
    (hv : st'.vtuple = st.vtuple) (hn : st'.node = st.node) :
    Wrote x s.fxid c st.row st'.row := by
  refine wrote_etuple he hv hn ?_
  rw [ht]
  exact Change.mark ⟨hup, s.cid, hc, rfl⟩

/-- An open member is stamped. -/
theorem WroteTo.stamp (h : WroteTo x s.fxid c f st) (hs : fullXidIsValid s.fxid = true)
    (hc : s.cid < c) {id : Nat} {p : Position} (ho : st.Open id p) :
    WroteTo x s.fxid c f (st.stamp s p) := by
  refine h.step hs rfl (wrote_members rfl rfl fun q => ?_)
  rw [memberAt_stamp]
  split
  · next hq =>
    obtain ⟨m, hm, hmatch⟩ := ho
    rw [hq, hm]
    refine Change.mark ⟨?_, s.cid, hc, rfl⟩
    unfold AdjListMember.Matches matchesEdge at hmatch
    have hx := (Bool.and_eq_true_iff.mp hmatch).2
    rwa [Bool.not_eq_true'] at hx
  · exact Change.same _

end

/-! ## Operations -/

section

variable {u : Unspecified} {c : Nat} {f : RowKey → Option Row} {db : Db} {s : Session}

/-- **An operation on entities writes by the rules**, however it ends. -/
theorem EntityOp.wroteTo (o : EntityOp) (u : Unspecified) (db : Db)
    (hs : fullXidIsValid s.fxid = true) (hc : s.cid < c) :
    WroteTo db.xacts s.fxid c db.store.row ((o.run u s).exec db).2.store := by
  have h₀ : WroteTo db.xacts s.fxid c db.store.row db.store := ⟨rfl, wrote_refl _ _ _ _⟩
  have hstamp : ∀ id st p, st.Open id p → WroteTo db.xacts s.fxid c db.store.row st →
      WroteTo db.xacts s.fxid c db.store.row (st.stamp s p) := fun id st p ho h =>
    h.stamp hs hc ho
  have hedge : ∀ st l tid t, st.etuple (l, tid) = some t → Updatable st.xacts s.own t →
      WroteTo db.xacts s.fxid c db.store.row st →
      WroteTo db.xacts s.fxid c db.store.row (st.stampEdge s l tid t) :=
    fun st l tid t ht hup h => h.step hs rfl
      (wrote_stampEdge hc ht (by rw [← h.1]; exact hup) rfl rfl rfl)
  cases o with
  | insertVertex v props =>
    refine ((keeps_writeVertexTuple hs _ _ _ _ _).bind fun tid =>
      Prog.keeps_of_runs fun db' a db'' h hr => ?_).exec h₀
    obtain ⟨-, -, hst⟩ := placeVertexSlot_inv hr
    exact h.step hs (by rw [hst]) (wrote_of_same (by rw [hst]) (by rw [hst]) fun p => by
      rw [hst]
      rfl)
  | insertEdge startV endV e props =>
    refine ((keeps_writeEdgeTuple hs _ _ _ _ _ _).bind fun tid => Prog.Keeps.bind
      (Prog.keeps_of_runs fun db' a db'' h hr => ?_) fun _ =>
        (keeps_insertEdgeOneDirection hs _ _ _ _).bind fun _ =>
          keeps_insertEdgeOneDirection hs _ _ _ _).exec h₀
    obtain ⟨-, -, hst⟩ := setEdgeSlot_inv hr
    exact h.step hs (by rw [hst]) (wrote_of_same (by rw [hst]) (by rw [hst]) fun p => by
      rw [hst]
      rfl)
  | updateVertex l id props =>
    by_cases hrun : ∃ db', (NeoPostGraph.updateVertex s l id props).Runs db () db'
    · obtain ⟨db', hr⟩ := hrun
      obtain ⟨rec, t, tid, -, ht, hup, -, hnone, -, -, hst⟩ := updateVertex_inv hr
      show WroteTo _ _ _ _ ((NeoPostGraph.updateVertex s l id props).exec db).2.store
      rw [hr, hst]
      -- the new version, then the stamp on the old one
      let new := newVertexVersion s l id rec.vItemptr t props
      let mid : Store :=
        { db.store with vtuple := Function.update db.store.vtuple (l, tid) (some new) }
      have hmid : WroteTo db.xacts s.fxid c db.store.row mid := by
        refine h₀.step hs rfl (wrote_vtuple rfl rfl rfl ?_)
        rw [hnone]
        exact Change.new (ownRow_new Row.vertex (fun _ => rfl) s c id _ _ props)
      have hne : (l, rec.vItemptr) ≠ (l, tid) := fun he => by
        rw [he, hnone] at ht
        cases ht
      exact hmid.step hs rfl
        (wrote_stampVertex hc ((Function.update_of_ne hne ..).trans ht) hup rfl rfl rfl)
    · show WroteTo _ _ _ _ ((NeoPostGraph.updateVertex s l id props).exec db).2.store
      rw [updateVertex_error hrun]
      exact h₀
  | updateEdge l id props =>
    by_cases hrun : ∃ db', (NeoPostGraph.updateEdge u s l id props).Runs db () db'
    · obtain ⟨db', hr⟩ := hrun
      obtain ⟨rec, t, tid, -, ht, hup, -, hnone, -, -, -, hst⟩ := updateEdge_inv hr
      show WroteTo _ _ _ _ ((NeoPostGraph.updateEdge u s l id props).exec db).2.store
      rw [hr, hst]
      let new := newEntityTuple s id rec.eItemptr t.entity props
      let mid : Store :=
        { db.store with etuple := Function.update db.store.etuple (l, tid) (some new) }
      have hmid : WroteTo db.xacts s.fxid c db.store.row mid := by
        refine h₀.step hs rfl (wrote_etuple rfl rfl rfl ?_)
        rw [hnone]
        exact Change.new (ownRow_new Row.edge (fun _ => rfl) s c id _ _ props)
      have hne : (l, rec.eItemptr) ≠ (l, tid) := fun he => by
        rw [he, hnone] at ht
        cases ht
      exact hmid.step hs rfl
        (wrote_stampEdge hc ((Function.update_of_ne hne ..).trans ht) hup rfl rfl rfl)
    · show WroteTo _ _ _ _ ((NeoPostGraph.updateEdge u s l id props).exec db).2.store
      rw [updateEdge_error hrun]
      exact h₀
  | deleteEdge fuel l id =>
    exact (deleteEdge_keeps_of_open s hedge (hstamp id) fuel l).exec h₀
  | deleteVertex fuel l id detach =>
    refine ((Prog.keeps_read _ _).bind fun r => (collectWalk_keeps _ _ _ _ _ _ _ _ _).bind
      fun edges => Prog.Keeps.bind (deleteCollected_keeps_of_open s hedge hstamp fuel edges)
        fun _ => Prog.keeps_of_runs fun db' a db'' h hr => ?_).exec h₀
    obtain ⟨t, ht, hup, hst⟩ := tombstoneVertex_inv hr
    exact h.step hs (by rw [hst]) (wrote_stampVertex hc ht (by rw [← h.1]; exact hup) (by rw [hst])
      (by rw [hst]) (by rw [hst]))

end

/-! ## Catalogs -/

section

variable {x : XactState} {c : Nat} {f : RowKey → Option Row} {i i' : Instance} {s : Session}
  {rel : Oid} {tid : ItemPointer} {t t' : Table CatalogItem}

theorem runs_onCatalog {α : Type} {a : α}
    {g : XactState → Table CatalogItem → Except Err (α × Table CatalogItem)} :
    (onCatalog rel g).Runs i a i' ↔ ∃ t t', i.catalogs rel = some t ∧
      g i.db.xacts t = .ok (a, t') ∧
        i' = { i with catalogs := Function.update i.catalogs rel (some t') } := by
  unfold onCatalog
  rw [Prog.runs_step_iff]
  cases i.catalogs rel with
  | none => simp
  | some t =>
    simp only [Option.some.injEq]
    cases hg : g i.db.xacts t with
    | error e => simp [Except.map, hg]
    | ok r =>
      simp only [Except.map, Except.ok.injEq, Prod.mk.injEq]
      constructor
      · rintro ⟨rfl, rfl⟩
        exact ⟨t, r.2, rfl, hg, rfl⟩
      · rintro ⟨_, t', rfl, hg', rfl⟩
        rw [hg] at hg'
        obtain rfl := Except.ok.inj hg'
        exact ⟨rfl, rfl⟩

/-- A step on a catalog fails and leaves it alone, or ends with a result. -/
theorem onCatalog_cases {α : Type} (rel : Oid)
    (g : XactState → Table CatalogItem → Except Err (α × Table CatalogItem)) (i : Instance) :
    ((onCatalog rel g).exec i).2 = i ∨
      ∃ a, (onCatalog rel g).Runs i a ((onCatalog rel g).exec i).2 := by
  rcases Prog.step_cases _ i with ⟨e, he⟩ | ⟨a, i', hr⟩
  · exact Or.inl (congrArg Prod.snd he)
  · have hi' : ((onCatalog rel g).exec i).2 = i' := congrArg Prod.snd hr
    rw [hi']
    exact Or.inr ⟨a, hr⟩

/-- A step that changes one item of a catalog. -/
theorem wrote_catalog (tid : ItemPointer) (o : Option CatalogItem) (ht : i.catalogs rel = some t)
    (hget : ∀ tid', t'.get tid' = if tid' = tid then o else t.get tid')
    (hch : Change (OwnRow s.fxid c) (Marks x s.fxid c) ((t.get tid).map Row.catalog)
      (o.map Row.catalog)) :
    Wrote x s.fxid c i.row
      { i with catalogs := Function.update i.catalogs rel (some t') : Instance }.row := by
  intro k
  cases k with
  | catalog rel' tid' =>
    show Change _ _ _ (((Function.update i.catalogs rel (some t') rel').bind _).map Row.catalog)
    show Change _ _ (((i.catalogs rel').bind _).map Row.catalog) _
    by_cases hr : rel' = rel
    · subst hr
      rw [Function.update_self, ht, Option.bind_some, Option.bind_some, hget]
      by_cases hk : tid' = tid
      · subst hk
        rw [if_pos rfl]
        exact hch
      · rw [if_neg hk]
        exact Change.same _
    · rw [Function.update_of_ne hr]
      exact Change.same _
  | vertex l tid' => exact Change.same _
  | edge l tid' => exact Change.same _
  | member q => exact Change.same _

/-- What `npCatalogTupleUpdate` and `npCatalogTupleDelete` have checked. -/
theorem stampable_of_checkItem {item : CatalogItem} (h : checkItem x s.own item = .ok) :
    (Row.catalog item).Stampable x s.own := by
  unfold checkItem at h
  split at h
  · cases h
  · next hl =>
    split at h
    · cases h
    · next ho =>
      rw [Bool.not_eq_true, Bool.not_eq_false'] at hl
      exact ⟨hl, Bool.not_eq_true _ ▸ ho⟩

/-- An item that may be superseded is stamped. -/
theorem wrote_stampItem (hc : s.cid < c) (ht : i.catalogs rel = some t) {item : CatalogItem}
    (hi : t.get tid = some item) (hst : (Row.catalog item).Stampable x s.own) :
    Wrote x s.fxid c i.row { i with
      catalogs := Function.update i.catalogs rel (some (t.modify tid (stampItem s))) : Instance }.row
    := by
  refine wrote_catalog tid (some (stampItem s item)) ht (fun tid' => ?_) ?_
  · rw [Table.get_modify]
    split
    · next h => rw [h, hi, Option.map_some]
    · rfl
  · rw [hi]
    exact Change.mark ⟨hst, s.cid, hc, rfl⟩

/-- What appending an item does. -/
theorem writeCatalogItem_inv {item : CatalogItem} (h : (writeCatalogItem rel item).Runs i tid i') :
    ∃ t t', i.catalogs rel = some t ∧ t.get tid = none ∧
      (∀ tid', t'.get tid' = if tid' = tid then some item else t.get tid') ∧
      i' = { i with catalogs := Function.update i.catalogs rel (some t') } := by
  obtain ⟨t, t', ht, hg, rfl⟩ := runs_onCatalog.mp h
  obtain ⟨⟨t₁, tid₁⟩, hw, hg⟩ := bind_ok hg
  obtain ⟨rfl, rfl⟩ := Prod.mk.inj (Except.ok.inj hg)
  have hw := npWriteRecordToPage_ok hw
  exact ⟨t, t₁, ht, Table.write_fresh hw, Table.get_write hw, rfl⟩

theorem wrote_writeCatalogItem {prev : ItemPointer} {tuple : List Nat}
    (h : (writeCatalogItem rel (npCatalogPackItem s prev tuple)).Runs i tid i') (c : Nat)
    (x : XactState) : i'.db = i.db ∧ Wrote x s.fxid c i.row i'.row := by
  obtain ⟨t, t', ht, hnone, hget, rfl⟩ := writeCatalogItem_inv h
  refine ⟨rfl, wrote_catalog tid (some _) ht hget ?_⟩
  rw [hnone]
  exact Change.new ⟨rfl, Or.inl rfl⟩

end

/-- The operations on rows. -/
inductive RowOp where
  | entity (o : EntityOp)
  | catalogInsert (rel : Oid) (tuple : List Nat)
  | catalogUpdate (rel : Oid) (otid : ItemPointer) (tuple : List Nat)
  | catalogDelete (rel : Oid) (tid : ItemPointer)

/-- What an operation leaves, whether it succeeds or fails. -/
def RowOp.run (u : Unspecified) (s : Session) : RowOp → Instance → Instance
  | entity o, i => { i with db := ((o.run u s).exec i.db).2 }
  | catalogInsert rel tuple, i => ((npCatalogTupleInsert s rel tuple).exec i).2
  | catalogUpdate rel otid tuple, i => ((npCatalogTupleUpdate s rel otid tuple).exec i).2
  | catalogDelete rel tid, i => ((npCatalogTupleDelete s rel tid).exec i).2

section

variable {u : Unspecified} {c : Nat} {i : Instance} {s : Session}

/-- A state transaction `t` has led to from `i₀`, as `WroteTo`. -/
def Instance.WroteFrom (i₀ : Instance) (t c : Nat) (i : Instance) : Prop :=
  i.db.xacts = i₀.db.xacts ∧ Wrote i₀.db.xacts t c i₀.row i.row

theorem wroteFrom_refl (i : Instance) (t c : Nat) : i.WroteFrom t c i := ⟨rfl, wrote_refl _ _ _ _⟩

theorem Instance.WroteFrom.trans {i₀ i₁ i₂ : Instance} {t : Nat} (ht : fullXidIsValid t = true)
    (h₁ : i₀.WroteFrom t c i₁) (h₂ : i₁.WroteFrom t c i₂) : i₀.WroteFrom t c i₂ := by
  refine ⟨h₂.1.trans h₁.1, h₁.2.trans ht ?_⟩
  have h := h₂.2
  rw [h₁.1] at h
  exact h

theorem wroteFrom_catalogUpdate (hs : fullXidIsValid s.fxid = true) (hc : s.cid < c) (rel : Oid)
    (otid : ItemPointer) (tuple : List Nat) :
    i.WroteFrom s.fxid c ((npCatalogTupleUpdate s rel otid tuple).exec i).2 := by
  refine Prog.exec_bind_ind (I := i.WroteFrom s.fxid c) (fun er i₁ hr => ?_) fun r i₁ hr => ?_
  · rw [Prog.step_error hr]
    exact wroteFrom_refl _ _ _
  obtain ⟨t, t', ht, hg, rfl⟩ := runs_onCatalog.mp hr
  obtain ⟨item, hi, hg⟩ := bind_ok hg
  obtain ⟨rfl, rfl⟩ := Prod.mk.inj (Except.ok.inj hg)
  have hget := readItem_ok hi
  rw [Function.update_eq_self_iff.mpr ht.symm]
  cases hr' : checkItem i.db.xacts s.own item with
  | invisible => exact wroteFrom_refl _ _ _
  | updated => exact wroteFrom_refl _ _ _
  | ok =>
    refine Prog.exec_bind_ind (I := i.WroteFrom s.fxid c) (fun er i₂ hw => ?_) fun tid i₂ hw => ?_
    · rw [Prog.step_error hw]
      exact wroteFrom_refl _ _ _
    obtain ⟨hdb, hwrote⟩ := wrote_writeCatalogItem hw c i.db.xacts
    have h₂ : i.WroteFrom s.fxid c i₂ := ⟨by rw [hdb], hwrote⟩
    obtain ⟨t₁, t₂, ht₁, hnone, hget₂, hi₂⟩ := writeCatalogItem_inv hw
    obtain rfl := Option.some.inj (ht.symm.trans ht₁)
    refine Prog.exec_bind_ind (I := i.WroteFrom s.fxid c) (fun er i₃ hst => ?_) fun _ i₃ hst => ?_
    · rw [Prog.step_error hst]
      exact h₂
    obtain ⟨t₃, t₄, ht₃, hg, rfl⟩ := runs_onCatalog.mp hst
    obtain ⟨-, -, hg⟩ := bind_ok hg
    obtain ⟨-, rfl⟩ := Prod.mk.inj (Except.ok.inj hg)
    -- the new item went somewhere else
    have hne : otid ≠ tid := fun he => by
      rw [he, hnone] at hget
      cases hget
    have ht₂ : i₂.catalogs rel = some t₂ := by
      rw [hi₂]
      exact Function.update_self ..
    obtain rfl := Option.some.inj (ht₂.symm.trans ht₃)
    have hold : t₂.get otid = some item := by
      rw [hget₂, if_neg hne, hget]
    exact h₂.trans hs ⟨rfl, by
      rw [h₂.1]
      exact wrote_stampItem hc ht₂ hold (stampable_of_checkItem hr')⟩

theorem wroteFrom_catalogDelete (hc : s.cid < c) (rel : Oid) (tid : ItemPointer) :
    i.WroteFrom s.fxid c ((npCatalogTupleDelete s rel tid).exec i).2 := by
  unfold npCatalogTupleDelete
  rcases onCatalog_cases rel _ i with he | ⟨r, hr⟩
  · rw [he]
    exact wroteFrom_refl _ _ _
  obtain ⟨t, t', ht, hg, hi'⟩ := runs_onCatalog.mp hr
  rw [hi']
  obtain ⟨item, hi, hg⟩ := bind_ok hg
  have hget := readItem_ok hi
  cases hr' : checkItem i.db.xacts s.own item with
  | ok =>
    rw [hr'] at hg
    obtain ⟨-, rfl⟩ := Prod.mk.inj (Except.ok.inj hg)
    exact ⟨rfl, wrote_stampItem hc ht hget (stampable_of_checkItem hr')⟩
  | invisible =>
    rw [hr'] at hg
    obtain ⟨-, rfl⟩ := Prod.mk.inj (Except.ok.inj hg)
    rw [Function.update_eq_self_iff.mpr ht.symm]
    exact wroteFrom_refl _ _ _
  | updated =>
    rw [hr'] at hg
    obtain ⟨-, rfl⟩ := Prod.mk.inj (Except.ok.inj hg)
    rw [Function.update_eq_self_iff.mpr ht.symm]
    exact wroteFrom_refl _ _ _

/-- **An operation writes by the rules**, however it ends. -/
theorem RowOp.wrote (o : RowOp) (hs : fullXidIsValid s.fxid = true) (hc : s.cid < c) :
    i.WroteFrom s.fxid c (o.run u s i) := by
  cases o with
  | entity o =>
    obtain ⟨hx, hw⟩ := o.wroteTo u i.db hs hc
    refine ⟨hx, fun k => ?_⟩
    cases k with
    | catalog rel tid => exact Change.same _
    | vertex l tid => exact hw (.vertex l tid)
    | edge l tid => exact hw (.edge l tid)
    | member p => exact hw (.member p)
  | catalogInsert rel tuple =>
    show i.WroteFrom s.fxid c
      ((writeCatalogItem rel (npCatalogPackItem s .invalid tuple)).exec i).2
    unfold writeCatalogItem
    rcases onCatalog_cases rel _ i with he | ⟨tid, hr⟩
    · rw [he]
      exact wroteFrom_refl _ _ _
    · obtain ⟨hdb, hw⟩ := wrote_writeCatalogItem hr c i.db.xacts
      exact ⟨congrArg Db.xacts hdb, hw⟩
  | catalogUpdate rel otid tuple => exact wroteFrom_catalogUpdate hs hc rel otid tuple
  | catalogDelete rel tid => exact wroteFrom_catalogDelete hc rel tid

end

end NeoPostGraph
