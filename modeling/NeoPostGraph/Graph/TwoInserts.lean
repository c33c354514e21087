import NeoPostGraph.Graph.InsertRun
import NeoPostGraph.Lib.SharedHead

/-!
# Two edge inserts at once

`insert_edge` holds no lock from its read of an owner's head to its write of it: each page is locked
by itself. Two calls in two sessions can take their page steps in any order. Here a call is the
list of its page steps with the locals they pass on, and a run of two calls is one such order.

* `PageStep`: one buffer-locked section of `np_internal_insert_edge`.
* `Interleaves`: two calls take their steps in the order of `turns`.
* `headEvents`: the reads and writes of one head slot in that order. It is computed from the turns
  and the endpoints alone.

Results:
* `insertEdge_eq_pageSteps`: taken alone, the page steps are `insert_edge`.
* `noLostEdge_iff`: the records of both calls are on the chain of a vertex exactly when on its head
  slot every read is followed at once by the write of the same call and direction.
-/

namespace NeoPostGraph

open SlottedPage LinkedChain

/-! ## The page steps of a call -/

/-- An `insert_edge` call of a session. -/
structure InsertCall where
  s : Session
  startV : Vertex
  endV : Vertex
  e : Edge
  props : Gtype

/-- The owner of the record of one direction: the start for outgoing, the end for incoming. -/
def InsertCall.owner (c : InsertCall) (incoming : Bool) : Vertex :=
  if incoming then c.endV else c.startV

/-- The member the call gives one end. -/
def InsertCall.member (c : InsertCall) (incoming : Bool) : AdjListMember :=
  edgeMember c.s (c.owner !incoming) c.e incoming.toNat

/-- The locals of `np_internal_insert_edge` and `insert_edge_one_direction`. -/
structure InsertLocals where
  edgeTid : ItemPointer
  activeListOid : Oid
  oldHeadTbl : Oid
  oldHead : ItemPointer
  newTid : ItemPointer

/-- The locals before the first step. -/
def InsertLocals.start : InsertLocals := ⟨.invalid, 0, 0, .invalid, .invalid⟩

/-- A buffer-locked section of `np_internal_insert_edge`; the last five are those of
`insert_edge_one_direction`, by direction. -/
inductive PageStep where
  | writeTuple
  | setSlot
  | getActive (incoming : Bool)
  | readHead (incoming : Bool)
  | append (incoming : Bool)
  | fixOldHead (incoming : Bool)
  | writeHead (incoming : Bool)
deriving DecidableEq, Repr

/-- What a section does. `fixOldHead` does nothing when there was no head. -/
def PageStep.op (x : Unspecified) (c : InsertCall) (loc : InsertLocals) : PageStep → Op InsertLocals
  | .writeTuple => do
    let edgeTid ← writeEdgeTuple c.e.labelId .edgeLabelTableNotFound
      (newEntityTuple c.s c.e.id .invalid c.e c.props)
    return { loc with edgeTid := edgeTid }
  | .setSlot => do
    setEdgeSlot c.e.labelId c.e.id .edgeLabelTableNotFound ⟨loc.edgeTid, x.stackItemptr c.e⟩
    return loc
  | .getActive d => do
    let o ← getActiveLinkedListOid (c.owner d).labelId
    return { loc with activeListOid := o }
  | .readHead d => do
    let (tbl, tid) ← NeoPostGraph.readHead (c.owner d).labelId (c.owner d).id
    return { loc with oldHeadTbl := tbl, oldHead := tid }
  | .append d => do
    let newTid ← insertLinkedListRecord loc.activeListOid
      (newLinkedListRecord c.s (c.owner d) (c.owner !d) c.e d.toNat loc.oldHeadTbl loc.oldHead)
    return { loc with newTid := newTid }
  | .fixOldHead _ => do
    updateOldHead loc.oldHeadTbl loc.oldHead loc.activeListOid loc.newTid
    return loc
  | .writeHead d => do
    NeoPostGraph.writeHead (c.owner d).labelId (c.owner d).id loc.activeListOid loc.newTid
    return loc

/-- The sections of `insert_edge_one_direction`. -/
def oneDirectionSteps (incoming : Bool) : List PageStep :=
  [.getActive incoming, .readHead incoming, .append incoming, .fixOldHead incoming,
    .writeHead incoming]

/-- The sections of `insert_edge`, in order. -/
def insertSteps : List PageStep :=
  .writeTuple :: .setSlot :: (oneDirectionSteps false ++ oneDirectionSteps true)

/-- Take the steps one after the other. -/
def runPageSteps (x : Unspecified) (c : InsertCall) : List PageStep → InsertLocals → Op InsertLocals
  | [], loc => return loc
  | st :: rest, loc => do
    let loc' ← st.op x c loc
    runPageSteps x c rest loc'

/-- **The page steps, taken alone, are `insert_edge`.** -/
theorem insertEdge_eq_pageSteps (x : Unspecified) (c : InsertCall) (loc : InsertLocals) :
    insertEdge x c.s c.startV c.endV c.e c.props = do
      let _ ← runPageSteps x c insertSteps loc
      return () := by
  unfold insertEdge npInternalInsertEdge insertEdgeOneDirection
  simp only [insertSteps, oneDirectionSteps, List.cons_append, List.nil_append, runPageSteps,
    PageStep.op, InsertCall.owner, bind_assoc, pure_bind, Bool.not_false, Bool.not_true, if_true,
    Bool.false_eq_true, if_false, Bool.toNat_false, Bool.toNat_true]
  rfl

/-! ## Two calls -/

/-- Where a call stands: the steps it has still to take, and its locals. -/
structure Progress where
  todo : List PageStep
  loc : InsertLocals

/-- The beginning of a call. -/
def Progress.start : Progress := ⟨insertSteps, .start⟩

/-- The calls `c false` and `c true` take steps in the order of the turns. A turn is the next step
of the call it names, and succeeds. -/
inductive Interleaves (x : Unspecified) (c : Bool → InsertCall) :
    List Bool → (Bool → Progress) → Db → (Bool → Progress) → Db → Prop where
  | done (p : Bool → Progress) (db : Db) : Interleaves x c [] p db p db
  | turn {w : Bool} {ws : List Bool} {p p' : Bool → Progress} {db db₁ db' : Db} {st : PageStep}
      {rest : List PageStep} {loc : InsertLocals} (htodo : (p w).todo = st :: rest)
      (hst : (st.op x (c w) (p w).loc).Runs db loc db₁)
      (h : Interleaves x c ws (Function.update p w ⟨rest, loc⟩) db₁ p' db') :
      Interleaves x c (w :: ws) p db p' db'

/-- Both calls run from beginning to end, in the order of the turns. -/
def TwoInserts (x : Unspecified) (c : Bool → InsertCall) (turns : List Bool) (db db' : Db) : Prop :=
  ∃ p, Interleaves x c turns (fun _ => .start) db p db' ∧ ∀ w, (p w).todo = []

/-- The slot that holds the head of a vertex. -/
def Vertex.headSlot (v : Vertex) : Nat × ItemPointer := (v.labelId, NeoPostGraph.headSlot v.id)

/-- What a step does to the head in a slot. A push is a call and a direction. -/
def PageStep.headEvents (slot : Nat × ItemPointer) (c : InsertCall) (w : Bool) :
    PageStep → List (HeadEvent (Bool × Bool))
  | .readHead d => if (c.owner d).headSlot = slot then [.read (w, d)] else []
  | .writeHead d => if (c.owner d).headSlot = slot then [.write (w, d)] else []
  | _ => []

/-- The reads and writes of the head in a slot, in the order of the turns. -/
def headEvents (slot : Nat × ItemPointer) (c : Bool → InsertCall) :
    List Bool → (Bool → List PageStep) → List (HeadEvent (Bool × Bool))
  | [], _ => []
  | w :: ws, todo =>
    match todo w with
    | [] => headEvents slot c ws todo
    | st :: rest =>
      st.headEvents slot (c w) w ++ headEvents slot c ws (Function.update todo w rest)

/-- The record of one direction of a call is on the chain of its owner: following next pointers from
the head leads to a node that was not there before the calls and holds its member. -/
def RecordReachable (db db' : Db) (c : InsertCall) (incoming : Bool) : Prop :=
  ∃ xs a n, Seg db'.store.node AdjNode.next
      (db'.store.head (c.owner incoming).labelId (c.owner incoming).id) xs (some a) ∧
    db.store.node a = none ∧ db'.store.node a = some n ∧ n.ownerId = (c.owner incoming).id ∧
    n.members = [c.member incoming]

/-- Every record the calls hang at the head of `v` is on its chain. -/
def NoLostEdge (db db' : Db) (c : Bool → InsertCall) (v : Vertex) : Prop :=
  ∀ w d, ((c w).owner d).headSlot = v.headSlot → RecordReachable db db' (c w) d

/-! ## What a step leaves in the store -/

/-- Every node stays, with its owner, its members and its link. -/
def Store.Grown (st st' : Store) : Prop :=
  ∀ a n, st.node a = some n → ∃ n', st'.node a = some n' ∧ n'.ownerId = n.ownerId ∧
    n'.members = n.members ∧ n'.next a = n.next a

/-- The head in a slot. -/
def Store.headAt (st : Store) (slot : Nat × ItemPointer) : Option Addr :=
  (st.vslot slot).bind fun rec => cursor rec.eTblId rec.eItemptr

section

variable {st st' st'' : Store} {a : Addr}

theorem Store.Grown.refl (st : Store) : st.Grown st := fun _ n hn => ⟨n, hn, rfl, rfl, rfl⟩

theorem Store.Grown.of_eq (h : st'.node = st.node) : st.Grown st' := fun a n hn =>
  ⟨n, by rw [h, hn], rfl, rfl, rfl⟩

theorem Store.Grown.trans (h₁ : st.Grown st') (h₂ : st'.Grown st'') : st.Grown st'' := by
  intro a n hn
  obtain ⟨n₁, hn₁, ho₁, hm₁, hx₁⟩ := h₁ a n hn
  obtain ⟨n₂, hn₂, ho₂, hm₂, hx₂⟩ := h₂ a n₁ hn₁
  exact ⟨n₂, hn₂, ho₂.trans ho₁, hm₂.trans hm₁, hx₂.trans hx₁⟩

theorem Store.Grown.fresh (h : st.Grown st') (ha : st'.node a = none) : st.node a = none := by
  cases hn : st.node a with
  | none => rfl
  | some n =>
    obtain ⟨n', hn', -⟩ := h a n hn
    rw [ha] at hn'
    cases hn'

theorem grown_putNode (ha : st.node a = none) (n : AdjNode) : st.Grown (st.putNode a n) := by
  intro b m hm
  have hne : b ≠ a := fun he => by
    rw [he, ha] at hm
    cases hm
  exact ⟨m, (Function.update_of_ne hne ..).trans hm, rfl, rfl, rfl⟩

theorem grown_setPrev (h : Option Addr) (a : Addr) : st.Grown (st.setPrev h a) := by
  intro b m hm
  rcases Store.node_setPrev st h a b with hb | hb
  · exact ⟨m, hb.trans hm, rfl, rfl, rfl⟩
  · rw [hm] at hb
    exact ⟨_, hb, AdjNode.ownerId_setPrev .., AdjNode.members_setPrev .., AdjNode.next_setPrev ..⟩

theorem headAt_setHead {l id : Nat} {rec : NeoPhysMapRecord}
    (hs : st.vslot (l, headSlot id) = some rec) :
    (st.setHead (l, id) a).headAt (l, headSlot id) = cursor a.1 a.2 := by
  unfold Store.headAt Store.setHead
  simp [hs]

theorem headAt_setHead_ne {l id : Nat} {slot : Nat × ItemPointer} (h : (l, headSlot id) ≠ slot) :
    (st.setHead (l, id) a).headAt slot = st.headAt slot := by
  unfold Store.headAt Store.setHead
  simp only [Function.update_of_ne (Ne.symm h)]

end

section

variable {x : Unspecified} {c : InsertCall} {loc loc' : InsertLocals} {db db' : Db} {d : Bool}

/-- A step that ends by returning the locals with something of its own. -/
theorem runs_bind_ret {α β : Type} {p : Op α} {g : α → β} {b : β}
    (h : (p >>= fun a => pure (g a)).Runs db b db') : ∃ a, p.Runs db a db' ∧ b = g a := by
  obtain ⟨a, db₁, hp, hret⟩ := Prog.runs_bind_iff.mp h
  obtain ⟨rfl, rfl⟩ := Prog.runs_ret_iff.mp hret
  exact ⟨a, hp, rfl⟩

theorem writeTuple_inv (h : (PageStep.writeTuple.op x c loc).Runs db loc' db') :
    db'.store.node = db.store.node ∧ db'.store.vslot = db.store.vslot := by
  obtain ⟨tid, h, -⟩ := runs_bind_ret h
  obtain ⟨-, -, -, -, -, hst⟩ := writeEdgeTuple_inv h
  rw [hst]
  exact ⟨rfl, rfl⟩

theorem setSlot_inv (h : (PageStep.setSlot.op x c loc).Runs db loc' db') :
    db'.store.node = db.store.node ∧ db'.store.vslot = db.store.vslot := by
  obtain ⟨u, h, -⟩ := runs_bind_ret h
  obtain ⟨-, -, hst⟩ := setEdgeSlot_inv h
  rw [hst]
  exact ⟨rfl, rfl⟩

theorem getActive_inv (h : ((PageStep.getActive d).op x c loc).Runs db loc' db') :
    db' = db ∧ oidIsValid loc'.activeListOid = true := by
  obtain ⟨o, hr, rfl⟩ := runs_bind_ret h
  obtain ⟨rfl, -, -, -, hv⟩ := getActiveLinkedListOid_iff.mp hr
  exact ⟨rfl, hv⟩

theorem readHead_inv (h : ((PageStep.readHead d).op x c loc).Runs db loc' db') :
    db' = db ∧ loc'.activeListOid = loc.activeListOid ∧
      cursor loc'.oldHeadTbl loc'.oldHead = db.store.headAt (c.owner d).headSlot := by
  obtain ⟨⟨tbl, tid⟩, hr, rfl⟩ := runs_bind_ret h
  exact ⟨(readHead_iff.mp hr).1, rfl, readHead_cursor hr⟩

theorem append_inv (h : ((PageStep.append d).op x c loc).Runs db loc' db') :
    loc' = { loc with newTid := loc'.newTid } ∧ loc'.newTid.isValid = true ∧
      db.store.node (loc.activeListOid, loc'.newTid) = none ∧
      db'.store = db.store.putNode (loc.activeListOid, loc'.newTid) (.linked
        (newLinkedListRecord c.s (c.owner d) (c.owner !d) c.e d.toNat loc.oldHeadTbl
          loc.oldHead)) := by
  obtain ⟨tid, hr, rfl⟩ := runs_bind_ret h
  obtain ⟨-, hfresh, hv, hst⟩ := insertLinkedListRecord_inv hr
  exact ⟨rfl, hv, hfresh, hst⟩

theorem fixOldHead_inv (h : ((PageStep.fixOldHead d).op x c loc).Runs db loc' db') :
    loc' = loc ∧ db'.store = db.store.setPrev (cursor loc.oldHeadTbl loc.oldHead)
      (loc.activeListOid, loc.newTid) := by
  obtain ⟨u, hr, rfl⟩ := runs_bind_ret h
  exact ⟨rfl, updateOldHead_inv hr⟩

theorem writeHead_step_inv (h : ((PageStep.writeHead d).op x c loc).Runs db loc' db') :
    ∃ rec, db.store.vslot (c.owner d).headSlot = some rec ∧
      db'.store = db.store.setHead (c.owner d).key (loc.activeListOid, loc.newTid) := by
  obtain ⟨u, hr, rfl⟩ := runs_bind_ret h
  exact NeoPostGraph.writeHead_inv hr

/-- No step takes a node away or changes its link. -/
theorem PageStep.op_grown {ps : PageStep} (h : (ps.op x c loc).Runs db loc' db') :
    db.store.Grown db'.store := by
  cases ps with
  | writeTuple => exact .of_eq (writeTuple_inv h).1
  | setSlot => exact .of_eq (setSlot_inv h).1
  | getActive d => exact .of_eq (by rw [(getActive_inv h).1])
  | readHead d => exact .of_eq (by rw [(readHead_inv h).1])
  | append d =>
    obtain ⟨-, -, hfresh, hst⟩ := append_inv h
    rw [hst]
    exact grown_putNode hfresh _
  | fixOldHead d =>
    rw [(fixOldHead_inv h).2]
    exact grown_setPrev _ _
  | writeHead d =>
    obtain ⟨rec, -, hst⟩ := writeHead_step_inv h
    exact .of_eq (by rw [hst]; rfl)

end

/-! ## The head during a run -/

/-- The step after a step. -/
def PageStep.next : PageStep → Option PageStep
  | .writeTuple => some .setSlot
  | .setSlot => some (.getActive false)
  | .getActive d => some (.readHead d)
  | .readHead d => some (.append d)
  | .append d => some (.fixOldHead d)
  | .fixOldHead d => some (.writeHead d)
  | .writeHead d => if d then none else some (.getActive true)

/-- The steps stand in their order. -/
def Ordered : List PageStep → Prop
  | [] => True
  | ps :: rest => rest.head? = ps.next ∧ Ordered rest

/-- Following next pointers from `a` visits the records of these pushes, all of them new, and then
stands at the old head. -/
def Pushed (st₀ st : Store) (c : Bool → InsertCall) (old : Option Addr) :
    List (Bool × Bool) → Option Addr → Prop
  | [], a => a = old
  | i :: is, a => ∃ b n, a = some b ∧ st₀.node b = none ∧ st.node b = some n ∧
      n.ownerId = ((c i.1).owner i.2).id ∧ n.members = [(c i.1).member i.2] ∧
      Pushed st₀ st c old is (n.next b)

/-- What the locals of a call mean before its next step. -/
def StageInv (pushed : List (Bool × Bool) → Option Addr → Prop)
    (seen : Bool × Bool → List (Bool × Bool)) (slot : Nat × ItemPointer) (c : InsertCall) (w : Bool)
    (loc : InsertLocals) : Option PageStep → Prop
  | some (.readHead _) => oidIsValid loc.activeListOid = true
  | some (.append d) => oidIsValid loc.activeListOid = true ∧
      ((c.owner d).headSlot = slot → pushed (seen (w, d)) (cursor loc.oldHeadTbl loc.oldHead))
  | some (.fixOldHead d) | some (.writeHead d) =>
      (c.owner d).headSlot = slot →
        pushed ((w, d) :: seen (w, d)) (cursor loc.activeListOid loc.newTid)
  | _ => True

/-- What holds between the turns: the head stands for the pushes on it, and so does what each call
has read. -/
structure HeadInv (c : Bool → InsertCall) (slot : Nat × ItemPointer) (st₀ : Store)
    (es : List (HeadEvent (Bool × Bool))) (p : Bool → Progress) (st : Store) : Prop where
  grown : st₀.Grown st
  head : Pushed st₀ st c (st₀.headAt slot) (headRun es).head (st.headAt slot)
  ordered : ∀ w, Ordered (p w).todo
  stage : ∀ w, StageInv (Pushed st₀ st c (st₀.headAt slot)) (headRun es).seen slot (c w) w (p w).loc
    (p w).todo.head?

section

variable {x : Unspecified} {c : Bool → InsertCall} {slot : Nat × ItemPointer} {st₀ : Store}
  {es : List (HeadEvent (Bool × Bool))} {p p' : Bool → Progress} {db db' : Db} {w : Bool}
  {ps : PageStep} {rest : List PageStep} {loc : InsertLocals}

theorem Pushed.mono {st st' : Store} {old : Option Addr} (hg : st.Grown st') :
    ∀ {is : List (Bool × Bool)} {a : Option Addr}, Pushed st₀ st c old is a →
      Pushed st₀ st' c old is a
  | [], _, h => h
  | _ :: _, _, ⟨b, n, ha, hb, hn, ho, hm, h⟩ => by
    obtain ⟨n', hn', ho', hm', hx'⟩ := hg b n hn
    exact ⟨b, n', ha, hb, hn', ho'.trans ho, hm'.trans hm, hx' ▸ h.mono hg⟩

theorem StageInv.mono {pushed pushed' : List (Bool × Bool) → Option Addr → Prop}
    {seen seen' : Bool × Bool → List (Bool × Bool)} {c : InsertCall} {next : Option PageStep}
    (h : StageInv pushed seen slot c w loc next) (hp : ∀ is a, pushed is a → pushed' is a)
    (hseen : ∀ d, seen' (w, d) = seen (w, d)) : StageInv pushed' seen' slot c w loc next := by
  unfold StageInv at h ⊢
  split at h
  · exact h
  · exact ⟨h.1, fun hs => by rw [hseen]; exact hp _ _ (h.2 hs)⟩
  · exact fun hs => by rw [hseen]; exact hp _ _ (h hs)
  · exact fun hs => by rw [hseen]; exact hp _ _ (h hs)
  · trivial

theorem push_headEvents {c : InsertCall} {e : HeadEvent (Bool × Bool)}
    (he : e ∈ ps.headEvents slot c w) : e.push.1 = w := by
  unfold PageStep.headEvents at he
  split at he
  · split at he
    · rw [List.mem_singleton.mp he]
      rfl
    · cases he
  · split at he
    · rw [List.mem_singleton.mp he]
      rfl
    · cases he
  · cases he

/-- What a step means for the head and for the call that takes it. -/
theorem HeadInv.own (h : HeadInv c slot st₀ es p db.store) (htodo : (p w).todo = ps :: rest)
    (hst : (ps.op x (c w) (p w).loc).Runs db loc db') :
    Pushed st₀ db'.store c (st₀.headAt slot) (headRun (es ++ ps.headEvents slot (c w) w)).head
        (db'.store.headAt slot) ∧
      StageInv (Pushed st₀ db'.store c (st₀.headAt slot))
        (headRun (es ++ ps.headEvents slot (c w) w)).seen slot (c w) w loc ps.next := by
  have hg := PageStep.op_grown hst
  have hstage := h.stage w
  rw [htodo] at hstage
  have hhead : db'.store.vslot = db.store.vslot →
      Pushed st₀ db'.store c (st₀.headAt slot) (headRun es).head (db'.store.headAt slot) := by
    intro hs
    have heq : db'.store.headAt slot = db.store.headAt slot := by
      unfold Store.headAt
      rw [hs]
    rw [heq]
    exact h.head.mono hg
  cases ps with
  | writeTuple =>
    rw [show PageStep.headEvents slot (c w) w .writeTuple = [] from rfl, List.append_nil]
    exact ⟨hhead (writeTuple_inv hst).2, trivial⟩
  | setSlot =>
    rw [show PageStep.headEvents slot (c w) w .setSlot = [] from rfl, List.append_nil]
    exact ⟨hhead (setSlot_inv hst).2, trivial⟩
  | getActive d =>
    obtain ⟨rfl, hv⟩ := getActive_inv hst
    rw [show PageStep.headEvents slot (c w) w (.getActive d) = [] from rfl, List.append_nil]
    exact ⟨hhead rfl, hv⟩
  | readHead d =>
    obtain ⟨rfl, hact, hcur⟩ := readHead_inv hst
    have hv : oidIsValid loc.activeListOid = true := by
      rw [hact]
      exact hstage
    by_cases hs : ((c w).owner d).headSlot = slot
    · rw [show PageStep.headEvents slot (c w) w (.readHead d) = [.read (w, d)] from if_pos hs,
        headRun_read]
      refine ⟨hhead rfl, hv, fun _ => ?_⟩
      rw [hcur, hs]
      show Pushed _ _ _ _ (Function.update (headRun es).seen (w, d) (headRun es).head (w, d)) _
      rw [Function.update_self]
      exact h.head
    · rw [show PageStep.headEvents slot (c w) w (.readHead d) = [] from if_neg hs, List.append_nil]
      exact ⟨hhead rfl, hv, fun he => absurd he hs⟩
  | append d =>
    rw [show PageStep.headEvents slot (c w) w (.append d) = [] from rfl, List.append_nil]
    obtain ⟨hloc, htid, hfresh, hstore⟩ := append_inv hst
    have hact : loc.activeListOid = (p w).loc.activeListOid := by rw [hloc]
    refine ⟨hhead (by rw [hstore]; rfl), fun hs => ?_⟩
    refine ⟨(loc.activeListOid, loc.newTid), .linked (newLinkedListRecord (c w).s ((c w).owner d)
      ((c w).owner !d) (c w).e d.toNat (p w).loc.oldHeadTbl (p w).loc.oldHead), ?_,
      h.grown.fresh (by rw [hact]; exact hfresh), ?_, rfl, rfl, ?_⟩
    · exact cursor_eq_some.mpr ⟨rfl, htid, by rw [hact]; exact hstage.1⟩
    · rw [hstore, hact]
      exact Function.update_self ..
    · rw [next_newLinkedListRecord]
      exact (hstage.2 hs).mono hg
  | fixOldHead d =>
    rw [show PageStep.headEvents slot (c w) w (.fixOldHead d) = [] from rfl, List.append_nil]
    obtain ⟨rfl, hstore⟩ := fixOldHead_inv hst
    exact ⟨hhead (by rw [hstore, Store.vslot_setPrev]), fun hs => (hstage hs).mono hg⟩
  | writeHead d =>
    obtain ⟨rec, hrec, hstore⟩ := writeHead_step_inv hst
    have hnext : ∀ s, StageInv (Pushed st₀ db'.store c (st₀.headAt slot)) s slot (c w) w loc
        (PageStep.writeHead d).next := fun s => by cases d <;> trivial
    by_cases hs : ((c w).owner d).headSlot = slot
    · rw [show PageStep.headEvents slot (c w) w (.writeHead d) = [.write (w, d)] from if_pos hs,
        headRun_write]
      refine ⟨?_, hnext _⟩
      rw [hstore, ← hs]
      show Pushed _ _ _ _ _ ((db.store.setHead (((c w).owner d).labelId, ((c w).owner d).id)
        _).headAt (((c w).owner d).labelId, headSlot ((c w).owner d).id))
      rw [headAt_setHead hrec, hs]
      rw [hstore] at hg
      exact (hstage hs).mono hg
    · rw [show PageStep.headEvents slot (c w) w (.writeHead d) = [] from if_neg hs, List.append_nil]
      refine ⟨?_, hnext _⟩
      have heq : db'.store.headAt slot = db.store.headAt slot := by
        rw [hstore]
        exact headAt_setHead_ne hs
      rw [heq]
      exact h.head.mono hg

/-- **A turn keeps the invariant.** -/
theorem HeadInv.turn (h : HeadInv c slot st₀ es p db.store) (htodo : (p w).todo = ps :: rest)
    (hst : (ps.op x (c w) (p w).loc).Runs db loc db') :
    HeadInv c slot st₀ (es ++ ps.headEvents slot (c w) w) (Function.update p w ⟨rest, loc⟩)
      db'.store := by
  have hg := PageStep.op_grown hst
  obtain ⟨hhead, hown⟩ := h.own htodo hst
  have hord : rest.head? = ps.next ∧ Ordered rest := by
    have ho := h.ordered w
    rwa [htodo] at ho
  refine ⟨h.grown.trans hg, hhead, fun v => ?_, fun v => ?_⟩
  · by_cases hv : v = w
    · subst hv
      rw [Function.update_self]
      exact hord.2
    · rw [Function.update_of_ne hv]
      exact h.ordered v
  · by_cases hv : v = w
    · subst hv
      rw [Function.update_self]
      show StageInv _ _ _ _ _ loc rest.head?
      rw [hord.1]
      exact hown
    · rw [Function.update_of_ne hv]
      refine (h.stage v).mono (fun _ _ hp => hp.mono hg) fun d => seen_append fun e he hc => hv ?_
      rw [← push_headEvents he, hc]

/-- **A run keeps the invariant**, with the events of its turns. -/
theorem HeadInv.interleaves {ws : List Bool} (h : HeadInv c slot st₀ es p db.store)
    (hr : Interleaves x c ws p db p' db') :
    HeadInv c slot st₀ (es ++ headEvents slot c ws fun w => (p w).todo) p' db'.store := by
  induction hr generalizing es with
  | done p db =>
    rw [show headEvents slot c [] _ = [] from rfl, List.append_nil]
    exact h
  | @turn w ws p p' db db₁ db' ps rest loc htodo hst hr ih =>
    have hih := ih (h.turn htodo hst)
    have htodos : (fun v => (Function.update p w ⟨rest, loc⟩ v).todo) =
        Function.update (fun v => (p v).todo) w rest := by
      funext v
      by_cases hv : v = w
      · subst hv
        rw [Function.update_self, Function.update_self]
      · rw [Function.update_of_ne hv, Function.update_of_ne hv]
    rw [htodos, List.append_assoc] at hih
    have hev : headEvents slot c (w :: ws) (fun v => (p v).todo) =
        ps.headEvents slot (c w) w ++
          headEvents slot c ws (Function.update (fun v => (p v).todo) w rest) := by
      rw [headEvents]
      simp only [htodo]
    rw [hev]
    exact hih

end

/-! ## The events of a whole run -/

section

variable {x : Unspecified} {c : Bool → InsertCall} {slot : Nat × ItemPointer} {db db' : Db}

/-- The events of one call in a run are those of the steps it took. -/
theorem filter_headEvents {ws : List Bool} {p p' : Bool → Progress}
    (hr : Interleaves x c ws p db p' db') (slot : Nat × ItemPointer) (w : Bool) :
    (headEvents slot c ws fun v => (p v).todo).filter (fun e => e.push.1 = w) ++
        (p' w).todo.flatMap (PageStep.headEvents slot (c w) w) =
      (p w).todo.flatMap (PageStep.headEvents slot (c w) w) := by
  induction hr with
  | done p db => rfl
  | @turn u ws p p' db db₁ db' ps rest loc htodo hst hr ih =>
    have htodos : (fun v => (Function.update p u ⟨rest, loc⟩ v).todo) =
        Function.update (fun v => (p v).todo) u rest := by
      funext v
      by_cases hv : v = u
      · subst hv
        rw [Function.update_self, Function.update_self]
      · rw [Function.update_of_ne hv, Function.update_of_ne hv]
    have hev : headEvents slot c (u :: ws) (fun v => (p v).todo) =
        ps.headEvents slot (c u) u ++
          headEvents slot c ws (Function.update (fun v => (p v).todo) u rest) := by
      rw [headEvents]
      simp only [htodo]
    rw [htodos] at ih
    rw [hev, List.filter_append, List.append_assoc, ih]
    by_cases hu : w = u
    · subst hu
      have hall : (ps.headEvents slot (c w) w).filter (fun e => e.push.1 = w) =
          ps.headEvents slot (c w) w :=
        List.filter_eq_self.mpr fun e he => by simpa using push_headEvents he
      rw [hall, Function.update_self, htodo, List.flatMap_cons]
    · have hnone : (ps.headEvents slot (c u) u).filter (fun e => e.push.1 = w) = [] :=
        List.filter_eq_nil_iff.mpr fun e he => by
          simpa using fun h => hu (h.symm.trans (push_headEvents he))
      rw [hnone, Function.update_of_ne hu, List.nil_append]

/-- The events of a whole run are complete: each direction that hangs its record at the slot reads
the head once and then writes it once. -/
theorem TwoInserts.complete {turns : List Bool} (h : TwoInserts x c turns db db')
    (slot : Nat × ItemPointer) :
    Complete (headEvents slot c turns fun _ => insertSteps) ∧
      ∀ w d, HeadEvent.write (w, d) ∈ (headEvents slot c turns fun _ => insertSteps) ↔
        ((c w).owner d).headSlot = slot := by
  obtain ⟨p, hr, hdone⟩ := h
  have hcall : ∀ w, (headEvents slot c turns fun _ => insertSteps).filter
      (fun e => e.push.1 = w) = insertSteps.flatMap (PageStep.headEvents slot (c w) w) := by
    intro w
    have hf := filter_headEvents hr slot w
    rwa [hdone w, List.flatMap_nil, List.append_nil] at hf
  have hsteps : ∀ w, insertSteps.flatMap (PageStep.headEvents slot (c w) w) =
      (if ((c w).owner false).headSlot = slot then [.read (w, false), .write (w, false)] else []) ++
      (if ((c w).owner true).headSlot = slot then [.read (w, true), .write (w, true)] else []) := by
    intro w
    simp only [insertSteps, oneDirectionSteps, List.cons_append, List.nil_append,
      List.flatMap_cons, List.flatMap_nil, PageStep.headEvents, List.append_nil]
    split <;> split <;> rfl
  have hpush : ∀ i, (headEvents slot c turns fun _ => insertSteps).filter (fun e => e.push = i) =
      if ((c i.1).owner i.2).headSlot = slot then [.read i, .write i] else [] := by
    rintro ⟨w, d⟩
    have hsplit : (headEvents slot c turns fun _ => insertSteps).filter
        (fun e => e.push = (w, d)) = ((headEvents slot c turns fun _ => insertSteps).filter
          (fun e => e.push.1 = w)).filter (fun e => e.push = (w, d)) := by
      rw [List.filter_filter]
      refine List.filter_congr fun e _ => ?_
      by_cases he : e.push = (w, d)
      · simp [he]
      · simp [he]
    rw [hsplit, hcall, hsteps]
    cases d <;> simp only [] <;> split <;> split <;> simp
  refine ⟨fun i => ?_, fun w d => ?_⟩
  · rw [hpush]
    split
    · exact Or.inr rfl
    · exact Or.inl rfl
  · have hmem : HeadEvent.write (w, d) ∈ (headEvents slot c turns fun _ => insertSteps) ↔
        HeadEvent.write (w, d) ∈ (headEvents slot c turns fun _ => insertSteps).filter
          (fun e => e.push = (w, d)) := by
      rw [List.mem_filter]
      simp
    rw [hmem, hpush]
    split
    · next hs => simp [hs]
    · next hs => simp [hs]

end

/-! ## What is reachable -/

section

variable {x : Unspecified} {c : Bool → InsertCall} {st₀ st : Store} {old a : Option Addr}
  {is : List (Bool × Bool)}

/-- Following next pointers reaches the record of every push on the head. -/
theorem Pushed.reaches {i : Bool × Bool} : ∀ {is : List (Bool × Bool)} {a : Option Addr},
    Pushed st₀ st c old is a → i ∈ is → ∃ xs b n, Seg st.node AdjNode.next a xs (some b) ∧
      st₀.node b = none ∧ st.node b = some n ∧ n.ownerId = ((c i.1).owner i.2).id ∧
      n.members = [(c i.1).member i.2]
  | _ :: _, _, ⟨b, n, ha, hb, hn, ho, hm, h⟩, hi => by
    rcases List.mem_cons.mp hi with rfl | hi
    · exact ⟨[], b, n, by rw [ha]; exact Seg.nil _, hb, hn, ho, hm⟩
    · obtain ⟨xs, b', n', hseg, hrest⟩ := h.reaches hi
      exact ⟨(b, n) :: xs, b', n', by rw [ha]; exact hseg.cons hn, hrest⟩

/-- Nodes that were there before keep their chain. -/
theorem seg_grown (hg : st₀.Grown st) {q : NodePath}
    (h : Seg st₀.node AdjNode.next a q none) : ∃ q' : NodePath,
      Seg st.node AdjNode.next a q' none ∧ q'.map Prod.fst = q.map Prod.fst := by
  refine ⟨q.map fun y => (y.1, (st.node y.1).getD y.2), h.map_nodes (fun b m =>
    (st.node b).getD m) fun y hy => ?_, ?_⟩
  · obtain ⟨n', hn', -, -, hx'⟩ := hg y.1 y.2 (h.get_of_mem hy)
    rw [hn']
    exact ⟨rfl, hx'⟩
  · rw [List.map_map]
    rfl

/-- A new node reached from the head is the record of a push on it. -/
theorem Pushed.mem (hg : st₀.Grown st) {q : NodePath} (hold : Seg st₀.node AdjNode.next old q none)
    {b : Addr} {n : AdjNode} (hb : st₀.node b = none) (hn : st.node b = some n) :
    ∀ {is : List (Bool × Bool)} {a : Option Addr} {xs : NodePath}, Pushed st₀ st c old is a →
      Seg st.node AdjNode.next a xs (some b) → ∃ i ∈ is, n.members = [(c i.1).member i.2]
  | [], a, xs, h, hseg => by
    -- the old chain has no new node
    obtain ⟨q', hq', hfst⟩ := seg_grown hg hold
    rw [show a = old from h] at hseg
    obtain ⟨m, zs, rfl⟩ := hseg.prefix_of_chain hq'
    have hmem : b ∈ q.map Prod.fst := by
      rw [← hfst]
      simp
    obtain ⟨y, hy, rfl⟩ := List.mem_map.mp hmem
    rw [hold.get_of_mem hy] at hb
    cases hb
  | i :: is, a, xs, ⟨b', n', ha, _, hn', _, hm', h⟩, hseg => by
    subst ha
    cases hseg with
    | nil =>
      obtain rfl := Option.some.inj (hn.symm.trans hn')
      exact ⟨i, List.mem_cons_self, hm'⟩
    | cons hk hseg =>
      obtain rfl := Option.some.inj (hn'.symm.trans hk)
      obtain ⟨j, hj, hm⟩ := Pushed.mem hg hold hb hn h hseg
      exact ⟨j, List.mem_cons_of_mem _ hj, hm⟩

/-- The records of two transactions, and those of the two directions, differ. -/
theorem member_inj (hne : (c false).s.fxid ≠ (c true).s.fxid) {i j : Bool × Bool}
    (h : (c i.1).member i.2 = (c j.1).member j.2) : i = j := by
  have hx : (c i.1).s.fxid = (c j.1).s.fxid := congrArg (fun m => m.xmin) h
  have hd : i.2.toNat = j.2.toNat := congrArg AdjListMember.dir h
  obtain ⟨w, d⟩ := i
  obtain ⟨w', d'⟩ := j
  obtain rfl : d = d' := by cases d <;> cases d' <;> simp_all
  cases w <;> cases w' <;> simp_all

end

section

variable {x : Unspecified} {c : Bool → InsertCall} {turns : List Bool} {db db' : Db} {v : Vertex}

/-- The head of a vertex after a run of two calls stands for the pushes on it. -/
theorem TwoInserts.inv (h : TwoInserts x c turns db db') (slot : Nat × ItemPointer) :
    db.store.Grown db'.store ∧ Pushed db.store db'.store c (db.store.headAt slot)
      (headRun (headEvents slot c turns fun _ => insertSteps)).head (db'.store.headAt slot) := by
  obtain ⟨p, hr, -⟩ := h
  have hinit : HeadInv c slot db.store [] (fun _ => Progress.start) db.store := by
    refine ⟨.refl _, rfl, fun w => ?_, fun w => trivial⟩
    simp [Progress.start, insertSteps, oneDirectionSteps, Ordered, PageStep.next]
  have hinv := hinit.interleaves hr
  exact ⟨hinv.grown, hinv.head⟩

/-- A record is reachable exactly when its push is on the head in the end. -/
theorem TwoInserts.reachable_iff (hne : (c false).s.fxid ≠ (c true).s.fxid)
    (hpath : ∃ q, db.store.Path v.key q) (h : TwoInserts x c turns db db') {w d : Bool}
    (hs : ((c w).owner d).headSlot = v.headSlot) : RecordReachable db db' (c w) d ↔
      (w, d) ∈ (headRun (headEvents v.headSlot c turns fun _ => insertSteps)).head := by
  obtain ⟨hg, hhead⟩ := h.inv v.headSlot
  obtain ⟨q, hq⟩ := hpath
  have hcur : db'.store.head ((c w).owner d).labelId ((c w).owner d).id =
      db'.store.headAt v.headSlot := by
    rw [← hs]
    rfl
  unfold RecordReachable
  rw [hcur]
  constructor
  · rintro ⟨xs, a, n, hseg, hfresh, hn, -, hm⟩
    obtain ⟨i, hi, hmi⟩ := hhead.mem hg hq hfresh hn hseg
    have heq : (c w).member d = (c i.1).member i.2 := by simpa using hm.symm.trans hmi
    rw [show (w, d) = i from member_inj (i := (w, d)) hne heq]
    exact hi
  · exact fun hi => hhead.reaches hi

/-- **No record is lost exactly when no two calls overlap at the head.** Two calls of different
transactions, with any endpoints, take their steps in any order, and `v` is a vertex whose chain was
well formed before. -/
theorem noLostEdge_iff (hne : (c false).s.fxid ≠ (c true).s.fxid)
    (hpath : ∃ q, db.store.Path v.key q) (h : TwoInserts x c turns db db') :
    NoLostEdge db db' c v ↔ Serial (headEvents v.headSlot c turns fun _ => insertSteps) := by
  obtain ⟨hcomplete, hwrites⟩ := h.complete v.headSlot
  rw [← written_iff_serial hcomplete]
  constructor
  · rintro hall ⟨w, d⟩ hi
    have hs := (hwrites w d).mp hi
    exact (h.reachable_iff hne hpath hs).mp (hall w d hs)
  · intro hall w d hs
    exact (h.reachable_iff hne hpath hs).mpr (hall (w, d) ((hwrites w d).mpr hs))

end

/-! ## Two orders -/

/-- Take the turns, as far as the steps succeed. -/
def interleave (x : Unspecified) (c : Bool → InsertCall) :
    List Bool → (Bool → Progress) → Db → Option ((Bool → Progress) × Db)
  | [], p, db => some (p, db)
  | w :: ws, p, db =>
    match (p w).todo with
    | [] => none
    | ps :: rest =>
      match (ps.op x (c w) (p w).loc).exec db with
      | (.error _, _) => none
      | (.ok loc, db') => interleave x c ws (Function.update p w ⟨rest, loc⟩) db'

theorem interleaves_of_interleave {x : Unspecified} {c : Bool → InsertCall} :
    ∀ {ws : List Bool} {p p' : Bool → Progress} {db db' : Db},
      interleave x c ws p db = some (p', db') → Interleaves x c ws p db p' db'
  | [], _, _, _, _, h => by
    obtain ⟨rfl, rfl⟩ := Prod.mk.inj (Option.some.inj h)
    exact .done _ _
  | w :: ws, p, _, db, _, h => by
    unfold interleave at h
    split at h
    · cases h
    · next ps rest htodo =>
      split at h
      · cases h
      · next loc db₁ hst => exact .turn htodo hst (interleaves_of_interleave h)

/-- Three vertices of one label. -/
def exampleThree : Db :=
  let s : Session := ⟨5, 0⟩
  execAll [buildVertexLabelInfrastructure 1, createElabelInternal 1,
    insertVertex s ⟨1, 1, 0⟩ npEmptyGtypeObject, insertVertex s ⟨2, 1, 0⟩ npEmptyGtypeObject,
    insertVertex s ⟨3, 1, 0⟩ npEmptyGtypeObject] (Db.empty exampleXacts5)

theorem path_exampleThree : ∃ q, exampleThree.store.Path (⟨1, 1, 0⟩ : Vertex).key q := by
  have hhead : exampleThree.store.head 1 1 = none := rfl
  refine ⟨[], ?_⟩
  unfold Store.Path
  rw [show exampleThree.store.head (⟨1, 1, 0⟩ : Vertex).key.1 (⟨1, 1, 0⟩ : Vertex).key.2 = none
    from hhead]
  exact Seg.nil none

/-- Transactions 6 and 7 insert edges from vertex 1, to vertices 2 and 3. -/
def exampleCalls (w : Bool) : InsertCall :=
  if w then ⟨⟨7, 0⟩, ⟨1, 1, 0⟩, ⟨3, 1, 0⟩, ⟨2, 1, 0, 1, 1, 1, 3⟩, npEmptyGtypeObject⟩
  else ⟨⟨6, 0⟩, ⟨1, 1, 0⟩, ⟨2, 1, 0⟩, ⟨1, 1, 0, 1, 1, 1, 2⟩, npEmptyGtypeObject⟩

/-- The first call reads the head of vertex 1, then the second one runs, then the first one ends. -/
def exampleOverlap : List Bool :=
  List.replicate 4 false ++ List.replicate 12 true ++ List.replicate 8 false

/-- The first call runs, then the second one. -/
def exampleSerial : List Bool := List.replicate 12 false ++ List.replicate 12 true

theorem twoInserts_of_turns {turns : List Bool} {db' : Db}
    (h : ∃ p, interleave exampleUnspecified exampleCalls turns (fun _ => .start) exampleThree =
      some (p, db') ∧ ∀ w, (p w).todo = []) :
    TwoInserts exampleUnspecified exampleCalls turns exampleThree db' := by
  obtain ⟨p, hp, hdone⟩ := h
  exact ⟨p, interleaves_of_interleave hp, hdone⟩

/-- One after the other, both calls leave their records at vertex 1. -/
theorem noLostEdge_iff_example : ∃ db', TwoInserts exampleUnspecified exampleCalls exampleSerial
    exampleThree db' ∧ NoLostEdge exampleThree db' exampleCalls ⟨1, 1, 0⟩ := by
  have h : TwoInserts exampleUnspecified exampleCalls exampleSerial exampleThree _ :=
    twoInserts_of_turns ⟨_, rfl, fun w => by cases w <;> rfl⟩
  exact ⟨_, h, (noLostEdge_iff (by decide) path_exampleThree h).mpr
    ⟨⟨(false, false), rfl, rfl⟩, ⟨(true, false), rfl, rfl⟩, trivial⟩⟩

/-- **An edge is lost.** Both calls commit, and the record of the second one is on no chain: the
first one read the head before it and wrote it after it. -/
theorem noLostEdge_fails : ∃ db', TwoInserts exampleUnspecified exampleCalls exampleOverlap
    exampleThree db' ∧ ¬ RecordReachable exampleThree db' (exampleCalls true) false := by
  have h : TwoInserts exampleUnspecified exampleCalls exampleOverlap exampleThree _ :=
    twoInserts_of_turns ⟨_, rfl, fun w => by cases w <;> rfl⟩
  refine ⟨_, h, fun hr => ?_⟩
  have hon := (h.reachable_iff (v := ⟨1, 1, 0⟩) (by decide) path_exampleThree rfl).mp hr
  exact absurd hon (by decide)

end NeoPostGraph
