import NeoPostGraph.Graph.EdgeMove
import NeoPostGraph.Graph.EntityReads
import NeoPostGraph.Graph.Liveness
import NeoPostGraph.Lib.PropertyGraph

/-!
# The property graph in a store

What the store is for: vertices and edges with properties. Where transactions follow one another and
all commit, it is one property graph, and this module says which.

* `LiveGraph`: property graphs with vertices by label and id, and edges by id.
* `SerialXacts base tx x`: every transaction of the history has committed, but for the open one.
* `TableShows`: the undeleted tuples of an entity table, and what the slots point to.
* `openEnds`: what the undeleted members of a list say of edges. `HasEnd`: what they should.
* `Depicts st V A G`: the tables, the slots and the lists of members say what `G` says.

Results:
* `SerialXacts.updatable_iff`: then a tuple is live just when no one has deleted it.
* `Depicts.unique`: a store represents one graph.
* `TableShows.write`, `TableShows.stamp`, `TableShows.supersede`: what the writers do to a table.
* `openEnds_stampFirstMember`: an unlink takes an end away.
-/

namespace NeoPostGraph

open SlottedPage LinkedChain

/-! ## Graphs -/

/-- What a vertex carries besides its key. -/
structure VertexData where
  dictionaryId : Nat
  props : Gtype
deriving DecidableEq, Repr

/-- What an edge carries besides its id and its ends. -/
structure EdgeData where
  labelId : Nat
  dictionaryId : Nat
  props : Gtype
deriving DecidableEq, Repr

/-- Property graphs with vertices by label and id, and edges by id. -/
abbrev LiveGraph := PropertyGraph VertexKey Nat VertexData EdgeData

/-- An edge value with properties, as an arc. -/
def Edge.arc (e : Edge) (props : Gtype) : Arc VertexKey EdgeData :=
  ⟨e.startKey, e.endKey, e.labelId, e.dictionaryId, props⟩

/-- The data of a vertex tuple. -/
def vertexData (t : EntityTuple Vertex) : VertexData := ⟨t.entity.dictionaryId, t.props⟩

/-- The arc of an edge tuple. -/
def edgeArc (t : EntityTuple Edge) : Arc VertexKey EdgeData := t.entity.arc t.props

/-- One end of an edge, as an adjacency member has it. -/
structure EdgeEnd where
  edgeId : Nat
  labelId : Nat
  dir : Nat
  other : VertexKey
deriving DecidableEq, Repr

/-- The end a member stands for. -/
def AdjListMember.toEnd (m : AdjListMember) : EdgeEnd :=
  ⟨m.edgeId, m.edgeLid, m.dir, (m.otherLid, m.otherId)⟩

/-- The vertex has this end of this arc: direction 0 where it starts, 1 where it stops. -/
def EdgeEnd.Of (x : EdgeEnd) (a : Arc VertexKey EdgeData) (v : VertexKey) : Prop :=
  x.labelId = a.data.labelId ∧
    (x.dir = 0 ∧ a.start = v ∧ x.other = a.stop ∨ x.dir = 1 ∧ a.stop = v ∧ x.other = a.start)

/-- The end belongs at the vertex. -/
def HasEnd (G : LiveGraph) (v : VertexKey) (x : EdgeEnd) : Prop :=
  ∃ a, G.arc x.edgeId = some a ∧ x.Of a v

/-- The edges of a label. -/
def edgesOf (G : LiveGraph) (l id : Nat) : Option (Arc VertexKey EdgeData) :=
  (G.arc id).filter fun a => a.data.labelId = l

/-- The ends that the undeleted members of a list stand for. -/
def openEnds (ms : List AdjListMember) : List EdgeEnd :=
  (ms.filter AdjListMember.undeleted).map AdjListMember.toEnd

/-! ## The relation -/

/-- The undeleted tuples of a table are the entities of `f`, and the slot of each points to it. -/
structure TableShows {μ α : Type} (slotOf : Nat → ItemPointer) (view : EntityTuple μ → α)
    (tuple : ItemPointer → Option (EntityTuple μ)) (slot : ItemPointer → Option ItemPointer)
    (f : Nat → Option α) : Prop where
  shown : ∀ p t, tuple p = some t → t.hdr.deleter = none →
    slot (slotOf t.hdr.id) = some p ∧ f t.hdr.id = some (view t)
  stored : ∀ id a, f id = some a → ∃ p t, tuple p = some t ∧ t.hdr.id = id ∧ t.hdr.deleter = none

/-- The ends at a vertex, each once. -/
structure EndsShow (G : LiveGraph) (v : VertexKey) (ms : List AdjListMember) : Prop where
  nodup : (openEnds ms).Nodup
  mem : ∀ x, x ∈ openEnds ms ↔ HasEnd G v x

/-- **The store represents the graph.** -/
structure Depicts (st : Store) (V : List VertexKey) (A : AdjView) (G : LiveGraph) : Prop where
  vertices : ∀ l, TableShows entitySlot vertexData (fun tid => st.vtuple (l, tid)) (st.vertexPtr l)
    fun id => G.vertex (l, id)
  edges : ∀ l, TableShows edgeSlot edgeArc (fun tid => st.etuple (l, tid)) (st.edgePtr l)
    (edgesOf G l)
  shows : Shows st V A
  ends : ∀ v ∈ V, EndsShow G v (A v)

/-- Every transaction of the history has committed, but for the open one. -/
def SerialXacts (base : Nat) (tx : Option Nat) (x : XactState) : Prop :=
  ∀ t, x.Begun base t → x.Committed t ∨ tx = some t

section

variable {base id l : Nat} {x : XactState} {s : Session} {hdr : RecordHeader} {μ α : Type}

/-! ## Liveness -/

theorem deleter_eq_none : hdr.deleter = none ↔ fullXidIsValid hdr.xmax = false := by
  unfold RecordHeader.deleter
  split
  · next h => simp [h]
  · next h => simp [h]

/-- What everyone did whom the reader does not see is nothing: live means undeleted. -/
theorem live_iff_undeleted {own : List Nat} (hmine : ∀ t, x.Begun base t → t ∈ own ∨ x.Committed t)
    (hown : OwnOpen x base own) (hroom : x.nextFxid ≤ base + 2 ^ 32) (hi : HeaderInv base x hdr) :
    npEntityTupleIsLive x own hdr = true ↔ hdr.deleter = none := by
  rw [npEntityTupleIsLive_iff_seen hroom (fun o ho => (hown o ho).1) hi]
  constructor
  · intro hseen
    cases hd : hdr.deleter with
    | none => rfl
    | some d =>
      rcases hseen with ⟨ho, hno⟩ | ⟨-, -, hno⟩
      · -- what the session created is not committed, so no one else has deleted it
        rcases hi.settled d hd with rfl | hc
        · exact absurd ho (hno _ hd)
        · exact absurd hc (hown _ ho).not_committed
      · rcases hmine d (hi.xmax d hd) with ho | hc
        · exact absurd ho (hno d hd).1
        · exact absurd hc (hno d hd).2
  · intro hd
    have hnone : ∀ d, hdr.stamps.deleter ≠ some d := fun d hd' => by
      rw [show hdr.stamps.deleter = hdr.deleter from rfl, hd] at hd'
      cases hd'
    rcases hmine _ hi.xmin with ho | hc
    · exact Or.inl ⟨ho, fun d hd' => absurd hd' (hnone d)⟩
    · exact Or.inr ⟨fun ho => (hown _ ho).not_committed hc, hc, fun d hd' => absurd hd' (hnone d)⟩

/-- The open transaction and the committed ones are all there are. -/
theorem SerialXacts.begun {tx : Option Nat} (h : SerialXacts base tx x) {t : Nat}
    (ht : x.Begun base t) : t ∈ tx.toList ∨ x.Committed t :=
  (h t ht).elim Or.inr fun he => Or.inl (Option.mem_toList.mpr he)

/-- **Live to the session means undeleted.** -/
theorem SerialXacts.live_iff (h : SerialXacts base (some s.fxid) x) (hs : x.Open base s.fxid)
    (hroom : x.nextFxid ≤ base + 2 ^ 32) (hi : HeaderInv base x hdr) :
    npEntityTupleIsLive x s.own hdr = true ↔ hdr.deleter = none :=
  live_iff_undeleted (fun _ ht => h.begun ht)
    (fun o ho => by rw [List.mem_singleton.mp ho]; exact hs) hroom hi

theorem SerialXacts.updatable_iff (h : SerialXacts base (some s.fxid) x) (hs : x.Open base s.fxid)
    (hroom : x.nextFxid ≤ base + 2 ^ 32) {t : EntityTuple μ}
    (hi : HeaderInv base x t.hdr.toRecordHeader) :
    Updatable x s.own t ↔ t.hdr.deleter = none := by
  unfold Updatable
  rw [h.live_iff hs hroom hi, and_iff_left_iff_imp]
  intro hd
  unfold npEntityTupleXmaxOther
  rw [deleter_eq_none.mp hd]
  rfl

/-! ## Tables -/

variable {slotOf : Nat → ItemPointer} {view : EntityTuple μ → α} {t : EntityTuple μ}
  {tuple : ItemPointer → Option (EntityTuple μ)} {slot slot' : ItemPointer → Option ItemPointer}
  {f : Nat → Option α} {p q : ItemPointer}

/-- The tuple of an entity, where its slot points to. -/
theorem TableShows.get (h : TableShows slotOf view tuple slot f) {a : α} (ha : f id = some a) :
    ∃ p t, slot (slotOf id) = some p ∧ tuple p = some t ∧ t.hdr.id = id ∧ t.hdr.deleter = none ∧
      view t = a := by
  obtain ⟨p, t, ht, rfl, hd⟩ := h.stored id a ha
  obtain ⟨hslot, hf⟩ := h.shown p t ht hd
  exact ⟨p, t, hslot, ht, rfl, hd, Option.some.inj (hf.symm.trans ha)⟩

/-- Slots that pointed to a tuple still do. -/
theorem TableShows.repoint (h : TableShows slotOf view tuple slot f)
    (hslot : ∀ id p, f id ≠ none → slot (slotOf id) = some p → slot' (slotOf id) = some p) :
    TableShows slotOf view tuple slot' f := by
  refine ⟨fun p t ht hd => ?_, h.stored⟩
  obtain ⟨hp, hf⟩ := h.shown p t ht hd
  exact ⟨hslot _ p (by simp [hf]) hp, hf⟩

/-- **A new tuple is the entity of its id**, if there was none, and its slot points to it. -/
theorem TableShows.write (h : TableShows slotOf view tuple slot f) (hnone : tuple p = none)
    (hd : t.hdr.deleter = none) (hf : f t.hdr.id = none)
    (hown : ∀ q u, tuple q = some u → slotOf u.hdr.id = slotOf t.hdr.id → u.hdr.id = t.hdr.id)
    (hself : slot' (slotOf t.hdr.id) = some p)
    (hslot : ∀ k q, k ≠ slotOf t.hdr.id → slot k = some q → slot' k = some q) :
    TableShows slotOf view (Function.update tuple p (some t)) slot'
      (Function.update f t.hdr.id (some (view t))) := by
  have hne : ∀ q u, tuple q = some u → u.hdr.deleter = none → u.hdr.id ≠ t.hdr.id := by
    intro q u hu hdu he
    have hshown := (h.shown q u hu hdu).2
    rw [he, hf] at hshown
    cases hshown
  refine ⟨fun q u hu hdu => ?_, fun id a ha => ?_⟩
  · by_cases hq : q = p
    · subst hq
      rw [Function.update_self] at hu
      obtain rfl := Option.some.inj hu
      exact ⟨hself, Function.update_self ..⟩
    · rw [Function.update_of_ne hq] at hu
      obtain ⟨hp, hfu⟩ := h.shown q u hu hdu
      have hid := hne q u hu hdu
      exact ⟨hslot _ q (fun he => hid (hown q u hu he)) hp, (Function.update_of_ne hid ..).trans hfu⟩
  · by_cases hid : id = t.hdr.id
    · exact ⟨p, t, Function.update_self .., hid.symm, hd⟩
    · rw [Function.update_of_ne hid] at ha
      obtain ⟨q, u, hu, hidu, hdu⟩ := h.stored id a ha
      refine ⟨q, u, (Function.update_of_ne (fun he => ?_) ..).trans hu, hidu, hdu⟩
      rw [he, hnone] at hu
      cases hu

theorem deleter_stampTuple (hs : fullXidIsValid s.fxid = true) (t : EntityTuple μ) :
    (stampTuple s t).hdr.deleter ≠ none := by
  rw [Ne, deleter_eq_none, Bool.not_eq_false]
  exact hs

/-- **A stamp takes the entity away.** -/
theorem TableShows.stamp (h : TableShows slotOf view tuple slot f)
    (hs : fullXidIsValid s.fxid = true) (ht : tuple p = some t) (hd : t.hdr.deleter = none) :
    TableShows slotOf view (Function.update tuple p (some (stampTuple s t))) slot
      (Function.update f t.hdr.id none) := by
  have hslot := (h.shown p t ht hd).1
  refine ⟨fun q u hu hdu => ?_, fun id a ha => ?_⟩
  · by_cases hq : q = p
    · rw [hq, Function.update_self] at hu
      obtain rfl := Option.some.inj hu
      exact absurd hdu (deleter_stampTuple hs t)
    · rw [Function.update_of_ne hq] at hu
      obtain ⟨hp, hfu⟩ := h.shown q u hu hdu
      refine ⟨hp, (Function.update_of_ne (fun hid => hq ?_) ..).trans hfu⟩
      rw [hid, hslot] at hp
      exact (Option.some.inj hp).symm
  · by_cases hid : id = t.hdr.id
    · rw [hid, Function.update_self] at ha
      cases ha
    · rw [Function.update_of_ne hid] at ha
      obtain ⟨q, u, hu, hidu, hdu⟩ := h.stored id a ha
      refine ⟨q, u, (Function.update_of_ne (fun he => ?_) ..).trans hu, hidu, hdu⟩
      rw [he, ht] at hu
      obtain rfl := Option.some.inj hu
      exact hid hidu.symm

/-- **A new version of a tuple is the entity of its id** once the old one is stamped. -/
theorem TableShows.supersede (h : TableShows slotOf view tuple slot f)
    (hs : fullXidIsValid s.fxid = true) {u : EntityTuple μ} (hu : tuple q = some u)
    (hdu : u.hdr.deleter = none) (hnone : tuple p = none) (hid : t.hdr.id = u.hdr.id)
    (hd : t.hdr.deleter = none)
    (hown : ∀ q v, tuple q = some v → slotOf v.hdr.id = slotOf u.hdr.id → v.hdr.id = u.hdr.id)
    (hself : slot' (slotOf u.hdr.id) = some p)
    (hslot : ∀ k q, k ≠ slotOf u.hdr.id → slot k = some q → slot' k = some q) :
    TableShows slotOf view
      (Function.update (Function.update tuple p (some t)) q (some (stampTuple s u))) slot'
      (Function.update f u.hdr.id (some (view t))) := by
  have hne : p ≠ q := fun he => by
    rw [he, hu] at hnone
    cases hnone
  rw [Function.update_comm hne]
  have hstamp := h.stamp hs hu hdu
  have hwrite := hstamp.write (t := t) (p := p)
    ((Function.update_of_ne hne ..).trans hnone) hd (by rw [hid]; exact Function.update_self ..)
    (fun r v hv he => ?_) (by rw [hid]; exact hself) (fun k r hk => hslot k r (by rwa [← hid]))
  · rw [hid, Function.update_idem] at hwrite
    exact hwrite
  · rw [hid] at he ⊢
    by_cases hr : r = q
    · rw [hr, Function.update_self] at hv
      obtain rfl := Option.some.inj hv
      rfl
    · rw [Function.update_of_ne hr] at hv
      exact hown r v hv he

/-! ## Ends -/

theorem openEnds_cons (m : AdjListMember) (ms : List AdjListMember) :
    openEnds (m :: ms) = if m.undeleted then m.toEnd :: openEnds ms else openEnds ms := by
  unfold openEnds
  rw [List.filter_cons]
  split <;> rfl

/-- **An unlink takes away the first end of the id.** -/
theorem openEnds_stampFirstMember (hs : fullXidIsValid s.fxid = true) (id : Nat)
    (ms : List AdjListMember) :
    openEnds (stampFirstMember s id ms) = (openEnds ms).eraseP fun x => x.edgeId == id := by
  induction ms with
  | nil => rfl
  | cons m ms ih =>
    unfold stampFirstMember
    by_cases hm : matchesEdge id m.edgeId m.toRecordHeader = true
    · obtain ⟨hid, hx⟩ := Bool.and_eq_true_iff.mp hm
      have hundel : m.undeleted = true := hx
      have hstamped : (stampMember s m).undeleted = false := by
        show (!fullXidIsValid s.fxid) = false
        rw [hs]
        rfl
      rw [if_pos hm, openEnds_cons, openEnds_cons, hstamped, hundel, if_pos rfl,
        List.eraseP_cons_of_pos (by exact hid)]
      rfl
    · rw [if_neg hm, openEnds_cons, openEnds_cons, ih]
      by_cases hundel : m.undeleted = true
      · have hid : ¬ (m.toEnd.edgeId == id) = true := fun hid =>
          hm (Bool.and_eq_true_iff.mpr ⟨hid, hundel⟩)
        rw [if_pos hundel, if_pos hundel]
        exact (List.eraseP_cons_of_neg (p := fun x : EdgeEnd => x.edgeId == id) hid).symm
      · rw [if_neg hundel, if_neg hundel]

theorem eraseP_eq_filter {p : α → Bool} {l : List α} (h : l.countP p ≤ 1) :
    l.eraseP p = l.filter fun x => !p x := by
  induction l with
  | nil => rfl
  | cons x l ih =>
    rw [List.countP_cons] at h
    by_cases hx : p x = true
    · rw [if_pos hx] at h
      rw [List.eraseP_cons_of_pos hx, List.filter_cons_of_neg (by simp [hx])]
      refine (List.filter_eq_self.mpr fun y hy => ?_).symm
      have hzero := List.countP_eq_zero.mp (by omega : l.countP p = 0) y hy
      simpa using hzero
    · rw [if_neg hx] at h
      rw [List.eraseP_cons_of_neg hx, List.filter_cons_of_pos (by simp [hx]), ih h]

theorem filter_eraseP (p : α → Bool) (l : List α) :
    (l.eraseP p).filter (fun x => !p x) = l.filter fun x => !p x := by
  induction l with
  | nil => rfl
  | cons x l ih =>
    by_cases hx : p x = true
    · rw [List.eraseP_cons_of_pos hx, List.filter_cons_of_neg (by simp [hx])]
    · rw [List.eraseP_cons_of_neg hx, List.filter_cons_of_pos (by simp [hx]),
        List.filter_cons_of_pos (by simp [hx]), ih]

theorem countP_eraseP_le (p : α → Bool) {l : List α} {n : Nat} (h : l.countP p ≤ n + 1) :
    (l.eraseP p).countP p ≤ n := by
  induction l with
  | nil => exact Nat.zero_le n
  | cons x l ih =>
    rw [List.countP_cons] at h
    by_cases hx : p x = true
    · rw [if_pos hx] at h
      rw [List.eraseP_cons_of_pos hx]
      omega
    · rw [if_neg hx] at h
      rw [List.eraseP_cons_of_neg hx, List.countP_cons_of_neg (by simpa using hx)]
      exact ih h

variable {G : LiveGraph} {v : VertexKey} {ms : List AdjListMember} {a : Arc VertexKey EdgeData}

/-- The ends of one edge at a vertex: at most one for each way it meets it. -/
theorem EndsShow.countP_le (h : EndsShow G v ms) (ha : G.arc id = some a) :
    (openEnds ms).countP (fun x => x.edgeId == id) ≤
      (if a.start = v then 1 else 0) + if a.stop = v then 1 else 0 := by
  let ends := (if a.start = v then [⟨id, a.data.labelId, 0, a.stop⟩] else []) ++
    (if a.stop = v then [⟨id, a.data.labelId, 1, a.start⟩] else [] : List EdgeEnd)
  have hsub : (openEnds ms).filter (fun x => x.edgeId == id) ⊆ ends := by
    intro x hx
    obtain ⟨hmem, hid⟩ := List.mem_filter.mp hx
    obtain ⟨b, hb, hl, hdir⟩ := (h.mem x).mp hmem
    obtain ⟨i, l, d, o⟩ := x
    obtain rfl := beq_iff_eq.mp hid
    obtain rfl := Option.some.inj (hb.symm.trans ha)
    obtain rfl : l = b.data.labelId := hl
    rcases hdir with ⟨rfl, hv, rfl⟩ | ⟨rfl, hv, rfl⟩
    · exact List.mem_append_left _ (by rw [if_pos hv]; exact List.mem_singleton.mpr rfl)
    · exact List.mem_append_right _ (by rw [if_pos hv]; exact List.mem_singleton.mpr rfl)
  rw [List.countP_eq_length_filter]
  refine Nat.le_trans (List.subperm_of_subset (h.nodup.filter _) hsub).length_le ?_
  show List.length (_ ++ _) ≤ _
  rw [List.length_append]
  exact Nat.add_le_add (by split <;> exact Nat.le_refl _) (by split <;> exact Nat.le_refl _)

/-- Where the ends of an edge are gone, those of the others are left. -/
theorem EndsShow.dropArc (h : EndsShow G v ms) {ms' : List AdjListMember}
    (hms : openEnds ms' = (openEnds ms).filter fun x => !(x.edgeId == id)) :
    EndsShow (G.dropArc id) v ms' := by
  refine ⟨?_, fun x => ?_⟩
  · rw [hms]
    exact h.nodup.filter _
  · rw [hms, List.mem_filter, h.mem]
    have harc : (G.dropArc id).arc x.edgeId = Function.update G.arc id none x.edgeId := rfl
    unfold HasEnd
    rw [harc]
    by_cases hx : x.edgeId = id
    · rw [hx, Function.update_self]
      simp
    · rw [Function.update_of_ne hx]
      simp [hx]

/-- **A delete of an edge takes its ends away**, wherever they are. -/
theorem EndsShow.unlinkEdge {A : AdjView} {e : Edge} (h : EndsShow G v (A v))
    (hs : fullXidIsValid s.fxid = true) (ha : G.arc id = some a) (hstart : e.startKey = a.start)
    (hstop : e.endKey = a.stop) : EndsShow (G.dropArc id) v (A.unlinkEdge s id e v) := by
  have hcount := h.countP_le ha
  refine h.dropArc ?_
  have hone : ∀ (B : AdjView) w, openEnds (B.unlink s id w v) =
      if v = w then (openEnds (B v)).eraseP fun x => x.edgeId == id else openEnds (B v) := by
    intro B w
    unfold AdjView.unlink
    split
    · next hvw =>
      subst hvw
      rw [Function.update_self, openEnds_stampFirstMember hs]
    · next hvw => rw [Function.update_of_ne hvw]
  unfold AdjView.unlinkEdge
  rw [hone, hone, hstart, hstop]
  -- the vertex may be the start, the end, both or neither
  by_cases hs' : v = a.start <;> by_cases he' : v = a.stop
  · rw [if_pos hs'.symm, if_pos he'.symm] at hcount
    rw [if_pos he', if_pos hs', eraseP_eq_filter (countP_eraseP_le _ hcount), filter_eraseP]
  · rw [if_pos hs'.symm, if_neg (Ne.symm he')] at hcount
    rw [if_neg he', if_pos hs', eraseP_eq_filter hcount]
  · rw [if_neg (Ne.symm hs'), if_pos he'.symm] at hcount
    rw [if_pos he', if_neg hs', eraseP_eq_filter (by omega)]
  · rw [if_neg (Ne.symm hs'), if_neg (Ne.symm he')] at hcount
    rw [if_neg he', if_neg hs']
    refine (List.filter_eq_self.mpr fun x hx => ?_).symm
    simpa using List.countP_eq_zero.mp (Nat.le_zero.mp hcount) x hx

theorem mem_ite_singleton {c : Prop} [Decidable c] {x y : α} :
    x ∈ (if c then [y] else []) ↔ c ∧ x = y := by
  split
  · next h => simp [h]
  · next h => simp [h]

/-- **An insert of an edge puts its ends in.** -/
theorem EndsShow.linkEdge {A : AdjView} {e : Edge} {props : Gtype} {startV endV : Vertex}
    (h : EndsShow G v (A v)) (ha : G.arc e.id = none) (hstart : startV.key = e.startKey)
    (hend : endV.key = e.endKey) (hs : (G.vertex e.startKey).isSome)
    (he : (G.vertex e.endKey).isSome) :
    EndsShow (G.putArc e.id (e.arc props) hs he) v (A.linkEdge s startV endV e v) := by
  have hone : ∀ (B : AdjView) w x, openEnds (B.link w x v) =
      if v = w ∧ x.undeleted then x.toEnd :: openEnds (B v) else openEnds (B v) := by
    intro B w x
    unfold AdjView.link
    by_cases hvw : v = w
    · subst hvw
      rw [Function.update_self, openEnds_cons]
      simp
    · rw [Function.update_of_ne hvw, if_neg fun hc => hvw hc.1]
  have hnew : ∀ w d, (newMember s w e d).undeleted = true := fun _ _ => rfl
  have hends : openEnds (A.linkEdge s startV endV e v) =
      (if v = e.endKey then [⟨e.id, e.labelId, 1, e.startKey⟩] else []) ++
        ((if v = e.startKey then [⟨e.id, e.labelId, 0, e.endKey⟩] else []) ++ openEnds (A v)) := by
    unfold AdjView.linkEdge
    rw [hone, hone, hnew, hnew, hstart, hend, ← hstart, ← hend]
    simp only [and_true]
    split <;> split <;> rfl
  have hno : ∀ x ∈ openEnds (A v), x.edgeId ≠ e.id := by
    intro x hx he
    obtain ⟨b, hb, -⟩ := (h.mem x).mp hx
    rw [he, ha] at hb
    cases hb
  have harc : ∀ i, (G.putArc e.id (e.arc props) hs he).arc i =
      Function.update G.arc e.id (some (e.arc props)) i := fun _ => rfl
  refine ⟨?_, fun x => ?_⟩
  · rw [hends]
    split <;> split <;>
      simp only [List.nil_append, List.singleton_append, List.nodup_cons, List.mem_cons, h.nodup,
        and_true, not_or]
    · exact ⟨⟨by simp, fun hx => hno _ hx rfl⟩, fun hx => hno _ hx rfl⟩
    · exact fun hx => hno _ hx rfl
    · exact fun hx => hno _ hx rfl
  · rw [hends, List.mem_append, List.mem_append, mem_ite_singleton, mem_ite_singleton, h.mem]
    unfold HasEnd
    rw [harc]
    obtain ⟨i, l, d, o⟩ := x
    simp only [EdgeEnd.mk.injEq]
    by_cases hi : i = e.id
    · subst hi
      rw [Function.update_self, ha]
      constructor
      · rintro (⟨rfl, -, rfl, rfl, rfl⟩ | ⟨rfl, -, rfl, rfl, rfl⟩ | ⟨b, hb, -⟩)
        · exact ⟨_, rfl, rfl, Or.inr ⟨rfl, rfl, rfl⟩⟩
        · exact ⟨_, rfl, rfl, Or.inl ⟨rfl, rfl, rfl⟩⟩
        · cases hb
      · rintro ⟨b, hb, hl, ⟨hd, hv, ho⟩ | ⟨hd, hv, ho⟩⟩ <;> obtain rfl := Option.some.inj hb
        · exact Or.inr (Or.inl ⟨hv.symm, rfl, hl, hd, ho⟩)
        · exact Or.inl ⟨hv.symm, rfl, hl, hd, ho⟩
    · rw [Function.update_of_ne hi]
      exact ⟨fun hx => (hx.resolve_left fun hc => hi hc.2.1).resolve_left fun hc => hi hc.2.1,
        fun hx => Or.inr (Or.inr hx)⟩

/-- The ends at a vertex are a matter of where the edges start and stop, and of their labels. -/
theorem EndsShow.congr {G' : LiveGraph} (h : EndsShow G v ms) (hG : ∀ x, HasEnd G' v x ↔ HasEnd G v x) :
    EndsShow G' v ms :=
  ⟨h.nodup, fun x => (h.mem x).trans (hG x).symm⟩

/-- The order of the members does not matter. -/
theorem EndsShow.perm (h : EndsShow G v ms) {ms' : List AdjListMember} (hp : ms'.Perm ms) :
    EndsShow G v ms' := by
  have hends : (openEnds ms').Perm (openEnds ms) := (hp.filter _).map _
  exact ⟨hends.nodup_iff.mpr h.nodup, fun x => hends.mem_iff.trans (h.mem x)⟩

/-- **A list without undeleted members is that of an isolated vertex.** -/
theorem EndsShow.isolated_iff (h : EndsShow G v ms) : openEnds ms = [] ↔ G.Isolated v := by
  constructor
  · rintro hnil i a ha hmeets
    have hend : ∃ x, HasEnd G v x := by
      rcases hmeets with hv | hv
      · exact ⟨⟨i, _, 0, _⟩, a, ha, rfl, Or.inl ⟨rfl, hv, rfl⟩⟩
      · exact ⟨⟨i, _, 1, _⟩, a, ha, rfl, Or.inr ⟨rfl, hv, rfl⟩⟩
    obtain ⟨x, hx⟩ := hend
    have hmem := (h.mem x).mpr hx
    rw [hnil] at hmem
    cases hmem
  · intro hiso
    refine List.eq_nil_iff_forall_not_mem.mpr fun x hx => ?_
    obtain ⟨a, ha, -, ⟨-, hv, -⟩ | ⟨-, hv, -⟩⟩ := (h.mem x).mp hx
    · exact hiso _ a ha (Or.inl hv)
    · exact hiso _ a ha (Or.inr hv)

/-! ## Edges by label -/

theorem edgesOf_eq_some {b : Arc VertexKey EdgeData} :
    edgesOf G l id = some b ↔ G.arc id = some b ∧ b.data.labelId = l := by
  unfold edgesOf
  rw [Option.filter_eq_some_iff, decide_eq_true_eq]

/-- Another arc under an identity is an edge of its own label. -/
theorem edgesOf_putArc_self (G : LiveGraph) (i : Nat) (a : Arc VertexKey EdgeData)
    (hs : (G.vertex a.start).isSome) (he : (G.vertex a.stop).isSome) :
    edgesOf (G.putArc i a hs he) a.data.labelId =
      Function.update (edgesOf G a.data.labelId) i (some a) := by
  funext j
  show (Function.update G.arc i (some a) j).filter _ = _
  by_cases hj : j = i
  · subst hj
    rw [Function.update_self, Function.update_self, Option.filter_some, if_pos (by simp)]
  · rw [Function.update_of_ne hj, Function.update_of_ne hj]
    rfl

/-- It is none of another label, and takes none away that was none. -/
theorem edgesOf_putArc_ne {i : Nat} (hs : (G.vertex a.start).isSome) (he : (G.vertex a.stop).isSome)
    (hl : l ≠ a.data.labelId) (hi : ∀ b, G.arc i = some b → b.data.labelId ≠ l) :
    edgesOf (G.putArc i a hs he) l = edgesOf G l := by
  funext j
  show (Function.update G.arc i (some a) j).filter _ = (G.arc j).filter _
  by_cases hj : j = i
  · subst hj
    rw [Function.update_self, Option.filter_some, if_neg (by simpa using Ne.symm hl)]
    refine (Option.filter_eq_none_iff.mpr fun b hb => ?_).symm
    simpa using hi b hb
  · rw [Function.update_of_ne hj]

theorem edgesOf_dropArc (G : LiveGraph) (i l : Nat) :
    edgesOf (G.dropArc i) l = Function.update (edgesOf G l) i none := by
  funext j
  show (Function.update G.arc i none j).filter _ = _
  by_cases hj : j = i
  · subst hj
    rw [Function.update_self, Function.update_self, Option.filter_none]
  · rw [Function.update_of_ne hj, Function.update_of_ne hj]
    rfl

theorem edgesOf_dropArc_ne {i : Nat} (hi : ∀ b, G.arc i = some b → b.data.labelId ≠ l) :
    edgesOf (G.dropArc i) l = edgesOf G l := by
  rw [edgesOf_dropArc]
  refine Function.update_eq_self_iff.mpr (Eq.symm ?_)
  refine Option.filter_eq_none_iff.mpr fun b hb => ?_
  simpa using hi b hb

/-! ## One graph -/

/-- The entities of a table are its undeleted tuples. -/
theorem TableShows.eq_some_iff (h : TableShows slotOf view tuple slot f) {y : α} :
    f id = some y ↔ ∃ p t, tuple p = some t ∧ t.hdr.id = id ∧ t.hdr.deleter = none ∧ view t = y := by
  constructor
  · intro hy
    obtain ⟨p, t, -, ht, hid, hd, hview⟩ := h.get hy
    exact ⟨p, t, ht, hid, hd, hview⟩
  · rintro ⟨p, t, ht, rfl, hd, rfl⟩
    exact (h.shown p t ht hd).2

theorem TableShows.unique {f' : Nat → Option α} (h : TableShows slotOf view tuple slot f)
    (h' : TableShows slotOf view tuple slot f') : f = f' := by
  funext id
  exact Option.ext fun y => h.eq_some_iff.trans h'.eq_some_iff.symm

/-- **A store represents one graph.** -/
theorem Depicts.unique {st : Store} {V V' : List VertexKey} {A A' : AdjView} {G' : LiveGraph}
    (h : Depicts st V A G) (h' : Depicts st V' A' G') : G = G' := by
  refine PropertyGraph.ext ?_ ?_
  · funext k
    exact congrFun ((h.vertices k.1).unique (h'.vertices k.1)) k.2
  · funext i
    refine Option.ext fun b => ?_
    have hedges := congrFun ((h.edges b.data.labelId).unique (h'.edges b.data.labelId)) i
    rw [← and_iff_left (a := G.arc i = some b) (rfl : b.data.labelId = b.data.labelId),
      ← and_iff_left (a := G'.arc i = some b) (rfl : b.data.labelId = b.data.labelId),
      ← edgesOf_eq_some, ← edgesOf_eq_some, hedges]

end

end NeoPostGraph
