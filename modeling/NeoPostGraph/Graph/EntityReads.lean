import NeoPostGraph.Graph.History
import NeoPostGraph.Graph.InsertRun

/-!
# Are entity reads transactional

What `np_fetch_vertex_properties` and `np_fetch_edge_properties` return after any history, and which
version the next update accepts. The reader is a session with an open transaction or none.

Both functions look at the one version the slot points to, the last one written, and return the empty
object when it is not live. An update moves the slot at once and nothing moves it back. So while the
update runs in another session, and for good once it has aborted, the versions before it are out of
reach.

* `EntityAccess`: the read and the update of one entity, as the two kinds of entity share them.
* `Transactional acc db reader`: the read returns the properties of the version the reader should
  read, and, unless another session has written to the entity and is still open, that version is the
  one a later update by a new transaction supersedes.
* `LatestSeen x own vs`: the last version is one the session sees, or there is none that it sees, or
  the difference cannot be told yet.

Result: `entityReads_iff`, entity reads are transactional exactly when `LatestSeen` holds.
-/

namespace NeoPostGraph

open SlottedPage Versions

variable {μ : Type} {x : XactState} {base l id : Nat} {own : List Nat} {reader : Option Nat}
  {db db' : Db} {z : ItemPointer × EntityTuple μ} {vs front : List (ItemPointer × EntityTuple μ)}

/-! ## What a read should return -/

/-- The reader's transaction commits. -/
def XactState.commitReader (x : XactState) (reader : Option Nat) : XactState :=
  reader.elim x x.commit

/-- Whoever wrote, superseded or deleted a version and is still open is the session itself. -/
def NoOtherOpen (x : XactState) (own : List Nat) (vs : List (ItemPointer × EntityTuple μ)) : Prop :=
  ∀ a ∈ vs, ∀ t, t = a.2.hdr.xmin ∨ a.2.hdr.deleter = some t → x.status t = .inProgress → t ∈ own

/-- The read and the update of one entity. -/
structure EntityAccess (μ : Type) where
  /-- The tuples of its table. -/
  tuple : Store → ItemPointer → Option (EntityTuple μ)
  /-- Where its slot points. -/
  ptr : Store → Option ItemPointer
  /-- Its versions, in the order they were written. -/
  versions : Db → List (ItemPointer × EntityTuple μ)
  fetchProperties : List Nat → Op Gtype
  update : Session → Gtype → Op Unit
  /-- The stored length of a version with these properties. -/
  tupleSize : Gtype → Nat
  /-- The version an update writes over the tuple at a tid. -/
  newVersion : Session → ItemPointer → EntityTuple μ → Gtype → EntityTuple μ

/-- The update supersedes this version: it stamps it, writes a version that points back to it, and
points the slot there. Where there is no version, it fails. -/
def EntityAccess.Supersedes (acc : EntityAccess μ) (db : Db) (s : Session) (props : Gtype) :
    Option (ItemPointer × EntityTuple μ) → Prop
  | none => ∀ db', ¬ (acc.update s props).Runs db () db'
  | some a => ∃ db' tid, (acc.update s props).Runs db () db' ∧
      acc.tuple db'.store a.1 = some (stampTuple s a.2) ∧
      acc.tuple db'.store tid = some (acc.newVersion s a.1 a.2 props) ∧
      acc.ptr db'.store = some tid

/-- **Reads of an entity are transactional.** -/
def Transactional (acc : EntityAccess μ) (db : Db) (reader : Option Nat) : Prop :=
  (acc.fetchProperties reader.toList).Runs db
      (readableProps db.xacts reader.toList (acc.versions db)) db ∧
    (NoOtherOpen db.xacts reader.toList (acc.versions db) →
      ∀ cid props, Fits (acc.tupleSize props) →
        acc.Supersedes { db with xacts := (db.xacts.commitReader reader).begin }
          ⟨(db.xacts.commitReader reader).nextFxid, cid⟩ props
          (readable db.xacts reader.toList (acc.versions db)))

/-- The session sees the writer of the last version, or of no version; or that writer is still open
elsewhere, and the version to be read has the properties of a vertex that is not there. -/
def LatestSeen (x : XactState) (own : List Nat) (vs : List (ItemPointer × EntityTuple μ)) : Prop :=
  ∃ z, vs.getLast? = some z ∧ (x.seen own z.2.hdr.xmin = true ∨
    (∀ a ∈ vs, x.seen own a.2.hdr.xmin = false) ∨
    x.status z.2.hdr.xmin = .inProgress ∧ readableProps x own vs = npEmptyGtypeObject)

/-! ## The reader's transaction ends and another begins -/

/-- Who the reader sees is who a new transaction sees once the reader has committed, but for the
transactions still open elsewhere. -/
theorem seen_begin (hreader : ∀ t ∈ reader, x.Open base t) {t : Nat} (ht : x.Begun base t)
    (hopen : x.status t = .inProgress → t ∈ reader.toList) :
    (x.commitReader reader).begin.seen [(x.commitReader reader).nextFxid] t =
        x.seen reader.toList t ∧
      (x.commitReader reader).begin.status t ≠ .inProgress := by
  have hnext : (x.commitReader reader).nextFxid = x.nextFxid := by cases reader <;> rfl
  have hne : t ≠ x.nextFxid := Nat.ne_of_lt ht.2.1
  have hst : (x.commitReader reader).begin.status t = (x.commitReader reader).status t := by
    show Function.update _ (x.commitReader reader).nextFxid _ t = _
    rw [hnext]
    exact Function.update_of_ne hne ..
  unfold XactState.seen
  rw [hst, hnext]
  cases reader with
  | none =>
    have hc : (x.commitReader none).status t = x.status t := rfl
    have hx : x.status t ≠ .inProgress := fun h => by cases hopen h
    rw [hc]
    exact ⟨by simp [hne], hx⟩
  | some r =>
    by_cases hr : t = r
    · subst hr
      have hc : (x.commitReader (some t)).status t = .committed := Function.update_self ..
      rw [hc]
      exact ⟨by simp, by decide⟩
    · have hc : (x.commitReader (some r)).status t = x.status t := Function.update_of_ne hr ..
      have hx : x.status t ≠ .inProgress := fun h => hr (by simpa using hopen h)
      rw [hc]
      exact ⟨by simp [hne, hr], hx⟩

theorem later_commitReader (reader : Option Nat) :
    XactState.Later base x (x.commitReader reader).begin := by
  refine XactState.Later.trans ?_ (XactState.later_begin base _)
  cases reader with
  | none => exact ⟨Nat.le_refl _, fun _ h => h.2⟩
  | some t => exact XactState.later_commit base t x

/-- **What a new transaction may supersede**, once the reader has committed and no other session has
written to the entity and is still open: what the reader sees and does not see deleted. -/
theorem updatable_begin (hroom : x.nextFxid ≤ base + 2 ^ 31) (hbase : base ≤ x.nextFxid)
    (hnormal : firstNormalTransactionId ≤ xidFromFull x.nextFxid)
    (hreader : ∀ t ∈ reader, x.Open base t) (hhist : VersionHistory x base vs) (hz : z ∈ vs)
    (hopen : NoOtherOpen x reader.toList vs) :
    Updatable (x.commitReader reader).begin [(x.commitReader reader).nextFxid] z.2 ↔
      x.seen reader.toList z.2.hdr.xmin = true ∧
        z.2.hdr.deleter.any (x.seen reader.toList) = false := by
  have hnext : (x.commitReader reader).nextFxid = x.nextFxid := by cases reader <;> rfl
  have hopen₂ : OwnOpen (x.commitReader reader).begin base
      [(x.commitReader reader).nextFxid] := fun o ho => by
    rw [List.mem_singleton.mp ho]
    exact XactState.open_begin (by rw [hnext]; exact hbase) (by rw [hnext]; exact hnormal)
  have hroom₂ : (x.commitReader reader).begin.nextFxid ≤ base + 2 ^ 32 := by
    have hle := fullTransactionIdAdvance_le (x.commitReader reader).nextFxid
    rw [hnext] at hle
    show fullTransactionIdAdvance (x.commitReader reader).nextFxid ≤ _
    rw [hnext]
    omega
  have hhist₂ := hhist.later (later_commitReader reader)
  have hmin := seen_begin hreader (hhist.writer z hz) (hopen z hz _ (Or.inl rfl))
  unfold Updatable
  rw [npEntityTupleIsLive_eq hroom₂ hopen₂ hhist₂ hz, hmin.1,
    npEntityTupleXmaxOther_eq hroom₂ hopen₂ hhist₂ hz]
  cases hd : z.2.hdr.deleter with
  | none => simp
  | some d =>
    have hmax := seen_begin hreader (hhist.deleter z hz d hd) (hopen z hz d (Or.inr hd))
    simp [hmax.1, hmax.2]

/-! ## What a reader reads of a history -/

theorem readable_concat (h : VersionHistory x base (front ++ [z])) :
    readable x own (front ++ [z]) =
      if x.seen own z.2.hdr.xmin then
        (if z.2.hdr.deleter.any (x.seen own) then none else some z)
      else (newest (x.seen own) (front.map toVersion)).map Version.value := by
  have hvis : ∀ t, x.CommittedSince base t → x.seen own t = true := fun t ht => by
    unfold XactState.seen
    rw [ht.2]
    simp
  unfold readable
  rw [List.map_append, List.map_singleton, (linear_last h).current_concat hvis]
  show (if x.seen own z.2.hdr.xmin = true then if z.2.hdr.deleter.any (x.seen own) = true then none
    else some (toVersion z) else _).map _ = _
  split
  · split <;> rfl
  · rfl

/-- A version the session does not see was written by a transaction that aborted or is still open
elsewhere. -/
theorem status_of_unseen {t : Nat} (hs : x.seen own t = false) :
    t ∉ own ∧ x.status t ≠ .committed := by
  unfold XactState.seen at hs
  rw [Bool.or_eq_false_iff, decide_eq_false_iff_not, decide_eq_false_iff_not] at hs
  exact hs

/-- When the writer of the last version has aborted, everyone who wrote to the entity has ended. -/
theorem noOtherOpen_of_aborted (h : VersionHistory x base (front ++ [z]))
    (hz : x.status z.2.hdr.xmin = .aborted) (own : List Nat) : NoOtherOpen x own (front ++ [z]) := by
  have hlin := linear_last h
  have hend : ∀ t, x.CommittedSince base t ∨ t = z.2.hdr.xmin → x.status t ≠ .inProgress := by
    rintro t (hc | rfl)
    · rw [hc.2]
      decide
    · rw [hz]
      decide
  intro a ha t ht hst
  refine absurd hst (hend t ?_)
  rcases List.mem_append.mp ha with ha | ha
  · rcases ht with rfl | hd
    · exact hlin.writer (List.mem_map_of_mem ha)
    · obtain ⟨d, hd', hc⟩ := hlin.deleter (List.mem_map_of_mem ha)
      obtain rfl := Option.some.inj (hd.symm.trans hd')
      exact hc
  · obtain rfl := List.mem_singleton.mp ha
    rcases ht with rfl | hd
    · exact Or.inr rfl
    · rcases hlin.settled (toVersion a) (by simp) t hd with hc | he
      · cases hz.symm.trans hc.2
      · exact Or.inr he

/-! ## Reads and updates go by the slot -/

/-- What the read and the update of an entity do, by its slot. -/
structure EntityAccess.Lawful (acc : EntityAccess μ) : Prop where
  tuple_xacts : ∀ st x, acc.tuple { st with xacts := x } = acc.tuple st
  ptr_xacts : ∀ st x, acc.ptr { st with xacts := x } = acc.ptr st
  fetch : ∀ db own p t, acc.ptr db.store = some p → acc.tuple db.store p = some t →
    (acc.fetchProperties own).Runs db (if npEntityTupleIsLive db.xacts own t.hdr.toRecordHeader then
      t.props else npEmptyGtypeObject) db
  fits : Fits (acc.tupleSize npEmptyGtypeObject)
  update : ∀ db s props p t, acc.ptr db.store = some p → acc.tuple db.store p = some t →
    Fits (acc.tupleSize props) → Updatable db.xacts s.own t →
    acc.Supersedes db s props (some (p, t))
  updatable : ∀ db db' s props p t, acc.ptr db.store = some p → acc.tuple db.store p = some t →
    (acc.update s props).Runs db () db' → Updatable db.xacts s.own t

/-- **Reads of an entity are transactional exactly when the session sees its last version**, as far
as that makes a difference. -/
theorem transactional_iff {acc : EntityAccess μ} (hacc : acc.Lawful)
    (hroom : db.xacts.nextFxid ≤ base + 2 ^ 31) (hbase : base ≤ db.xacts.nextFxid)
    (hnormal : firstNormalTransactionId ≤ xidFromFull db.xacts.nextFxid)
    (hreader : ∀ t ∈ reader, db.xacts.Open base t) (hvs : acc.versions db = front ++ [z])
    (hhist : VersionHistory db.xacts base (front ++ [z])) (hptr : acc.ptr db.store = some z.1)
    (ht : acc.tuple db.store z.1 = some z.2) :
    Transactional acc db reader ↔ LatestSeen db.xacts reader.toList (acc.versions db) := by
  have hown : OwnOpen db.xacts base reader.toList := fun o ho =>
    hreader o (Option.mem_toList.mp ho)
  have hmem : z ∈ front ++ [z] := by simp
  have hlive := npEntityTupleIsLive_eq (by omega) hown hhist hmem
  have hfetch := hacc.fetch db reader.toList z.1 z.2 hptr ht
  have hread : readable db.xacts reader.toList (front ++ [z]) = _ := readable_concat hhist
  have hupd : ∀ cid, NoOtherOpen db.xacts reader.toList (front ++ [z]) →
      (Updatable (db.xacts.commitReader reader).begin
        (Session.own ⟨(db.xacts.commitReader reader).nextFxid, cid⟩) z.2 ↔
      db.xacts.seen reader.toList z.2.hdr.xmin = true ∧
        z.2.hdr.deleter.any (db.xacts.seen reader.toList) = false) := fun cid hopen =>
    updatable_begin hroom hbase hnormal hreader hhist hmem hopen
  have hptr₂ : acc.ptr { db with xacts := (db.xacts.commitReader reader).begin }.store =
      some z.1 := (hacc.ptr_xacts db.store _).trans hptr
  have ht₂ : acc.tuple { db with xacts := (db.xacts.commitReader reader).begin }.store z.1 =
      some z.2 := (congrFun (hacc.tuple_xacts db.store _) z.1).trans ht
  unfold Transactional LatestSeen
  rw [hvs]
  by_cases hz : db.xacts.seen reader.toList z.2.hdr.xmin = true
  · -- the last version is seen: both sides hold
    rw [if_pos hz] at hread
    refine iff_of_true ⟨?_, fun hopen cid props hfits => ?_⟩ ⟨z, by simp, Or.inl hz⟩
    · rw [hlive, hz, Bool.true_and] at hfetch
      unfold readableProps
      rw [hread]
      cases hd : z.2.hdr.deleter.any (db.xacts.seen reader.toList) <;> rw [hd] at hfetch <;>
        exact hfetch
    · rw [hread]
      cases hd : z.2.hdr.deleter.any (db.xacts.seen reader.toList) with
      | false => exact hacc.update _ _ props z.1 z.2 hptr₂ ht₂ hfits ((hupd cid hopen).mpr ⟨hz, hd⟩)
      | true =>
        intro db' hr
        have hup := (hupd cid hopen).mp (hacc.updatable _ _ _ props z.1 z.2 hptr₂ ht₂ hr)
        cases hd.symm.trans hup.2
  · have hz' := Bool.eq_false_iff.mpr hz
    obtain ⟨hown', hst⟩ := status_of_unseen hz'
    rw [if_neg hz] at hread
    rw [hlive, hz', Bool.false_and] at hfetch
    have hfail : ∀ cid props, NoOtherOpen db.xacts reader.toList (front ++ [z]) →
        ∀ db', ¬ (acc.update ⟨(db.xacts.commitReader reader).nextFxid, cid⟩ props).Runs
          { db with xacts := (db.xacts.commitReader reader).begin } () db' :=
      fun cid props hopen db' hr =>
        hz ((hupd cid hopen).mp (hacc.updatable _ _ _ props z.1 z.2 hptr₂ ht₂ hr)).1
    cases hn : newest (db.xacts.seen reader.toList) (front.map toVersion) with
    | none =>
      -- no version is seen: both sides hold
      rw [hn] at hread
      have hall := newest_eq_none.mp hn
      refine iff_of_true ⟨?_, fun hopen cid props _ => ?_⟩ ⟨z, by simp, Or.inr (Or.inl ?_)⟩
      · unfold readableProps
        rw [hread]
        exact hfetch
      · rw [hread]
        exact hfail cid props hopen
      · intro a ha
        rcases List.mem_append.mp ha with ha | ha
        · exact hall _ (List.mem_map_of_mem ha)
        · rwa [List.mem_singleton.mp ha]
    | some v =>
      rw [hn] at hread
      have hv : ¬ ∀ a ∈ front ++ [z], db.xacts.seen reader.toList a.2.hdr.xmin = false := by
        intro hall
        have hnone : newest (db.xacts.seen reader.toList) (front.map toVersion) = none :=
          newest_eq_none.mpr fun w hw => by
            obtain ⟨a, ha, rfl⟩ := List.mem_map.mp hw
            exact hall a (List.mem_append_left _ ha)
        rw [hn] at hnone
        cases hnone
      cases hs : db.xacts.status z.2.hdr.xmin with
      | committed => exact absurd hs hst
      | aborted =>
        -- an earlier version is the one to read and to supersede, and is out of reach
        refine iff_of_false (fun h => ?_) fun h => ?_
        · have hopen := noOtherOpen_of_aborted hhist hs reader.toList
          have hsup := h.2 hopen 0 npEmptyGtypeObject hacc.fits
          rw [hread] at hsup
          obtain ⟨db', tid, hr, -⟩ := hsup
          exact hfail 0 npEmptyGtypeObject hopen db' hr
        · obtain ⟨w, hw, hseen | hall | ⟨hprog, -⟩⟩ := h
          · obtain rfl : z = w := by simpa using hw
            exact hz hseen
          · exact hv hall
          · obtain rfl : z = w := by simpa using hw
            cases hs.symm.trans hprog
      | inProgress =>
        have hopen : ¬ NoOtherOpen db.xacts reader.toList (front ++ [z]) := fun h =>
          hown' (h z hmem _ (Or.inl rfl) hs)
        constructor
        · rintro ⟨hf, -⟩
          exact ⟨z, by simp, Or.inr (Or.inr ⟨hs, (hf.det hfetch).1⟩)⟩
        · rintro ⟨w, hw, hseen | hall | ⟨-, hprops⟩⟩
          · obtain rfl : z = w := by simpa using hw
            exact absurd hseen hz
          · exact absurd hall hv
          · exact ⟨by rw [hprops]; exact hfetch, fun h => absurd h hopen⟩

/-! ## Vertices and edges -/

/-- The versions of a vertex. -/
def Db.vertexVersions (db : Db) (l id : Nat) : List (ItemPointer × EntityTuple Vertex) :=
  match db.vlabels l with
  | none => []
  | some lab => entityVersions lab.vertexTbl id

/-- The versions of an edge. -/
def Db.edgeVersions (db : Db) (l id : Nat) : List (ItemPointer × EntityTuple Edge) :=
  match db.elabels l with
  | none => []
  | some lab => entityVersions lab.vertexTbl id

/-- A vertex, by its label and id. -/
def vertexAccess (l id : Nat) : EntityAccess Vertex where
  tuple st tid := st.vtuple (l, tid)
  ptr st := st.vertexPtr l (entitySlot id)
  versions db := db.vertexVersions l id
  fetchProperties own := npFetchVertexProperties own l id
  update s props := updateVertex s l id props
  tupleSize := totalTupleSize sizeOfVertex
  newVersion s tid t props := newVertexVersion s l id tid t props

/-- An edge, by its label and id. -/
def edgeAccess (u : Unspecified) (l id : Nat) : EntityAccess Edge where
  tuple st tid := st.etuple (l, tid)
  ptr st := st.edgePtr l (edgeSlot id)
  versions db := db.edgeVersions l id
  fetchProperties own := npFetchEdgeProperties own l id
  update s props := updateEdge u s l id props
  tupleSize := totalTupleSize sizeOfEdge
  newVersion s tid t props := newEntityTuple s id tid t.entity props

theorem versionLog_vertexVersions (db : Db) (l id : Nat) :
    VersionLog (fun tid => db.store.vtuple (l, tid)) id (db.vertexVersions l id) := by
  unfold Db.vertexVersions
  cases hlab : db.vlabels l with
  | none =>
    have hnone : (fun tid => db.store.vtuple (l, tid)) = fun _ => none := funext fun tid => by
      simp [Db.store, hlab]
    rw [hnone]
    exact ⟨List.Pairwise.nil, fun a => by simp⟩
  | some lab =>
    have hget : (fun tid => db.store.vtuple (l, tid)) = lab.vertexTbl.get :=
      funext fun tid => store_vtuple hlab tid
    rw [hget]
    exact versionLog_entityVersions _ _

theorem versionLog_edgeVersions (db : Db) (l id : Nat) :
    VersionLog (fun tid => db.store.etuple (l, tid)) id (db.edgeVersions l id) := by
  unfold Db.edgeVersions
  cases hlab : db.elabels l with
  | none =>
    have hnone : (fun tid => db.store.etuple (l, tid)) = fun _ => none := funext fun tid => by
      simp [Db.store, hlab]
    rw [hnone]
    exact ⟨List.Pairwise.nil, fun a => by simp⟩
  | some lab =>
    have hget : (fun tid => db.store.etuple (l, tid)) = lab.vertexTbl.get :=
      funext fun tid => store_etuple hlab tid
    rw [hget]
    exact versionLog_entityVersions _ _

theorem npFetchVertexProperties_runs {p : ItemPointer} {t : EntityTuple Vertex} (hl : l ≠ 0)
    (hptr : db.store.vertexPtr l (entitySlot id) = some p) (ht : db.store.vtuple (l, p) = some t)
    (own : List Nat) :
    (npFetchVertexProperties own l id).Runs db
      (if npEntityTupleIsLive db.xacts own t.hdr.toRecordHeader then t.props
        else npEmptyGtypeObject) db := by
  obtain ⟨lab, hlab⟩ := exists_vlabel_of_vtuple ht
  obtain ⟨rec, hrec, rfl⟩ := Option.map_eq_some_iff.mp hptr
  rw [store_vslot hlab] at hrec
  rw [store_vtuple hlab] at ht
  refine Prog.Runs.bind (a := some rec.vItemptr) (Prog.runs_read_iff.mpr ⟨?_, rfl⟩)
    (runs_readVertexLabel.mpr ⟨lab, hlab, ?_, rfl⟩)
  · have hb : ¬ (l = 0 ∨ lab.physMap.table.nblocks ≤ (entitySlot id).block) := by
      rintro (h0 | hle)
      · exact hl h0
      · exact absurd (nblocks_of_get hrec) (Nat.not_lt.mpr hle)
    simp only [hlab, if_neg hb, hrec, Table.isValid_of_get ht, if_true]
  · rw [readItem_of_get ht]
    rfl

theorem npFetchEdgeProperties_runs {p : ItemPointer} {t : EntityTuple Edge} (hl : l ≠ 0)
    (hptr : db.store.edgePtr l (edgeSlot id) = some p) (ht : db.store.etuple (l, p) = some t)
    (own : List Nat) :
    (npFetchEdgeProperties own l id).Runs db
      (if npEntityTupleIsLive db.xacts own t.hdr.toRecordHeader then t.props
        else npEmptyGtypeObject) db := by
  obtain ⟨lab, hlab⟩ := exists_elabel_of_etuple ht
  obtain ⟨rec, hrec, rfl⟩ := Option.map_eq_some_iff.mp hptr
  rw [store_eslot hlab] at hrec
  rw [store_etuple hlab] at ht
  refine Prog.Runs.bind (a := some rec.eItemptr) (Prog.runs_read_iff.mpr ⟨?_, rfl⟩)
    (runs_readEdgeLabel.mpr ⟨lab, hlab, ?_, rfl⟩)
  · have hb : ¬ (l = 0 ∨ lab.physMap.table.nblocks ≤ (edgeSlot id).block) := by
      rintro (h0 | hle)
      · exact hl h0
      · exact absurd (nblocks_of_get hrec) (Nat.not_lt.mpr hle)
    simp only [hlab, if_neg hb, hrec, Table.isValid_of_get ht, if_true]
  · rw [readItem_of_get ht]
    rfl

theorem vertexAccess_lawful (hl : l ≠ 0) (id : Nat) : (vertexAccess l id).Lawful where
  tuple_xacts _ _ := rfl
  ptr_xacts _ _ := rfl
  fetch db own p t hptr ht := npFetchVertexProperties_runs hl hptr ht own
  fits := (by decide : Fits (totalTupleSize sizeOfVertex npEmptyGtypeObject))
  update db s props p t hptr ht hfits hup := by
    obtain ⟨rec, hrec, rfl⟩ := Option.map_eq_some_iff.mp hptr
    obtain ⟨db', hr⟩ := updateVertex_runs hrec ht hup hfits
    obtain ⟨rec', t', tid, hrec', ht', -, -, hnone, -, -, hst⟩ := updateVertex_inv hr
    obtain rfl := Option.some.inj (hrec.symm.trans hrec')
    obtain rfl := Option.some.inj (ht.symm.trans ht')
    have hne : (l, tid) ≠ (l, rec.vItemptr) := fun he => by
      rw [he] at hnone
      cases ht'.symm.trans hnone
    refine ⟨db', tid, hr, ?_, ?_, ?_⟩
    · show db'.store.vtuple (l, rec.vItemptr) = _
      rw [hst]
      exact Function.update_self ..
    · show db'.store.vtuple (l, tid) = _
      rw [hst]
      exact (Function.update_of_ne hne ..).trans (Function.update_self ..)
    · show (db'.store.vslot (l, entitySlot id)).map _ = _
      rw [hst]
      show (Function.update db.store.vslot (l, entitySlot id) _ _).map _ = _
      rw [Function.update_self]
      rfl
  updatable db db' s props p t hptr ht hr := by
    obtain ⟨rec, t', -, hrec, ht', hup, -⟩ := updateVertex_inv hr
    obtain rfl : rec.vItemptr = p := by
      have hp : (db.store.vslot (l, entitySlot id)).map _ = some p := hptr
      rw [hrec] at hp
      exact Option.some.inj hp
    obtain rfl := Option.some.inj (ht.symm.trans ht')
    exact hup

theorem edgeAccess_lawful (u : Unspecified) (hl : l ≠ 0) (id : Nat) :
    (edgeAccess u l id).Lawful where
  tuple_xacts _ _ := rfl
  ptr_xacts _ _ := rfl
  fetch db own p t hptr ht := npFetchEdgeProperties_runs hl hptr ht own
  fits := (by decide : Fits (totalTupleSize sizeOfEdge npEmptyGtypeObject))
  update db s props p t hptr ht hfits hup := by
    obtain ⟨rec, hrec, rfl⟩ := Option.map_eq_some_iff.mp hptr
    obtain ⟨db', hr⟩ := updateEdge_runs hrec ht hup hfits u
    obtain ⟨rec', t', tid, hrec', ht', -, -, hnone, -, -, hplaced, hst⟩ := updateEdge_inv hr
    obtain rfl := Option.some.inj (hrec.symm.trans hrec')
    obtain rfl := Option.some.inj (ht.symm.trans ht')
    have hne : (l, tid) ≠ (l, rec.eItemptr) := fun he => by
      rw [he] at hnone
      cases ht'.symm.trans hnone
    refine ⟨db', tid, hr, ?_, ?_, ?_⟩
    · show db'.store.etuple (l, rec.eItemptr) = _
      rw [hst]
      exact Function.update_self ..
    · show db'.store.etuple (l, tid) = _
      rw [hst]
      exact (Function.update_of_ne hne ..).trans (Function.update_self ..)
    · show (db'.store.eslot (l, edgeSlot id)).map _ = _
      rw [hplaced.self, if_pos (eslot_offset_le hrec)]
      rfl
  updatable db db' s props p t hptr ht hr := by
    obtain ⟨rec, t', -, hrec, ht', hup, -⟩ := updateEdge_inv hr
    obtain rfl : rec.eItemptr = p := by
      have hp : (db.store.eslot (l, edgeSlot id)).map _ = some p := hptr
      rw [hrec] at hp
      exact Option.some.inj hp
    obtain rfl := Option.some.inj (ht.symm.trans ht')
    exact hup

/-! ## After any history -/

/-- **Entity reads are transactional exactly where the session sees the last version**, in every state
of every history, for every vertex and edge inserted under an id whose slot its page has room for. -/
theorem entityReads_iff {u : Unspecified} (h : History u base db)
    (hreader : ∀ t ∈ reader, db.xacts.Open base t) :
    (∀ l id, (entitySlot id).offset ≤ pageCapacity sizeOfNeoPhysMapRecord →
      db.vertexVersions l id ≠ [] → (Transactional (vertexAccess l id) db reader ↔
        LatestSeen db.xacts reader.toList (db.vertexVersions l id))) ∧
    ∀ l id, (edgeSlot id).offset ≤ pageCapacity sizeOfNeoEdgePhysMapRecord →
      db.edgeVersions l id ≠ [] → (Transactional (edgeAccess u l id) db reader ↔
        LatestSeen db.xacts reader.toList (db.edgeVersions l id)) := by
  have hinv := h.inv
  constructor
  · intro l id hid hne
    obtain ⟨vs, hlog, hhist, hptr⟩ := (hinv.vertex l).log id hid
    have hvs := (versionLog_vertexVersions db l id).unique hlog
    obtain rfl | ⟨front, z, rfl⟩ := List.eq_nil_or_concat' vs
    · exact absurd hvs hne
    have ht := ((hlog.mem z).mp (by simp)).1
    have hl : l ≠ 0 := fun h0 => by
      obtain ⟨lab, hlab⟩ := exists_vlabel_of_vtuple ht
      have hz := hinv.vlabel_zero
      rw [← h0, store_vlabel hlab] at hz
      cases hz
    exact transactional_iff (vertexAccess_lawful hl id) hinv.room hinv.base_le hinv.normal hreader hvs
      hhist (hptr z (by simp)) ht
  · intro l id hid hne
    obtain ⟨vs, hlog, hhist, hptr⟩ := (hinv.edge l).log id hid
    have hvs := (versionLog_edgeVersions db l id).unique hlog
    obtain rfl | ⟨front, z, rfl⟩ := List.eq_nil_or_concat' vs
    · exact absurd hvs hne
    have ht := ((hlog.mem z).mp (by simp)).1
    have hl : l ≠ 0 := fun h0 => by
      obtain ⟨lab, hlab⟩ := exists_elabel_of_etuple ht
      have hz := hinv.elabel_zero
      rw [← h0, store_elabel hlab] at hz
      cases hz
    exact transactional_iff (edgeAccess_lawful u hl id) hinv.room hinv.base_le hinv.normal hreader hvs
      hhist (hptr z (by simp)) ht

/-! ## An update that aborts -/

/-- The properties `{"a": null}`: one pair, the key with its length, the null, the letter. -/
def exampleProps : Gtype := ⟨[1, 0, 0, 0x20, 1, 0, 0, 0x80, 0, 0, 0, 0x40, 0x61]⟩

/-- Transaction 3 inserts vertex 1 with properties and commits; transaction 4 begins. -/
def exampleInserted : Db :=
  let db := ((buildVertexLabelInfrastructure 1).exec (Db.empty ⟨3, fun _ => .aborted⟩)).2.begin
  let op := EntityOp.insertVertex ⟨1, 1, 0⟩ exampleProps
  ((op.perform exampleUnspecified ⟨3, 0⟩ db).commit 3).begin

/-- Transaction 4 updates the vertex and aborts. -/
def exampleAborted : Db :=
  let op := EntityOp.updateVertex 1 1 npEmptyGtypeObject
  (op.perform exampleUnspecified ⟨4, 0⟩ exampleInserted).abort 4

theorem ownVertexSlot_of_entries {lab : VertexLabel} (hlab : db.vlabels l = some lab)
    (h : ∀ a ∈ lab.vertexTbl.entries, entitySlot a.2.hdr.id = entitySlot id → a.2.hdr.id = id) :
    OwnVertexSlot db.store l id := fun tid t ht => by
  rw [store_vtuple hlab] at ht
  exact h (tid, t) (Table.mem_entries.mpr ht)

theorem history_exampleInserted : History exampleUnspecified 3 exampleInserted := by
  have h₀ : History exampleUnspecified 3 _ := History.empty (fun _ => .aborted) (by decide)
  have h₁ := h₀.vertexLabel (l := 1) (by decide) rfl
  have h₂ := h₁.begin (by decide)
  have h₃ := h₂.op (s := ⟨3, 0⟩) (o := .insertVertex ⟨1, 1, 0⟩ exampleProps)
    ⟨⟨by decide, by decide, by decide⟩, rfl⟩ fun tid t ht => by
      cases ht.symm.trans (Table.get_empty tid)
  exact (h₃.commit (t := 3) ⟨⟨by decide, by decide, by decide⟩, rfl⟩).begin (by decide)

theorem history_exampleAborted : History exampleUnspecified 3 exampleAborted := by
  have h := history_exampleInserted.op (s := ⟨4, 0⟩) (o := .updateVertex 1 1 npEmptyGtypeObject)
    ⟨⟨by decide, by decide, by decide⟩, rfl⟩ (ownVertexSlot_of_entries rfl (by decide))
  exact h.abort (t := 4) ⟨⟨by decide, by decide, by decide⟩, rfl⟩

/-- A reader without a transaction, after the abort. -/
theorem entityReads_iff_example :
    (∀ l id, (entitySlot id).offset ≤ pageCapacity sizeOfNeoPhysMapRecord →
      exampleAborted.vertexVersions l id ≠ [] →
      (Transactional (vertexAccess l id) exampleAborted none ↔
        LatestSeen exampleAborted.xacts [] (exampleAborted.vertexVersions l id))) ∧
    ∀ l id, (edgeSlot id).offset ≤ pageCapacity sizeOfNeoEdgePhysMapRecord →
      exampleAborted.edgeVersions l id ≠ [] →
      (Transactional (edgeAccess exampleUnspecified l id) exampleAborted none ↔
        LatestSeen exampleAborted.xacts [] (exampleAborted.edgeVersions l id)) :=
  entityReads_iff history_exampleAborted fun _ ht => by cases ht

/-- The committed version is the one to read and to supersede. After the abort the read returns the
empty object, and the next transaction cannot update the vertex. -/
theorem entityReads_fails :
    History exampleUnspecified 3 exampleAborted ∧
      readableProps exampleAborted.xacts [] (exampleAborted.vertexVersions 1 1) = exampleProps ∧
      (npFetchVertexProperties [] 1 1).Runs exampleAborted npEmptyGtypeObject exampleAborted ∧
      ((updateVertex ⟨5, 0⟩ 1 1 npEmptyGtypeObject).exec exampleAborted.begin).1 =
        .error (.vertexConcurrentlyUpdated 1) ∧
      ¬ Transactional (vertexAccess 1 1) exampleAborted none := by
  have hread : readableProps exampleAborted.xacts [] (exampleAborted.vertexVersions 1 1) =
      exampleProps := rfl
  have hfetch : (npFetchVertexProperties [] 1 1).Runs exampleAborted npEmptyGtypeObject
      exampleAborted := rfl
  refine ⟨history_exampleAborted, hread, hfetch, rfl, fun h => ?_⟩
  have hsame := (h.1.det hfetch).1
  have hne : exampleProps ≠ npEmptyGtypeObject := by decide
  exact hne (hread.symm.trans hsame)

end NeoPostGraph
