import NeoPostGraph.Annotation.Schema
import NeoPostGraph.Graph.EntityReads

/-!
# Two updates of one entity at once

`update_vertex` and `update_edge` take five buffer-locked sections: they read the slot, check that the
tuple it points to is live and nobody else is deleting it, append the new version, point the slot to
it, and stamp the old tuple. The check is not made again when the old tuple is stamped, and nothing is
locked in between. Here two calls of two sessions take their sections in some order, and then each
transaction commits.

* `UpdateSections`: the sections of a call. `entityUpdate` is the one of `update_vertex` or `update_edge`.
* `UpdateAt`, `UpdateTurn`: where a call stands with its locals, and one turn of it.
* `TwoUpdates c turns p db p' db'`: two calls take turns in this order.
* `FirstUpdaterWins`: the two calls have not both superseded one prior version.

Results:
* `updateVertex_eq_prog`, `updateEdge_eq_prog`: taken alone, the sections are the functions.
* `firstUpdaterWins_iff`: when both calls succeed and commit, the first updater has won exactly when
  one of them took its first four turns, up to the one that points the slot, before the other began.
-/

namespace NeoPostGraph

open SlottedPage

/-! ## The sections of a call -/

/-- An update of one entity, by its buffer-locked sections. -/
structure UpdateSections (ρ μ : Type) where
  s : Session
  /-- The version a slot record points to. -/
  prior : ρ → ItemPointer
  readSlot : Op ρ
  check : ρ → Op μ
  append : ρ → μ → Op ItemPointer
  repoint : ρ → μ → ItemPointer → Op Unit
  stamp : ρ → Op Unit

/-- The sections, one after the other. -/
def UpdateSections.prog {ρ μ : Type} (c : UpdateSections ρ μ) : Op Unit := do
  let pmapRec ← c.readSlot
  let old ← c.check pmapRec
  let newTid ← c.append pmapRec old
  c.repoint pmapRec old newTid
  c.stamp pmapRec

/-- The sections of `update_vertex` (`dml_update.c:186-307`). -/
def vertexUpdate (s : Session) (l id : Nat) (newProperties : Gtype) :
    UpdateSections NeoPhysMapRecord (EntityTuple Vertex) where
  s := s
  prior := NeoPhysMapRecord.vItemptr
  readSlot := readVertexLabel l (.labelNotFound l) fun _ lab =>
    readSlot lab.physMap.table (entitySlot id)
  check pmapRec := readVertexLabel l (.labelNotFound l) fun x lab =>
    checkTuple x s.own lab.vertexTbl pmapRec.vItemptr .corruptedPhysMap (.vertexConcurrentlyUpdated id)
  append pmapRec old := writeVertexTuple l
    (newEntityTuple s id pmapRec.vItemptr ⟨id, l, old.entity.dictionaryId⟩ newProperties)
  repoint pmapRec _ newTid :=
    npOverwritePhysmapInPage l (entitySlot id) { pmapRec with vItemptr := newTid }
  stamp pmapRec := stampVertexTuple s l pmapRec.vItemptr

/-- The sections of `update_edge` (`dml_update.c:55-184`). -/
def edgeUpdate (u : Unspecified) (s : Session) (l id : Nat) (newProperties : Gtype) :
    UpdateSections NeoEdgePhysMapRecord (EntityTuple Edge) where
  s := s
  prior := NeoEdgePhysMapRecord.eItemptr
  readSlot := readEdgeLabel l (.edgeLabelNotFound l) fun _ lab =>
    readSlot lab.physMap.table (edgeSlot id)
  check pmapRec := readEdgeLabel l (.edgeLabelNotFound l) fun x lab =>
    checkTuple x s.own lab.vertexTbl pmapRec.eItemptr (.corruptedPhysMapEdge id)
      (.edgeConcurrentlyUpdated id)
  append pmapRec old := writeEdgeTuple l (.edgeLabelNotFound l)
    (newEntityTuple s id pmapRec.eItemptr old.entity newProperties)
  repoint _ old newTid :=
    setEdgeSlot l id (.edgeLabelNotFound l) ⟨newTid, u.stackItemptr old.entity⟩
  stamp pmapRec := stampEdgeTuple s l pmapRec.eItemptr

/-- **The sections, taken alone, are `update_vertex`.** -/
theorem updateVertex_eq_prog (s : Session) (l id : Nat) (newProperties : Gtype) :
    updateVertex s l id newProperties = (vertexUpdate s l id newProperties).prog := rfl

/-- **The sections, taken alone, are `update_edge`.** -/
theorem updateEdge_eq_prog (u : Unspecified) (s : Session) (l id : Nat) (newProperties : Gtype) :
    updateEdge u s l id newProperties = (edgeUpdate u s l id newProperties).prog := rfl

/-- The slot records of a kind. -/
def SlotRecord : LabelKind → Type
  | .vertex => NeoPhysMapRecord
  | .edge => NeoEdgePhysMapRecord

/-- The tuples of a kind. -/
def KindTuple : LabelKind → Type
  | .vertex => EntityTuple Vertex
  | .edge => EntityTuple Edge

/-- The call for an entity of a kind. -/
def entityUpdate (u : Unspecified) (s : Session) (l id : Nat) (newProperties : Gtype) :
    (kind : LabelKind) → UpdateSections (SlotRecord kind) (KindTuple kind)
  | .vertex => vertexUpdate s l id newProperties
  | .edge => edgeUpdate u s l id newProperties

/-! ## Turns -/

/-- Where a call stands, with the locals it still needs. -/
inductive UpdateAt (ρ μ : Type) where
  | start
  | slotRead (pmapRec : ρ)
  | checked (pmapRec : ρ) (old : μ)
  | appended (pmapRec : ρ) (old : μ) (newTid : ItemPointer)
  | repointed (pmapRec : ρ)
  | stamped (pmapRec : ρ)
  | committed (pmapRec : ρ)

/-- The slot record the call has read. -/
def UpdateAt.pmapRec {ρ μ : Type} : UpdateAt ρ μ → Option ρ
  | .start => none
  | .slotRead r | .checked r _ | .appended r _ _ | .repointed r | .stamped r | .committed r => some r

/-- The turns taken. -/
def UpdateAt.stage {ρ μ : Type} : UpdateAt ρ μ → Nat
  | .start => 0
  | .slotRead _ => 1
  | .checked .. => 2
  | .appended .. => 3
  | .repointed _ => 4
  | .stamped _ => 5
  | .committed _ => 6

section

variable {ρ μ : Type}

/-- One turn of a call: its next section, or the commit of its transaction. -/
inductive UpdateTurn (c : UpdateSections ρ μ) : UpdateAt ρ μ → Db → UpdateAt ρ μ → Db → Prop
  | readSlot {db db' : Db} {r : ρ} (h : c.readSlot.Runs db r db') :
      UpdateTurn c .start db (.slotRead r) db'
  | check {db db' : Db} {r : ρ} {old : μ} (h : (c.check r).Runs db old db') :
      UpdateTurn c (.slotRead r) db (.checked r old) db'
  | append {db db' : Db} {r : ρ} {old : μ} {newTid : ItemPointer}
      (h : (c.append r old).Runs db newTid db') :
      UpdateTurn c (.checked r old) db (.appended r old newTid) db'
  | repoint {db db' : Db} {r : ρ} {old : μ} {newTid : ItemPointer}
      (h : (c.repoint r old newTid).Runs db () db') :
      UpdateTurn c (.appended r old newTid) db (.repointed r) db'
  | stamp {db db' : Db} {r : ρ} (h : (c.stamp r).Runs db () db') :
      UpdateTurn c (.repointed r) db (.stamped r) db'
  | commit {db : Db} {r : ρ} :
      UpdateTurn c (.stamped r) db (.committed r) (db.commit c.s.fxid)

/-- The calls `c false` and `c true` take turns in this order. -/
inductive TwoUpdates (c : Bool → UpdateSections ρ μ) :
    List Bool → (Bool → UpdateAt ρ μ) → Db → (Bool → UpdateAt ρ μ) → Db → Prop
  | done (p : Bool → UpdateAt ρ μ) (db : Db) : TwoUpdates c [] p db p db
  | turn {w : Bool} {ws : List Bool} {p p' : Bool → UpdateAt ρ μ} {a : UpdateAt ρ μ}
      {db db₁ db' : Db} (ht : UpdateTurn (c w) (p w) db a db₁)
      (h : TwoUpdates c ws (Function.update p w a) db₁ p' db') : TwoUpdates c (w :: ws) p db p' db'

/-- **Two committed updates have superseded different prior versions.** -/
def FirstUpdaterWins (c : Bool → UpdateSections ρ μ) (r : Bool → ρ) : Prop :=
  (c false).prior (r false) ≠ (c true).prior (r true)

/-- What the sections do to the slot of the entity and to its tuples. -/
structure UpdateSections.Lawful (c : UpdateSections ρ μ) (ptr : Db → Option ItemPointer)
    (present : Db → ItemPointer → Prop) : Prop where
  readSlot : ∀ {db r db'}, c.readSlot.Runs db r db' → db' = db ∧ ptr db = some (c.prior r)
  check : ∀ {r db old db'}, (c.check r).Runs db old db' → db' = db ∧ present db (c.prior r)
  append : ∀ {r old db newTid db'}, (c.append r old).Runs db newTid db' →
    ptr db' = ptr db ∧ ¬ present db newTid
  repoint : ∀ {r old newTid db db'}, (c.repoint r old newTid).Runs db () db' → (ptr db).isSome →
    ptr db' = some newTid
  stamp : ∀ {r db db'}, (c.stamp r).Runs db () db' → ptr db' = ptr db
  commit : ∀ {db fxid}, ptr (Db.commit db fxid) = ptr db

variable {c : Bool → UpdateSections ρ μ} {p p' : Bool → UpdateAt ρ μ} {a : UpdateAt ρ μ} {db db' : Db}
  {w : Bool} {ws : List Bool} {r : ρ} {v : ItemPointer} {ptr : Db → Option ItemPointer}
  {present : Db → ItemPointer → Prop}

/-- The record a call has read stays what it is. -/
theorem UpdateTurn.pmapRec {c : UpdateSections ρ μ} {b : UpdateAt ρ μ} (h : UpdateTurn c a db b db')
    (hr : a.pmapRec = some r) : b.pmapRec = some r := by
  cases h with
  | readSlot h => cases hr
  | _ => exact hr

theorem TwoUpdates.pmapRec (h : TwoUpdates c ws p db p' db') (hr : (p w).pmapRec = some r) :
    (p' w).pmapRec = some r := by
  induction h with
  | done p db => exact hr
  | @turn w' ws p p' a db db₁ db' ht h ih =>
    refine ih ?_
    by_cases hw : w = w'
    · subst hw
      rw [Function.update_self]
      exact ht.pmapRec hr
    · rw [Function.update_of_ne hw]
      exact hr

/-! ## The first to begin -/

/-- Where a call stands that began at version `v`, while the other one has not begun. -/
def Leads (c : UpdateSections ρ μ) (ptr : Db → Option ItemPointer) (present : Db → ItemPointer → Prop)
    (v : ItemPointer) (db : Db) : UpdateAt ρ μ → Prop
  | .start => False
  | .slotRead r => c.prior r = v ∧ ptr db = some v
  | .checked r _ => c.prior r = v ∧ ptr db = some v ∧ present db v
  | .appended r _ newTid => c.prior r = v ∧ ptr db = some v ∧ newTid ≠ v
  | .repointed r | .stamped r | .committed r =>
      c.prior r = v ∧ ∃ newTid, newTid ≠ v ∧ ptr db = some newTid

theorem UpdateTurn.stage {c : UpdateSections ρ μ} {b : UpdateAt ρ μ} (h : UpdateTurn c a db b db') :
    b.stage = a.stage + 1 := by
  cases h <;> rfl

/-- The new version is not the one the call began at: that one was there before. -/
theorem Leads.turn {c : UpdateSections ρ μ} {b : UpdateAt ρ μ} (hc : c.Lawful ptr present)
    (h : Leads c ptr present v db a) (ht : UpdateTurn c a db b db') :
    Leads c ptr present v db' b := by
  cases ht with
  | readSlot hr => exact h.elim
  | check hr =>
    obtain ⟨rfl, hpresent⟩ := hc.check hr
    obtain ⟨hv, hptr⟩ := h
    exact ⟨hv, hptr, by rw [← hv]; exact hpresent⟩
  | append hr =>
    obtain ⟨hsame, hfresh⟩ := hc.append hr
    obtain ⟨hv, hptr, hpresent⟩ := h
    refine ⟨hv, hsame.trans hptr, fun he => hfresh ?_⟩
    rw [he]
    exact hpresent
  | repoint hr =>
    obtain ⟨hv, hptr, hne⟩ := h
    exact ⟨hv, _, hne, hc.repoint hr (by rw [hptr]; rfl)⟩
  | stamp hr =>
    obtain ⟨hv, newTid, hne, hptr⟩ := h
    exact ⟨hv, newTid, hne, (hc.stamp hr).trans hptr⟩
  | commit =>
    obtain ⟨hv, newTid, hne, hptr⟩ := h
    exact ⟨hv, newTid, hne, hc.commit.trans hptr⟩

/-- What the slot points to, by the turns the first call has taken. -/
theorem Leads.moved_iff {c : UpdateSections ρ μ} (h : Leads c ptr present v db a) :
    ptr db ≠ some v ↔ 4 ≤ a.stage := by
  cases a with
  | start => exact h.elim
  | slotRead r => simp [UpdateAt.stage, h.2]
  | checked r old => simp [UpdateAt.stage, h.2.1]
  | appended r old newTid => simp [UpdateAt.stage, h.2.1]
  | repointed r | stamped r | committed r =>
    obtain ⟨-, newTid, hne, hptr⟩ := h
    simp [UpdateAt.stage, hptr, hne]

theorem replicate_prefix_cons {w : Bool} {ws : List Bool} {k : Nat} :
    (4 ≤ k ∨ List.replicate (4 - k) w <+: w :: ws) ↔
      (4 ≤ k + 1 ∨ List.replicate (4 - (k + 1)) w <+: ws) := by
  by_cases hk : 4 ≤ k
  · exact iff_of_true (Or.inl hk) (Or.inl (by omega))
  · have hsucc : 4 - k = (4 - (k + 1)) + 1 := by omega
    rw [or_iff_right hk, hsucc, List.replicate_succ, List.cons_prefix_cons]
    simp only [true_and]
    refine ⟨Or.inr, fun h => h.elim (fun hle => ?_) id⟩
    have hzero : 4 - (k + 1) = 0 := by omega
    rw [hzero]
    exact List.nil_prefix

/-- **The other call finds another version exactly when the first one has pointed the slot before.** -/
theorem TwoUpdates.other_reads (hc : ∀ w, (c w).Lawful ptr present)
    (h : TwoUpdates c ws p db p' db') (hlead : Leads (c w) ptr present v db (p w))
    (hstart : p (!w) = .start) (hr : (p' (!w)).pmapRec = some r) :
    (c (!w)).prior r ≠ v ↔ 4 ≤ (p w).stage ∨ List.replicate (4 - (p w).stage) w <+: ws := by
  induction h with
  | done p db =>
    rw [hstart] at hr
    cases hr
  | @turn w' ws p p' a db db₁ db' ht h ih =>
    by_cases hw : w' = w
    · subst hw
      have hne : (!w') ≠ w' := by simp
      have hturn := hlead.turn (hc w') ht
      rw [replicate_prefix_cons, ← ht.stage]
      have hiff := ih (by rw [Function.update_self]; exact hturn)
        ((Function.update_of_ne hne ..).trans hstart) hr
      rwa [Function.update_self] at hiff
    · -- the other call reads the slot
      obtain rfl : w' = !w := by cases w <;> cases w' <;> simp_all
      rw [hstart] at ht
      cases ht with
      | @readSlot _ _ r₁ hread =>
        obtain ⟨rfl, hptr⟩ := (hc (!w)).readSlot hread
        have hkeep := h.pmapRec (w := !w) (r := r₁) (by rw [Function.update_self]; rfl)
        obtain rfl := Option.some.inj (hkeep.symm.trans hr)
        have hnone : ¬ 4 ≤ (p w).stage → ¬ List.replicate (4 - (p w).stage) w <+: (!w) :: ws := by
          intro hk hpre
          have hsucc : 4 - (p w).stage = (4 - ((p w).stage + 1)) + 1 := by omega
          rw [hsucc, List.replicate_succ, List.cons_prefix_cons] at hpre
          exact absurd hpre.1 (by simp)
        have hv : (c (!w)).prior r₁ ≠ v ↔ ptr db₁ ≠ some v := by simp [hptr]
        rw [hv, Leads.moved_iff hlead]
        exact ⟨Or.inl, fun h => h.elim id fun hpre => by
          by_contra hk
          exact hnone hk hpre⟩

/-- **When both calls succeed and commit, the first updater has won exactly when the first four turns
were those of one call.** -/
theorem firstUpdaterWins_iff_turns (hc : ∀ w, (c w).Lawful ptr present) {turns : List Bool}
    {r : Bool → ρ} (h : TwoUpdates c turns (fun _ => .start) db p' db')
    (hend : ∀ w, p' w = .committed (r w)) :
    FirstUpdaterWins c r ↔ ∃ w, List.replicate 4 w <+: turns := by
  have hrec : ∀ w, (p' w).pmapRec = some (r w) := fun w => by
    rw [hend w]
    rfl
  cases h with
  | done => cases hend false
  | @turn w ws _ _ a _ db₁ _ ht h =>
    cases ht with
    | @readSlot _ _ r₀ hread =>
      obtain ⟨rfl, hptr⟩ := (hc w).readSlot hread
      have hkeep := h.pmapRec (w := w) (r := r₀) (by rw [Function.update_self]; rfl)
      obtain rfl := Option.some.inj (hkeep.symm.trans (hrec w))
      have hne : (!w) ≠ w := by simp
      have hiff := h.other_reads hc (w := w) (v := (c w).prior (r w))
        (by rw [Function.update_self]; exact ⟨rfl, hptr⟩) (Function.update_of_ne hne ..) (hrec !w)
      rw [Function.update_self] at hiff
      have hwins : FirstUpdaterWins c r ↔ (c (!w)).prior (r !w) ≠ (c w).prior (r w) := by
        unfold FirstUpdaterWins
        cases w with
        | false => exact ne_comm
        | true => exact Iff.rfl
      have hfour : ∀ w', List.replicate 4 w' <+: w :: ws ↔ w' = w ∧ List.replicate 3 w' <+: ws :=
        fun w' => by rw [List.replicate_succ, List.cons_prefix_cons]
      rw [hwins, hiff]
      simp only [hfour]
      constructor
      · rintro (hle | hpre)
        · exact absurd (show 4 ≤ 1 from hle) (by decide)
        · exact ⟨w, rfl, hpre⟩
      · rintro ⟨w', rfl, hpre⟩
        exact Or.inr hpre

end

/-! ## Vertices and edges -/

section

variable {u : Unspecified} {s : Session} {l id : Nat} {props : Gtype} {db db' : Db}

theorem stampVertexTuple_vslot {tid : ItemPointer} (h : (stampVertexTuple s l tid).Runs db () db') :
    db'.store.vslot = db.store.vslot := by
  obtain ⟨lab, lab', hlab, hf, -⟩ := runs_onVertexLabel.mp h
  obtain ⟨t, hi, -⟩ := bind_ok hf
  have ht : db.store.vtuple (l, tid) = some t := by
    rw [store_vtuple hlab]
    exact readItem_ok hi
  rw [stampVertexTuple_inv ht h]

theorem stampEdgeTuple_eslot {tid : ItemPointer} (h : (stampEdgeTuple s l tid).Runs db () db') :
    db'.store.eslot = db.store.eslot := by
  obtain ⟨lab, lab', hlab, hf, -⟩ := runs_onEdgeLabel.mp h
  obtain ⟨t, hi, -⟩ := bind_ok hf
  have ht : db.store.etuple (l, tid) = some t := by
    rw [store_etuple hlab]
    exact readItem_ok hi
  rw [stampEdgeTuple_inv ht h]

/-- The slot of an entity, and the tuples it may point to. -/
def KindPtr (l id : Nat) (db : Db) : LabelKind → Option ItemPointer
  | .vertex => (db.store.vslot (l, entitySlot id)).map NeoPhysMapRecord.vItemptr
  | .edge => (db.store.eslot (l, edgeSlot id)).map NeoEdgePhysMapRecord.eItemptr

/-- There is a tuple at the tid. -/
def KindPresent (l : Nat) (db : Db) (tid : ItemPointer) : LabelKind → Prop
  | .vertex => (db.store.vtuple (l, tid)).isSome = true
  | .edge => (db.store.etuple (l, tid)).isSome = true

theorem entityUpdate_lawful (kind : LabelKind) : (entityUpdate u s l id props kind).Lawful
    (fun db => KindPtr l id db kind) (fun db tid => KindPresent l db tid kind) := by
  cases kind with
  | vertex =>
    refine ⟨fun h => ?_, fun h => ?_, fun h => ?_, fun h _ => ?_, fun h => ?_, rfl⟩
    · obtain ⟨rfl, hs⟩ := readVertexSlot_iff.mp h
      refine ⟨rfl, ?_⟩
      unfold KindPtr
      rw [hs]
      rfl
    · obtain ⟨rfl, ht, -⟩ := readVertexTuple_iff.mp h
      refine ⟨rfl, ?_⟩
      exact Option.isSome_iff_exists.mpr ⟨_, ht⟩
    · obtain ⟨-, -, hnone, -, -, hst⟩ := writeVertexTuple_inv h
      unfold KindPtr KindPresent
      rw [hst, hnone]
      exact ⟨rfl, by simp⟩
    · unfold KindPtr
      rw [npOverwritePhysmapInPage_inv h]
      simp
    · unfold KindPtr
      rw [stampVertexTuple_vslot h]
  | edge =>
    refine ⟨fun h => ?_, fun h => ?_, fun h => ?_, fun h hsome => ?_, fun h => ?_, rfl⟩
    · obtain ⟨rfl, hs⟩ := readEdgeSlot_iff.mp h
      refine ⟨rfl, ?_⟩
      unfold KindPtr
      rw [hs]
      rfl
    · obtain ⟨rfl, ht, -⟩ := readEdgeTuple_iff.mp h
      refine ⟨rfl, ?_⟩
      exact Option.isSome_iff_exists.mpr ⟨_, ht⟩
    · obtain ⟨-, -, hnone, -, -, hst⟩ := writeEdgeTuple_inv h
      unfold KindPtr KindPresent
      rw [hst, hnone]
      exact ⟨rfl, by simp⟩
    · obtain ⟨-, hplaced, -⟩ := setEdgeSlot_inv h
      unfold KindPtr at hsome ⊢
      rw [Option.isSome_map] at hsome
      obtain ⟨rec, hrec⟩ := Option.isSome_iff_exists.mp hsome
      dsimp only
      rw [hplaced.self, if_pos (eslot_offset_le hrec)]
      rfl
    · unfold KindPtr
      rw [stampEdgeTuple_eslot h]

end

/-- **First updater wins** for two updates of one vertex or one edge that both succeed and commit,
whatever the order of their turns, exactly when one of them has read the slot, made its check, written
its version and pointed the slot to it before the other one reads the slot. -/
theorem firstUpdaterWins_iff (u : Unspecified) (kind : LabelKind) (l id : Nat) (s : Bool → Session)
    (props : Bool → Gtype) {turns : List Bool} {db db' : Db}
    {p : Bool → UpdateAt (SlotRecord kind) (KindTuple kind)} {r : Bool → SlotRecord kind}
    (h : TwoUpdates (fun w => entityUpdate u (s w) l id (props w) kind) turns (fun _ => .start) db p db')
    (hend : ∀ w, p w = .committed (r w)) :
    FirstUpdaterWins (fun w => entityUpdate u (s w) l id (props w) kind) r ↔
      ∃ w, List.replicate 4 w <+: turns :=
  firstUpdaterWins_iff_turns (fun _ => entityUpdate_lawful kind) h hend

/-! ## Two updates that read the slot before either writes it -/

section

variable {ρ μ : Type}

/-- A step of a call, taken alone. -/
def runResult {α : Type} (q : Op α) (db : Db) : Option (α × Db) :=
  match q.exec db with
  | (.ok a, db') => some (a, db')
  | (.error _, _) => none

/-- The next turn of a call, computed. -/
def nextTurn (c : UpdateSections ρ μ) (a : UpdateAt ρ μ) (db : Db) : Option (UpdateAt ρ μ × Db) :=
  match a with
  | .start => (runResult c.readSlot db).map (Prod.map .slotRead id)
  | .slotRead r => (runResult (c.check r) db).map (Prod.map (.checked r) id)
  | .checked r old => (runResult (c.append r old) db).map (Prod.map (.appended r old) id)
  | .appended r old newTid => (runResult (c.repoint r old newTid) db).map fun x => (.repointed r, x.2)
  | .repointed r => (runResult (c.stamp r) db).map fun x => (.stamped r, x.2)
  | .stamped r => some (.committed r, db.commit c.s.fxid)
  | .committed _ => none

/-- The turns, computed. -/
def runTurns (c : Bool → UpdateSections ρ μ) :
    List Bool → (Bool → UpdateAt ρ μ) → Db → Option ((Bool → UpdateAt ρ μ) × Db)
  | [], p, db => some (p, db)
  | w :: ws, p, db =>
    match nextTurn (c w) (p w) db with
    | some (a, db₁) => runTurns c ws (Function.update p w a) db₁
    | none => none

theorem runs_of_result {α : Type} {q : Op α} {db db' : Db} {a : α}
    (h : runResult q db = some (a, db')) : q.Runs db a db' := by
  unfold runResult at h
  unfold Prog.Runs
  split at h
  · next he =>
    obtain ⟨rfl, rfl⟩ := Prod.mk.inj (Option.some.inj h)
    exact he
  · cases h

theorem updateTurn_of_nextTurn {c : UpdateSections ρ μ} {a b : UpdateAt ρ μ} {db db' : Db}
    (h : nextTurn c a db = some (b, db')) : UpdateTurn c a db b db' := by
  have hstep : ∀ {α : Type} {q : Op α} {f : α → UpdateAt ρ μ},
      (runResult q db).map (fun x => (f x.1, x.2)) = some (b, db') →
      ∃ x, q.Runs db x db' ∧ b = f x := by
    intro α q f hq
    obtain ⟨⟨x, db₁⟩, hx, he⟩ := Option.map_eq_some_iff.mp hq
    obtain ⟨rfl, rfl⟩ := Prod.mk.inj he
    exact ⟨x, runs_of_result hx, rfl⟩
  cases a with
  | start =>
    obtain ⟨r, hr, rfl⟩ := hstep h
    exact .readSlot hr
  | slotRead r =>
    obtain ⟨old, hr, rfl⟩ := hstep h
    exact .check hr
  | checked r old =>
    obtain ⟨newTid, hr, rfl⟩ := hstep h
    exact .append hr
  | appended r old newTid =>
    obtain ⟨_, hr, rfl⟩ := hstep (f := fun _ => .repointed r) h
    exact .repoint hr
  | repointed r =>
    obtain ⟨_, hr, rfl⟩ := hstep (f := fun _ => .stamped r) h
    exact .stamp hr
  | stamped r =>
    obtain ⟨rfl, rfl⟩ := Prod.mk.inj (Option.some.inj h)
    exact .commit
  | committed r => cases h

theorem twoUpdates_of_runTurns {c : Bool → UpdateSections ρ μ} {turns : List Bool}
    {p p' : Bool → UpdateAt ρ μ} {db db' : Db} (h : runTurns c turns p db = some (p', db')) :
    TwoUpdates c turns p db p' db' := by
  induction turns generalizing p db with
  | nil =>
    obtain ⟨rfl, rfl⟩ := Prod.mk.inj (Option.some.inj h)
    exact .done p db
  | cons w ws ih =>
    unfold runTurns at h
    split at h
    · next a db₁ hn => exact .turn (updateTurn_of_nextTurn hn) (ih h)
    · cases h

end

/-- Transactions 4 and 5 update the vertex that transaction 3 has inserted. -/
def exampleUpdates (w : Bool) : UpdateSections NeoPhysMapRecord (EntityTuple Vertex) :=
  entityUpdate exampleUnspecified ⟨if w then 5 else 4, 0⟩ 1 1
    (if w then npEmptyGtypeObject else exampleProps) .vertex

/-- They take turns one by one. -/
def exampleAlternate : List Bool := (List.replicate 6 [false, true]).flatten

/-- Both succeed and commit, and both have superseded the version transaction 3 wrote. -/
theorem exampleAlternate_run : ∃ p db', TwoUpdates exampleUpdates exampleAlternate (fun _ => .start)
    exampleInserted.begin p db' ∧ ∀ w, p w = .committed ⟨⟨0, 1⟩, 0, .invalid, .invalid⟩ := by
  refine ⟨_, _, twoUpdates_of_runTurns rfl, fun w => ?_⟩
  cases w <;> rfl

/-- The order of the example. -/
theorem firstUpdaterWins_iff_example : FirstUpdaterWins exampleUpdates
    (fun _ => ⟨⟨0, 1⟩, 0, .invalid, .invalid⟩) ↔ ∃ w, List.replicate 4 w <+: exampleAlternate := by
  obtain ⟨p, db', hrun, hend⟩ := exampleAlternate_run
  exact firstUpdaterWins_iff exampleUnspecified .vertex 1 1 (fun w => ⟨if w then 5 else 4, 0⟩)
    (fun w => if w then npEmptyGtypeObject else exampleProps) hrun hend

/-- **An update is lost.** Two open transactions update one vertex, both updates succeed against the
same version, and both commit. -/
theorem firstUpdaterWins_fails :
    History exampleUnspecified 3 exampleInserted.begin ∧
      exampleInserted.begin.xacts.Open 3 4 ∧ exampleInserted.begin.xacts.Open 3 5 ∧
      ∃ p db' r, TwoUpdates exampleUpdates exampleAlternate (fun _ => .start) exampleInserted.begin
          p db' ∧ (∀ w, p w = .committed (r w)) ∧ ¬ FirstUpdaterWins exampleUpdates r := by
  obtain ⟨p, db', hrun, hend⟩ := exampleAlternate_run
  refine ⟨history_exampleInserted.begin (by decide), ⟨⟨by decide, by decide, by decide⟩, rfl⟩,
    ⟨⟨by decide, by decide, by decide⟩, rfl⟩, p, db', _, hrun, hend, fun h => h rfl⟩

end NeoPostGraph
