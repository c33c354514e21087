import NeoPostGraph.Graph.EdgeRefine

/-!
# The operations on vertices, on the graph

Inserting, updating and deleting a vertex, as operations on the property graph in the store.

* `NoBlocks st v`: the chain of `v` is not compacted, so that `delete_vertex` can read it.
* `Deletable G v detach`: what a delete asks of the edges of `v`.

Results:
* `Refines.insertVertex`, `Refines.updateVertex`, `Refines.deleteVertex`: each succeeds and does that.
* `Refines.updateVertex_refused`, `Refines.deleteVertex_refused`: where there is no such vertex, or it
  may not be deleted, each fails.
* `EndsShow.nodup_iff`: the list of a vertex names an edge twice just when it is a loop, which is why
  a vertex with a loop cannot be deleted.
-/

namespace NeoPostGraph

open SlottedPage LinkedChain

section

variable {base l id : Nat} {V : List VertexKey} {A : AdjView} {G : LiveGraph} {s : Session}
  {db db' : Db} {tx : Option Nat} {st st' : Store} {k v : VertexKey} {d : VertexData}

/-! ## What is there -/

/-- The tuple of a vertex, which its slot points to. -/
theorem Refines.vertex_get (h : Refines base tx st V A G) (hk : G.vertex (l, id) = some d) :
    ∃ rec t, st.vslot (l, entitySlot id) = some rec ∧ st.vtuple (l, rec.vItemptr) = some t ∧
      t.hdr.id = id ∧ t.hdr.deleter = none ∧ vertexData t = d := by
  obtain ⟨p, t, hslot, ht, hid, hd, hview⟩ := (h.depicts.vertices l).get hk
  obtain ⟨rec, hrec, rfl⟩ := Option.map_eq_some_iff.mp hslot
  exact ⟨rec, t, hrec, ht, hid, hd, hview⟩

theorem Refines.vertexUpdatable (h : Refines base (some s.fxid) st V A G)
    (hs : st.xacts.Open base s.fxid) {tid : ItemPointer} {t : EntityTuple Vertex}
    (ht : st.vtuple (l, tid) = some t) : Updatable st.xacts s.own t ↔ t.hdr.deleter = none :=
  h.serial.updatable_iff hs h.inv.room_le ((h.inv.vertex l).header _ t ht)

/-- An id that has a tuple has a slot of its own. -/
theorem GraphInv.ownVertexSlot (h : GraphInv base V st) {tid : ItemPointer} {t : EntityTuple Vertex}
    (ht : st.vtuple (l, tid) = some t) : OwnVertexSlot st l t.hdr.id :=
  fun q v hv hslot => (h.vertex l).apart q v tid t hv ht hslot

/-- Where there is no vertex, no tuple of the slot may be superseded. -/
theorem Refines.vertex_not_updatable (h : Refines base (some s.fxid) st V A G)
    (hs : st.xacts.Open base s.fxid) (hown : OwnVertexSlot st l id) (hno : G.vertex (l, id) = none)
    {p : ItemPointer} {t : EntityTuple Vertex} (hslot : st.vertexPtr l (entitySlot id) = some p)
    (ht : st.vtuple (l, p) = some t) : ¬ Updatable st.xacts s.own t := by
  intro hup
  have hid := (h.inv.vertex l).id_of_slot hslot ht hown
  have hshown := ((h.depicts.vertices l).shown _ t ht ((h.vertexUpdatable hs ht).mp hup)).2
  rw [hid] at hshown
  rw [hno] at hshown
  cases hshown

/-- An isolated vertex has no ends. -/
theorem endsShow_nil (h : G.Isolated v) : EndsShow G v [] := by
  refine ⟨List.nodup_nil, fun x => ⟨nofun, ?_⟩⟩
  rintro ⟨a, ha, -, ⟨-, hv, -⟩ | ⟨-, hv, -⟩⟩
  · exact absurd (Or.inl hv) (h _ a ha)
  · exact absurd (Or.inr hv) (h _ a ha)

/-- New data for a vertex moves no end. -/
theorem hasEnd_putVertex (G : LiveGraph) (k : VertexKey) (d : VertexData) (v : VertexKey)
    (x : EdgeEnd) : HasEnd (G.putVertex k d) v x ↔ HasEnd G v x := Iff.rfl

/-- The keys of a label, when something changes at one of them. -/
theorem update_key_self {β : Type} (f : VertexKey → β) (l id : Nat) (y : β) :
    (fun i => Function.update f (l, id) y (l, i)) = Function.update (fun i => f (l, i)) id y := by
  funext i
  by_cases hi : i = id
  · subst hi
    rw [Function.update_self, Function.update_self]
  · rw [Function.update_of_ne hi, Function.update_of_ne fun he => hi (Prod.mk.inj he).2]

theorem update_key_ne {β : Type} (f : VertexKey → β) {l l' : Nat} (id : Nat) (y : β) (hl : l' ≠ l) :
    (fun i => Function.update f (l, id) y (l', i)) = fun i => f (l', i) :=
  funext fun _ => Function.update_of_ne (fun he => hl (Prod.mk.inj he).1) ..

/-- The vertices of a label, when one gets data. -/
theorem vertex_putVertex_self (G : LiveGraph) (l id : Nat) (d : VertexData) :
    (fun i => (G.putVertex (l, id) d).vertex (l, i)) =
      Function.update (fun i => G.vertex (l, i)) id (some d) := update_key_self G.vertex l id _

theorem vertex_putVertex_ne (G : LiveGraph) {l l' : Nat} (id : Nat) (d : VertexData) (hl : l' ≠ l) :
    (fun i => (G.putVertex (l, id) d).vertex (l', i)) = fun i => G.vertex (l', i) :=
  update_key_ne G.vertex id _ hl

/-- The vertices of a label, when one is taken away. -/
theorem vertex_dropVertex_self (G : LiveGraph) (h : G.Isolated (l, id)) :
    (fun i => (G.dropVertex (l, id) h).vertex (l, i)) =
      Function.update (fun i => G.vertex (l, i)) id none := update_key_self G.vertex l id _

theorem vertex_dropVertex_ne (G : LiveGraph) {l l' : Nat} (h : G.Isolated (l, id)) (hl : l' ≠ l) :
    (fun i => (G.dropVertex (l, id) h).vertex (l', i)) = fun i => G.vertex (l', i) :=
  update_key_ne G.vertex id _ hl

/-! ## Inserting -/

/-- A vertex that is fresh is not in the graph. -/
theorem Refines.not_vertex_of_fresh (h : Refines base tx st V A G) (hfresh : FreshVertex st l id) :
    G.vertex (l, id) = none := by
  cases hk : G.vertex (l, id) with
  | none => rfl
  | some d =>
    obtain ⟨rec, t, -, ht, hid, -⟩ := h.vertex_get hk
    exact absurd rfl (hfresh.2 (l, id) ⟨_, t, ht, hid⟩ rfl)

/-- The slots of another label are padded at most. -/
theorem vertexPtr_placed_ne {tid : ItemPointer} {capacity : Nat} {l' : Nat}
    {vslot : Nat × ItemPointer → Option NeoPhysMapRecord} {pad rec : NeoPhysMapRecord}
    (hplaced : Placed st.vslot vslot l tid capacity pad rec) (hvs : st'.vslot = vslot) {k : ItemPointer}
    (hk : (l', k) ≠ (l, tid)) {p : ItemPointer} (hp : st.vertexPtr l' k = some p) :
    st'.vertexPtr l' k = some p := by
  obtain ⟨rec', hrec', rfl⟩ := Option.map_eq_some_iff.mp hp
  unfold Store.vertexPtr
  rw [hvs, hplaced.old hk hrec']
  rfl

/-- **An insert of a vertex** under a fresh id puts it in. -/
theorem Refines.insertVertex {v : Vertex} {props : Gtype}
    (h : Refines base (some s.fxid) db.store V A G) (hs : db.store.xacts.Open base s.fxid)
    (hl : (db.store.vlabel v.labelId).isSome) (hfits : Fits (totalTupleSize sizeOfVertex props))
    (hfresh : FreshVertex db.store v.labelId v.id) :
    ∃ db', (NeoPostGraph.insertVertex s v props).Runs db () db' ∧
      Refines base (some s.fxid) db'.store (v.key :: V) (Function.update A v.key [])
        (G.putVertex v.key ⟨v.dictionaryId, props⟩) ∧
      db'.store.xacts = db.store.xacts := by
  have hnone : G.vertex v.key = none := h.not_vertex_of_fresh hfresh
  obtain ⟨tid₁, db₁, h₁⟩ := writeVertexTuple_runs hl
    (show Fits (totalTupleSize sizeOfVertex (newEntityTuple s v.id .invalid v props).props) from hfits)
  obtain ⟨-, -, -, -, -, hst₁⟩ := writeVertexTuple_inv h₁
  have hl₁ : (db₁.store.vlabel v.labelId).isSome := by
    rw [hst₁]
    exact hl
  obtain ⟨db', h₂⟩ := placeVertexSlot_runs hl₁ v.id ⟨tid₁, 0, .invalid, .invalid⟩
  have hr : (NeoPostGraph.insertVertex s v props).Runs db () db' := h₁.bind h₂
  have hinv := h.inv.insertVertex hs.1 hfresh hr
  have hshows := h.depicts.shows.insertVertex hfresh.1
    (fun w hw hwl => hfresh.2 w ((h.inv.mem w).mp hw) hwl) hr
  obtain ⟨tid, -, hfree, -, -, hplaced, hst⟩ := npInternalInsertVertex_inv hr
  have hx : db'.store.xacts = db.store.xacts := by rw [hst]
  have hvt : db'.store.vtuple = Function.update db.store.vtuple (v.labelId, tid)
      (some (newEntityTuple s v.id .invalid v props)) := by rw [hst]
  refine ⟨db', hr, ⟨hinv, by rw [hx]; exact h.serial, fun l => ?_, fun l => ?_, hshows,
    fun w hw => ?_⟩, hx⟩
  · rw [hvt]
    by_cases hvl : l = v.labelId
    · subst hvl
      rw [update_label_self, show v.key = (v.labelId, v.id) from rfl, vertex_putVertex_self]
      refine (h.depicts.vertices v.labelId).write (t := newEntityTuple s v.id .invalid v props) hfree
        rfl hnone (fun q u hu hslot => ?_) ?_ fun j q hj hq => ?_
      · have hag := h.inv.layout.agree _ ((h.inv.mem (v.labelId, u.hdr.id)).mpr ⟨q, u, hu, rfl⟩)
        exact absurd (hag.trans (hslot.trans hfresh.1.symm)) (hfresh.2 _ ⟨q, u, hu, rfl⟩ rfl)
      · show db'.store.vertexPtr v.labelId (entitySlot v.id) = _
        unfold Store.vertexPtr
        rw [hplaced.self, if_pos (offset_le_of_agree hfresh.1)]
        rfl
      · exact vertexPtr_placed_ne hplaced rfl (fun he => hj (Prod.mk.inj he).2) hq
    · rw [update_label_ne _ hvl, show v.key = (v.labelId, v.id) from rfl,
        vertex_putVertex_ne G v.id _ hvl]
      exact (h.depicts.vertices l).repoint fun i p _ hp =>
        vertexPtr_placed_ne hplaced rfl (fun he => hvl (Prod.mk.inj he).1) hp
  · rw [show db'.store.etuple = db.store.etuple by rw [hst],
      show db'.store.edgePtr l = db.store.edgePtr l by unfold Store.edgePtr; rw [hst]]
    exact h.depicts.edges l
  · by_cases hwv : w = v.key
    · subst hwv
      rw [Function.update_self]
      exact endsShow_nil (G := G.putVertex v.key ⟨v.dictionaryId, props⟩)
        (G.isolated_of_none hnone)
    · rw [Function.update_of_ne hwv]
      exact (h.depicts.ends w ((List.mem_cons.mp hw).resolve_left hwv)).congr
        (hasEnd_putVertex G v.key _ w)

/-! ## Updating -/

/-- Writes to slots that keep their heads keep the lists. -/
theorem Shows.heads (h : Shows st V A) (hl : GraphLayout st' V) (hs : SameHeads st st')
    (hn : st'.node = st.node) : Shows st' V A := by
  refine ⟨hl, fun v hv => ?_⟩
  obtain ⟨p, hp, hms⟩ := h.holds v hv
  refine ⟨p, ?_, hms⟩
  unfold Store.Path at hp ⊢
  rw [hs.head, hn]
  exact hp

/-- A new version of a vertex that is there is no new vertex. -/
theorem hasVertex_of_version {p tid : ItemPointer} {t u : EntityTuple Vertex}
    (ht : st.vtuple (l, p) = some t) (hid : u.hdr.id = t.hdr.id)
    (hvt : st'.vtuple = Function.update (Function.update st.vtuple (l, tid) (some u)) (l, p)
      (some (stampTuple s t))) (hk : st'.HasVertex k) : st.HasVertex k := by
  obtain ⟨q, w, hw, hkw⟩ := hk
  rw [hvt, Function.update_apply, Function.update_apply] at hw
  split at hw
  · next he =>
    obtain rfl := Option.some.inj hw
    exact ⟨p, t, by rw [(Prod.mk.inj he).1]; exact ht, hkw⟩
  · split at hw
    · next he =>
      obtain rfl := Option.some.inj hw
      exact ⟨p, t, by rw [(Prod.mk.inj he).1]; exact ht, hid.symm.trans hkw⟩
    · exact ⟨q, w, hw, hkw⟩

/-- **An update of a vertex** sets its properties. -/
theorem Refines.updateVertex (h : Refines base (some s.fxid) db.store V A G)
    (hs : db.store.xacts.Open base s.fxid) (hk : G.vertex (l, id) = some d) {props : Gtype}
    (hfits : Fits (totalTupleSize sizeOfVertex props)) :
    ∃ db', (NeoPostGraph.updateVertex s l id props).Runs db () db' ∧
      Refines base (some s.fxid) db'.store V A (G.putVertex (l, id) ⟨d.dictionaryId, props⟩) ∧
      db'.store.xacts = db.store.xacts := by
  obtain ⟨rec, t, hrec, ht, rfl, hd, rfl⟩ := h.vertex_get hk
  have hup := (h.vertexUpdatable hs ht).mpr hd
  have hown := h.inv.ownVertexSlot ht
  obtain ⟨db', hr⟩ := updateVertex_runs hrec ht hup hfits
  obtain ⟨rec', t', tid, hrec', ht', -, -, hnone, -, -, hst⟩ := updateVertex_inv hr
  obtain rfl := Option.some.inj (hrec.symm.trans hrec')
  obtain rfl := Option.some.inj (ht.symm.trans ht')
  have hx : db'.store.xacts = db.store.xacts := by rw [hst]
  have hvt : db'.store.vtuple = Function.update (Function.update db.store.vtuple (l, tid)
      (some (newVertexVersion s l t.hdr.id rec.vItemptr t props)))
      (l, rec.vItemptr) (some (stampTuple s t)) := by rw [hst]
  have hinv : GraphInv base V db'.store := by
    obtain ⟨V', hsub, hinv', -⟩ := h.inv.updateVertex_exec hs hown props
    rw [hr] at hinv'
    exact hinv'.of_mem fun k => ⟨hsub k, fun hk' => (h.inv.mem k).mpr (hasVertex_of_version
      (u := newVertexVersion s l t.hdr.id rec.vItemptr t props) ht rfl hvt ((hinv'.mem k).mp hk'))⟩
  have hvs : db'.store.vslot = Function.update db.store.vslot (l, entitySlot t.hdr.id)
      (some { rec with vItemptr := tid }) := by rw [hst]
  have hheads : SameHeads db.store db'.store := sameHeads_update hrec (by rfl) (by rfl) hvs
  refine ⟨db', hr, ⟨hinv, by rw [hx]; exact h.serial, fun l' => ?_, fun l' => ?_,
    h.depicts.shows.heads hinv.layout hheads (by rw [hst]), fun v hv => (h.depicts.ends v hv).congr
      (hasEnd_putVertex G (l, t.hdr.id) _ v)⟩, hx⟩
  · rw [hvt]
    by_cases hl : l' = l
    · subst hl
      rw [update_label_self, update_label_self, vertex_putVertex_self]
      refine (h.depicts.vertices l').supersede
        (t := newVertexVersion s l' t.hdr.id rec.vItemptr t props) hs.1.valid ht hd hnone rfl rfl
        hown ?_ fun j q hj hq => ?_
      · show db'.store.vertexPtr _ _ = _
        unfold Store.vertexPtr
        rw [hst]
        show (Function.update db.store.vslot _ _ _).map _ = _
        rw [Function.update_self]
        rfl
      · change db.store.vertexPtr l' j = some q at hq
        show db'.store.vertexPtr l' j = some q
        unfold Store.vertexPtr at hq ⊢
        rw [hst]
        exact (congrArg (Option.map _)
          (Function.update_of_ne (fun he => hj (Prod.mk.inj he).2) ..)).trans hq
    · rw [update_label_ne _ hl, update_label_ne _ hl, vertex_putVertex_ne G _ _ hl]
      refine (h.depicts.vertices l').repoint fun i p _ hp => ?_
      unfold Store.vertexPtr at hp ⊢
      rw [hst]
      exact (congrArg (Option.map _)
        (Function.update_of_ne (fun he => hl (Prod.mk.inj he).1) ..)).trans hp
  · rw [show db'.store.etuple = db.store.etuple by rw [hst],
      show db'.store.edgePtr l' = db.store.edgePtr l' by unfold Store.edgePtr; rw [hst]]
    exact h.depicts.edges l'

/-- **An update of a vertex that is not there fails**, and changes nothing; so does one whose new
properties do not fit on a page. -/
theorem Refines.updateVertex_refused (h : Refines base (some s.fxid) db.store V A G)
    (hs : db.store.xacts.Open base s.fxid) (hown : OwnVertexSlot db.store l id) {props : Gtype}
    (hno : G.vertex (l, id) = none ∨ ¬ Fits (totalTupleSize sizeOfVertex props)) :
    ∃ er, (NeoPostGraph.updateVertex s l id props).exec db = (.error er, db) := by
  have hrun : ¬ ∃ db', (NeoPostGraph.updateVertex s l id props).Runs db () db' := by
    rintro ⟨db', hr⟩
    obtain ⟨rec, t, tid, hrec, ht, hup, hfits, -⟩ := updateVertex_inv hr
    have hslot := congrArg (Option.map NeoPhysMapRecord.vItemptr) hrec
    exact hno.elim (fun hno => h.vertex_not_updatable hs hown hno hslot ht hup) fun hno => hno hfits
  have hdb := updateVertex_error hrun
  rcases hr : (NeoPostGraph.updateVertex s l id props).exec db with ⟨er | w, db'⟩
  · rw [hr] at hdb
    obtain rfl : db' = db := hdb
    exact ⟨er, rfl⟩
  · exact absurd ⟨db', hr⟩ hrun

/-! ## Deleting -/

/-- The chain of the vertex has no array block. -/
def NoBlocks (st : Store) (v : VertexKey) : Prop :=
  ∀ p, st.Path v p → ∀ x ∈ p, x.2.isLinked = true

/-- The edge an end is of, as `delete_vertex` collects it. -/
def EdgeEnd.key (x : EdgeEnd) : Nat × Nat := (x.edgeId, x.labelId)

/-- A vertex may be deleted: its edges go with it, and none is a loop, or it has none. -/
def Deletable (G : LiveGraph) (v : VertexKey) (detach : Bool) : Prop :=
  detach = true ∧ G.Loopless v ∨ G.Isolated v

/-- On records, the walk of `delete_vertex` takes the undeleted members. -/
theorem flatMap_collectedAt {p : NodePath} (h : ∀ x ∈ p, x.2.isLinked = true) (u : Unspecified) :
    p.flatMap (fun x => collectedAt u x.2) = p.members.filter AdjListMember.undeleted := by
  unfold NodePath.members
  rw [List.filter_flatMap]
  refine List.flatMap_congr fun x hx => ?_
  obtain ⟨a, n⟩ := x
  cases n with
  | linked rec => rfl
  | block rec => cases h _ hx

/-- **The walk of `delete_vertex`** finds the open ends of the vertex, and without `detach` there may be
none. -/
theorem Shows.collectWalk_exec (h : Shows db.store V A) (hv : (l, id) ∈ V)
    (hno : NoBlocks db.store (l, id)) {info : LabelInfo} (hl : db.store.vlabel l = some info)
    {rec : NeoPhysMapRecord} (hrec : db.store.vslot (l, headSlot id) = some rec) (u : Unspecified)
    (detach : Bool) :
    ∃ n, ∀ fuel, n ≤ fuel →
      (collectWalk u info.arraylist detach id fuel rec.eTblId rec.eItemptr []).exec db =
        (if detach = false ∧ openEnds (A (l, id)) ≠ [] then .error (.activeEdges id)
          else .ok ((openEnds (A (l, id))).map EdgeEnd.key), db) := by
  obtain ⟨p, hp, hms⟩ := h.holds (l, id) hv
  have hlinked := hno p hp
  have hhead : db.store.head l id = cursor rec.eTblId rec.eItemptr := by
    unfold Store.head
    rw [hrec]
    rfl
  have hseg : Seg db.store.node AdjNode.next (cursor rec.eTblId rec.eItemptr) p none := by
    rw [← hhead]
    exact hp
  have hrecs : ∀ x ∈ p, CollectReads u info.arraylist x := by
    intro x hx
    have hn := hp.get hx
    have hfmt := (h.layout.catalog.arraylist l info hl).1
    obtain ⟨⟨o, tid⟩, n⟩ := x
    cases n with
    | block rec => cases hlinked _ hx
    | linked rec =>
      intro he
      obtain ⟨t, ht, -⟩ := rel_of_linked hn
      obtain rfl : o = info.arraylist := he
      change (db.rels info.arraylist).map AdjRelation.format = _ at hfmt
      rw [ht] at hfmt
      cases hfmt
  have hcollected : (p.flatMap fun x => collectedAt u x.2).map AdjListMember.edgeKey =
      (openEnds (A (l, id))).map EdgeEnd.key := by
    rw [flatMap_collectedAt hlinked, hms]
    unfold openEnds
    rw [List.map_map]
    rfl
  have hnil : p.flatMap (fun x => collectedAt u x.2) = [] ↔ openEnds (A (l, id)) = [] := by
    rw [← List.map_eq_nil_iff (f := AdjListMember.edgeKey), hcollected, List.map_eq_nil_iff]
  refine ⟨p.length + 1, fun fuel hfuel => ?_⟩
  obtain ⟨k, rfl⟩ := Nat.exists_eq_add_of_le hfuel
  rw [show p.length + 1 + k = p.length + (k + 1) by omega]
  cases detach with
  | true =>
    obtain ⟨tbl, tid, hcur, hwalk⟩ := @collectWalk_detach db u _ _ _ id [] p none hseg hrecs
      fun _ x hx hb => by
        rw [hlinked x hx] at hb
        cases hb
    rw [hwalk, collectWalk_end hcur, List.nil_append, hcollected, if_neg (by simp)]
  | false =>
    obtain ⟨tbl, tid, hcur, hwalk⟩ := @collectWalk_check db u _ _ _ id [] p none hseg hrecs
    rw [hwalk, collectWalk_end hcur]
    by_cases he : openEnds (A (l, id)) = []
    · rw [if_pos (hnil.mpr he), if_neg (by simp [he]), he]
      rfl
    · rw [if_neg fun hc => he (hnil.mp hc), if_pos ⟨rfl, he⟩]

/-- **Deleting edges of the graph**, each once, takes them away. -/
theorem Refines.deleteCollected {es : List (Nat × Nat)}
    (h : Refines base (some s.fxid) db.store V A G) (hs : db.store.xacts.Open base s.fxid)
    (hnodup : (es.map Prod.fst).Nodup)
    (hlive : ∀ e ∈ es, ∃ a, G.arc e.1 = some a ∧ a.data.labelId = e.2) :
    ∃ db' n A', Refines base (some s.fxid) db'.store V A' (G.dropArcs (es.map Prod.fst)) ∧
      SameVertices db.store db'.store ∧
      ∀ fuel, n ≤ fuel → (NeoPostGraph.deleteCollected fuel s es).Runs db () db' := by
  induction es generalizing db A G with
  | nil =>
    exact ⟨db, 0, A, h, ⟨rfl, rfl, fun _ _ => rfl⟩, fun fuel _ => Prog.runs_ret_iff.mpr ⟨rfl, rfl⟩⟩
  | cons e es ih =>
    obtain ⟨hnot, hnodup⟩ := List.nodup_cons.mp hnodup
    obtain ⟨a, ha, hl⟩ := hlive e List.mem_cons_self
    obtain ⟨db₁, n₁, e', -, -, h₁, hsv₁, -, -, hr₁⟩ := h.deleteEdge hs ha
    have hs₁ : db₁.store.xacts.Open base s.fxid := by
      rw [hsv₁.xacts]
      exact hs
    have hlive₁ : ∀ e' ∈ es, ∃ a, (G.dropArc e.1).arc e'.1 = some a ∧ a.data.labelId = e'.2 := by
      intro e' he'
      obtain ⟨a', ha', hl'⟩ := hlive e' (List.mem_cons_of_mem _ he')
      refine ⟨a', (Function.update_of_ne (fun he => hnot ?_) ..).trans ha', hl'⟩
      rw [← he]
      exact List.mem_map_of_mem he'
    obtain ⟨db₂, n₂, A₂, h₂, hsv₂, hr₂⟩ := ih h₁ hs₁ hnodup hlive₁
    refine ⟨db₂, max n₁ n₂, A₂, h₂, hsv₁.trans hsv₂, fun fuel hfuel => ?_⟩
    obtain ⟨hle₁, hle₂⟩ := Nat.max_le.mp hfuel
    rw [hl] at hr₁
    exact (hr₁ fuel hle₁).bind (hr₂ fuel hle₂)

/-- **Deleting an edge that is not there, or one edge twice, fails.** -/
theorem Refines.deleteCollected_refused {es : List (Nat × Nat)}
    (h : Refines base (some s.fxid) db.store V A G) (hs : db.store.xacts.Open base s.fxid)
    (hown : ∀ e ∈ es, OwnEdgeSlot db.store e.2 e.1)
    (hbad : ¬ ((es.map Prod.fst).Nodup ∧
      ∀ e ∈ es, ∃ a, G.arc e.1 = some a ∧ a.data.labelId = e.2)) :
    ∃ n er, ∀ fuel, n ≤ fuel →
      ((NeoPostGraph.deleteCollected fuel s es).exec db).1 = .error er := by
  induction es generalizing db A G with
  | nil => exact absurd ⟨List.nodup_nil, fun e he => by cases he⟩ hbad
  | cons e es ih =>
    by_cases hlive : ∃ a, G.arc e.1 = some a ∧ a.data.labelId = e.2
    · obtain ⟨a, ha, hl⟩ := hlive
      obtain ⟨db₁, n₁, e', -, -, h₁, hsv₁, -, hids₁, hr₁⟩ := h.deleteEdge hs ha
      have hs₁ : db₁.store.xacts.Open base s.fxid := by
        rw [hsv₁.xacts]
        exact hs
      have hbad₁ : ¬ ((es.map Prod.fst).Nodup ∧
          ∀ e' ∈ es, ∃ a, (G.dropArc e.1).arc e'.1 = some a ∧ a.data.labelId = e'.2) := by
        rintro ⟨hnodup, hrest⟩
        refine hbad ⟨List.nodup_cons.mpr ⟨fun hmem => ?_, hnodup⟩, fun e' he' => ?_⟩
        · -- an edge that is deleted again is not there any more
          obtain ⟨e', he', heq⟩ := List.mem_map.mp hmem
          obtain ⟨a', ha', -⟩ := hrest e' he'
          change Function.update G.arc e.1 none e'.1 = _ at ha'
          rw [heq, Function.update_self] at ha'
          cases ha'
        · rcases List.mem_cons.mp he' with rfl | he'
          · exact ⟨a, ha, hl⟩
          · obtain ⟨a', ha', hl'⟩ := hrest e' he'
            change Function.update G.arc e.1 none e'.1 = _ at ha'
            rw [Function.update_apply] at ha'
            split at ha'
            · cases ha'
            · exact ⟨a', ha', hl'⟩
      obtain ⟨n₂, er, hr₂⟩ := ih h₁ hs₁
        (fun e' he' => hids₁.own (hown e' (List.mem_cons_of_mem _ he'))) hbad₁
      refine ⟨max n₁ n₂, er, fun fuel hfuel => ?_⟩
      obtain ⟨hle₁, hle₂⟩ := Nat.max_le.mp hfuel
      rw [hl] at hr₁
      exact (congrArg Prod.fst (Prog.exec_bind_ok (hr₁ fuel hle₁) _)).trans (hr₂ fuel hle₂)
    · obtain ⟨er, hr⟩ := h.deleteEdge_refused hs (hown e List.mem_cons_self)
        fun a ha hl => hlive ⟨a, ha, hl⟩
      exact ⟨0, er, fun fuel _ => congrArg Prod.fst (Prog.exec_bind_error (hr fuel) _)⟩

/-! ### The edges of a vertex -/

/-- The edges that the ends of a vertex are of. -/
theorem EndsShow.mem_edgeIds {ms : List AdjListMember} (h : EndsShow G v ms) (i : Nat) :
    i ∈ (openEnds ms).map EdgeEnd.edgeId ↔ ∃ a, G.arc i = some a ∧ a.Meets v := by
  rw [List.mem_map]
  constructor
  · rintro ⟨x, hx, rfl⟩
    obtain ⟨a, ha, -, ⟨-, hv, -⟩ | ⟨-, hv, -⟩⟩ := (h.mem x).mp hx
    · exact ⟨a, ha, Or.inl hv⟩
    · exact ⟨a, ha, Or.inr hv⟩
  · rintro ⟨a, ha, hv | hv⟩
    · exact ⟨⟨i, _, 0, _⟩, (h.mem _).mpr ⟨a, ha, rfl, Or.inl ⟨rfl, hv, rfl⟩⟩, rfl⟩
    · exact ⟨⟨i, _, 1, _⟩, (h.mem _).mpr ⟨a, ha, rfl, Or.inr ⟨rfl, hv, rfl⟩⟩, rfl⟩

/-- **No edge has two ends at a vertex just when none is a loop there.** -/
theorem EndsShow.nodup_iff {ms : List AdjListMember} (h : EndsShow G v ms) :
    ((openEnds ms).map EdgeEnd.edgeId).Nodup ↔ G.Loopless v := by
  constructor
  · rintro hnodup i a ha ⟨hs, he⟩
    have h₀ : (⟨i, a.data.labelId, 0, a.stop⟩ : EdgeEnd) ∈ openEnds ms :=
      (h.mem _).mpr ⟨a, ha, rfl, Or.inl ⟨rfl, hs, rfl⟩⟩
    have h₁ : (⟨i, a.data.labelId, 1, a.start⟩ : EdgeEnd) ∈ openEnds ms :=
      (h.mem _).mpr ⟨a, ha, rfl, Or.inr ⟨rfl, he, rfl⟩⟩
    have heq := List.inj_on_of_nodup_map hnodup h₀ h₁ rfl
    cases heq
  · intro hloop
    refine h.nodup.map_on fun x hx y hy hxy => ?_
    obtain ⟨a, ha, hlx, hdx⟩ := (h.mem x).mp hx
    obtain ⟨b, hb, hly, hdy⟩ := (h.mem y).mp hy
    rw [← hxy, ha] at hb
    obtain rfl := Option.some.inj hb
    obtain ⟨i, l, d, o⟩ := x
    obtain ⟨j, m, e, r⟩ := y
    obtain rfl : i = j := hxy
    obtain rfl : l = m := hlx.trans hly.symm
    rcases hdx with ⟨rfl, hv, rfl⟩ | ⟨rfl, hv, rfl⟩ <;>
      rcases hdy with ⟨rfl, hw, rfl⟩ | ⟨rfl, hw, rfl⟩
    · rfl
    · exact absurd ⟨hv, hw⟩ (hloop i a ha)
    · exact absurd ⟨hw, hv⟩ (hloop i a ha)
    · rfl

/-! ### The vertex -/

/-- **Stamping the tuple of an isolated vertex** takes it away. -/
theorem Refines.stampVertex (h : Refines base (some s.fxid) st V A G)
    (hs : st.xacts.Open base s.fxid) {p : ItemPointer} {t : EntityTuple Vertex}
    (ht : st.vtuple (l, p) = some t) (hd : t.hdr.deleter = none)
    (hiso : G.Isolated (l, t.hdr.id)) :
    Refines base (some s.fxid)
      { st with vtuple := Function.update st.vtuple (l, p) (some (stampTuple s t)) } V A
      (G.dropVertex (l, t.hdr.id) hiso) := by
  have hinv := h.inv.stampVertex hs ht ((h.vertexUpdatable hs ht).mpr hd)
  refine ⟨hinv, h.serial, fun l' => ?_, h.depicts.edges, h.depicts.shows.same hinv.layout rfl rfl,
    fun v hv => (h.depicts.ends v hv).congr fun _ => Iff.rfl⟩
  show TableShows _ _ (fun tid => Function.update st.vtuple (l, p) _ (l', tid)) (st.vertexPtr l') _
  by_cases hl : l' = l
  · subst hl
    rw [update_label_self, vertex_dropVertex_self]
    exact (h.depicts.vertices l').stamp hs.1.valid ht hd
  · rw [update_label_ne _ hl, vertex_dropVertex_ne G hiso hl]
    exact h.depicts.vertices l'

/-- The slot of a vertex and the array list of its label, which `delete_vertex` reads first. -/
theorem readVertexSlot_runs {e : Err} {rec : NeoPhysMapRecord}
    (hrec : db.store.vslot (l, entitySlot id) = some rec) :
    ∃ info, db.store.vlabel l = some info ∧
      (readVertexLabel l e fun _ lab => do
        let rec ← readSlot lab.physMap.table (entitySlot id)
        return (rec, lab.arraylist)).Runs db (rec, info.arraylist) db := by
  obtain ⟨lab, hlab⟩ := exists_vlabel_of_vslot hrec
  rw [store_vslot hlab] at hrec
  refine ⟨lab.info, store_vlabel hlab, runs_readVertexLabel.mpr ⟨lab, hlab, ?_, rfl⟩⟩
  rw [readSlot_iff.mpr hrec]
  rfl

/-- The ends of a vertex are of edges of the graph. -/
theorem EndsShow.live {ms : List AdjListMember} (h : EndsShow G v ms) :
    ∀ e ∈ (openEnds ms).map EdgeEnd.key, ∃ a, G.arc e.1 = some a ∧ a.data.labelId = e.2 := by
  intro e he
  obtain ⟨x, hx, rfl⟩ := List.mem_map.mp he
  obtain ⟨a, ha, hl, -⟩ := (h.mem x).mp hx
  exact ⟨a, ha, hl.symm⟩

theorem map_fst_key (xs : List EdgeEnd) :
    (xs.map EdgeEnd.key).map Prod.fst = xs.map EdgeEnd.edgeId := List.map_map

/-- **A delete of a vertex** takes it away, with its edges if there are any. -/
theorem Refines.deleteVertex {detach : Bool} (h : Refines base (some s.fxid) db.store V A G)
    (hs : db.store.xacts.Open base s.fxid) (hk : (G.vertex (l, id)).isSome)
    (hno : NoBlocks db.store (l, id)) (hok : Deletable G (l, id) detach) (u : Unspecified) :
    ∃ db' n A', Refines base (some s.fxid) db'.store V A'
        ((G.detach (l, id)).dropVertex (l, id) (G.isolated_detach (l, id))) ∧
      db'.store.xacts = db.store.xacts ∧ ∀ fuel, n ≤ fuel →
        (NeoPostGraph.deleteVertex u fuel s id l detach).Runs db () db' := by
  have hv := h.mem hk
  obtain ⟨d, hd⟩ := Option.isSome_iff_exists.mp hk
  obtain ⟨rec, t, hrec, ht, rfl, hdel, rfl⟩ := h.vertex_get hd
  obtain ⟨info, hinfo, hread⟩ := readVertexSlot_runs (e := .vertexLabelNotFound l) hrec
  have hhead : db.store.vslot (l, headSlot t.hdr.id) = some rec := by
    rw [show headSlot t.hdr.id = entitySlot t.hdr.id from h.inv.layout.agree _ hv]
    exact hrec
  have hends := h.depicts.ends _ hv
  obtain ⟨n₁, hwalk⟩ := h.depicts.shows.collectWalk_exec hv hno hinfo hhead u detach
  have hgo : ¬ (detach = false ∧ openEnds (A (l, t.hdr.id)) ≠ []) := by
    rintro ⟨rfl, hne⟩
    exact hne (hends.isolated_iff.mpr (hok.resolve_left fun hc => by cases hc.1))
  have hloop : G.Loopless (l, t.hdr.id) := by
    rcases hok with ⟨-, hloop⟩ | hiso
    · exact hloop
    · exact fun i a ha hc => hiso i a ha (Or.inl hc.1)
  obtain ⟨db₁, n₂, A₁, h₁, hsv, hdeletes⟩ := h.deleteCollected hs
    (by rw [map_fst_key]; exact hends.nodup_iff.mpr hloop) hends.live
  have hG : G.dropArcs (((openEnds (A (l, t.hdr.id))).map EdgeEnd.key).map Prod.fst) =
      G.detach (l, t.hdr.id) := by
    rw [map_fst_key]
    exact G.dropArcs_eq_detach fun i => hends.mem_edgeIds i
  rw [hG] at h₁
  have hs₁ : db₁.store.xacts.Open base s.fxid := by
    rw [hsv.xacts]
    exact hs
  have ht₁ : db₁.store.vtuple (l, rec.vItemptr) = some t := by rw [hsv.vtuple, ht]
  obtain ⟨db₂, h₂⟩ := tombstoneVertex_runs ht₁ ((h₁.vertexUpdatable hs₁ ht₁).mpr hdel) t.hdr.id
  obtain ⟨t', ht', -, hst⟩ := tombstoneVertex_inv h₂
  obtain rfl := Option.some.inj (ht₁.symm.trans ht')
  refine ⟨db₂, max n₁ n₂, A₁, ?_, ?_, fun fuel hfuel => ?_⟩
  · rw [hst]
    exact h₁.stampVertex hs₁ ht₁ hdel (G.isolated_detach _)
  · rw [hst]
    exact hsv.xacts
  · obtain ⟨hle₁, hle₂⟩ := Nat.max_le.mp hfuel
    have hw : (collectWalk u info.arraylist detach t.hdr.id fuel rec.eTblId rec.eItemptr []).Runs db
        ((openEnds (A (l, t.hdr.id))).map EdgeEnd.key) db := by
      have hw := hwalk fuel hle₁
      rwa [if_neg hgo] at hw
    exact hread.bind (hw.bind ((hdeletes fuel hle₂).bind h₂))

/-- **A delete of a vertex that is not there, or may not be deleted, fails**: one with edges, if they are
not to go with it; and with `detach`, one with a loop. -/
theorem Refines.deleteVertex_refused {detach : Bool} (h : Refines base (some s.fxid) db.store V A G)
    (hs : db.store.xacts.Open base s.fxid) (hown : OwnVertexSlot db.store l id)
    (hv : (l, id) ∈ V ∨ db.store.vslot (l, entitySlot id) = none)
    (hno : NoBlocks db.store (l, id))
    (hbad : G.vertex (l, id) = none ∨ ¬ Deletable G (l, id) detach) (u : Unspecified) :
    ∃ n er, ∀ fuel, n ≤ fuel →
      ((NeoPostGraph.deleteVertex u fuel s id l detach).exec db).1 = .error er := by
  cases hrec : db.store.vslot (l, entitySlot id) with
  | none =>
    -- the read of the slot fails
    rcases hr : (readVertexLabel l (.vertexLabelNotFound l) fun _ lab => do
        let rec ← readSlot lab.physMap.table (entitySlot id)
        return (rec, lab.arraylist)).exec db with ⟨er | r, db₁⟩
    · exact ⟨0, er, fun fuel _ => congrArg Prod.fst (Prog.exec_bind_error hr _)⟩
    · obtain ⟨lab, hlab, hf, -⟩ := runs_readVertexLabel.mp hr
      obtain ⟨rec, hrec', -⟩ := bind_ok hf
      rw [store_vslot hlab, readSlot_iff.mp hrec'] at hrec
      cases hrec
  | some rec =>
    replace hv : (l, id) ∈ V := hv.resolve_right fun hc => by
      rw [hrec] at hc
      cases hc
    obtain ⟨info, hinfo, hread⟩ := readVertexSlot_runs (e := .vertexLabelNotFound l) hrec
    have hhead : db.store.vslot (l, headSlot id) = some rec := by
      rw [show headSlot id = entitySlot id from h.inv.layout.agree _ hv]
      exact hrec
    have hends := h.depicts.ends _ hv
    obtain ⟨n₁, hwalk⟩ := h.depicts.shows.collectWalk_exec hv hno hinfo hhead u detach
    by_cases hgo : detach = false ∧ openEnds (A (l, id)) ≠ []
    · refine ⟨n₁, .activeEdges id, fun fuel hfuel => ?_⟩
      have hw := hwalk fuel hfuel
      rw [if_pos hgo] at hw
      refine (congrArg Prod.fst (Prog.exec_bind_ok hread _)).trans ?_
      exact congrArg Prod.fst (Prog.exec_bind_error hw _)
    -- the walk finds the edges of the vertex
    have hrun : ∀ fuel er, n₁ ≤ fuel → ((NeoPostGraph.deleteCollected fuel s
          ((openEnds (A (l, id))).map EdgeEnd.key) >>= fun _ =>
            tombstoneVertex s l id rec.vItemptr).exec db).1 = .error er →
        ((NeoPostGraph.deleteVertex u fuel s id l detach).exec db).1 = .error er := by
      intro fuel er hfuel her
      have hw := hwalk fuel hfuel
      rw [if_neg hgo] at hw
      exact (congrArg Prod.fst
        ((Prog.exec_bind_ok hread _).trans (Prog.exec_bind_ok hw _))).trans her
    by_cases hloop : G.Loopless (l, id)
    · have hnone : G.vertex (l, id) = none := hbad.resolve_right fun hc => hc (by
        cases detach with
        | true => exact Or.inl ⟨rfl, hloop⟩
        | false =>
          refine Or.inr (hends.isolated_iff.mp ?_)
          by_contra hne
          exact hgo ⟨rfl, hne⟩)
      obtain ⟨db₁, n₂, A₁, h₁, hsv, hdeletes⟩ := h.deleteCollected hs
        (by rw [map_fst_key]; exact hends.nodup_iff.mpr hloop) hends.live
      have hs₁ : db₁.store.xacts.Open base s.fxid := by
        rw [hsv.xacts]
        exact hs
      have hown₁ : OwnVertexSlot db₁.store l id := by
        unfold OwnVertexSlot
        rw [hsv.vtuple]
        exact hown
      rcases ht : (tombstoneVertex s l id rec.vItemptr).exec db₁ with ⟨er | w, db₂⟩
      · refine ⟨max n₁ n₂, er, fun fuel hfuel => ?_⟩
        obtain ⟨hle₁, hle₂⟩ := Nat.max_le.mp hfuel
        refine hrun fuel er hle₁ ((congrArg Prod.fst (Prog.exec_bind_ok (hdeletes fuel hle₂) _)).trans ?_)
        rw [ht]
      · obtain ⟨t, ht, hup, -⟩ := tombstoneVertex_inv ht
        refine absurd hup (h₁.vertex_not_updatable hs₁ hown₁ ?_ ?_ ht)
        · rw [PropertyGraph.vertex_dropArcs]
          exact hnone
        · rw [hsv.vertexPtr]
          exact congrArg (Option.map NeoPhysMapRecord.vItemptr) hrec
    · -- the edge of a loop is collected twice
      have hownE : ∀ e ∈ (openEnds (A (l, id))).map EdgeEnd.key, OwnEdgeSlot db.store e.2 e.1 := by
        intro e he
        obtain ⟨a, ha, hl⟩ := hends.live e he
        obtain ⟨_, t, -, ht, hid, -⟩ := h.edge_get ha
        rw [← hl, ← hid]
        exact h.inv.ownEdgeSlot ht
      obtain ⟨n₂, er, hfail⟩ := h.deleteCollected_refused hs hownE fun hgood =>
        hloop (hends.nodup_iff.mp (by rw [← map_fst_key]; exact hgood.1))
      refine ⟨max n₁ n₂, er, fun fuel hfuel => ?_⟩
      obtain ⟨hle₁, hle₂⟩ := Nat.max_le.mp hfuel
      refine hrun fuel er hle₁ ?_
      rcases hd : (NeoPostGraph.deleteCollected fuel s
        ((openEnds (A (l, id))).map EdgeEnd.key)).exec db with ⟨er' | w, db₁⟩
      · have her := hfail fuel hle₂
        rw [hd] at her
        rw [Prog.exec_bind_error hd]
        exact her
      · have her := hfail fuel hle₂
        rw [hd] at her
        cases her

end

end NeoPostGraph
