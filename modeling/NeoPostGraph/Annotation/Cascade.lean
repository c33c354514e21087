import NeoPostGraph.Annotation.LabelRows

/-!
# What a cascade leaves

`add_annotation_label` and `drop_annotation_label` go over the labels under a path, one catalog after
the other. Here is what that makes of the rows, for a call that has returned.

* `loopRows`: the rows after a loop over some of them, as one map.
* `OwnSlots`: labels whose schemas do not overwrite each other.

Results:
* `forEachRow_rows`, `cascade_rows`: the loop, and one catalog's part of a call.
* `addAnnotationLabel_rows`, `dropAnnotationLabel_rows`: the vertex labels and the names registered.
-/

namespace NeoPostGraph

variable {db db' db₁ base : AnnotDb} {s : Session} {kind : LabelKind} {u : Unit}
  {rows : List LabelRow} {row : LabelRow} {structLabel : DottedText}

/-! ## The loop -/

/-- What an act makes of a row. -/
def RowAct.apply (row : LabelRow) : RowAct → LabelRow
  | .write names => { row with annotationMap := some names }
  | _ => row

@[simp] theorem RowAct.apply_id (act : RowAct) (row : LabelRow) : (act.apply row).id = row.id := by
  cases act <;> rfl

@[simp] theorem RowAct.apply_ltree (act : RowAct) (row : LabelRow) :
    (act.apply row).ltree = row.ltree := by
  cases act <;> rfl

/-- The rows after a loop over some of them: those have what the act made of them. -/
def loopRows (act : LabelRow → RowAct) (tups rows : List LabelRow) : List LabelRow :=
  rows.map fun row => if row ∈ tups then (act row).apply row else row

theorem loopRows_nil (act : LabelRow → RowAct) : loopRows act [] rows = rows := by
  simp [loopRows]

theorem loopRow_id (act : LabelRow → RowAct) (tups : List LabelRow) (row : LabelRow) :
    (if row ∈ tups then (act row).apply row else row).id = row.id := by
  split_ifs <;> simp

theorem loopRow_ltree {act : LabelRow → RowAct} {tups : List LabelRow} :
    (if row ∈ tups then (act row).apply row else row).ltree = row.ltree := by
  split_ifs <;> simp

/-- One row of the loop, if no other row has its id. -/
theorem loopRows_cons {act : LabelRow → RowAct} {rest : List LabelRow}
    (hids : ∀ r ∈ rows, ∀ r' ∈ rows, r.id = r'.id → r = r') (hrow : row ∈ rows) (hnot : row ∉ rest)
    (hrest : ∀ r ∈ rest, r ∈ rows) :
    loopRows act rest (rows.map fun r => if r.id = row.id then (act row).apply r else r) =
      loopRows act (row :: rest) rows := by
  unfold loopRows
  rw [List.map_map]
  refine List.map_congr_left fun r hr => ?_
  by_cases he : r = row
  · subst he
    -- the row just done is not among the rest, changed or not
    have hdone : (act r).apply r ∉ rest := fun hmem => by
      have hsame : (act r).apply r = r := hids _ (hrest _ hmem) r hr (RowAct.apply_id ..)
      rw [hsame] at hmem
      exact hnot hmem
    simp [hdone]
  · have hid : r.id ≠ row.id := fun hid => he (hids r hr row hrow hid)
    simp [hid, he]

/-- The labels under a path. -/
def AnnotDb.under (db : AnnotDb) (target : Ltree) : List LabelRow :=
  (db.labels .vertex).filter fun row => target.isPrefixOf row.ltree

/-- Labels that have slots of their own. -/
def OwnSlots (tups : List LabelRow) : Prop :=
  ∀ r ∈ tups, ∀ r' ∈ tups, schemaSlot r.id = schemaSlot r'.id → r = r'

instance (tups : List LabelRow) : Decidable (OwnSlots tups) :=
  inferInstanceAs (Decidable (∀ r ∈ tups, ∀ r' ∈ tups, schemaSlot r.id = schemaSlot r'.id → r = r'))

/-- **The loop does this to the rows**, if each of its labels has a slot of its own: the schema one
label gets is in force for no other. -/
theorem forEachRow_rows {apply : LabelRow → AnnotOp Bool} {act : LabelRow → RowAct}
    {tups : List LabelRow} {count : Nat}
    (hact : ∀ db row, db.schemaInForce row = base.schemaInForce row →
      ActLaw s db kind row (apply row) (act row))
    (hkeeps : ∀ row, (apply row).Keeps SchemaInv)
    (hids : ∀ r ∈ db.labels kind, ∀ r' ∈ db.labels kind, r.id = r'.id → r = r')
    (hsub : ∀ r ∈ tups, r ∈ db.labels kind)
    (hslots : OwnSlots tups)
    (hnodup : tups.Nodup) (hinv : SchemaInv db)
    (hsame : ∀ r ∈ tups, db.schemaInForce r = base.schemaInForce r)
    (h : (forEachRow apply tups).Runs db count db') :
    db'.labels kind = loopRows act tups (db.labels kind) ∧ ∀ r ∈ tups, act r ≠ .fail := by
  induction tups generalizing db count with
  | nil =>
    obtain ⟨-, rfl⟩ := Prog.runs_ret_iff.mp h
    exact ⟨(loopRows_nil act).symm, by simp⟩
  | cons row rest ih =>
    obtain ⟨updated, db₁, hrow, h₁⟩ := Prog.runs_bind_iff.mp h
    obtain ⟨n, db₂, hloop, h₂⟩ := Prog.runs_bind_iff.mp h₁
    obtain ⟨-, rfl⟩ := Prog.runs_ret_iff.mp h₂
    obtain ⟨hnot, hnodup⟩ := List.nodup_cons.mp hnodup
    have hmem := hsub row List.mem_cons_self
    have hrest : ∀ r ∈ rest, r ∈ db.labels kind := fun r hr => hsub r (List.mem_cons_of_mem _ hr)
    have hlaw := hact db row (hsame row List.mem_cons_self)
    -- what the act leaves: its row changed, the others and their schemas in force as they were
    obtain ⟨hok, hlabels, hforce⟩ : act row ≠ .fail ∧ db₁.labels kind =
        ((db.labels kind).map fun r => if r.id = row.id then (act row).apply r else r) ∧
        ∀ r ∈ rest, db₁.schemaInForce r = db.schemaInForce r := by
      cases hcase : act row with
      | skip =>
        rw [hcase] at hlaw
        obtain ⟨-, b, hb⟩ := hlaw
        obtain ⟨-, rfl⟩ := hrow.det hb
        exact ⟨by simp, by simp [RowAct.apply], fun _ _ => rfl⟩
      | fail =>
        rw [hcase] at hlaw
        exact absurd hrow (hlaw.2 _ _)
      | write names =>
        rw [hcase] at hlaw
        obtain ⟨db₃, db₄, hins, hreach, -, hr, hset⟩ := hlaw
        obtain ⟨-, rfl⟩ := hrow.det hr
        refine ⟨by simp, ?_, fun r hr' => ?_⟩
        · rw [hset, Function.update_self]
          rfl
        · have hne : schemaSlot row.id ≠ schemaSlot r.id := fun he => by
            have := hslots row List.mem_cons_self r (List.mem_cons_of_mem _ hr') he
            exact hnot (this ▸ hr')
          rcases hreach db₁ hrow.reaches with rfl | hafter
          · rfl
          · exact (hafter.unchanged.inForce r).trans (inForce_of_otherSlot hinv hne hins)
    have hids₁ : ∀ r ∈ db₁.labels kind, ∀ r' ∈ db₁.labels kind, r.id = r'.id → r = r' := by
      rw [hlabels]
      intro r hr r' hr' he
      obtain ⟨x, hx, rfl⟩ := List.mem_map.mp hr
      obtain ⟨x', hx', rfl⟩ := List.mem_map.mp hr'
      have hid (y : LabelRow) : (if y.id = row.id then (act row).apply y else y).id = y.id := by
        split_ifs <;> simp
      rw [hid, hid] at he
      rw [hids x hx x' hx' he]
    have hsub₁ : ∀ r ∈ rest, r ∈ db₁.labels kind := fun r hr => by
      rw [hlabels]
      have hne : r.id ≠ row.id := fun he => by
        have := hids r (hrest r hr) row hmem he
        exact hnot (this ▸ hr)
      exact List.mem_map.mpr ⟨r, hrest r hr, if_neg hne⟩
    obtain ⟨hrows, hall⟩ := ih hids₁ hsub₁
      (fun r hr r' hr' => hslots r (List.mem_cons_of_mem _ hr) r' (List.mem_cons_of_mem _ hr')) hnodup
      ((hkeeps row).runs hrow hinv)
      (fun r hr => (hforce r hr).trans (hsame r (List.mem_cons_of_mem _ hr))) hloop
    refine ⟨?_, fun r hr => ?_⟩
    · rw [hrows, hlabels]
      exact loopRows_cons hids hmem hnot hrest
    · rcases List.mem_cons.mp hr with rfl | hr
      · exact hok
      · exact hall r hr

/-- The schema a loop leaves in force for a label: what it wrote to the label's slot, if it did. -/
def loopInForce (act : LabelRow → RowAct) (base : AnnotDb) (tups : List LabelRow) (r : LabelRow) :
    Option Names :=
  match tups.find? fun v => schemaSlot v.id = schemaSlot r.id with
  | none => base.schemaInForce r
  | some v =>
    match act v with
    | .write names => if SlotOnPage r.id then some names else base.schemaInForce r
    | _ => base.schemaInForce r

theorem loopInForce_cons {act : LabelRow → RowAct} {rest : List LabelRow} {r : LabelRow} :
    loopInForce act base (row :: rest) r =
      if schemaSlot row.id = schemaSlot r.id then loopInForce act base [row] r
      else loopInForce act base rest r := by
  unfold loopInForce
  by_cases hslot : schemaSlot row.id = schemaSlot r.id
  · rw [if_pos hslot, List.find?_cons_of_pos (by simpa using hslot),
      List.find?_cons_of_pos (by simpa using hslot)]
  · rw [if_neg hslot, List.find?_cons_of_neg (by simpa using hslot)]

/-- A loop over labels of other slots leaves in force what was. -/
theorem loopInForce_of_otherSlots {act : LabelRow → RowAct} {tups : List LabelRow} {r : LabelRow}
    (h : ∀ v ∈ tups, schemaSlot v.id ≠ schemaSlot r.id) :
    loopInForce act base tups r = base.schemaInForce r := by
  unfold loopInForce
  rw [List.find?_eq_none.mpr fun v hv => by simpa using h v hv]

/-- **The loop leaves these schemas in force**, for whichever label, if each of its own has a slot of its
own. -/
theorem forEachRow_inForce {apply : LabelRow → AnnotOp Bool} {act : LabelRow → RowAct}
    {tups : List LabelRow} {count : Nat}
    (hone : ∀ db db' b row, SchemaInv db → db.schemaInForce row = base.schemaInForce row →
      (apply row).Runs db b db' → SchemaInv db' ∧ ∀ r, db'.schemaInForce r = loopInForce act db [row] r)
    (hslots : OwnSlots tups) (hnodup : tups.Nodup) (hinv : SchemaInv db)
    (hsame : ∀ r ∈ tups, db.schemaInForce r = base.schemaInForce r)
    (h : (forEachRow apply tups).Runs db count db') (r : LabelRow) :
    db'.schemaInForce r = loopInForce act db tups r := by
  induction tups generalizing db count with
  | nil =>
    obtain ⟨-, rfl⟩ := Prog.runs_ret_iff.mp h
    rfl
  | cons row rest ih =>
    obtain ⟨updated, db₁, hrow, h₁⟩ := Prog.runs_bind_iff.mp h
    obtain ⟨n, db₂, hloop, h₂⟩ := Prog.runs_bind_iff.mp h₁
    obtain ⟨-, rfl⟩ := Prog.runs_ret_iff.mp h₂
    obtain ⟨hnot, hnodup⟩ := List.nodup_cons.mp hnodup
    obtain ⟨hinv₁, hforce⟩ := hone db db₁ updated row hinv (hsame row List.mem_cons_self) hrow
    have hother : ∀ x ∈ rest, schemaSlot row.id ≠ schemaSlot x.id := fun x hx he => by
      have := hslots row List.mem_cons_self x (List.mem_cons_of_mem _ hx) he
      exact hnot (this ▸ hx)
    have hsingle : ∀ x : LabelRow, schemaSlot row.id ≠ schemaSlot x.id →
        db₁.schemaInForce x = db.schemaInForce x := fun x hx => by
      rw [hforce]
      exact loopInForce_of_otherSlots fun v hv => by rwa [List.mem_singleton.mp hv]
    rw [ih (fun r hr r' hr' => hslots r (List.mem_cons_of_mem _ hr) r' (List.mem_cons_of_mem _ hr')) hnodup
      hinv₁ (fun x hx => (hsingle x (hother x hx)).trans (hsame x (List.mem_cons_of_mem _ hx))) hloop,
      loopInForce_cons]
    split_ifs with hslot
    · rw [loopInForce_of_otherSlots fun v hv => fun he => hother v hv (hslot.trans he.symm), hforce]
    · unfold loopInForce
      rw [hsingle r hslot]

/-! ## The cascades -/

/-- A cascade finds no label, or goes over those under the one it finds. -/
theorem cascade_inv {apply : Ltree → LabelRow → AnnotOp Bool} {b : Bool}
    (h : (cascade kind structLabel apply).Runs db b db') :
    ((db.labels kind).find? fun row => structuralText row.ltree = structLabel) = none ∧ db' = db ∨
      ∃ found count, (db.labels kind).find? (fun row => structuralText row.ltree = structLabel) = some found ∧
        (forEachRow (apply found.ltree)
          ((db.labels kind).filter fun row => found.ltree.isPrefixOf row.ltree)).Runs db count db' := by
  obtain ⟨o, db₁, hfind, h₁⟩ := Prog.runs_bind_iff.mp h
  obtain ⟨ho, rfl⟩ := scanLabels_runs_iff.mp hfind
  obtain rfl := Except.ok.inj ho
  cases hfound : (db₁.labels kind).find? fun row => structuralText row.ltree = structLabel with
  | none =>
    rw [hfound] at h₁
    obtain ⟨-, rfl⟩ := Prog.runs_ret_iff.mp h₁
    exact Or.inl ⟨rfl, rfl⟩
  | some found =>
    rw [hfound] at h₁
    obtain ⟨tups, db₂, hcollect, h₂⟩ := Prog.runs_bind_iff.mp h₁
    obtain ⟨htups, rfl⟩ := scanLabels_runs_iff.mp hcollect
    obtain rfl := Except.ok.inj htups
    obtain ⟨count, db₃, hloop, h₃⟩ := Prog.runs_bind_iff.mp h₂
    obtain ⟨-, rfl⟩ := Prog.runs_ret_iff.mp h₃
    exact Or.inr ⟨found, count, rfl, hloop⟩

/-- **A cascade over the vertex labels** finds no label, or changes those under the one it finds. -/
theorem cascade_rows {apply : Ltree → LabelRow → AnnotOp Bool}
    {act : Ltree → LabelRow → RowAct} {b : Bool}
    (hact : ∀ target db' row, db'.schemaInForce row = db.schemaInForce row →
      ActLaw s db' .vertex row (apply target row) (act target row))
    (hkeeps : ∀ target row, (apply target row).Keeps SchemaInv) (hinv : SchemaInv db)
    (hids : RowIds db .vertex)
    (hslots : ∀ found, (db.labels .vertex).find? (fun row => structuralText row.ltree = structLabel) =
      some found → OwnSlots (db.under found.ltree))
    (h : (cascade .vertex structLabel apply).Runs db b db') :
    db' = db ∨ ∃ found, (db.labels .vertex).find?
        (fun row => structuralText row.ltree = structLabel) = some found ∧
      db'.labels .vertex = loopRows (act found.ltree) (db.under found.ltree) (db.labels .vertex) ∧
      ∀ r ∈ db.under found.ltree, act found.ltree r ≠ .fail := by
  rcases cascade_inv h with ⟨-, rfl⟩ | ⟨found, count, hfound, hloop⟩
  · exact Or.inl rfl
  · have heffect := forEachRow_rows (hact found.ltree) (hkeeps found.ltree) hids.distinct
      (fun row hrow => (List.mem_filter.mp hrow).1) (hslots found hfound) (hids.nodup.filter _) hinv
      (fun _ _ => rfl) hloop
    exact Or.inr ⟨found, hfound, heffect⟩

/-- An edge label's part of a call leaves the vertex labels alone. -/
theorem vertexRows_cascadeKeep (s : Session) (rows : List LabelRow) :
    CascadeKeep s .edge fun db => db.labels .vertex = rows where
  insertAnnotationSchema labelId names := Prog.keeps_write fun db db' hI h => by
    dsimp only at h
    split at h <;> cases h
    exact hI
  createAnnotationTable labelId := Prog.keeps_write fun db db' hI h => by
    cases h
    exact hI
  updateAnnotationMap labelId names := Prog.keeps_write fun db db' hI h => by
    cases h
    exact hI

/-- Both parts leave the names alone. -/
theorem labelCatalog_cascadeKeep (s : Session) (kind : LabelKind) (catalog : List (String × LabelType)) :
    CascadeKeep s kind fun db => db.labelCatalog = catalog where
  insertAnnotationSchema labelId names := Prog.keeps_write fun db db' hI h => by
    dsimp only at h
    split at h <;> cases h
    exact hI
  createAnnotationTable labelId := Prog.keeps_write fun db db' hI h => by
    cases h
    exact hI
  updateAnnotationMap labelId names := Prog.keeps_write fun db db' hI h => by
    cases h
    exact hI

/-- **`add_annotation_label` does this to the vertex labels, and registers the name.** -/
theorem addAnnotationLabel_rows {newAnnot : DottedText}
    (h : (addAnnotationLabel s structLabel newAnnot).Runs db u db') :
    ∃ annot v db₁ db₂, newAnnot = [annot] ∧ (cascade .vertex structLabel fun _ row =>
      npApplyAddAnnotationToTuple s .vertex row annot).Runs db v db₁ ∧
      db₂.labels .vertex = db₁.labels .vertex ∧ db₂.labelCatalog = db.labelCatalog ∧
      (enforceAndInsertLabelCatalog db.labelCatalog annot .annot).Runs db₂ u db' := by
  unfold addAnnotationLabel at h
  split at h
  · next annot =>
    obtain ⟨v, db₁, hvertex, h₁⟩ := Prog.runs_bind_iff.mp h
    obtain ⟨e, db₂, hedge, h₂⟩ := Prog.runs_bind_iff.mp h₁
    have hrows : db₂.labels .vertex = db₁.labels .vertex := (keeps_cascade .edge structLabel fun _ row =>
      (vertexRows_cascadeKeep s _).npApplyAddAnnotationToTuple row annot).runs hedge rfl
    have hcat₁ : db₁.labelCatalog = db.labelCatalog := (keeps_cascade .vertex structLabel fun _ row =>
      (labelCatalog_cascadeKeep s .vertex _).npApplyAddAnnotationToTuple row annot).runs hvertex rfl
    have hcat₂ : db₂.labelCatalog = db₁.labelCatalog := (keeps_cascade .edge structLabel fun _ row =>
      (labelCatalog_cascadeKeep s .edge _).npApplyAddAnnotationToTuple row annot).runs hedge rfl
    split_ifs at h₂
    · obtain ⟨registered, db₃, hread, h₃⟩ := Prog.runs_bind_iff.mp h₂
      obtain ⟨hreg, rfl⟩ := Prog.runs_read_iff.mp hread
      obtain rfl := Except.ok.inj hreg
      rw [hcat₂.trans hcat₁] at h₃
      exact ⟨annot, v, db₁, db₃, rfl, hvertex, hrows, hcat₂.trans hcat₁, h₃⟩
    · exact absurd h₂ Prog.runs_fail_iff.mp
  · exact absurd h Prog.runs_fail_iff.mp

/-- **`drop_annotation_label` does this to the vertex labels, and takes the name out.** -/
theorem dropAnnotationLabel_rows {dropAnnot : String}
    (h : (dropAnnotationLabel s structLabel dropAnnot).Runs db u db') :
    ∃ v db₁, (cascade .vertex structLabel fun target row =>
      npApplyDropAnnotationToTuple s .vertex (db.labels .vertex) row target structLabel dropAnnot).Runs db
        v db₁ ∧ db'.labels .vertex = db₁.labels .vertex ∧
      db'.labelCatalog = db.labelCatalog.filter fun row => row ≠ (dropAnnot, .annot) := by
  obtain ⟨vRows, db₀, hvRows, h₀⟩ := Prog.runs_bind_iff.mp h
  obtain ⟨hv, rfl⟩ := scanLabels_runs_iff.mp hvRows
  obtain rfl := Except.ok.inj hv
  obtain ⟨v, db₁, hvertex, h₁⟩ := Prog.runs_bind_iff.mp h₀
  obtain ⟨eRows, db₃, heRows, h₃⟩ := Prog.runs_bind_iff.mp h₁
  obtain ⟨-, rfl⟩ := scanLabels_runs_iff.mp heRows
  obtain ⟨e, db₂, hedge, h₂⟩ := Prog.runs_bind_iff.mp h₃
  have hrows : db₂.labels .vertex = db₃.labels .vertex := (keeps_cascade .edge structLabel
    fun target row => (vertexRows_cascadeKeep s _).npApplyDropAnnotationToTuple ..).runs hedge rfl
  have hcat₁ : db₃.labelCatalog = db₀.labelCatalog := (keeps_cascade .vertex structLabel
    fun target row => (labelCatalog_cascadeKeep s .vertex _).npApplyDropAnnotationToTuple ..).runs
      hvertex rfl
  have hcat₂ : db₂.labelCatalog = db₃.labelCatalog := (keeps_cascade .edge structLabel
    fun target row => (labelCatalog_cascadeKeep s .edge _).npApplyDropAnnotationToTuple ..).runs
      hedge rfl
  split_ifs at h₂
  · obtain rfl := Except.ok.inj (Prog.runs_write_iff.mp h₂)
    refine ⟨v, db₃, hvertex, hrows, ?_⟩
    rw [← hcat₁, ← hcat₂]
  · exact absurd h₂ Prog.runs_fail_iff.mp

end NeoPostGraph
