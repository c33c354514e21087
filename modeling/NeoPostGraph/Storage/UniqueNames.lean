import NeoPostGraph.Storage.DropGraph

/-!
# Names are given once

The numbers in the name of a relation come from sequences, and a sequence does not go back when a
transaction is rolled back. So no two relations have the same name, in whatever schemas they are.

* `RelName.numbers`: the numbers in a name, each with the name of its sequence.
* `UniqueNames`: names are different, no number is above the value of its sequence, and an index is in
  the schema of its table.
* `Adds names db db'`: relations of these names are added.

Results:
* `UniqueNames.adds`: new names stay different when their numbers are new.
* `UniqueNames.run`: every call keeps names different.
-/

namespace NeoPostGraph

/-- The numbers of labels and partitions in a name, and the names of the sequences that gave them. -/
def RelName.numbers : RelName → List (RelName × Nat)
  | graph _ _ => []
  | vertex g l (.linkedList p) =>
    [(graph g .vertexLabelIdSeq, l), (vertex g l .linkedListSeq, p)]
  | vertex g l _ => [(graph g .vertexLabelIdSeq, l)]
  | edge g l _ => [(graph g .edgeLabelIdSeq, l)]

theorem RelName.mem_numbers_vertex (g l : Nat) (rel : VertexRel) :
    (graph g .vertexLabelIdSeq, l) ∈ (vertex g l rel).numbers := by
  cases rel <;> exact List.mem_cons_self

theorem RelName.graphId_of_mem_numbers {name : RelName} {x : RelName × Nat} (hx : x ∈ name.numbers) :
    x.1.graphId = name.graphId := by
  cases name with
  | graph g rel => cases hx
  | edge g l rel => rw [List.mem_singleton.mp hx]; rfl
  | vertex g l rel =>
    cases rel with
    | linkedList p =>
      simp only [RelName.numbers, List.mem_cons, List.not_mem_nil, or_false] at hx
      rcases hx with rfl | rfl <;> rfl
    | _ => rw [List.mem_singleton.mp hx]; rfl

/-- The sequence of a number is one of labels, or one of partitions. -/
theorem RelName.mem_numbers_cases {name : RelName} {x : RelName × Nat} (hx : x ∈ name.numbers) :
    (∃ g rel, x.1 = .graph g rel) ∨
      ∃ g l p, x.1 = .vertex g l .linkedListSeq ∧ name = .vertex g l (.linkedList p) := by
  cases name with
  | graph g rel => cases hx
  | edge g l rel => exact Or.inl ⟨g, _, by rw [List.mem_singleton.mp hx]⟩
  | vertex g l rel =>
    cases rel with
    | linkedList p =>
      simp only [RelName.numbers, List.mem_cons, List.not_mem_nil, or_false] at hx
      rcases hx with rfl | rfl
      · exact Or.inl ⟨g, _, rfl⟩
      · exact Or.inr ⟨g, l, p, rfl, rfl⟩
    | _ => exact Or.inl ⟨g, _, by rw [List.mem_singleton.mp hx]⟩

namespace Storage

variable {db db' : ObjectDb} {names names' : List RelName} {name : RelName} {ns o : Oid}
  {idx : Option Oid} {g l n : Nat} {u : Unit}

/-- The names of all relations. -/
def ObjectDb.relnames (db : ObjectDb) : List RelName := db.pgClass.map PgClass.relname

theorem mem_relnames_iff : name ∈ db.relnames ↔ ∃ o, db.Has o name := by
  constructor
  · intro h
    obtain ⟨c, hc, hname⟩ := List.mem_map.mp h
    exact ⟨c.oid, c, hc, rfl, hname⟩
  · rintro ⟨o, c, hc, -, hname⟩
    exact List.mem_map.mpr ⟨c, hc, hname⟩

/-- An index is in the schema of its table. -/
def IndexesPlaced (db : ObjectDb) : Prop :=
  ∀ c ∈ db.pgClass, ∀ t, c.indrelid = some t →
    ∃ c' ∈ db.pgClass, c'.oid = t ∧ c'.relnamespace = c.relnamespace

/-- **Names are different**, and their numbers have been given out, as far as their sequences are there. -/
structure UniqueNames (db : ObjectDb) : Prop where
  nodup : db.relnames.Nodup
  given : ∀ n ∈ db.relnames, ∀ x ∈ n.numbers, ∀ s, db.Has s x.1 → x.2 ≤ db.seqs s
  placed : IndexesPlaced db

/-- The sequences of the numbers in a name are there, and have given them out. -/
def Given (db : ObjectDb) (name : RelName) : Prop :=
  ∀ x ∈ name.numbers, ∃ s, db.Has s x.1 ∧ x.2 ≤ db.seqs s

/-- Relations of these names are added. -/
structure Adds (names : List RelName) (db db' : ObjectDb) : Prop where
  pgClass : ∃ more, db'.pgClass = db.pgClass ++ more ∧ more.map PgClass.relname = names
  seqs : ∀ o, db.seqs o ≤ db'.seqs o
  placed : IndexesPlaced db → IndexesPlaced db'

namespace Adds

theorem trans {db₁ : ObjectDb} (h : Adds names db db₁) (h' : Adds names' db₁ db') :
    Adds (names ++ names') db db' := by
  obtain ⟨more, hmore, hnames⟩ := h.pgClass
  obtain ⟨more', hmore', hnames'⟩ := h'.pgClass
  refine ⟨⟨more ++ more', ?_, ?_⟩, fun o => Nat.le_trans (h.seqs o) (h'.seqs o),
    fun hp => h'.placed (h.placed hp)⟩
  · rw [hmore', hmore, List.append_assoc]
  · rw [List.map_append, hnames, hnames']

/-- A step that makes no relation. -/
theorem of_eq (hclass : db'.pgClass = db.pgClass) (hseqs : ∀ o, db.seqs o ≤ db'.seqs o) :
    Adds [] db db' := by
  refine ⟨⟨[], by rw [hclass, List.append_nil], rfl⟩, hseqs, fun hp => ?_⟩
  unfold IndexesPlaced
  rwa [hclass]

theorem relnames (h : Adds names db db') : db'.relnames = db.relnames ++ names := by
  obtain ⟨more, hmore, hnames⟩ := h.pgClass
  unfold ObjectDb.relnames
  rw [hmore, List.map_append, hnames]

theorem has (h : Adds names db db') (hhas : db.Has o name) : db'.Has o name := by
  obtain ⟨more, hmore, -⟩ := h.pgClass
  obtain ⟨c, hc, hspec⟩ := hhas
  exact ⟨c, by rw [hmore]; exact List.mem_append_left _ hc, hspec⟩

theorem given (h : Adds names db db') (hgiven : Given db name) : Given db' name := fun x hx => by
  obtain ⟨s, hs, hle⟩ := hgiven x hx
  exact ⟨s, h.has hs, Nat.le_trans hle (h.seqs s)⟩

/-- What is not new was there. -/
theorem has_of_not_mem (h : Adds names db db') (hhas : db'.Has o name) (hnew : name ∉ names) :
    db.Has o name := by
  obtain ⟨more, hmore, hnames⟩ := h.pgClass
  obtain ⟨c, hc, hoid, hname⟩ := hhas
  rw [hmore] at hc
  rcases List.mem_append.mp hc with hold | hadded
  · exact ⟨c, hold, hoid, hname⟩
  · refine absurd ?_ hnew
    rw [← hnames, ← hname]
    exact List.mem_map_of_mem hadded

end Adds

namespace UniqueNames

theorem eq_of_relname (h : UniqueNames db) {c c' : PgClass} (hc : c ∈ db.pgClass) (hc' : c' ∈ db.pgClass)
    (hname : c.relname = c'.relname) : c = c' :=
  List.inj_on_of_nodup_map h.nodup hc hc' hname

/-- A lookup finds the relation of the name, when it is in the schema. -/
theorem relid_iff (h : UniqueNames db) : db.getRelnameRelid name ns = some o ↔
    ∃ c ∈ db.pgClass, c.oid = o ∧ c.relname = name ∧ c.relnamespace = ns := by
  unfold ObjectDb.getRelnameRelid
  constructor
  · intro hfound
    obtain ⟨c, hc, hoid⟩ := Option.map_eq_some_iff.mp hfound
    have hspec : c.relname = name ∧ c.relnamespace = ns := by simpa using List.find?_some hc
    exact ⟨c, List.mem_of_find?_eq_some hc, hoid, hspec⟩
  · rintro ⟨c, hc, rfl, rfl, rfl⟩
    cases hsearch : db.pgClass.find? fun c' => c'.relname = c.relname ∧ c'.relnamespace = c.relnamespace with
    | none => exact absurd (List.find?_eq_none.mp hsearch c hc) (by simp)
    | some c' =>
      have hspec : c'.relname = c.relname ∧ c'.relnamespace = c.relnamespace := by
        simpa using List.find?_some hsearch
      rw [h.eq_of_relname (List.mem_of_find?_eq_some hsearch) hc hspec.1]
      rfl

/-- **New names stay different** when their numbers are given out by now, and their sequences, where they
are new, have given none before. -/
theorem adds (h : UniqueNames db) (hadds : Adds names db db') (hnodup : names.Nodup)
    (hnew : ∀ n ∈ names, n ∉ db.relnames) (hgiven : ∀ n ∈ names, Given db' n)
    (hunused : ∀ n ∈ db.relnames, ∀ x ∈ n.numbers, x.1 ∉ names) : UniqueNames db' := by
  have hnodup' : db'.relnames.Nodup := by
    rw [hadds.relnames]
    refine List.nodup_append.mpr ⟨h.nodup, hnodup, fun a ha b hb he => ?_⟩
    exact hnew b hb (he ▸ ha)
  have hinj : ∀ {a b : Oid} {name : RelName}, db'.Has a name → db'.Has b name → a = b := by
    rintro a b name ⟨c, hc, rfl, hname⟩ ⟨c', hc', rfl, hname'⟩
    rw [List.inj_on_of_nodup_map hnodup' hc hc' (hname.trans hname'.symm)]
  refine ⟨hnodup', fun n hn x hx s hs => ?_, hadds.placed h.placed⟩
  rw [hadds.relnames] at hn
  rcases List.mem_append.mp hn with hold | hadded
  · have hs' := hadds.has_of_not_mem hs (hunused n hold x hx)
    exact Nat.le_trans (h.given n hold x hx s hs') (hadds.seqs s)
  · obtain ⟨s', hs', hle⟩ := hgiven n hadded x hx
    rwa [hinj hs hs']

/-- A number above the value of its sequence is in no name. -/
theorem not_mem_of_lt (h : UniqueNames db) {s : Oid} {x : RelName × Nat} (hs : db.Has s x.1)
    (hlt : db.seqs s < x.2) (hx : x ∈ name.numbers) : name ∉ db.relnames := fun hmem =>
  Nat.not_le_of_lt hlt (h.given name hmem x hx s hs)

end UniqueNames

/-! ## What the routines add -/

theorem adds_createRelation (hidx : ∀ t, idx = some t → ∃ c ∈ db.pgClass, c.oid = t ∧ c.relnamespace = ns)
    (hr : (createRelation name ns idx).Runs db o db') : Adds [name] db db' := by
  obtain ⟨-, -, rfl⟩ := createRelation_runs_iff.mp hr
  refine ⟨⟨[⟨db.nextOid, name, ns, idx⟩], rfl, rfl⟩, fun _ => Nat.le_refl _, fun hp c hc t ht => ?_⟩
  rcases List.mem_append.mp hc with hold | hnew
  · obtain ⟨c', hc', hspec⟩ := hp c hold t ht
    exact ⟨c', List.mem_append_left _ hc', hspec⟩
  · obtain rfl := List.mem_singleton.mp hnew
    obtain ⟨c', hc', hspec⟩ := hidx t ht
    exact ⟨c', List.mem_append_left _ hc', hspec⟩

theorem adds_createTable (hr : (createTable name ns).Runs db o db') : Adds [name] db db' := by
  have hmake : (createRelation name ns none).Runs db o db' := hr
  exact adds_createRelation (fun _ ht => by cases ht) hmake

theorem adds_createIndex {tblName : RelName} (hr : (createIndex tblName name).Runs db u db') :
    Adds [name] db db' := by
  obtain ⟨t, db₁, htbl, hr₁⟩ := Prog.runs_bind_iff.mp hr
  obtain ⟨hfound, rfl⟩ := npRelationId_runs_iff.mp htbl
  obtain ⟨o, db₂, hmake, hr₂⟩ := Prog.runs_bind_iff.mp hr₁
  obtain ⟨-, rfl⟩ := Prog.runs_ret_iff.mp hr₂
  refine adds_createRelation (fun a ha => ?_) hmake
  obtain rfl := Option.some.inj ha
  unfold ObjectDb.getRelnameRelid at hfound
  obtain ⟨c, hc, hoid⟩ := Option.map_eq_some_iff.mp hfound
  have hspec : c.relname = tblName ∧ c.relnamespace = npNamespaceId := by simpa using List.find?_some hc
  exact ⟨c, List.mem_of_find?_eq_some hc, hoid, hspec.2⟩

theorem adds_nextval {seq : Oid} (hr : (nextval seq).Runs db n db') :
    Adds [] db db' ∧ n = db.seqs seq + 1 ∧ db'.seqs seq = n := by
  obtain ⟨-, rfl, rfl⟩ := nextval_runs_iff.mp hr
  exact ⟨Adds.of_eq rfl (db.seqs_le_advance seq), rfl, db.seqs_advance_self seq⟩

theorem adds_insertVertexLlMeta {part : LinkedListMeta} (hr : (insertVertexLlMeta g l ns part).Runs db u db') :
    Adds [] db db' := by
  obtain ⟨m, -, rfl⟩ := insertVertexLlMeta_runs_iff.mp hr
  exact Adds.of_eq rfl fun _ => Nat.le_refl _

theorem adds_insertVertexLabel {row : VertexLabelRow} (hr : (insertVertexLabel g row).Runs db u db') :
    Adds [] db db' := by
  obtain ⟨rel, -, rfl⟩ := insertVertexLabel_runs_iff.mp hr
  exact Adds.of_eq rfl fun _ => Nat.le_refl _

theorem adds_insertLabel {row : EdgeLabelRow} (hr : (insertLabel g row).Runs db u db') : Adds [] db db' := by
  obtain ⟨rel, -, rfl⟩ := insertLabel_runs_iff.mp hr
  exact Adds.of_eq rfl fun _ => Nat.le_refl _

/-- A step that writes rows. -/
theorem adds_writeRows {f : ObjectDb → ObjectDb}
    (hr : (Prog.write fun s => (.ok (f s) : Except StorageErr ObjectDb)).Runs db u db')
    (hf : ∀ s, (f s).pgClass = s.pgClass ∧ (f s).seqs = s.seqs) : Adds [] db db' := by
  obtain rfl := (Except.ok.inj (Prog.runs_write_iff.mp hr)).symm
  exact Adds.of_eq (hf db).1 fun o => Nat.le_of_eq (congrFun (hf db).2 o).symm

theorem adds_insertGraph {row : NpGraphRow} (hr : (insertGraph row).Runs db u db') : Adds [] db db' := by
  unfold insertGraph at hr
  exact adds_writeRows hr fun _ => ⟨rfl, rfl⟩

theorem adds_updateAnnotationsTbl {rel t : Oid} (hr : (updateAnnotationsTbl rel l t).Runs db u db') :
    Adds [] db db' := by
  unfold updateAnnotationsTbl at hr
  exact adds_writeRows hr fun _ => ⟨rfl, rfl⟩

/-- The relations of a new vertex label with a partition. -/
def vertexLabelRelNames (p : Nat) : List VertexRel :=
  [.tbl, .physMap, .arraylist, .linkedListSeq, .linkedList p, .linkedListMeta, .annotations, .idSeq,
    .dictionary, .dictionarySeq, .dictionaryIndex]

/-- The relations of a new edge label. -/
def edgeLabelRelNames (annotated : Bool) : List EdgeRel :=
  [.tbl, .physMap] ++ (if annotated then [.annotations] else []) ++ [.idSeq]

/-- The numbers of a vertex label and of its partition. -/
theorem given_vertex {p s t : Nat} (hs : db.Has s (.graph g .vertexLabelIdSeq)) (hl : l ≤ db.seqs s)
    (ht : db.Has t (.vertex g l .linkedListSeq)) (hp : p ≤ db.seqs t) :
    ∀ rel ∈ vertexLabelRelNames p, Given db (.vertex g l rel) := by
  intro rel hrel x hx
  have hcases : x = (.graph g .vertexLabelIdSeq, l) ∨ x = (.vertex g l .linkedListSeq, p) := by
    cases rel with
    | linkedList q =>
      have hq : q = p := by simpa [vertexLabelRelNames] using hrel
      simpa [RelName.numbers, hq] using hx
    | _ => exact Or.inl (List.mem_singleton.mp hx)
  rcases hcases with rfl | rfl
  · exact ⟨s, hs, hl⟩
  · exact ⟨t, ht, hp⟩

theorem given_edge {s : Oid} (hs : db.Has s (.graph g .edgeLabelIdSeq)) (hl : l ≤ db.seqs s) (rel : EdgeRel) :
    Given db (.edge g l rel) := by
  intro x hx
  obtain rfl := List.mem_singleton.mp hx
  exact ⟨s, hs, hl⟩

/-- The relations of a vertex label, with a number that has been given out. -/
theorem adds_buildVertexLabelInfrastructure (hr : (buildVertexLabelInfrastructure g l ns).Runs db u db') :
    ∃ p, Adds ((vertexLabelRelNames p).map (.vertex g l)) db db' ∧
      ∀ {s : Oid}, db.Has s (.graph g .vertexLabelIdSeq) → l ≤ db.seqs s →
        ∀ rel ∈ vertexLabelRelNames p, Given db' (.vertex g l rel) := by
  obtain ⟨tbl, db₁, htbl, hr₁⟩ := Prog.runs_bind_iff.mp hr
  obtain ⟨physMap, db₂, hphys, hr₂⟩ := Prog.runs_bind_iff.mp hr₁
  obtain ⟨arraylist, db₃, harray, hr₃⟩ := Prog.runs_bind_iff.mp hr₂
  obtain ⟨llSeq, db₄, hllSeq, hr₄⟩ := Prog.runs_bind_iff.mp hr₃
  obtain ⟨llId, db₅, hnext, hr₅⟩ := Prog.runs_bind_iff.mp hr₄
  obtain ⟨llTable, db₆, hllTable, hr₆⟩ := Prog.runs_bind_iff.mp hr₅
  obtain ⟨llMeta, db₇, hllMeta, hr₇⟩ := Prog.runs_bind_iff.mp hr₆
  obtain ⟨u₈, db₈, hpart, hr₈⟩ := Prog.runs_bind_iff.mp hr₇
  obtain ⟨annots, db₉, hannots, hr₉⟩ := Prog.runs_bind_iff.mp hr₈
  obtain ⟨u₁₀, db₁₀, hinsert, hr₁₀⟩ := Prog.runs_bind_iff.mp hr₉
  obtain ⟨idSeq, db₁₁, hidSeq, hr₁₁⟩ := Prog.runs_bind_iff.mp hr₁₀
  obtain ⟨dict, db₁₂, hdict, hr₁₂⟩ := Prog.runs_bind_iff.mp hr₁₁
  obtain ⟨dictSeq, db₁₃, hdictSeq, hdictIdx⟩ := Prog.runs_bind_iff.mp hr₁₂
  obtain ⟨hadds₅, -, hllId⟩ := adds_nextval hnext
  have hrest := (((((((adds_createTable hllTable).trans (adds_createTable hllMeta)).trans
    (adds_insertVertexLlMeta hpart)).trans (adds_createTable hannots)).trans
    (adds_insertVertexLabel hinsert)).trans (adds_createTable hidSeq)).trans
    (adds_createTable hdict)).trans ((adds_createTable hdictSeq).trans (adds_createIndex hdictIdx))
  have hall := ((((adds_createTable htbl).trans (adds_createTable hphys)).trans
    (adds_createTable harray)).trans (adds_createTable hllSeq)).trans (hadds₅.trans hrest)
  refine ⟨llId, hall, fun {s} hs hl => given_vertex (hall.has hs) (Nat.le_trans hl (hall.seqs s))
    ((hadds₅.trans hrest).has (createTable_made hllSeq).has) ?_⟩
  rw [← hllId]
  exact hrest.seqs llSeq

theorem adds_buildEdgeLabel {annotated : Bool} (hr : (buildEdgeLabel g l ns annotated).Runs db u db') :
    Adds ((edgeLabelRelNames annotated).map (.edge g l)) db db' := by
  obtain ⟨tbl, db₁, htbl, hr₁⟩ := Prog.runs_bind_iff.mp hr
  obtain ⟨physMap, db₂, hphys, hr₂⟩ := Prog.runs_bind_iff.mp hr₁
  obtain ⟨annotTbl, db₃, hannots, hr₃⟩ := Prog.runs_bind_iff.mp hr₂
  obtain ⟨u₄, db₄, hinsert, hr₄⟩ := Prog.runs_bind_iff.mp hr₃
  obtain ⟨idSeq, db₅, hidSeq, hr₅⟩ := Prog.runs_bind_iff.mp hr₄
  obtain ⟨-, rfl⟩ := Prog.runs_ret_iff.mp hr₅
  have hfirst := (adds_createTable htbl).trans (adds_createTable hphys)
  have hlast := (adds_insertLabel hinsert).trans (adds_createTable hidSeq)
  unfold createEdgeAnnotations at hannots
  cases annotated with
  | true =>
    obtain ⟨o, db₆, hmake, hr₆⟩ := Prog.runs_bind_iff.mp hannots
    obtain ⟨-, rfl⟩ := Prog.runs_ret_iff.mp hr₆
    exact (hfirst.trans (adds_createTable hmake)).trans hlast
  | false =>
    obtain ⟨-, rfl⟩ := Prog.runs_ret_iff.mp hannots
    exact hfirst.trans hlast

/-- A routine that makes a graph's catalog of labels. -/
theorem adds_setupVertexLabelCatalog {res : Oid × Oid}
    (hr : (setupVertexLabelCatalog g ns).Runs db res db') :
    ∃ l p, Adds ([.graph g .vertexLabelIdSeq, .graph g .vertexLabel, .graph g .vertexLabelBtreeIdx,
        .graph g .vertexLabelGistIdx] ++ (vertexLabelRelNames p).map (.vertex g l)) db db' ∧
      ∀ rel ∈ vertexLabelRelNames p, Given db' (.vertex g l rel) := by
  obtain ⟨seq, db₁, hseq, hr₁⟩ := Prog.runs_bind_iff.mp hr
  obtain ⟨labels, db₂, hlabels, hr₂⟩ := Prog.runs_bind_iff.mp hr₁
  obtain ⟨u₃, db₃, hbtree, hr₃⟩ := Prog.runs_bind_iff.mp hr₂
  obtain ⟨u₄, db₄, hgist, hr₄⟩ := Prog.runs_bind_iff.mp hr₃
  obtain ⟨l, db₅, hnext, hr₅⟩ := Prog.runs_bind_iff.mp hr₄
  obtain ⟨u₆, db₆, hbuild, hr₆⟩ := Prog.runs_bind_iff.mp hr₅
  obtain ⟨-, rfl⟩ := Prog.runs_ret_iff.mp hr₆
  obtain ⟨hadds₅, -, hl⟩ := adds_nextval hnext
  obtain ⟨p, hadds₆, hgiven⟩ := adds_buildVertexLabelInfrastructure hbuild
  have hmiddle := ((adds_createTable hlabels).trans (adds_createIndex hbtree)).trans
    ((adds_createIndex hgist).trans hadds₅)
  have hhas := hmiddle.has (createTable_made hseq).has
  exact ⟨l, p, ((adds_createTable hseq).trans hmiddle).trans hadds₆, hgiven hhas (Nat.le_of_eq hl.symm)⟩

theorem adds_setupEdgeLabelCatalog {res : Oid × Oid} (hr : (setupEdgeLabelCatalog g ns).Runs db res db') :
    ∃ l, Adds ([.graph g .edgeLabelIdSeq, .graph g .edgeLabel, .graph g .edgeLabelBtreeIdx,
        .graph g .edgeLabelGistIdx] ++ (edgeLabelRelNames false).map (.edge g l)) db db' ∧
      ∀ rel, Given db' (.edge g l rel) := by
  obtain ⟨seq, db₁, hseq, hr₁⟩ := Prog.runs_bind_iff.mp hr
  obtain ⟨labels, db₂, hlabels, hr₂⟩ := Prog.runs_bind_iff.mp hr₁
  obtain ⟨u₃, db₃, hbtree, hr₃⟩ := Prog.runs_bind_iff.mp hr₂
  obtain ⟨u₄, db₄, hgist, hr₄⟩ := Prog.runs_bind_iff.mp hr₃
  obtain ⟨l, db₅, hnext, hr₅⟩ := Prog.runs_bind_iff.mp hr₄
  obtain ⟨u₆, db₆, hbuild, hr₆⟩ := Prog.runs_bind_iff.mp hr₅
  obtain ⟨-, rfl⟩ := Prog.runs_ret_iff.mp hr₆
  obtain ⟨hadds₅, -, hl⟩ := adds_nextval hnext
  have hadds₆ := adds_buildEdgeLabel hbuild
  have hmiddle := ((adds_createTable hlabels).trans (adds_createIndex hbtree)).trans
    ((adds_createIndex hgist).trans hadds₅)
  have hhas := hmiddle.has (createTable_made hseq).has
  exact ⟨l, ((adds_createTable hseq).trans hmiddle).trans hadds₆,
    given_edge (hadds₆.has hhas) (Nat.le_trans (Nat.le_of_eq hl.symm) (hadds₆.seqs seq))⟩

/-! ## Calls -/

theorem vertexLabelRelNames_nodup (p : Nat) : (vertexLabelRelNames p).Nodup := by
  simp [vertexLabelRelNames]

theorem edgeLabelRelNames_nodup (annotated : Bool) : (edgeLabelRelNames annotated).Nodup := by
  cases annotated <;> decide

/-- The relations of a new graph, with its first labels. -/
def newGraphNames (g l p l' : Nat) : List RelName :=
  ([.graph g .vertexLabelIdSeq, .graph g .vertexLabel, .graph g .vertexLabelBtreeIdx,
      .graph g .vertexLabelGistIdx] ++ (vertexLabelRelNames p).map (.vertex g l)) ++
    (([.graph g .edgeLabelIdSeq, .graph g .edgeLabel, .graph g .edgeLabelBtreeIdx,
      .graph g .edgeLabelGistIdx] ++ (edgeLabelRelNames false).map (.edge g l')) ++
    [.graph g .annotationSchema, .graph g .annotationSchemaPhysMap, .graph g .labelCatalog,
      .graph g .labelCatalogIdx])

theorem newGraphNames_nodup (g l p l' : Nat) : (newGraphNames g l p l').Nodup := by
  simp [newGraphNames, vertexLabelRelNames, edgeLabelRelNames]

theorem mem_newGraphNames {p l' : Nat} (h : name ∈ newGraphNames g l p l') :
    (∃ rel, name = .graph g rel) ∨ (∃ rel ∈ vertexLabelRelNames p, name = .vertex g l rel) ∨
      ∃ rel, name = .edge g l' rel := by
  simp only [newGraphNames, List.mem_append, List.mem_cons, List.mem_map, List.not_mem_nil, or_false] at h
  rcases h with ((rfl | rfl | rfl | rfl) | ⟨rel, hrel, rfl⟩) |
    (((rfl | rfl | rfl | rfl) | ⟨rel, -, rfl⟩) | (rfl | rfl | rfl | rfl))
  case inl.inr => exact Or.inr (Or.inl ⟨rel, hrel, rfl⟩)
  case inr.inl.inr => exact Or.inr (Or.inr ⟨rel, rfl⟩)
  all_goals exact Or.inl ⟨_, rfl⟩

namespace UniqueNames

/-- The next id of the vertex labels is in no name. -/
theorem buildNextVertexLabel {db₁ : ObjectDb} {seq : Oid} (h : UniqueNames db)
    (hseq : db.Has seq (.graph g .vertexLabelIdSeq)) (hnext : (nextval seq).Runs db l db₁)
    (hbuild : (buildVertexLabelInfrastructure g l ns).Runs db₁ u db') : UniqueNames db' := by
  obtain ⟨hadds₁, hl, hl₁⟩ := adds_nextval hnext
  obtain ⟨p, hadds₂, hgiven⟩ := adds_buildVertexLabelInfrastructure hbuild
  have hfresh : ∀ rel, RelName.vertex g l rel ∉ db.relnames := fun rel =>
    h.not_mem_of_lt hseq (by rw [hl]; exact Nat.lt_succ_self _) (RelName.mem_numbers_vertex g l rel)
  refine h.adds (hadds₁.trans hadds₂)
    ((vertexLabelRelNames_nodup p).map fun a b he => by injection he) (fun n hn => ?_) (fun n hn => ?_)
    fun n hn x hx hmem => ?_
  · obtain ⟨rel, -, rfl⟩ := List.mem_map.mp hn
    exact hfresh rel
  · obtain ⟨rel, hrel, rfl⟩ := List.mem_map.mp hn
    exact hgiven (hadds₁.has hseq) (Nat.le_of_eq hl₁.symm) rel hrel
  · obtain ⟨rel, -, he⟩ := List.mem_map.mp hmem
    rcases RelName.mem_numbers_cases hx with ⟨g', rel', hx'⟩ | ⟨g', l', p', hx', rfl⟩
    · rw [hx'] at he
      cases he
    · rw [hx'] at he
      cases he
      exact hfresh _ hn

/-- The next id of the edge labels is in no name. -/
theorem buildNextEdgeLabel {db₁ : ObjectDb} {seq : Oid} {annotated : Bool} (h : UniqueNames db)
    (hseq : db.Has seq (.graph g .edgeLabelIdSeq)) (hnext : (nextval seq).Runs db l db₁)
    (hbuild : (buildEdgeLabel g l ns annotated).Runs db₁ u db') : UniqueNames db' := by
  obtain ⟨hadds₁, hl, hl₁⟩ := adds_nextval hnext
  have hadds₂ := adds_buildEdgeLabel hbuild
  have hadds := hadds₁.trans hadds₂
  refine h.adds hadds ((edgeLabelRelNames_nodup annotated).map fun a b he => by injection he)
    (fun n hn => ?_) (fun n hn => ?_) fun n hn x hx hmem => ?_
  · obtain ⟨rel, -, rfl⟩ := List.mem_map.mp hn
    exact h.not_mem_of_lt hseq (by rw [hl]; exact Nat.lt_succ_self _) (List.mem_singleton.mpr rfl)
  · obtain ⟨rel, -, rfl⟩ := List.mem_map.mp hn
    exact given_edge (hadds.has hseq) (Nat.le_trans (Nat.le_of_eq hl₁.symm) (hadds₂.seqs seq)) rel
  · obtain ⟨rel, -, he⟩ := List.mem_map.mp hmem
    rcases RelName.mem_numbers_cases hx with ⟨g', rel', hx'⟩ | ⟨g', l', p', hx', -⟩
    · rw [hx'] at he
      cases he
    · rw [hx'] at he
      cases he

/-- A graph of a new id. -/
theorem createGraph {name : String} (h : UniqueNames db)
    (hfree : ∀ c ∈ db.pgClass, c.relname.graphId ≠ db.npGraphIdSeq + 1)
    (hr : (Storage.createGraph name ns).Runs db u db') : UniqueNames db' := by
  obtain ⟨u₀, db₀, hcheck, hr₀⟩ := Prog.runs_bind_iff.mp hr
  obtain ⟨-, rfl⟩ := Prog.runs_read_iff.mp hcheck
  obtain ⟨g, db₁, hnext, hr₁⟩ := Prog.runs_bind_iff.mp hr₀
  obtain ⟨⟨vertexIdSeq, vertexLabels⟩, db₂, hvertex, hr₂⟩ := Prog.runs_bind_iff.mp hr₁
  obtain ⟨⟨edgeIdSeq, edgeLabels⟩, db₃, hedge, hr₃⟩ := Prog.runs_bind_iff.mp hr₂
  obtain ⟨schemaTbl, db₄, htbl, hr₄⟩ := Prog.runs_bind_iff.mp hr₃
  obtain ⟨schemaPmap, db₅, hpmap, hr₅⟩ := Prog.runs_bind_iff.mp hr₄
  obtain ⟨u₆, db₆, hcatalog, hinsert⟩ := Prog.runs_bind_iff.mp hr₅
  obtain ⟨o, db₇, hlabels, hidx⟩ := Prog.runs_bind_iff.mp hcatalog
  obtain ⟨hg, rfl⟩ : g = db₀.npGraphIdSeq + 1 ∧
      db₁ = { db₀ with npGraphIdSeq := db₀.npGraphIdSeq + 1 } := by
    have hstep := Prog.runs_step_iff.mp hnext
    simpa [eq_comm] using hstep
  have hadds₁ : Adds [] db₀ { db₀ with npGraphIdSeq := db₀.npGraphIdSeq + 1 } :=
    Adds.of_eq rfl fun _ => Nat.le_refl _
  obtain ⟨l, p, hadds₂, hgiven₂⟩ := adds_setupVertexLabelCatalog hvertex
  obtain ⟨l', hadds₃, hgiven₃⟩ := adds_setupEdgeLabelCatalog hedge
  have hrest := (((adds_createTable htbl).trans (adds_createTable hpmap)).trans
    (adds_createTable hlabels)).trans ((adds_createIndex hidx).trans
    (adds_insertGraph hinsert))
  have hadds : Adds (newGraphNames g l p l') db₀ db' := (hadds₁.trans hadds₂).trans (hadds₃.trans hrest)
  have hgraph : ∀ n ∈ newGraphNames g l p l', n.graphId = g := fun n hn => by
    rcases mem_newGraphNames hn with ⟨rel, rfl⟩ | ⟨rel, -, rfl⟩ | ⟨rel, rfl⟩ <;> rfl
  have hfree' : ∀ n ∈ db₀.relnames, n.graphId ≠ g := fun n hn hid => by
    obtain ⟨c, hc, hname⟩ := List.mem_map.mp hn
    exact hfree c hc (by rw [hname, hid, hg])
  refine h.adds hadds (newGraphNames_nodup g l p l') (fun n hn hold => hfree' n hold (hgraph n hn))
    (fun n hn => ?_) fun n hn x hx hmem => ?_
  · rcases mem_newGraphNames hn with ⟨rel, rfl⟩ | ⟨rel, hrel, rfl⟩ | ⟨rel, rfl⟩
    · exact nofun
    · exact (hadds₃.trans hrest).given (hgiven₂ rel hrel)
    · exact hrest.given (hgiven₃ rel)
  · exact hfree' n hn ((RelName.graphId_of_mem_numbers hx).symm.trans (hgraph _ hmem))

/-- One edge label gets its table for annotations. -/
theorem npApplyAddAnnotationToTuple {graphs : List NpGraphRow} {graph : NpGraphRow} {row : EdgeLabelRow}
    (h : UniqueNames db) (hinv : Inv graphs db []) (hgr : graph ∈ graphs) (hok : GraphRowOk db graph)
    (hrow : ∃ r ∈ db.edgeLabels graph.edgeLabels, r.id = row.id)
    (hr : (Storage.npApplyAddAnnotationToTuple graph.id graph.namespaceOid graph.edgeLabels row).Runs
      db u db') : UniqueNames db' := by
  unfold Storage.npApplyAddAnnotationToTuple at hr
  split at hr
  · obtain ⟨-, rfl⟩ := Prog.runs_ret_iff.mp hr
    exact h
  · obtain ⟨o, db₁, hmake, hupdate⟩ := Prog.runs_bind_iff.mp hr
    obtain ⟨hfree, -⟩ := createRelation_runs_iff.mp hmake
    have hadds := (adds_createTable hmake).trans (adds_updateAnnotationsTbl hupdate)
    have hnew : RelName.edge graph.id row.id .annotations ∉ db.relnames := by
      intro hmem
      obtain ⟨c, hc, hname⟩ := List.mem_map.mp hmem
      -- it would be recorded in a row, and so be in the schema of the graph
      have hrec := (hinv.complete c hc).resolve_left List.not_mem_nil graph hgr (by rw [hname]; rfl)
      unfold Recorded at hrec
      rw [hname] at hrec
      obtain ⟨r, hr, -, hannot⟩ := hrec
      obtain ⟨c', hc', hoid, -, hns, -⟩ := (hinv.edgeRows graph hgr r hr).annotationsTbl c.oid hannot
      obtain rfl := List.inj_on_of_nodup_map hinv.distinct hc' hc hoid
      exact hfree c' hc hname hns
    obtain ⟨r, hr, hid⟩ := hrow
    refine h.adds hadds (List.nodup_singleton _) (fun n hn => ?_) (fun n hn => ?_) fun n _ x hx hmem => ?_
    · rwa [List.mem_singleton.mp hn]
    · rw [List.mem_singleton.mp hn]
      refine hadds.given (given_edge hok.edgeIdSeq ?_ _)
      rw [← hid]
      exact (hinv.edgeIds graph hgr).2 r hr
    · have he := List.mem_singleton.mp hmem
      rcases RelName.mem_numbers_cases hx with ⟨g', rel', hx'⟩ | ⟨g', l', p', hx', -⟩ <;>
        exact absurd (hx'.symm.trans he) nofun

theorem forEachRow {graphs : List NpGraphRow} {graph : NpGraphRow} {rows : List EdgeLabelRow}
    (h : UniqueNames db) (hinv : Inv graphs db []) (hgr : graph ∈ graphs) (hok : GraphRowOk db graph)
    (hrows : ∀ row ∈ rows, ∃ r ∈ db.edgeLabels graph.edgeLabels, r.id = row.id)
    (hr : (Storage.forEachRow (Storage.npApplyAddAnnotationToTuple graph.id graph.namespaceOid
      graph.edgeLabels) rows).Runs db u db') : UniqueNames db' := by
  induction rows generalizing db with
  | nil =>
    obtain ⟨-, rfl⟩ := Prog.runs_ret_iff.mp hr
    exact h
  | cons row rest ih =>
    obtain ⟨u₁, db₁, happly, hrest⟩ := Prog.runs_bind_iff.mp hr
    have hrow := hrows row List.mem_cons_self
    obtain ⟨hinv₁, hgrow⟩ :=
      hinv.npApplyAddAnnotationToTuple hgr (hinv.lt_of_has hok.edgeLabels) hrow happly
    refine ih (h.npApplyAddAnnotationToTuple hinv hgr hok hrow happly) hinv₁ (hok.grows hgrow)
      (fun r hr => ?_) hrest
    obtain ⟨r₀, hr₀, hid⟩ := hrows r (List.mem_cons_of_mem _ hr)
    obtain ⟨r₁, hr₁, hid₁, -⟩ := hgrow.edgeLabels _ r₀ hr₀
    exact ⟨r₁, hr₁, hid₁.trans hid⟩

/-- The next partition of a label. -/
theorem createNewActiveLinkedList {graph : NpGraphRow} {label : VertexLabelRow} (h : UniqueNames db)
    (hok : GraphRowOk db graph) (hlabel : VertexRowOk db graph.id label)
    (hr : (Storage.createNewActiveLinkedList graph.id label.id label ns).Runs db u db') :
    UniqueNames db' := by
  obtain ⟨p, db₁, hnext, hr₁⟩ := Prog.runs_bind_iff.mp hr
  obtain ⟨newListOid, db₂, hmake, hwrite⟩ := Prog.runs_bind_iff.mp hr₁
  obtain ⟨hadds₁, hp, hp₁⟩ := adds_nextval hnext
  have hrest := (adds_createTable hmake).trans (adds_writeRows hwrite fun _ => ⟨rfl, rfl⟩)
  have hadds := hadds₁.trans hrest
  have hnum : label.id ≤ db.seqs graph.vertexIdSeq :=
    h.given _ (mem_relnames_iff.mpr ⟨_, hlabel.tbl⟩) _ (RelName.mem_numbers_vertex ..) _ hok.vertexIdSeq
  refine h.adds hadds (List.nodup_singleton _) (fun n hn => ?_) (fun n hn => ?_) fun n _ x hx hmem => ?_
  · rw [List.mem_singleton.mp hn]
    exact h.not_mem_of_lt hlabel.linkedListSeq (by rw [hp]; exact Nat.lt_succ_self _)
      (List.mem_cons_of_mem _ (List.mem_singleton.mpr rfl))
  · rw [List.mem_singleton.mp hn]
    exact given_vertex (hadds.has hok.vertexIdSeq) (Nat.le_trans hnum (hadds.seqs _))
      (hadds.has hlabel.linkedListSeq) (hp₁ ▸ hrest.seqs label.linkedListSeq) _
      (by simp [vertexLabelRelNames])
  · have he := List.mem_singleton.mp hmem
    rcases RelName.mem_numbers_cases hx with ⟨g', rel', hx'⟩ | ⟨g', l', p', hx', -⟩ <;>
      exact absurd (hx'.symm.trans he) (by simp)

/-- A partition is chosen, after a rotation if there is none to choose. -/
theorem chooseOldest {graph : NpGraphRow} {label : VertexLabelRow} (h : UniqueNames db)
    (hok : GraphRowOk db graph) (hlabel : VertexRowOk db graph.id label)
    (hr : (Storage.chooseOldest graph.id label.id label ns).Runs db o db') : UniqueNames db' := by
  obtain ⟨oldest, db₁, hread, hr₁⟩ := Prog.runs_bind_iff.mp hr
  obtain ⟨-, rfl⟩ := Prog.runs_read_iff.mp hread
  cases oldest with
  | some oldest =>
    obtain ⟨-, rfl⟩ := Prog.runs_ret_iff.mp hr₁
    exact h
  | none =>
    obtain ⟨u₂, db₂, hcreate, hr₂⟩ := Prog.runs_bind_iff.mp hr₁
    obtain ⟨again, db₃, hread', hr₃⟩ := Prog.runs_bind_iff.mp hr₂
    obtain ⟨-, rfl⟩ := Prog.runs_read_iff.mp hread'
    cases again with
    | some again =>
      obtain ⟨-, rfl⟩ := Prog.runs_ret_iff.mp hr₃
      exact h.createNewActiveLinkedList hok hlabel hcreate
    | none => exact absurd hr₃ (by simp)

theorem dropGraph {name : String} (h : UniqueNames db) (hs : StorageInv db)
    (hr : (Storage.dropGraph name ns).Runs db u db') : UniqueNames db' := by
  have hs' := hs.dropGraph hr
  obtain ⟨graph, db₁, hfind, -⟩ := Prog.runs_bind_iff.mp hr
  obtain ⟨rfl, hgr, rfl, rfl⟩ := StorageInv.mem_of_findGraph hfind
  obtain ⟨db₂, hr₂, hdrop⟩ := dropGraph_runs hs hgr
  obtain ⟨-, rfl⟩ := hr.det hr₂
  have hsub : (withoutGraph graph db₂).pgClass.Sublist db₁.pgClass := by
    show db₂.pgClass.Sublist db₁.pgClass
    rw [hdrop.pgClass]
    exact List.filter_sublist
  refine ⟨(hsub.map PgClass.relname).nodup h.nodup, fun n hn x hx s ⟨c, hc, hspec⟩ => ?_,
    fun c hc t ht => ?_⟩
  · show x.2 ≤ db₂.seqs s
    rw [hdrop.seqs]
    exact h.given n ((hsub.map PgClass.relname).subset hn) x hx s ⟨c, hsub.subset hc, hspec⟩
  · -- the table of an index that is left is left
    obtain ⟨c₁, hc₁, hoid₁, -⟩ := hs'.inv.indexes c hc t ht
    obtain ⟨c₂, hc₂, hoid₂, hns⟩ := h.placed c (hsub.subset hc) t ht
    obtain rfl := List.inj_on_of_nodup_map hs.inv.distinct (hsub.subset hc₁) hc₂ (hoid₁.trans hoid₂.symm)
    exact ⟨c₁, hc₁, hoid₁, hns⟩

theorem seeRows (h : UniqueNames db) : UniqueNames db.commandCounterIncrement := { h with }

theorem rollback {before : ObjectDb} (h : UniqueNames before) (hforward : Forward before db) :
    UniqueNames (before.rollback db) :=
  ⟨h.nodup, fun n hn x hx s hs => Nat.le_trans (h.given n hn x hx s hs) (hforward.seqs s), h.placed⟩

theorem empty : UniqueNames .empty := ⟨List.nodup_nil, nofun, nofun⟩

/-- **Every call keeps names different.** -/
theorem run {c : StorageCall} (h : UniqueNames db) (hs : StorageInv db) (hr : c.run.Runs db u db') :
    UniqueNames db' := by
  cases c with
  | createGraph name ns =>
    refine h.createGraph (fun c hc => ?_) hr
    have := hs.relIds c hc
    omega
  | createVlabel name ns =>
    obtain ⟨graph, db₁, hfind, hr₁⟩ := Prog.runs_bind_iff.mp hr
    obtain ⟨rfl, hgr, -⟩ := StorageInv.mem_of_findGraph hfind
    obtain ⟨l, db₂, hnext, hbuild⟩ := Prog.runs_bind_iff.mp hr₁
    exact h.buildNextVertexLabel (hs.rows graph hgr).vertexIdSeq hnext hbuild
  | createVlabelFromPath graphId =>
    obtain ⟨graph, db₁, hfind, hr₁⟩ := Prog.runs_bind_iff.mp hr
    obtain ⟨rfl, hgr⟩ := StorageInv.mem_of_findGraphById hfind
    obtain ⟨seq, db₂, hseq, hr₂⟩ := Prog.runs_bind_iff.mp hr₁
    obtain ⟨hfound, rfl⟩ := Prog.runs_read_iff.mp hseq
    obtain ⟨l, db₃, hnext, hbuild⟩ := Prog.runs_bind_iff.mp hr₂
    refine h.buildNextVertexLabel ?_ hnext hbuild
    -- whatever schema the sequence of the name is in
    cases hsearch : db₂.pgClass.find? fun c => c.relname = .graph graph.id .vertexLabelIdSeq with
    | none => simp [hsearch] at hfound
    | some c =>
      obtain rfl : c.oid = seq := by simpa [hsearch] using hfound
      exact ⟨c, List.mem_of_find?_eq_some hsearch, rfl, by simpa using List.find?_some hsearch⟩
  | createElabel name ns annotated =>
    obtain ⟨graph, db₁, hfind, hr₁⟩ := Prog.runs_bind_iff.mp hr
    obtain ⟨rfl, hgr, -⟩ := StorageInv.mem_of_findGraph hfind
    obtain ⟨l, db₂, hnext, hbuild⟩ := Prog.runs_bind_iff.mp hr₁
    exact h.buildNextEdgeLabel (hs.rows graph hgr).edgeIdSeq hnext hbuild
  | forgeEdgeLabel graphId annotated =>
    obtain ⟨graph, db₁, hfind, hr₁⟩ := Prog.runs_bind_iff.mp hr
    obtain ⟨rfl, hgr⟩ := StorageInv.mem_of_findGraphById hfind
    obtain ⟨l, db₂, hnext, hbuild⟩ := Prog.runs_bind_iff.mp hr₁
    exact h.buildNextEdgeLabel (hs.rows graph hgr).edgeIdSeq hnext hbuild
  | addAnnotationLabel name ns labelIds =>
    obtain ⟨graph, db₁, hfind, hr₁⟩ := Prog.runs_bind_iff.mp hr
    obtain ⟨rfl, hgr, -, rfl⟩ := StorageInv.mem_of_findGraph hfind
    obtain ⟨rel, db₂, hrel, hr₂⟩ := Prog.runs_bind_iff.mp hr₁
    obtain ⟨hrel, rfl⟩ := npRelationId_runs_iff.mp hrel
    obtain rfl := Option.some.inj (hrel.symm.trans (hs.rows graph hgr).edgeNamed)
    obtain ⟨tups, db₃, htups, hloop⟩ := Prog.runs_bind_iff.mp hr₂
    obtain ⟨htups, rfl⟩ := Prog.runs_read_iff.mp htups
    obtain rfl := Except.ok.inj htups
    exact h.forEachRow hs.inv hgr (hs.rows graph hgr)
      (fun row hrow => ⟨row, (List.mem_filter.mp hrow).1, rfl⟩) hloop
  | rotateActiveLinkedListTable name ns labelId =>
    obtain ⟨graph, db₁, hfind, hr₁⟩ := Prog.runs_bind_iff.mp hr
    obtain ⟨rfl, hgr, -⟩ := StorageInv.mem_of_findGraph hfind
    obtain ⟨label, db₂, hlabel, hcreate⟩ := Prog.runs_bind_iff.mp hr₁
    obtain ⟨rfl, hmem, rfl⟩ := mem_of_findVertexLabel hlabel
    exact h.createNewActiveLinkedList (hs.rows graph hgr) (hs.inv.vertexRows graph hgr label hmem) hcreate
  | compactOldestLinkedListTable name ns labelId =>
    obtain ⟨graph, db₁, hfind, hr₁⟩ := Prog.runs_bind_iff.mp hr
    obtain ⟨rfl, hgr, -⟩ := StorageInv.mem_of_findGraph hfind
    obtain ⟨label, db₂, hlabel, hr₂⟩ := Prog.runs_bind_iff.mp hr₁
    obtain ⟨rfl, hmem, rfl⟩ := mem_of_findVertexLabel hlabel
    obtain ⟨oldest, db₃, hchoose, hwrite⟩ := Prog.runs_bind_iff.mp hr₂
    have h₃ := h.chooseOldest (hs.rows graph hgr) (hs.inv.vertexRows graph hgr label hmem) hchoose
    obtain rfl := (Except.ok.inj (Prog.runs_write_iff.mp hwrite)).symm
    exact { h₃ with }
  | dropGraph name ns => exact h.dropGraph hs hr

end UniqueNames

end Storage

end NeoPostGraph
