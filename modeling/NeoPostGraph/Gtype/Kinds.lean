import NeoPostGraph.Gtype.Accepted

/-!
# Kinds that have no token

`gtype_put_escaped_value` (`gtype.c:150-222`) prints a numeric, a date or an address as its type does, and
without a typecast. The lexer has tokens for strings, integers, floats, words and addresses with dots only.

* `NoCast`: no scalar of a text has an annotation.
* `GtypeToken.scalar`: the scalar of a token, if it has one.

Results:
* `value_hasToken`: without a typecast every scalar that is read is of a kind that has a token.
* `gtypeIn_needs_typecast`: so a datum with a scalar of another kind is not what is read from what is printed
  for it.
-/

namespace NeoPostGraph

/-! ## Texts without a typecast -/

/-- The scalar of a callback has an annotation. -/
def SemEvent.hasCast : SemEvent → Bool
  | scalar _ _ annot => annot.isSome
  | _ => false

/-- No scalar of a tree has an annotation. -/
def GtypeTree.NoCast (tree : GtypeTree) : Prop := ∀ event ∈ tree.events, event.hasCast = false

/-- A text has no typecast: what is parsed of it has none. Two colons in a string are none. -/
def NoCast (utf8 : Bool) (text : List UInt8) : Prop :=
  ∀ tree : GtypeTree, tree.Document utf8 text → tree.NoCast

/-- The callbacks note it: another tree of the text has the same traversal. -/
theorem noCast_iff {utf8 : Bool} {text : List UInt8} : NoCast utf8 text ↔
    (parseGtype utf8 noteEvent text []).toOption.all (fun events => events.all fun event => !event.hasCast) = true := by
  cases hparse : parseGtype utf8 noteEvent text [] with
  | error e =>
    refine ⟨fun _ => rfl, fun _ tree hdoc => ?_⟩
    rw [parseGtype_complete hdoc (runEvents_noteEvent tree.events [])] at hparse
    cases hparse
  | ok events =>
    have hevents : ∀ tree : GtypeTree, tree.Document utf8 text → tree.events = events := by
      intro tree hdoc
      rw [parseGtype_complete hdoc (runEvents_noteEvent tree.events [])] at hparse
      exact Except.ok.inj hparse
    obtain ⟨tree, hdoc, -⟩ := parseGtype_sound hparse
    show _ ↔ events.all (fun event => !event.hasCast) = true
    rw [List.all_eq_true]
    simp only [Bool.not_eq_true']
    constructor
    · intro h
      rw [← hevents tree hdoc]
      exact h tree hdoc
    · intro h tree' hdoc'
      unfold GtypeTree.NoCast
      rwa [hevents tree' hdoc']

instance (utf8 : Bool) (text : List UInt8) : Decidable (NoCast utf8 text) := decidable_of_iff' _ noCast_iff

section

variable {utf8 : Bool} {io : ScalarIn} {t : TokenType}

theorem mem_elemEvents {trees : List GtypeTree} {tree : GtypeTree} {event : SemEvent} (htree : tree ∈ trees)
    (h : event ∈ tree.events) : event ∈ elemEvents trees := by
  rw [elemEvents_eq]
  exact List.mem_flatMap.mpr ⟨tree, htree, List.mem_cons_of_mem _ (List.mem_append_left _ h)⟩

theorem mem_fieldEvents {fields : List (List UInt8 × GtypeTree)} {f : List UInt8 × GtypeTree} {event : SemEvent}
    (hf : f ∈ fields) (h : event ∈ f.2.events) : event ∈ fieldEvents fields := by
  rw [fieldEvents_eq]
  exact List.mem_flatMap.mpr ⟨f, hf, List.mem_cons_of_mem _ (List.mem_append_left _ h)⟩

/-- The elements of an array without a typecast have none. -/
theorem GtypeTree.NoCast.elem {elems : List GtypeTree} (h : (GtypeTree.array elems).NoCast) :
    ∀ tree ∈ elems, tree.NoCast := fun _ htree event hmem =>
  h event (List.mem_cons_of_mem _ (List.mem_append_left _ (mem_elemEvents htree hmem)))

/-- Neither has the value of a field. -/
theorem GtypeTree.NoCast.field {fields : List (List UInt8 × GtypeTree)} (h : (GtypeTree.object fields).NoCast) :
    ∀ f ∈ fields, f.2.NoCast := fun _ hf event hmem =>
  h event (List.mem_cons_of_mem _ (List.mem_append_left _ (mem_fieldEvents hf hmem)))

/-! ## Values without a typecast -/

theorem pairScalars_eq (pairs : List (List UInt8 × GtypeValue)) :
    pairScalars pairs = pairs.flatMap fun p => p.2.scalars := by
  induction pairs with
  | nil => rfl
  | cons p pairs ih => rw [pairScalars, ih, List.flatMap_cons]

/-- A scalar token is read as one of the kinds that have one. -/
theorem scalarOfToken_hasToken {token : List UInt8} {s : GtypeScalar} (ht : t.isScalar = true)
    (h : scalarOfToken io token t = .ok s) : s.HasToken := by
  cases t with
  | string =>
    rw [scalarOfToken, checkStringLength] at h
    split_ifs at h
    · cases h
    · cases h
      trivial
  | integer | float | inet =>
    rw [scalarOfToken] at h
    obtain ⟨a, -, rfl⟩ := inputScalar_ok h
    trivial
  | trueToken | falseToken | nullToken =>
    cases h
    trivial
  | _ => cases ht

mutual

/-- **Without a typecast every scalar that is read is of a kind that has a token.** -/
theorem value_hasToken (utf8 : Bool) (io : ScalarIn) : (tree : GtypeTree) → tree.NoCast → tree.Somewhere utf8 →
    ∀ v, tree.value io = .ok v → ∀ s ∈ v.scalars, s.HasToken
  | .scalar token t annot, hcast, ⟨_, _, ht, _⟩, v, hv => by
    obtain rfl := Option.not_isSome_iff_eq_none.mp (Bool.eq_false_iff.mp (hcast _ (List.mem_singleton_self _)))
    obtain ⟨s, hs, rfl⟩ := map_eq_ok hv
    exact List.forall_mem_singleton.mpr (scalarOfToken_hasToken ht hs)
  | .array elems, hcast, ⟨_, _, _, _, _, _, _, hlist, _⟩, v, hv => by
    obtain ⟨vals, hvals, rfl⟩ := map_eq_ok hv
    have hregions := listAt_regions hlist
    rw [elemRegions_eq, List.forall_mem_map] at hregions
    exact elemValues_hasToken utf8 io elems hcast.elem hregions 0 vals hvals
  | .object fields, hcast, ⟨_, _, _, _, _, _, _, hlist, _⟩, v, hv => by
    obtain ⟨pairs, hpairs, rfl⟩ := map_eq_ok hv
    have hregions := listAt_regions hlist
    rw [fieldRegions_eq, List.forall_mem_map] at hregions
    have hall := fieldValues_hasToken utf8 io fields hcast.field (fun f hf => by
      obtain ⟨i, r, c, r₁, r₂, -, -, hvalue⟩ := hregions f hf
      exact ⟨r₂, r, hvalue⟩) 0 pairs hpairs
    intro s hs
    rw [GtypeValue.scalars, pairScalars_eq] at hs
    obtain ⟨p, hp, hs⟩ := List.mem_flatMap.mp hs
    refine hall s ?_
    rw [pairScalars_eq]
    exact List.mem_flatMap.mpr ⟨p, mem_of_mem_lastBindings hp, hs⟩

theorem elemValues_hasToken (utf8 : Bool) (io : ScalarIn) : (trees : List GtypeTree) →
    (∀ tree ∈ trees, tree.NoCast) → (∀ tree ∈ trees, tree.Somewhere utf8) → ∀ num vals,
    elemValues io num trees = .ok vals → ∀ s ∈ elemScalars vals, s.HasToken
  | [], _, _, num, vals, hv => by
    cases hv
    exact fun s hs => absurd hs List.not_mem_nil
  | tree :: trees, hcast, hat, num, vals, hv => by
    rw [List.forall_mem_cons] at hcast hat
    obtain ⟨val, hval, hv⟩ := bind_eq_ok hv
    split_ifs at hv
    obtain ⟨vals, hvals, rfl⟩ := map_eq_ok hv
    rw [elemScalars, List.forall_mem_append]
    exact ⟨value_hasToken utf8 io tree hcast.1 hat.1 val hval,
      elemValues_hasToken utf8 io trees hcast.2 hat.2 _ vals hvals⟩

theorem fieldValues_hasToken (utf8 : Bool) (io : ScalarIn) : (fields : List (List UInt8 × GtypeTree)) →
    (∀ f ∈ fields, f.2.NoCast) → (∀ f ∈ fields, f.2.Somewhere utf8) → ∀ num pairs,
    fieldValues io num fields = .ok pairs → ∀ s ∈ pairScalars pairs, s.HasToken
  | [], _, _, num, pairs, hv => by
    cases hv
    exact fun s hs => absurd hs List.not_mem_nil
  | (fname, tree) :: fields, hcast, hat, num, pairs, hv => by
    rw [List.forall_mem_cons] at hcast hat
    obtain ⟨key, -, hv⟩ := bind_eq_ok hv
    split_ifs at hv
    obtain ⟨val, hval, hv⟩ := bind_eq_ok hv
    obtain ⟨pairs, hpairs, rfl⟩ := map_eq_ok hv
    rw [pairScalars, List.forall_mem_append]
    exact ⟨value_hasToken utf8 io tree hcast.1 hat.1 val hval,
      fieldValues_hasToken utf8 io fields hcast.2 hat.2 _ pairs hpairs⟩

end

end

/-! ## What is lost -/

/-- The scalar of a token. -/
def GtypeToken.scalar : GtypeToken → Option GtypeScalar
  | .elem s | .value s => some s
  | _ => none

mutual

/-- The scalars of a value are those of its tokens. -/
theorem scalars_of_tokens (scalarToken : GtypeScalar → GtypeToken) (hscalar : ∀ s, (scalarToken s).scalar = some s) :
    (v : GtypeValue) → (v.tokens scalarToken).filterMap GtypeToken.scalar = v.scalars
  | .scalar s => by
    rw [GtypeValue.tokens, List.filterMap_cons, hscalar]
    rfl
  | .array rawScalar elems => by
    rw [GtypeValue.tokens, List.cons_append, List.filterMap_cons, List.filterMap_append, scalars_of_elemTokens elems]
    exact List.append_nil _
  | .object pairs => by
    rw [GtypeValue.tokens, List.cons_append, List.filterMap_cons, List.filterMap_append, scalars_of_pairTokens pairs]
    exact List.append_nil _

theorem scalars_of_elemTokens : (vs : List GtypeValue) →
    (elemTokens vs).filterMap GtypeToken.scalar = elemScalars vs
  | [] => rfl
  | v :: vs => by
    rw [elemTokens, List.filterMap_append, scalars_of_tokens .elem (fun _ => rfl) v, scalars_of_elemTokens vs]
    rfl

theorem scalars_of_pairTokens : (pairs : List (List UInt8 × GtypeValue)) →
    (pairTokens pairs).filterMap GtypeToken.scalar = pairScalars pairs
  | [] => rfl
  | (key, v) :: pairs => by
    rw [pairTokens, List.cons_append, List.filterMap_cons, List.filterMap_append,
      scalars_of_tokens .value (fun _ => rfl) v, scalars_of_pairTokens pairs]
    rfl

end

/-- **A scalar of a kind without a token is lost**: a datum that has one is stored for no text without a
typecast, so not for what is printed for it either, unless a scalar of it prints as something with one. -/
theorem gtypeIn_needs_typecast {qsortArg : (n : Nat) → Sorter (Fin n)} {io : ScalarIn} {utf8 : Bool}
    {g : Memory} {datum text : List UInt8} {tokens : List GtypeToken} (hqsort : ∀ n, (qsortArg n).Lawful)
    (hio : io.WellFormed) (htokens : IteratesTo datum tokens)
    (hlost : ∃ token ∈ tokens, ∃ s, token.scalar = some s ∧ ¬ s.HasToken) (hcast : NoCast utf8 text) :
    gtypeIn qsortArg g utf8 io text ≠ .ok datum := by
  intro h
  obtain ⟨tree, v, hdoc, hv, hconvert⟩ := (gtypeIn_ok hqsort).mp h
  have hat : tree.Somewhere utf8 := ⟨text, hdoc.choose, hdoc.choose_spec.1⟩
  have hkinds := value_hasToken utf8 io tree (hcast tree hdoc) hat v hv
  have haccepted := value_accepted hio tree hat v hv
  obtain ⟨it, hit, hyields⟩ := iteratesTo_stored haccepted.wellFormed
    (fun s hs => hasToken_notTimestamp (hkinds s hs)) hconvert
  obtain ⟨it', hit', hyields'⟩ := htokens
  rw [hit] at hit'
  cases hit'
  rw [← hyields.unique hyields'] at hlost
  obtain ⟨token, htoken, s, hs, hnone⟩ := hlost
  refine hnone (hkinds s ?_)
  rw [← stored_scalars, ← scalars_of_tokens .elem (fun _ => rfl)]
  exact List.mem_filterMap.mpr ⟨token, htoken, hs⟩

/-- The numeric 1.5. -/
def exampleNumeric : List UInt8 := Bytes.le 4 (4 * 10) ++ Bytes.le 2 0x8080 ++ Bytes.le 2 1 ++ Bytes.le 2 5000

/-- A string with two colons in it, and the numeric. -/
def exampleNumericArray : GtypeValue := .array false [.scalar (.string (ascii "a::b")), .scalar (.numeric exampleNumeric)]

/-- Input functions that read integers, and a float where it stands in the text of the array. -/
def exampleFloatIn : ScalarIn :=
  { exampleScalarIn with float8in := fun str => if str = ascii "1.5" then some 0x3ff8000000000000 else none }

/-- Its text is read, with a float where the numeric was printed. -/
theorem gtypeIn_needs_typecast_example : ∃ datum,
    GtypeOut { exampleScalarOut with numericOut := fun _ => ascii "1.5" } datum (ascii "[\"a::b\", 1.5]") ∧
    (gtypeIn insertionQsort (fun _ => 0) true exampleFloatIn (ascii "[\"a::b\", 1.5]")).isOk = true ∧
    gtypeIn insertionQsort (fun _ => 0) true exampleFloatIn (ascii "[\"a::b\", 1.5]") ≠ .ok datum := by
  have hconvert : gtypeValueToGtype (fun _ => 0) exampleNumericArray = .ok (Bytes.le 4 (4 * 30) ++
      Bytes.le 4 0x40000002 ++ Bytes.le 4 0x80000004 ++ Bytes.le 4 0x1000000a ++ ascii "a::b" ++ exampleNumeric) := rfl
  have hwf : exampleNumericArray.WellFormed := ⟨show 0 ∉ ascii "a::b" by decide, show 4 < exampleNumeric.length ∧ _ = _ by decide, trivial⟩
  have hread : exampleNumericArray.Readable := ⟨rfl, by decide, trivial, trivial, trivial⟩
  have htime : ∀ s ∈ exampleNumericArray.scalars, ¬ s.IsTimestamp := by
    rintro s hs ⟨val, rfl⟩
    simp [exampleNumericArray, GtypeValue.scalars, elemScalars] at hs
  have hin : exampleFloatIn.WellFormed := by
    constructor <;>
    · intro str val h
      cases h
  refine ⟨_, (gtypeOut_stored hwf hread htime hconvert).mpr ⟨rfl, by decide⟩, by decide +kernel, ?_⟩
  exact gtypeIn_needs_typecast lawful_insertionQsort hin (iteratesTo_stored hwf htime hconvert)
    ⟨.elem (.numeric exampleNumeric), by decide, .numeric exampleNumeric, rfl, id⟩ (by decide +kernel)

end NeoPostGraph
