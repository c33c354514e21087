import NeoPostGraph.Gtype.TextRoundTrip

/-!
# What is accepted

A value that `gtype_in` makes is well formed, has the pairs of its objects in order, each key once, and its
containers are no larger than their arrays can grow.

* `ScalarIn.WellFormed`: what is promised of PostgreSQL's input functions.

Results:
* `value_accepted`: the value of a tree that stands in a text.
* `gtypeIn_stores`: what is stored is converted from such a value.
* `gtypeIn_reread`: what is printed for it is read as it again, if its scalars are.
-/

namespace NeoPostGraph

/-! ## Strings have no NUL -/

theorem ofNat_ne_zero {k : Nat} (h : k % 256 ≠ 0) : (0 : UInt8) ≠ UInt8.ofNat k := by
  intro he
  have hnat := congrArg UInt8.toNat he
  rw [UInt8.toNat_ofNat'] at hnat
  exact h hnat.symm

theorem zero_notMem_unicodeToUtf8 {c : Nat} (h : c ≠ 0) : 0 ∉ unicodeToUtf8 c := by
  unfold unicodeToUtf8
  split_ifs
  · simpa using ofNat_ne_zero (k := c) (by omega)
  · simp only [List.mem_cons, List.not_mem_nil, or_false, not_or]
    exact ⟨ofNat_ne_zero (by omega), ofNat_ne_zero (by omega)⟩
  · simp only [List.mem_cons, List.not_mem_nil, or_false, not_or]
    exact ⟨ofNat_ne_zero (by omega), ofNat_ne_zero (by omega), ofNat_ne_zero (by omega)⟩
  · simp only [List.mem_cons, List.not_mem_nil, or_false, not_or]
    exact ⟨ofNat_ne_zero (by omega), ofNat_ne_zero (by omega), ofNat_ne_zero (by omega), ofNat_ne_zero (by omega)⟩

theorem StringItem.zero_notMem {src val : List UInt8} (h : StringItem src val) : 0 ∉ val := by
  cases h with
  | @plain c hc =>
    rw [List.mem_singleton]
    rintro rfl
    exact absurd hc (by decide)
  | @simple e c h =>
    have hall : ∀ p ∈ simpleEscapes, p.2 ≠ 0 := by simp [simpleEscapes]
    rw [List.mem_singleton]
    exact fun hzero => hall _ h hzero.symm
  | @kept e h =>
    rw [List.mem_cons, List.mem_singleton, not_or]
    refine ⟨by decide, ?_⟩
    rintro rfl
    rcases h with h | ⟨h, -⟩
    · exact absurd h (by decide)
    · exact absurd h (by decide)
  | unicode _ hne =>
    rw [← unicodeToUtf8_eq]
    exact zero_notMem_unicodeToUtf8 hne
  | pair _ _ hhi hlo =>
    rw [← unicodeToUtf8_eq, toNat_pair hhi hlo]
    exact zero_notMem_unicodeToUtf8 (by omega)

theorem StringText.zero_notMem {utf8 : Bool} {body val : List UInt8} (h : StringText utf8 body val) : 0 ∉ val := by
  induction h with
  | nil => exact List.not_mem_nil
  | cons h _ _ ih =>
    rw [List.mem_append, not_or]
    exact ⟨h.zero_notMem, ih⟩

theorem zero_notMem_of_all {q : UInt8 → Bool} {text : List UInt8} (hq : q 0 = false) (h : text.all q) : 0 ∉ text :=
  fun hmem => absurd (List.all_eq_true.mp h 0 hmem) (by simp [hq])

theorem DigitsText.zero_notMem {goesOn : UInt8 → Bool} {ds : List UInt8} (h : DigitsText goesOn ds)
    (hgoes : goesOn 0 = false) : 0 ∉ ds := by
  obtain ⟨c, ds, rfl, hc, hds⟩ := h
  rw [List.mem_cons, not_or]
  refine ⟨?_, zero_notMem_of_all hgoes hds⟩
  rintro rfl
  exact absurd hc (by decide)

theorem IntText.zero_notMem {main : List UInt8} (h : IntText main) : 0 ∉ main := by
  rcases h with rfl | ⟨c, ds, rfl, hc, -, hds⟩
  · decide
  · rw [List.mem_cons, not_or]
    refine ⟨?_, zero_notMem_of_all (by decide) hds⟩
    rintro rfl
    exact absurd hc (by decide)

theorem DecimalText.zero_notMem {s : List UInt8} (h : DecimalText s) : 0 ∉ s := by
  rcases h with rfl | ⟨ds, rfl, hds⟩
  · exact List.not_mem_nil
  · simp [hds.zero_notMem rfl]

theorem NetmaskText.zero_notMem {s : List UInt8} (h : NetmaskText s) : 0 ∉ s := by
  rcases h with rfl | ⟨ds, rfl, hds⟩
  · exact List.not_mem_nil
  · simp [hds.zero_notMem rfl]

theorem NumberText.zero_notMem {t : TokenType} {text : List UInt8} (h : NumberText t text) : 0 ∉ text := by
  cases h with
  | integer h => exact h.zero_notMem
  | decimal h hds => simp [h.zero_notMem, hds.zero_notMem rfl]
  | exponent h hdec hexp =>
    obtain ⟨e, sign, ds, rfl, he, hsign, hds⟩ := hexp
    have he : (0 : UInt8) ≠ e := by rcases he with rfl | rfl <;> decide
    have hsign : 0 ∉ sign := by rcases hsign with rfl | rfl | rfl <;> decide
    simp [h.zero_notMem, hdec.zero_notMem, he, hsign, hds.zero_notMem rfl]
  | inet h hds haddr hmask =>
    simp [h.zero_notMem, hds.zero_notMem rfl, haddr.zero_notMem rfl, hmask.zero_notMem]

/-- **What a token stands for is a C string.** -/
theorem TokenText.zero_notMem {utf8 : Bool} {t : TokenType} {val text : List UInt8}
    (h : TokenText utf8 t val text) : 0 ∉ val := by
  cases h with
  | @punctuation c _ h =>
    rw [List.mem_singleton]
    rintro rfl
    cases h
  | colon => decide
  | annotationToken => decide
  | string h => exact h.zero_notMem
  | number h => exact h.zero_notMem
  | negative h => simp [h.zero_notMem]
  | @negInfinity word h =>
    rw [List.mem_cons, not_or]
    refine ⟨by decide, fun hmem => ?_⟩
    have hlower : 0 ∈ word.map lowerByte := List.mem_map.mpr ⟨0, hmem, rfl⟩
    unfold isNegInfinity eqIgnoreCase at h
    rw [Bool.or_eq_true, decide_eq_true_eq, decide_eq_true_eq] at h
    rcases h with h | h
    · rw [h] at hlower
      exact absurd hlower (by decide)
    · rw [h] at hlower
      exact absurd hlower (by decide)
  | word h => exact zero_notMem_of_all (by decide) h.2

theorem TokenAt.zero_notMem {utf8 : Bool} {t : TokenType} {val i r : List UInt8} (h : TokenAt utf8 t val i r) :
    0 ∉ val := by
  obtain ⟨w, text, -, htext, -⟩ := h
  exact htext.zero_notMem

/-! ## Scalars -/

/-- The input functions return what their types are. -/
structure ScalarIn.WellFormed (io : ScalarIn) : Prop where
  numericIn : ∀ str val, io.numericIn str = some val → (GtypeScalar.numeric val).WellFormed
  inetIn : ∀ str val, io.inetIn str = some val → (GtypeScalar.inet val).WellFormed
  cidrIn : ∀ str val, io.cidrIn str = some val → (GtypeScalar.cidr val).WellFormed
  macaddrIn : ∀ str val, io.macaddrIn str = some val → (GtypeScalar.mac val).WellFormed
  macaddr8In : ∀ str val, io.macaddr8In str = some val → (GtypeScalar.mac8 val).WellFormed

theorem exampleScalarIn_wellFormed : exampleScalarIn.WellFormed := by
  constructor <;>
  · intro str val h
    cases h

section

variable {io : ScalarIn} {s : GtypeScalar} {token : List UInt8}

theorem inputScalar_ok {α : Type} {t : TokenType} {make : α → GtypeScalar} {val : Option α}
    (h : inputScalar t make val = .ok s) : ∃ a, val = some a ∧ s = make a := by
  cases val with
  | none => cases h
  | some a =>
    cases h
    exact ⟨a, rfl, rfl⟩

/-- A scalar that is read is well formed, if the token is a C string. -/
theorem scalarOfToken_wellFormed (hio : io.WellFormed) {t : TokenType} (htoken : 0 ∉ token)
    (h : scalarOfToken io token t = .ok s) : s.WellFormed := by
  cases t with
  | string =>
    rw [scalarOfToken, checkStringLength] at h
    split_ifs at h
    · cases h
    · cases h
      exact htoken
  | numeric =>
    rw [scalarOfToken] at h
    obtain ⟨a, ha, rfl⟩ := inputScalar_ok h
    exact hio.numericIn _ _ ha
  | inet =>
    rw [scalarOfToken] at h
    obtain ⟨a, ha, rfl⟩ := inputScalar_ok h
    exact hio.inetIn _ _ ha
  | cidr =>
    rw [scalarOfToken] at h
    obtain ⟨a, ha, rfl⟩ := inputScalar_ok h
    exact hio.cidrIn _ _ ha
  | macaddr =>
    rw [scalarOfToken] at h
    obtain ⟨a, ha, rfl⟩ := inputScalar_ok h
    exact hio.macaddrIn _ _ ha
  | macaddr8 =>
    rw [scalarOfToken] at h
    obtain ⟨a, ha, rfl⟩ := inputScalar_ok h
    exact hio.macaddr8In _ _ ha
  | integer | float | timestamp | timestamptz | date | time | timetz | interval =>
    rw [scalarOfToken] at h
    obtain ⟨a, -, rfl⟩ := inputScalar_ok h
    trivial
  | trueToken | falseToken | nullToken =>
    cases h
    trivial
  | _ => cases h

/-! ## Values -/

/-- What is promised of a value that is accepted. -/
structure GtypeValue.Accepted (v : GtypeValue) : Prop where
  wellFormed : v.WellFormed
  readable : v.Readable
  canonical : v.canonical = v

theorem accepted_array {elems : List GtypeValue} (h : ∀ v ∈ elems, v.Accepted)
    (hmany : elems.length ≤ maxBuiltElems) : (GtypeValue.array false elems).Accepted := by
  have hwf : ElemsWellFormed elems := by
    clear hmany
    induction elems with
    | nil => trivial
    | cons v vs ih =>
      rw [List.forall_mem_cons] at h
      exact ⟨h.1.wellFormed, ih h.2⟩
  have hread : ElemsReadable elems := by
    clear hmany hwf
    induction elems with
    | nil => trivial
    | cons v vs ih =>
      rw [List.forall_mem_cons] at h
      exact ⟨h.1.readable, ih h.2⟩
  refine ⟨hwf, ⟨rfl, hmany, hread⟩, ?_⟩
  rw [GtypeValue.canonical, canonicalElems_eq]
  refine congrArg _ ?_
  conv_rhs => rw [← List.map_id elems]
  exact List.map_congr_left fun v hv => (h v hv).canonical

/-- The last bindings of pairs that are accepted make an object that is. -/
theorem accepted_object {seq : List (List UInt8 × GtypeValue)} (h : ∀ p ∈ seq, IsKey p.1 ∧ p.2.Accepted)
    (hmany : seq.length ≤ maxBuiltPairs) : (GtypeValue.object (lastBindings KeyLt seq)).Accepted := by
  have hbound : ∀ p ∈ lastBindings KeyLt seq, IsKey p.1 ∧ p.2.Accepted :=
    fun p hp => h p (mem_of_mem_lastBindings hp)
  have hsorted : KeysSorted KeyLt (lastBindings KeyLt seq) := lastBindings_sorted seq
  have hfew : (lastBindings KeyLt seq).length ≤ maxBuiltPairs :=
    Nat.le_trans (length_lastBindings_le seq) hmany
  generalize lastBindings KeyLt seq = pairs at hbound hsorted hfew ⊢
  have hwf : PairsWellFormed pairs := by
    clear hsorted hfew
    induction pairs with
    | nil => trivial
    | cons p pairs ih =>
      rw [List.forall_mem_cons] at hbound
      exact ⟨hbound.1.1.1, hbound.1.2.wellFormed, ih hbound.2⟩
  have hread : PairsReadable pairs := by
    clear hsorted hfew hwf
    induction pairs with
    | nil => trivial
    | cons p pairs ih =>
      rw [List.forall_mem_cons] at hbound
      exact ⟨hbound.1.1, hbound.1.2.readable, ih hbound.2⟩
  have hcanonical : canonicalPairs pairs = pairs := by
    rw [canonicalPairs_eq]
    conv_rhs => rw [← List.map_id pairs]
    exact List.map_congr_left fun p hp => congrArg (Prod.mk p.1) (hbound p hp).2.canonical
  refine ⟨hwf, ⟨hfew, hread⟩, ?_⟩
  rw [GtypeValue.canonical, hcanonical, lastBindings_of_sorted hsorted]

theorem moreAt_regions {utf8 : Bool} {ps : List Region} {i r : List UInt8} (h : MoreAt utf8 ps i r) :
    ∀ p ∈ ps, ∃ i r, p i r := by
  induction ps generalizing i with
  | nil => exact fun p hp => absurd hp List.not_mem_nil
  | cons p ps ih =>
    obtain ⟨a, r₁, r₂, -, hp, hrest⟩ := h
    exact List.forall_mem_cons.mpr ⟨⟨r₁, r₂, hp⟩, ih hrest⟩

theorem listAt_regions {utf8 : Bool} {ps : List Region} {i r : List UInt8} (h : ListAt utf8 ps i r) :
    ∀ p ∈ ps, ∃ i r, p i r := by
  cases ps with
  | nil => exact fun p hp => absurd hp List.not_mem_nil
  | cons p ps =>
    obtain ⟨r₁, hp, hrest⟩ := h
    exact List.forall_mem_cons.mpr ⟨⟨i, r₁, hp⟩, moreAt_regions hrest⟩

/-- A result that is mapped is one. -/
theorem map_eq_ok {ε α β : Type} {x : Except ε α} {f : α → β} {b : β} (h : x.map f = .ok b) :
    ∃ a, x = .ok a ∧ f a = b := by
  cases x with
  | error e => cases h
  | ok a =>
    cases h
    exact ⟨a, rfl, rfl⟩

/-- Somewhere the tree stands in a text. -/
def GtypeTree.Somewhere (utf8 : Bool) (tree : GtypeTree) : Prop := ∃ i r, tree.At utf8 i r

mutual

/-- **The value of a tree that stands in a text is accepted.** -/
theorem value_accepted {utf8 : Bool} (hio : io.WellFormed) : (tree : GtypeTree) → tree.Somewhere utf8 →
    ∀ v, tree.value io = .ok v → v.Accepted
  | .scalar token t annot, ⟨_, _, _, _, htoken, _⟩, v, hv => by
    obtain ⟨t', -, hv⟩ := bind_eq_ok hv
    obtain ⟨s, hs, rfl⟩ := map_eq_ok hv
    exact ⟨scalarOfToken_wellFormed hio htoken.zero_notMem hs, trivial, rfl⟩
  | .array elems, ⟨_, _, _, _, _, _, _, hlist, _⟩, v, hv => by
    obtain ⟨vals, hvals, rfl⟩ := map_eq_ok hv
    have hregions := listAt_regions hlist
    rw [elemRegions_eq, List.forall_mem_map] at hregions
    obtain ⟨hall, hmany⟩ := elemValues_accepted hio elems hregions 0 vals (Nat.zero_le _) hvals
    exact accepted_array hall (by omega)
  | .object fields, ⟨_, _, _, _, _, _, _, hlist, _⟩, v, hv => by
    obtain ⟨pairs, hpairs, rfl⟩ := map_eq_ok hv
    have hregions := listAt_regions hlist
    rw [fieldRegions_eq, List.forall_mem_map] at hregions
    obtain ⟨hall, hmany⟩ := fieldValues_accepted hio fields
      (fun f hf => by
        obtain ⟨i, r, c, r₁, r₂, hkey, -, hvalue⟩ := hregions f hf
        exact ⟨hkey.zero_notMem, r₂, r, hvalue⟩) 0 pairs (Nat.zero_le _) hpairs
    exact accepted_object hall (by omega)

theorem elemValues_accepted {utf8 : Bool} (hio : io.WellFormed) : (trees : List GtypeTree) →
    (∀ tree ∈ trees, tree.Somewhere utf8) → ∀ num vals, num ≤ maxBuiltElems → elemValues io num trees = .ok vals →
    (∀ v ∈ vals, v.Accepted) ∧ num + vals.length ≤ maxBuiltElems
  | [], _, num, vals, hnum, hv => by
    cases hv
    exact ⟨fun v hv => absurd hv List.not_mem_nil, hnum⟩
  | tree :: trees, hat, num, vals, hnum, hv => by
    rw [List.forall_mem_cons] at hat
    obtain ⟨val, hval, hv⟩ := bind_eq_ok hv
    split_ifs at hv with hlt
    obtain ⟨rest, hrest, rfl⟩ := map_eq_ok hv
    obtain ⟨hall, hmany⟩ := elemValues_accepted hio trees hat.2 (num + 1) rest hlt hrest
    refine ⟨List.forall_mem_cons.mpr ⟨value_accepted hio tree hat.1 val hval, hall⟩, ?_⟩
    rw [List.length_cons]
    omega

theorem fieldValues_accepted {utf8 : Bool} (hio : io.WellFormed) : (fields : List (List UInt8 × GtypeTree)) →
    (∀ f ∈ fields, 0 ∉ f.1 ∧ f.2.Somewhere utf8) → ∀ num pairs, num ≤ maxBuiltPairs →
    fieldValues io num fields = .ok pairs →
    (∀ p ∈ pairs, IsKey p.1 ∧ p.2.Accepted) ∧ num + pairs.length ≤ maxBuiltPairs
  | [], _, num, pairs, hnum, hv => by
    cases hv
    exact ⟨fun v hv => absurd hv List.not_mem_nil, hnum⟩
  | (fname, tree) :: fields, hat, num, pairs, hnum, hv => by
    rw [List.forall_mem_cons] at hat
    obtain ⟨key, hkey, hv⟩ := bind_eq_ok hv
    unfold checkStringLength at hkey
    split_ifs at hkey with hlong
    cases hkey
    split_ifs at hv with hlt
    obtain ⟨val, hval, hv⟩ := bind_eq_ok hv
    obtain ⟨rest, hrest, rfl⟩ := map_eq_ok hv
    obtain ⟨hall, hmany⟩ := fieldValues_accepted hio fields hat.2 (num + 1) rest hlt hrest
    refine ⟨List.forall_mem_cons.mpr ⟨⟨⟨hat.1.1, Nat.not_lt.mp hlong⟩, value_accepted hio tree hat.1.2 val hval⟩, hall⟩, ?_⟩
    rw [List.length_cons]
    omega

end

end

/-! ## The round trip -/

section

variable {qsortArg : (n : Nat) → Sorter (Fin n)} {io : ScalarIn} {o : ScalarOut} {utf8 : Bool} {g : Memory}
  {str datum text : List UInt8} {v : GtypeValue}

/-- The text of a value is a document that has the value. -/
theorem text_document (hread : v.Readable) (hs : ∀ s ∈ v.scalars, s.Survives utf8 io o) :
    ∃ tree : GtypeTree, tree.Document utf8 (v.text o) ∧ tree.value io = .ok v.canonical := by
  obtain ⟨tree, hat, hvalue⟩ := text_read utf8 io o v hread hs
  have hat := hat []
  rw [List.append_nil] at hat
  exact ⟨tree, ⟨[], hat, rfl⟩, hvalue⟩

theorem hasToken_notTimestamp {s : GtypeScalar} (h : s.HasToken) : ¬ s.IsTimestamp := by
  rintro ⟨val, rfl⟩
  exact h

theorem hasToken_notTimetz {s : GtypeScalar} (h : s.HasToken) : ¬ s.IsTimetz := by
  rintro ⟨t, zone, rfl⟩
  exact h

/-- **What `gtype_in` stores** for a text: the text is a document, its tree has a value, and that is converted.
The value is accepted, and without a timestamp in it, it is what is found in the datum. -/
theorem gtypeIn_stores (hqsort : ∀ n, (qsortArg n).Lawful) (hio : io.WellFormed) (g : Memory) (utf8 : Bool)
    (str datum : List UInt8) :
    (gtypeIn qsortArg g utf8 io str = .ok datum ↔ ∃ tree v, GtypeTree.Document utf8 tree str ∧
      tree.value io = .ok v ∧ gtypeValueToGtype g v = .ok datum) ∧
    ∀ tree v, GtypeTree.Document utf8 tree str → tree.value io = .ok v → v.Accepted ∧
      (gtypeValueToGtype g v = .ok datum → (∀ s ∈ v.scalars, ¬ s.IsTimestamp) →
        IteratesTo datum (v.stored.tokens .elem)) := by
  refine ⟨gtypeIn_ok hqsort, fun tree v hdoc hv => ?_⟩
  obtain ⟨r, hat, -⟩ := hdoc
  have haccepted := value_accepted hio tree ⟨str, r, hat⟩ v hv
  exact ⟨haccepted, fun hconvert htime => iteratesTo_stored haccepted.wellFormed htime hconvert⟩

/-- Output functions that are not called for the values of JSON. -/
def exampleScalarOut : ScalarOut where
  numericOut := id
  float8out _ := []
  timestampOut _ := []
  timestamptzOut _ := []
  dateOut _ := []
  timeOut _ := []
  timetzOut _ _ := []
  intervalOut _ _ _ := []
  inetOut := id
  cidrOut := id
  macaddrOut := id
  macaddr8Out := id

/-- `[7, true]`. -/
def exampleTextArray : GtypeValue := .array false [.scalar (.integer 7), .scalar (.bool true)]

theorem exampleTextArray_document :
    ∃ tree : GtypeTree, tree.Document true (ascii "[7, true]") ∧ tree.value exampleScalarIn = .ok exampleTextArray := by
  have hs : ∀ s ∈ exampleTextArray.scalars, s.Survives true exampleScalarIn exampleScalarOut := by
    intro s hs
    have hs : s = .integer 7 ∨ s = .bool true := by
      simpa [exampleTextArray, GtypeValue.scalars, elemScalars] using hs
    rcases hs with rfl | rfl
    · exact GtypeScalar.JsonNative.survives trivial strtoint64_int8out
    · exact GtypeScalar.JsonNative.survives trivial strtoint64_int8out
  exact text_document (v := exampleTextArray) ⟨rfl, by decide, trivial, trivial, trivial⟩ hs

/-- It is stored, and found. -/
theorem gtypeIn_stores_example : ∃ datum,
    gtypeIn insertionQsort (fun _ => 0) true exampleScalarIn (ascii "[7, true]") = .ok datum ∧
      IteratesTo datum [.beginArray 2 false, .elem (.integer 7), .elem (.bool true), .endArray] := by
  obtain ⟨tree, hdoc, hv⟩ := exampleTextArray_document
  have hconvert : gtypeValueToGtype (fun _ => 0) exampleTextArray =
      .ok (Bytes.le 4 (4 * 28) ++ Bytes.le 4 0x40000002 ++ Bytes.le 4 0xe000000c ++ Bytes.le 4 0x30000000 ++
        Bytes.le 4 0 ++ Bytes.le 8 7) := rfl
  obtain ⟨hiff, hstores⟩ := gtypeIn_stores lawful_insertionQsort exampleScalarIn_wellFormed (fun _ => 0) true
    (ascii "[7, true]") (Bytes.le 4 (4 * 28) ++ Bytes.le 4 0x40000002 ++ Bytes.le 4 0xe000000c ++
      Bytes.le 4 0x30000000 ++ Bytes.le 4 0 ++ Bytes.le 8 7)
  refine ⟨_, hiff.mpr ⟨tree, exampleTextArray, hdoc, hv, hconvert⟩, (hstores tree _ hdoc hv).2 hconvert ?_⟩
  rintro s hs ⟨val, rfl⟩
  simp [exampleTextArray, GtypeValue.scalars, elemScalars] at hs

/-- What is stored for a text is converted from the value of any tree of it. -/
theorem gtypeValueToGtype_of_gtypeIn (hqsort : ∀ n, (qsortArg n).Lawful) {tree : GtypeTree}
    (hdoc : tree.Document utf8 str) (hv : tree.value io = .ok v) (h : gtypeIn qsortArg g utf8 io str = .ok datum) :
    gtypeValueToGtype g v = .ok datum := by
  obtain ⟨tree', v', hdoc', hv', hconvert⟩ := (gtypeIn_ok hqsort).mp h
  -- two trees of one document have one traversal
  have hrun := (runEvents_document hqsort).mpr ⟨v, hv, rfl⟩
  have hrun' := (runEvents_document hqsort).mpr ⟨v', hv', rfl⟩
  rw [hdoc'.events_unique hdoc, hrun] at hrun'
  have hstored : v.stored = v'.stored := by
    injection hrun' with hstate
    injection hstate with _ hres
    exact Option.some.inj hres
  unfold gtypeValueToGtype at hconvert ⊢
  rw [hstored, hconvert]

/-- **What was read is printed, and read again as it was**: if every scalar of the value is one that JSON has
too, or is itself read as it is printed, then what is printed for the datum is the text of the value, and that
text is stored as the same bytes, whatever memory holds then. -/
theorem gtypeIn_reread (hqsort : ∀ n, (qsortArg n).Lawful) (hio : io.WellFormed)
    (hint : ∀ val, io.strtoint64 (int8out val) = some val) {tree : GtypeTree} (hdoc : tree.Document utf8 str)
    (hv : tree.value io = .ok v) (hs : ∀ s ∈ v.scalars, s.JsonNative ∨ s.Survives utf8 io o)
    (h : gtypeIn qsortArg g utf8 io str = .ok datum) :
    (∀ text, GtypeOut o datum text ↔ text = v.text o ∧ text.length < maxAllocSize) ∧
    ∀ g', gtypeIn qsortArg g' utf8 io (v.text o) = .ok datum := by
  have hconvert := gtypeValueToGtype_of_gtypeIn hqsort hdoc hv h
  obtain ⟨r, hat, -⟩ := hdoc
  have haccepted := value_accepted hio tree ⟨str, r, hat⟩ _ hv
  have hsurvive : ∀ s ∈ v.scalars, s.Survives utf8 io o := fun s hmem => (hs s hmem).elim
    (fun hnative => hnative.survives hint) id
  refine ⟨fun text => gtypeOut_stored haccepted.wellFormed haccepted.readable
    (fun s hmem => hasToken_notTimestamp (hsurvive s hmem).hasToken) hconvert, fun g' => ?_⟩
  obtain ⟨tree', hdoc', hvalue⟩ := text_document haccepted.readable hsurvive
  rw [haccepted.canonical] at hvalue
  refine (gtypeIn_ok hqsort).mpr ⟨tree', v, hdoc', hvalue, ?_⟩
  refine convertToGtype_fixed (stored_wellFormed haccepted.wellFormed) (fun s hmem => ?_) hconvert g'
  rw [stored_scalars] at hmem
  exact hasToken_notTimetz (hsurvive s hmem).hasToken

end

/-- `{"b": [7, null], "a": "x", "b": true}`, as it is written. -/
def exampleDocument : GtypeValue := .object
  [([98], .array false [.scalar (.integer 7), .scalar .null]), ([97], .scalar (.string [120])),
    ([98], .scalar (.bool true))]

/-- It is stored as `{"a": "x", "b": true}`, and that is what is printed and stored again. -/
theorem gtypeIn_reread_example : ∃ datum,
    gtypeIn insertionQsort (fun _ => 0) true exampleScalarIn (exampleDocument.text exampleScalarOut) = .ok datum ∧
    GtypeOut exampleScalarOut datum (exampleDocument.canonical.text exampleScalarOut) ∧
    gtypeIn insertionQsort (fun _ => 1) true exampleScalarIn (exampleDocument.canonical.text exampleScalarOut) =
      .ok datum := by
  have hkey : IsKey [97] ∧ IsKey [98] ∧ IsKey [120] := ⟨⟨by decide, by decide⟩, ⟨by decide, by decide⟩, by decide, by decide⟩
  have hnative : ∀ s ∈ exampleDocument.scalars, s.JsonNative := by
    intro s hs
    have hs : s = .integer 7 ∨ s = .null ∨ s = .string [120] ∨ s = .bool true := by
      simpa [exampleDocument, GtypeValue.scalars, pairScalars, elemScalars] using hs
    rcases hs with rfl | rfl | rfl | rfl
    · trivial
    · trivial
    · exact hkey.2.2
    · trivial
  have hread : exampleDocument.Readable := ⟨by decide, hkey.2.1, ⟨rfl, by decide, trivial, trivial, trivial⟩,
    hkey.1, trivial, hkey.2.1, trivial, trivial⟩
  have hsurvive : ∀ s ∈ exampleDocument.scalars, s.Survives true exampleScalarIn exampleScalarOut :=
    fun s hs => (hnative s hs).survives strtoint64_int8out
  obtain ⟨tree, hdoc, hv⟩ := text_document hread hsurvive
  have hstored : ∀ s ∈ exampleDocument.canonical.scalars, s.JsonNative := by
    intro s hs
    have hs : s = .string [120] ∨ s = .bool true := by
      have hcanonical : exampleDocument.canonical.scalars = [.string [120], .bool true] := rfl
      simpa [hcanonical] using hs
    rcases hs with rfl | rfl
    · exact hkey.2.2
    · trivial
  have hin : gtypeIn insertionQsort (fun _ => 0) true exampleScalarIn (exampleDocument.text exampleScalarOut) =
      .ok _ := (gtypeIn_ok lawful_insertionQsort).mpr ⟨tree, _, hdoc, hv, rfl⟩
  obtain ⟨hout, hreread⟩ := gtypeIn_reread (o := exampleScalarOut) lawful_insertionQsort exampleScalarIn_wellFormed
    strtoint64_int8out hdoc hv (fun s hs => .inl (hstored s hs)) hin
  exact ⟨_, hin, (hout _).mpr ⟨rfl, by decide⟩, hreread _⟩

end NeoPostGraph
