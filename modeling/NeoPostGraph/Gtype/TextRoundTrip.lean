import NeoPostGraph.Gtype.Reproducible
import NeoPostGraph.Gtype.RoundTrip
import NeoPostGraph.Gtype.TextIn

/-!
# Reading what was printed

The text of a value is a document if every scalar of it is printed as a token that is read as the scalar, and
its value is the one that was printed, with the pairs of its objects in their canonical order.

* `GtypeScalar.Survives`: a scalar is printed as a token that is read as the scalar.
* `GtypeValue.canonical`: the pairs of each object sorted by their keys, the last of equal keys kept.
* `GtypeValue.Readable`: the parts of a value that are not scalars can be read.
* `GtypeOut`: what `gtype_out` prints for a datum.

Results:
* `text_read`: the text of a value is that of a tree, and the tree has the value.
* `gtypeOut_stored`: the text of a value is what is printed for its datum.
-/

namespace NeoPostGraph

/-! ## The canonical form -/

mutual

/-- The pairs of each object in the order of their keys, the last of equal keys kept. -/
def GtypeValue.canonical : GtypeValue → GtypeValue
  | .scalar s => .scalar s
  | .array rawScalar elems => .array rawScalar (canonicalElems elems)
  | .object pairs => .object (lastBindings KeyLt (canonicalPairs pairs))

def canonicalElems : List GtypeValue → List GtypeValue
  | [] => []
  | v :: vs => v.canonical :: canonicalElems vs

def canonicalPairs : List (List UInt8 × GtypeValue) → List (List UInt8 × GtypeValue)
  | [] => []
  | (key, v) :: pairs => (key, v.canonical) :: canonicalPairs pairs

end

theorem canonicalElems_eq (vs : List GtypeValue) : canonicalElems vs = vs.map GtypeValue.canonical := by
  induction vs with
  | nil => rfl
  | cons v vs ih => rw [canonicalElems, ih, List.map_cons]

theorem canonicalPairs_eq (pairs : List (List UInt8 × GtypeValue)) :
    canonicalPairs pairs = pairs.map fun p => (p.1, p.2.canonical) := by
  induction pairs with
  | nil => rfl
  | cons p pairs ih => rw [canonicalPairs, ih, List.map_cons]

/-- A key: a C string whose length an entry holds. -/
def IsKey (key : List UInt8) : Prop := 0 ∉ key ∧ key.length ≤ gtentryOfflenmask

mutual

/-- No array of the value is the one around a raw scalar, its containers are no larger than those that are
built, and its keys are keys. -/
def GtypeValue.Readable : GtypeValue → Prop
  | .scalar _ => True
  | .array rawScalar elems => rawScalar = false ∧ elems.length ≤ maxBuiltElems ∧ ElemsReadable elems
  | .object pairs => pairs.length ≤ maxBuiltPairs ∧ PairsReadable pairs

def ElemsReadable : List GtypeValue → Prop
  | [] => True
  | v :: vs => v.Readable ∧ ElemsReadable vs

def PairsReadable : List (List UInt8 × GtypeValue) → Prop
  | [] => True
  | (key, v) :: pairs => IsKey key ∧ v.Readable ∧ PairsReadable pairs

end

/-! ## Scalars -/

section

variable {utf8 : Bool} {io : ScalarIn} {o : ScalarOut} {s : GtypeScalar}

/-- **A scalar survives**: it is printed as a token that is read as the scalar. -/
def GtypeScalar.Survives (utf8 : Bool) (io : ScalarIn) (o : ScalarOut) (s : GtypeScalar) : Prop :=
  ∃ token t, t.isScalar = true ∧ TokenText utf8 t token (gtypePutEscapedValue o s) ∧
    scalarOfToken io token t = .ok s

theorem takeWhile_ne_zero {x : List UInt8} (h : 0 ∉ x) : x.takeWhile (· ≠ 0) = x := by
  refine List.takeWhile_eq_self_iff.mpr fun c hc => ?_
  simpa using fun he : c = 0 => h (he ▸ hc)

/-- What is printed for a byte is in the encoding. -/
theorem encodable_escapeByte (c : UInt8) : Encodable utf8 (escapeByte c) [c] := .inr (.inr rfl)

theorem stringText_escape {x : List UInt8} (hx : 0 ∉ x) : StringText utf8 (x.flatMap escapeByte) x := by
  induction x with
  | nil => exact .nil
  | cons c x ih =>
    rw [List.mem_cons, not_or] at hx
    exact .cons (stringItem_escapeByte (Ne.symm hx.1)) (encodable_escapeByte c) (ih hx.2)

/-- **The literal of a C string is a string token.** -/
theorem tokenText_escapeGtype {x : List UInt8} (hx : 0 ∉ x) : TokenText utf8 .string x (escapeGtype x) := by
  unfold escapeGtype
  rw [takeWhile_ne_zero hx]
  exact .string (stringText_escape hx)

/-- A digit of a number. -/
theorem digitByte : ∀ d < 10, isDigitByte (UInt8.ofNat (Nat.digitChar d).toNat) = true ∧
    UInt8.ofNat (Nat.digitChar d).toNat ≤ 57 ∧ (0 < d → 49 ≤ UInt8.ofNat (Nat.digitChar d).toNat) := by
  decide

/-- A number that is not zero begins with another digit. -/
theorem decimalText_digits (n : Nat) (hn : 0 < n) :
    ∃ c ds, decimalText n = c :: ds ∧ 49 ≤ c ∧ c ≤ 57 ∧ ds.all isDigitByte := by
  induction n using Nat.strong_induction_on with
  | _ n ih =>
    unfold decimalText
    rw [Nat.toDigits_eq_if (by decide)]
    split_ifs with hlt
    · obtain ⟨-, hle, hge⟩ := digitByte n hlt
      exact ⟨_, [], rfl, hge hn, hle, rfl⟩
    · obtain ⟨c, ds, hfront, hge, hle, hds⟩ := ih (n / 10) (by omega) (by omega)
      obtain ⟨hdigit, -⟩ := digitByte (n % 10) (by omega)
      refine ⟨c, ds ++ [UInt8.ofNat (Nat.digitChar (n % 10)).toNat], ?_, hge, hle, ?_⟩
      · rw [List.map_append, ← decimalText, hfront]
        rfl
      · rw [List.all_append, hds]
        simpa using hdigit

theorem intText_decimalText (n : Nat) : IntText (decimalText n) := by
  rcases Nat.eq_zero_or_pos n with rfl | hn
  · exact .inl rfl
  · exact .inr (decimalText_digits n hn)

theorem digitsValue_decimalText (n : Nat) : digitsValue (decimalText n) = n := by
  induction n using Nat.strong_induction_on with
  | _ n ih =>
    have hdigit : ∀ d < 10, (UInt8.ofNat (Nat.digitChar d).toNat).toNat - 48 = d := by decide
    unfold decimalText
    rw [Nat.toDigits_eq_if (by decide)]
    split_ifs with hlt
    · show 0 * 10 + ((UInt8.ofNat (Nat.digitChar n).toNat).toNat - 48) = n
      rw [hdigit n hlt, Nat.zero_mul, Nat.zero_add]
    · rw [List.map_append, ← decimalText]
      unfold digitsValue at ih ⊢
      rw [List.foldl_append, ih (n / 10) (by omega)]
      show n / 10 * 10 + ((UInt8.ofNat (Nat.digitChar (n % 10)).toNat).toNat - 48) = n
      rw [hdigit (n % 10) (by omega)]
      omega

theorem strtoint64_int8out (val : UInt64) : strtoint64 (int8out val) = some val := by
  have hdigits : ∀ n, (decimalText n).all isDigitByte := by
    intro n
    rcases intText_decimalText n with h | ⟨c, ds, h, hge, hle, hds⟩
    · rw [h]
      rfl
    · have hc : isDigitByte c = true :=
        decide_eq_true ⟨Nat.le_trans (by decide) (UInt8.le_iff_toNat_le.mp hge), hle⟩
      rw [h, List.all_cons, hc, hds]
      rfl
  have hlt : val.toNat < 2 ^ 64 := val.toNat_lt
  unfold int8out
  split_ifs with hsmall
  · have hcons : strtoint64 (decimalText val.toNat) = if (decimalText val.toNat).all isDigitByte ∧
        digitsValue (decimalText val.toNat) < 2 ^ 63 then
          some (.ofNat (digitsValue (decimalText val.toNat))) else none := by
      rcases intText_decimalText val.toNat with h | ⟨c, ds, h, hge, -⟩
      · rw [h]
        rfl
      · have hne : c ≠ 45 := by
          rintro rfl
          exact absurd hge (by decide)
        rw [h, strtoint64]
        intro ds he
        exact hne (List.cons.inj he).1
    rw [hcons, digitsValue_decimalText, if_pos ⟨hdigits _, hsmall⟩, UInt64.ofNat_toNat]
  · rw [strtoint64, digitsValue_decimalText, if_pos ⟨hdigits _, by omega⟩,
      show 2 ^ 64 - (2 ^ 64 - val.toNat) = val.toNat by omega, UInt64.ofNat_toNat]

/-- **What is printed for an integer is an integer token.** -/
theorem tokenText_int8out (val : UInt64) : TokenText utf8 .integer (int8out val) (int8out val) := by
  unfold int8out
  split_ifs
  · exact .number (.integer (intText_decimalText _))
  · exact .negative (.integer (intText_decimalText _))

theorem wordText_null : WordText (ascii "null") := ⟨⟨110, [117, 108, 108], rfl, rfl⟩, rfl⟩

theorem wordText_true : WordText (ascii "true") := ⟨⟨116, [114, 117, 101], rfl, rfl⟩, rfl⟩

theorem wordText_false : WordText (ascii "false") := ⟨⟨102, [97, 108, 115, 101], rfl, rfl⟩, rfl⟩

/-- The kinds that a text has tokens for. -/
def GtypeScalar.HasToken : GtypeScalar → Prop
  | null | string _ | integer _ | float _ | bool _ | inet _ => True
  | _ => False

/-- **A scalar of another kind does not survive**, whatever is printed for it. -/
theorem GtypeScalar.Survives.hasToken (h : s.Survives utf8 io o) : s.HasToken := by
  obtain ⟨token, t, hscalar, -, hread⟩ := h
  have hinput : ∀ {α : Type} {make : α → GtypeScalar} {val : Option α} {t : TokenType},
      inputScalar t make val = .ok s → (∀ a, (make a).HasToken) → s.HasToken := by
    intro α make val t hval hmake
    cases val with
    | none => cases hval
    | some a =>
      cases hval
      exact hmake a
  cases t with
  | string =>
    rw [scalarOfToken, checkStringLength] at hread
    split_ifs at hread
    · cases hread
    · cases hread
      trivial
  | integer =>
    rw [scalarOfToken] at hread
    exact hinput hread fun _ => trivial
  | float =>
    rw [scalarOfToken] at hread
    exact hinput hread fun _ => trivial
  | inet =>
    rw [scalarOfToken] at hread
    exact hinput hread fun _ => trivial
  | trueToken | falseToken | nullToken =>
    cases hread
    trivial
  | _ => cases hscalar

/-- The scalars that JSON has too, with a string that an entry can hold. -/
def GtypeScalar.JsonNative : GtypeScalar → Prop
  | null | integer _ | bool _ => True
  | string val => IsKey val
  | _ => False

/-- **They survive**, if the integers that `int8out` prints are read as they were. -/
theorem GtypeScalar.JsonNative.survives (h : s.JsonNative)
    (hint : ∀ val, io.strtoint64 (int8out val) = some val) : s.Survives utf8 io o := by
  cases s with
  | null => exact ⟨ascii "null", .nullToken, rfl, .word wordText_null, rfl⟩
  | bool val =>
    cases val with
    | true => exact ⟨ascii "true", .trueToken, rfl, .word wordText_true, rfl⟩
    | false => exact ⟨ascii "false", .falseToken, rfl, .word wordText_false, rfl⟩
  | integer val =>
    refine ⟨_, .integer, rfl, tokenText_int8out val, ?_⟩
    rw [scalarOfToken, hint]
    rfl
  | string val =>
    refine ⟨val, .string, rfl, tokenText_escapeGtype h.1, ?_⟩
    rw [scalarOfToken, checkStringLength, if_neg (Nat.not_lt.mpr h.2)]
    rfl
  | _ => exact h.elim

/-! ## The tree of a text -/

variable {t : TokenType} {val text i r w : List UInt8}

theorem TokenText.at (h : TokenText utf8 t val text) (rest : List UInt8) :
    TokenAt utf8 t val (text ++ rest) rest := ⟨[], text, rfl, h, rfl⟩

theorem TokenAt.space (h : TokenAt utf8 t val i r) (hw : w.all isSpaceByte) : TokenAt utf8 t val (w ++ i) r := by
  obtain ⟨w', text, hw', htext, rfl⟩ := h
  exact ⟨w ++ w', text, by rw [List.all_append, hw, hw']; rfl, htext, by rw [List.append_assoc]⟩

/-- Whitespace may stand in front of a value. -/
theorem GtypeTree.At.space {tree : GtypeTree} (h : tree.At utf8 i r) (hw : w.all isSpaceByte) :
    tree.At utf8 (w ++ i) r := by
  cases tree with
  | scalar token t annot =>
    obtain ⟨hscalar, r', htoken, hannot⟩ := h
    exact ⟨hscalar, r', htoken.space hw, hannot⟩
  | array elems =>
    obtain ⟨a, b, r₁, r₂, hstart, hrest⟩ := h
    exact ⟨a, b, r₁, r₂, hstart.space hw, hrest⟩
  | object fields =>
    obtain ⟨a, b, r₁, r₂, hstart, hrest⟩ := h
    exact ⟨a, b, r₁, r₂, hstart.space hw, hrest⟩

/-- What a value is read as from its text. -/
def ReadAs (utf8 : Bool) (io : ScalarIn) (o : ScalarOut) (v : GtypeValue) : Prop :=
  ∃ tree : GtypeTree, (∀ rest, tree.At utf8 (v.text o ++ rest) rest) ∧ tree.value io = .ok v.canonical

theorem comma_at {p : Region} {ps : List Region} (hp : ∀ w, w.all isSpaceByte → p (w ++ i) r)
    {rest : List UInt8} (hps : MoreAt utf8 ps r rest) : MoreAt utf8 (p :: ps) (comma false ++ i) rest := by
  have hcomma : TokenText utf8 .comma [44] [44] := .punctuation rfl
  exact ⟨[44], 32 :: i, r, hcomma.at (32 :: i), hp [32] rfl, hps⟩

mutual

/-- **The text of a value is that of a tree, and the tree has the value.** -/
theorem text_read (utf8 : Bool) (io : ScalarIn) (o : ScalarOut) : (v : GtypeValue) → v.Readable →
    (∀ s ∈ v.scalars, s.Survives utf8 io o) → ReadAs utf8 io o v
  | .scalar s, _, hs => by
    obtain ⟨token, t, hscalar, htext, hread⟩ := hs s (List.mem_singleton_self s)
    refine ⟨.scalar token t none, fun rest => ⟨hscalar, rest, htext.at rest, rfl⟩, ?_⟩
    show (scalarOfToken io token t).map GtypeValue.scalar = _
    rw [hread]
    rfl
  | .array rawScalar elems, h, hs => by
    obtain ⟨rfl, hmany, helems⟩ := h
    obtain ⟨trees, hfirst, -, hvalue⟩ := elems_read utf8 io o elems helems hs
    refine ⟨.array trees, fun rest => ⟨[91], [93], elemsText o true elems ++ 93 :: rest, 93 :: rest, ?_, ?_, ?_⟩, ?_⟩
    · rw [GtypeValue.text, List.append_assoc, List.append_assoc]
      exact (TokenText.punctuation rfl).at _
    · exact hfirst _
    · exact (TokenText.punctuation rfl).at rest
    · show (elemValues io 0 trees).map _ = _
      rw [hvalue 0 (by omega)]
      rfl
  | .object pairs, h, hs => by
    obtain ⟨hmany, hpairs⟩ := h
    obtain ⟨trees, hfirst, -, hvalue⟩ := pairs_read utf8 io o pairs hpairs hs
    refine ⟨.object trees, fun rest => ⟨[123], [125], pairsText o true pairs ++ 125 :: rest, 125 :: rest, ?_, ?_, ?_⟩,
      ?_⟩
    · rw [GtypeValue.text, List.append_assoc, List.append_assoc]
      exact (TokenText.punctuation rfl).at _
    · exact hfirst _
    · exact (TokenText.punctuation rfl).at rest
    · show (fieldValues io 0 trees).map _ = _
      rw [hvalue 0 (by omega)]
      rfl

theorem elems_read (utf8 : Bool) (io : ScalarIn) (o : ScalarOut) : (vs : List GtypeValue) → ElemsReadable vs →
    (∀ s ∈ elemScalars vs, s.Survives utf8 io o) →
    ∃ trees : List GtypeTree,
      (∀ rest, ListAt utf8 (elemRegions utf8 trees) (elemsText o true vs ++ rest) rest) ∧
      (∀ rest, MoreAt utf8 (elemRegions utf8 trees) (elemsText o false vs ++ rest) rest) ∧
      ∀ num, num + vs.length ≤ maxBuiltElems → elemValues io num trees = .ok (canonicalElems vs)
  | [], _, _ => ⟨[], fun _ => rfl, fun _ => rfl, fun _ _ => rfl⟩
  | v :: vs, h, hs => by
    rw [elemScalars, List.forall_mem_append] at hs
    obtain ⟨tree, hat, hvalue⟩ := text_read utf8 io o v h.1 hs.1
    obtain ⟨trees, -, hmore, hvalues⟩ := elems_read utf8 io o vs h.2 hs.2
    refine ⟨tree :: trees, fun rest => ?_, fun rest => ?_, fun num hnum => ?_⟩
    · refine ⟨elemsText o false vs ++ rest, ?_, hmore rest⟩
      rw [elemsText, comma, if_pos rfl, List.nil_append, List.append_assoc]
      exact hat _
    · rw [elemsText, List.append_assoc, List.append_assoc]
      exact comma_at (fun w hw => (hat _).space hw) (hmore rest)
    · rw [List.length_cons] at hnum
      rw [elemValues, hvalue]
      show (if num < maxBuiltElems then _ else _) = _
      rw [if_pos (by omega), hvalues (num + 1) (by omega)]
      rfl

theorem pairs_read (utf8 : Bool) (io : ScalarIn) (o : ScalarOut) : (pairs : List (List UInt8 × GtypeValue)) →
    PairsReadable pairs → (∀ s ∈ pairScalars pairs, s.Survives utf8 io o) →
    ∃ fields : List (List UInt8 × GtypeTree),
      (∀ rest, ListAt utf8 (fieldRegions utf8 fields) (pairsText o true pairs ++ rest) rest) ∧
      (∀ rest, MoreAt utf8 (fieldRegions utf8 fields) (pairsText o false pairs ++ rest) rest) ∧
      ∀ num, num + pairs.length ≤ maxBuiltPairs → fieldValues io num fields = .ok (canonicalPairs pairs)
  | [], _, _ => ⟨[], fun _ => rfl, fun _ => rfl, fun _ _ => rfl⟩
  | (key, v) :: pairs, h, hs => by
    rw [pairScalars, List.forall_mem_append] at hs
    obtain ⟨⟨hkey, hshort⟩, hv, hpairs⟩ := h
    obtain ⟨tree, hat, hvalue⟩ := text_read utf8 io o v hv hs.1
    obtain ⟨fields, -, hmore, hvalues⟩ := pairs_read utf8 io o pairs hpairs hs.2
    have hfield : ∀ rest w, w.all isSpaceByte → FieldAt utf8 key (tree.At utf8)
        (w ++ (escapeGtype key ++ ([58, 32] ++ (v.text o ++ rest)))) rest := fun rest w hw =>
      ⟨[58], [58, 32] ++ (v.text o ++ rest), 32 :: (v.text o ++ rest),
        ((tokenText_escapeGtype hkey).at _).space hw, TokenText.colon.at _, (hat rest).space (w := [32]) rfl⟩
    refine ⟨(key, tree) :: fields, fun rest => ?_, fun rest => ?_, fun num hnum => ?_⟩
    · refine ⟨pairsText o false pairs ++ rest, ?_, hmore rest⟩
      rw [pairsText, comma, if_pos rfl, List.nil_append, List.append_assoc, List.append_assoc, List.append_assoc]
      exact hfield _ [] rfl
    · rw [pairsText, List.append_assoc, List.append_assoc, List.append_assoc, List.append_assoc]
      exact comma_at (fun w hw => hfield _ w hw) (hmore rest)
    · rw [List.length_cons] at hnum
      rw [fieldValues, checkStringLength, if_neg (Nat.not_lt.mpr hshort)]
      show (if num < maxBuiltPairs then _ else _) = _
      rw [if_pos (by omega), hvalue]
      show (fieldValues io (num + 1) fields).map _ = _
      rw [hvalues (num + 1) (by omega)]
      rfl

end

end

/-! ## Where the parts of a datum are found -/

/-- A timestamp: its entry leaves out the padding. -/
def GtypeScalar.IsTimestamp (s : GtypeScalar) : Prop := ∃ val, s = .timestamp val

theorem GtypeScalar.placed_self (t : Nat) (s : GtypeScalar) : s.Placed t t := by
  cases s with
  | null | bool _ => trivial
  | string val => exact .inr rfl
  | _ => exact rfl

theorem reported_eq_size {v : GtypeValue} (h : ∀ s ∈ v.scalars, ¬ s.IsTimestamp) (t : Nat) :
    v.reported t = v.size t := by
  cases v with
  | scalar s =>
    cases s with
    | timestamp val => exact absurd ⟨val, rfl⟩ (h _ (List.mem_singleton_self _))
    | _ => rfl
  | array rawScalar elems => rfl
  | object pairs => rfl

mutual

/-- **Without a timestamp, every value is found where it is stored.** -/
theorem placed_self : (t : Nat) → (v : GtypeValue) → (∀ s ∈ v.scalars, ¬ s.IsTimestamp) → v.Placed t t
  | t, .scalar s, _ => s.placed_self t
  | _, .array _ elems, h => ⟨rfl, elemsPlaced_self 0 elems h⟩
  | _, .object pairs, h => ⟨rfl, pairsPlaced_self _ pairs h⟩

theorem elemsPlaced_self : (t : Nat) → (vs : List GtypeValue) → (∀ s ∈ elemScalars vs, ¬ s.IsTimestamp) →
    ElemsPlaced t t vs
  | t, [], _ => trivial
  | t, v :: vs, h => by
    rw [elemScalars, List.forall_mem_append] at h
    refine ⟨placed_self t v h.1, ?_⟩
    rw [reported_eq_size h.1]
    exact elemsPlaced_self _ vs h.2

theorem pairsPlaced_self : (t : Nat) → (pairs : List (List UInt8 × GtypeValue)) →
    (∀ s ∈ pairScalars pairs, ¬ s.IsTimestamp) → PairsPlaced t t pairs
  | t, [], _ => trivial
  | t, (key, v) :: pairs, h => by
    rw [pairScalars, List.forall_mem_append] at h
    refine ⟨placed_self t v h.1, ?_⟩
    rw [reported_eq_size h.1]
    exact pairsPlaced_self _ pairs h.2

end

/-! ## What is printed for a datum -/

section

variable {g : Memory} {o : ScalarOut} {v : GtypeValue} {datum text : List UInt8}

/-- **`gtype_out`** prints this text for a datum: that of the tokens of its iterator, in a string buffer of at
most `MaxAllocSize` bytes. -/
def GtypeOut (o : ScalarOut) (datum text : List UInt8) : Prop :=
  ∃ tokens, IteratesTo datum tokens ∧ gtypeToCstringWorker o true false tokens = .ok text ∧
    text.length < maxAllocSize

theorem Yields.unique {buf : List UInt8} {its : List GtypeIterator} {tokens tokens' : List GtypeToken}
    (h : Yields buf its tokens) (h' : Yields buf its tokens') : tokens = tokens' := by
  induction h generalizing tokens' with
  | done =>
    cases h' with
    | done => rfl
    | next hnext _ => cases hnext
  | next hnext _ ih =>
    cases h' with
    | done => cases hnext
    | next hnext' hrest =>
      rw [hnext] at hnext'
      cases hnext'
      rw [ih hrest]

theorem stored_isContainer (v : GtypeValue) : v.stored.IsContainer := by
  cases v <;> trivial

theorem stored_wellFormed (h : v.WellFormed) : v.stored.WellFormed := by
  cases v with
  | scalar s => exact ⟨h, trivial⟩
  | array rawScalar elems => exact h
  | object pairs => exact h

theorem stored_scalars (v : GtypeValue) : v.stored.scalars = v.scalars := by
  cases v <;> rfl

/-- The iterator of what is stored for a value without a timestamp yields the tokens of the value. -/
theorem iteratesTo_stored (hwf : v.WellFormed) (htime : ∀ s ∈ v.scalars, ¬ s.IsTimestamp)
    (h : gtypeValueToGtype g v = .ok datum) : IteratesTo datum (v.stored.tokens .elem) := by
  have hstored := stored_isContainer v
  have hwf' := stored_wellFormed hwf
  rw [← stored_scalars] at htime
  obtain ⟨hholds, hfits⟩ := convertToGtype_ok hwf' hstored h
  obtain ⟨it, token, it', tail, hit, hbegin, htokens, hyields⟩ :=
    container_descends v.stored hstored hwf' hholds hfits (placed_self 0 _ htime) .elem
  refine ⟨it, hit, ?_⟩
  rw [htokens, ← List.append_nil tail, yields_iff (next_begin hit hbegin []), hyields]
  exact .done

mutual

theorem noRawScalar_of_readable : (v : GtypeValue) → v.Readable → v.NoRawScalar
  | .scalar _, _ => trivial
  | .array _ elems, h => ⟨h.1, elemsNoRawScalar_of_readable elems h.2.2⟩
  | .object pairs, h => pairsNoRawScalar_of_readable pairs h.2

theorem elemsNoRawScalar_of_readable : (vs : List GtypeValue) → ElemsReadable vs → ElemsNoRawScalar vs
  | [], _ => trivial
  | v :: vs, h => ⟨noRawScalar_of_readable v h.1, elemsNoRawScalar_of_readable vs h.2⟩

theorem pairsNoRawScalar_of_readable : (pairs : List (List UInt8 × GtypeValue)) → PairsReadable pairs →
    PairsNoRawScalar pairs
  | [], _ => trivial
  | (_, v) :: pairs, h => ⟨noRawScalar_of_readable v h.2.1, pairsNoRawScalar_of_readable pairs h.2.2⟩

end

/-- The tokens of what is stored are printed as the text of the value: a scalar without brackets. -/
theorem worker_stored (h : v.NoRawScalar) :
    gtypeToCstringWorker o true false (v.stored.tokens .elem) = .ok (v.text o) := by
  cases v with
  | scalar s =>
    show Except.ok (comma true ++ [] ++ (comma true ++ gtypePutEscapedValue o s ++ ([] ++ []))) = Except.ok _
    simp [comma, GtypeValue.text]
  | array rawScalar elems => exact gtypeToCstring_eq_text h
  | object pairs => exact gtypeToCstring_eq_text h

/-- **What is printed for what is stored for a value**: its text, if it is not too long. -/
theorem gtypeOut_stored (hwf : v.WellFormed) (hread : v.Readable) (htime : ∀ s ∈ v.scalars, ¬ s.IsTimestamp)
    (h : gtypeValueToGtype g v = .ok datum) :
    GtypeOut o datum text ↔ text = v.text o ∧ text.length < maxAllocSize := by
  have hiterates := iteratesTo_stored hwf htime h
  have hprints := worker_stored (o := o) (noRawScalar_of_readable v hread)
  constructor
  · rintro ⟨tokens, ⟨it, hit, hyields⟩, hworker, hlen⟩
    obtain ⟨it', hit', hyields'⟩ := hiterates
    rw [hit] at hit'
    cases hit'
    rw [hyields.unique hyields', hprints] at hworker
    exact ⟨(Except.ok.inj hworker).symm, hlen⟩
  · rintro ⟨rfl, hlen⟩
    exact ⟨_, hiterates, hprints, hlen⟩

end

end NeoPostGraph
