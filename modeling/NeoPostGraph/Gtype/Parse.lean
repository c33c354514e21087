import NeoPostGraph.Gtype.Lex

/-!
# The parser

`parse_gtype` (`gtype_parser.c:64-425`) is a recursive descent over the tokens, with one token of lookahead.
It hands what it finds to the callbacks of the caller.

* `parseGtype`: the parser, for any callbacks. Its fuel is the length of the input.
* `GtypeTree`: what is parsed. `GtypeTree.events`: its traversal, as the callbacks see it.
* `GtypeTree.At`: the grammar, from where a value starts to what stands behind it.

Results:
* `parseGtype_iff`: what is accepted is a value and whitespace, and the callbacks are invoked as its traversal.
* `parseGtype_ends`: the parser never runs out of fuel.
-/

namespace NeoPostGraph

/-! ## The parser -/

/-- `gtype_parse_context`, as far as it is reported. -/
inductive ParseContext where
  | value
  | string
  | arrayStart
  | arrayNext
  | objectStart
  | objectLabel
  | objectNext
  | endOfInput
deriving DecidableEq, Repr

/-- What `report_parse_error` has expected. -/
def ParseContext.expected : ParseContext → String
  | value => "Expected gtype value, but found \""
  | string => "Expected string, but found \""
  | arrayStart => "Expected array element or \"]\", but found \""
  | arrayNext => "Expected \",\" or \"]\", but found \""
  | objectStart => "Expected string or \"\x7d\", but found \""
  | objectLabel => "Expected \":\", but found \""
  | objectNext => "Expected \",\" or \"\x7d\", but found \""
  | endOfInput => "Expected end of input, but found \""

/-- The errors of a parse, with those of the callbacks. -/
inductive ParseErr (ε : Type) where
  | lex (e : LexErr)
  /-- `report_parse_error`. -/
  | unexpected (ctx : ParseContext) (token : List UInt8)
  /-- `report_parse_error` at the end of the input. -/
  | inputEnded
  | invalidAnnotationValue
  | action (e : ε)
  /-- Not raised. -/
  | outOfFuel

/-- The calls of `gtype_sem_action`. -/
inductive SemEvent where
  | objectStart
  | objectEnd
  | arrayStart
  | arrayEnd
  | objectFieldStart (fname : List UInt8) (isnull : Bool)
  | objectFieldEnd (fname : List UInt8) (isnull : Bool)
  | arrayElementStart (isnull : Bool)
  | arrayElementEnd (isnull : Bool)
  | scalar (token : List UInt8) (tokentype : TokenType) (annot : Option (List UInt8))
deriving DecidableEq, Repr

/-- A part of the parser. Most return the context and the state of the callbacks. -/
abbrev Parse (ε : Type) := Except (ParseErr ε)

section

variable {ε σ : Type} (utf8 : Bool) (sem : SemEvent → σ → Except ε σ)

/-- One callback; a callback that is NULL leaves the state as it is. -/
def semAction (event : SemEvent) (s : σ) : Parse ε σ := (sem event s).mapError .action

/-- The next token. -/
def nextToken (lex : LexContext) : Parse ε LexContext := (gtypeLex utf8 lex.rest).mapError .lex

def reportParseError {α : Type} (ctx : ParseContext) (lex : LexContext) : Parse ε α :=
  .error (if lex.tokenType = .endToken then .inputEnded else .unexpected ctx lex.token)

/-- `lex_accept`. -/
def lexAccept (lex : LexContext) (token : TokenType) : Parse ε (Option LexContext) :=
  if lex.tokenType = token then (nextToken utf8 lex).map some else .ok none

/-- `lex_expect`. -/
def lexExpect (ctx : ParseContext) (lex : LexContext) (token : TokenType) :
    Parse ε LexContext := do
  match ← lexAccept utf8 lex token with
  | some lex => return lex
  | none => reportParseError ctx lex

/-- `parse_scalar_annotation`. -/
def parseScalarAnnotation (lex : LexContext) :
    Parse ε (LexContext × Option (List UInt8)) := do
  match ← lexAccept utf8 lex .annotationToken with
  | none => return (lex, none)
  | some lex =>
    match ← lexAccept utf8 lex .identifier with
    | some next => return (next, some lex.lexeme)
    | none => .error .invalidAnnotationValue

/-- The tokens that are scalars. -/
def TokenType.isScalar : TokenType → Bool
  | trueToken | falseToken | nullToken | integer | float | string | inet => true
  | _ => false

/-- `parse_scalar`. -/
def parseScalar (lex : LexContext) (s : σ) : Parse ε (LexContext × σ) :=
  if lex.tokenType.isScalar then do
    let next ← nextToken utf8 lex
    let (next, annot) ← parseScalarAnnotation utf8 next
    let s ← semAction sem (.scalar lex.lexeme lex.tokenType annot) s
    return (next, s)
  else reportParseError .value lex

/-- The loop over the commas, in an array and in an object. -/
def parseMore (item : LexContext → σ → Parse ε (LexContext × σ)) :
    Nat → LexContext → σ → Parse ε (LexContext × σ)
  | 0, _, _ => .error .outOfFuel
  | n + 1, lex, s => do
    match ← lexAccept utf8 lex .comma with
    | none => return (lex, s)
    | some lex =>
      let (lex, s) ← item lex s
      parseMore item n lex s

/-- `parse_array_element`. -/
def parseArrayElement (value : LexContext → σ → Parse ε (LexContext × σ)) (lex : LexContext) (s : σ) :
    Parse ε (LexContext × σ) := do
  let isnull := decide (lex.tokenType = .nullToken)
  let s ← semAction sem (.arrayElementStart isnull) s
  let (lex, s) ← value lex s
  let s ← semAction sem (.arrayElementEnd isnull) s
  return (lex, s)

/-- The elements of an array. -/
def parseElements (value : LexContext → σ → Parse ε (LexContext × σ)) (n : Nat) (lex : LexContext) (s : σ) :
    Parse ε (LexContext × σ) :=
  if lex.tokenType ≠ .arrayEnd then do
    let (lex, s) ← parseArrayElement sem value lex s
    parseMore utf8 (parseArrayElement sem value) n lex s
  else return (lex, s)

/-- `parse_array`. -/
def parseArray (value : LexContext → σ → Parse ε (LexContext × σ)) (n : Nat) (lex : LexContext) (s : σ) :
    Parse ε (LexContext × σ) := do
  let s ← semAction sem .arrayStart s
  let lex ← lexExpect utf8 .arrayStart lex .arrayStart
  let (lex, s) ← parseElements utf8 sem value n lex s
  let lex ← lexExpect utf8 .arrayNext lex .arrayEnd
  let s ← semAction sem .arrayEnd s
  return (lex, s)

/-- `parse_object_field`. -/
def parseObjectField (value : LexContext → σ → Parse ε (LexContext × σ)) (lex : LexContext) (s : σ) :
    Parse ε (LexContext × σ) := do
  let fname := lex.lexeme
  let lex ← lexExpect utf8 .string lex .string
  let lex ← lexExpect utf8 .objectLabel lex .colon
  let isnull := decide (lex.tokenType = .nullToken)
  let s ← semAction sem (.objectFieldStart fname isnull) s
  let (lex, s) ← value lex s
  let s ← semAction sem (.objectFieldEnd fname isnull) s
  return (lex, s)

/-- The fields of an object. -/
def parseFields (value : LexContext → σ → Parse ε (LexContext × σ)) (n : Nat) (lex : LexContext) (s : σ) :
    Parse ε (LexContext × σ) :=
  if lex.tokenType = .string then do
    let (lex, s) ← parseObjectField utf8 sem value lex s
    parseMore utf8 (parseObjectField utf8 sem value) n lex s
  else if lex.tokenType = .objectEnd then return (lex, s)
  else reportParseError .objectStart lex

/-- `parse_object`. -/
def parseObject (value : LexContext → σ → Parse ε (LexContext × σ)) (n : Nat) (lex : LexContext) (s : σ) :
    Parse ε (LexContext × σ) := do
  let s ← semAction sem .objectStart s
  let lex ← lexExpect utf8 .objectStart lex .objectStart
  let (lex, s) ← parseFields utf8 sem value n lex s
  let lex ← lexExpect utf8 .objectNext lex .objectEnd
  let s ← semAction sem .objectEnd s
  return (lex, s)

/-- The switch of `parse_gtype`, `parse_object_field` and `parse_array_element`. -/
def parseValue : Nat → LexContext → σ → Parse ε (LexContext × σ)
  | 0, _, _ => .error .outOfFuel
  | n + 1, lex, s =>
    match lex.tokenType with
    | .objectStart => parseObject utf8 sem (parseValue n) n lex s
    | .arrayStart => parseArray utf8 sem (parseValue n) n lex s
    | _ => parseScalar utf8 sem lex s

/-- `parse_gtype`. -/
def parseGtype (input : List UInt8) (s : σ) : Parse ε σ := do
  let lex ← nextToken utf8 ⟨.invalid, [], [], input⟩
  let (lex, s) ← parseValue utf8 sem (input.length + 1) lex s
  let _ ← lexExpect utf8 .endOfInput lex .endToken
  return s

end

/-! ## The grammar -/

/-- What is parsed. A scalar has the lexeme of its token, and the identifier of its annotation. -/
inductive GtypeTree where
  | scalar (token : List UInt8) (tokentype : TokenType) (annot : Option (List UInt8))
  | array (elems : List GtypeTree)
  | object (fields : List (List UInt8 × GtypeTree))

def GtypeTree.isNull : GtypeTree → Bool
  | scalar _ t _ => t = .nullToken
  | _ => false

mutual

/-- The traversal of a tree. -/
def GtypeTree.events : GtypeTree → List SemEvent
  | .scalar token tokentype annot => [.scalar token tokentype annot]
  | .array elems => .arrayStart :: (elemEvents elems ++ [.arrayEnd])
  | .object fields => .objectStart :: (fieldEvents fields ++ [.objectEnd])

def elemEvents : List GtypeTree → List SemEvent
  | [] => []
  | v :: vs => .arrayElementStart v.isNull :: (v.events ++ .arrayElementEnd v.isNull :: elemEvents vs)

def fieldEvents : List (List UInt8 × GtypeTree) → List SemEvent
  | [] => []
  | (fname, v) :: fields => .objectFieldStart fname v.isNull ::
      (v.events ++ .objectFieldEnd fname v.isNull :: fieldEvents fields)

end

/-- From where something starts to what stands behind it. -/
abbrev Region := List UInt8 → List UInt8 → Prop

/-- A typecast, or none. -/
def AnnotationAt (utf8 : Bool) (annot : Option (List UInt8)) : Region := fun input rest =>
  match annot with
  | none => input = rest
  | some name => ∃ a r, TokenAt utf8 .annotationToken a input r ∧ TokenAt utf8 .identifier name r rest

/-- More of a list, each with a comma in front of it. -/
def MoreAt (utf8 : Bool) : List Region → Region
  | [], input, rest => input = rest
  | p :: ps, input, rest =>
    ∃ a r₁ r₂, TokenAt utf8 .comma a input r₁ ∧ p r₁ r₂ ∧ MoreAt utf8 ps r₂ rest

/-- A list, with commas between its items. -/
def ListAt (utf8 : Bool) : List Region → Region
  | [], input, rest => input = rest
  | p :: ps, input, rest => ∃ r, p input r ∧ MoreAt utf8 ps r rest

/-- A field of an object, from the region of its value. -/
def FieldAt (utf8 : Bool) (fname : List UInt8) (value : Region) : Region := fun input rest =>
  ∃ c r₁ r₂, TokenAt utf8 .string fname input r₁ ∧ TokenAt utf8 .colon c r₁ r₂ ∧ value r₂ rest

mutual

/-- **The grammar**: a value starts here, and this is what stands behind it. -/
def GtypeTree.At (utf8 : Bool) : GtypeTree → Region
  | .scalar token t annot, input, rest =>
    t.isScalar ∧ ∃ r, TokenAt utf8 t token input r ∧ AnnotationAt utf8 annot r rest
  | .array elems, input, rest => ∃ a b r₁ r₂, TokenAt utf8 .arrayStart a input r₁ ∧
    ListAt utf8 (elemRegions utf8 elems) r₁ r₂ ∧ TokenAt utf8 .arrayEnd b r₂ rest
  | .object fields, input, rest => ∃ a b r₁ r₂, TokenAt utf8 .objectStart a input r₁ ∧
    ListAt utf8 (fieldRegions utf8 fields) r₁ r₂ ∧ TokenAt utf8 .objectEnd b r₂ rest

def elemRegions (utf8 : Bool) : List GtypeTree → List Region
  | [] => []
  | v :: vs => v.At utf8 :: elemRegions utf8 vs

def fieldRegions (utf8 : Bool) : List (List UInt8 × GtypeTree) → List Region
  | [] => []
  | (fname, v) :: fields => FieldAt utf8 fname (v.At utf8) :: fieldRegions utf8 fields

end

/-- **A document**: a value, and whitespace around it. -/
def GtypeTree.Document (utf8 : Bool) (v : GtypeTree) (input : List UInt8) : Prop :=
  ∃ rest, v.At utf8 input rest ∧ rest.all isSpaceByte

/-- The callbacks, one after the other. -/
def runEvents {ε σ : Type} (sem : SemEvent → σ → Except ε σ) : List SemEvent → σ → Except ε σ
  | [], s => .ok s
  | e :: es, s => (sem e s).bind (runEvents sem es)

/-! ## The parser ends -/

/-- A part of the parser does not run out of fuel, and what it returns is so. -/
structure ParseEnds {ε α : Type} (x : Parse ε α) (Q : α → Prop) : Prop where
  fuel : x ≠ .error .outOfFuel
  ok : ∀ a, x = .ok a → Q a

/-- How much there is to read: the token and the input behind it. -/
def LexContext.size (lex : LexContext) : Nat :=
  lex.rest.length + if lex.tokenType = .endToken then 0 else 1

section

variable {ε σ α β : Type} {utf8 : Bool} {sem : SemEvent → σ → Except ε σ} {lex lex' : LexContext}
  {t : TokenType} {val input i r : List UInt8} {s s' : σ} {n : Nat}

theorem ParseEnds.bind {x : Parse ε α} {f : α → Parse ε β} {P : α → Prop} {Q : β → Prop} (hx : ParseEnds x P)
    (hf : ∀ a, P a → ParseEnds (f a) Q) : ParseEnds (x >>= f) Q := by
  cases x with
  | error e =>
    refine ⟨fun h => hx.fuel ?_, fun a h => ?_⟩
    · exact congrArg Except.error (Except.error.inj h)
    · cases h
  | ok a => exact hf a (hx.ok a rfl)

theorem ParseEnds.pure {a : α} {Q : α → Prop} (h : Q a) : ParseEnds (.ok a : Parse ε α) Q := by
  refine ⟨nofun, ?_⟩
  rintro b ⟨⟩
  exact h

theorem ParseEnds.error {e : ParseErr ε} {Q : α → Prop} (h : e ≠ .outOfFuel) :
    ParseEnds (.error e : Parse ε α) Q :=
  ⟨fun he => h (Except.error.inj he), nofun⟩

theorem ParseEnds.mono {x : Parse ε α} {P Q : α → Prop} (hx : ParseEnds x P) (h : ∀ a, P a → Q a) :
    ParseEnds x Q :=
  ⟨hx.fuel, fun a ha => h a (hx.ok a ha)⟩

theorem TokenText.length_pos {text : List UInt8} (h : TokenText utf8 t val text) : 0 < text.length := by
  cases h with
  | punctuation => simp
  | colon => simp
  | annotationToken => simp
  | string => simp
  | number h =>
    obtain ⟨c, s, rfl, -⟩ := h.head
    simp
  | negative => simp
  | negInfinity => simp
  | word h =>
    obtain ⟨⟨c, s, rfl, -⟩, -⟩ := h
    simp

/-- A token takes something off the input. -/
theorem TokenAt.length_lt (h : TokenAt utf8 t val i r) : r.length < i.length := by
  obtain ⟨w, text, -, htext, rfl⟩ := h
  have hpos := htext.length_pos
  rw [List.length_append, List.length_append]
  omega

theorem size_le_of_lex (h : gtypeLex utf8 i = .ok lex) : lex.size ≤ i.length := by
  unfold LexContext.size
  rcases tokenAt_of_lex h with ⟨hend, -, hrest⟩ | hat
  · rw [hend, hrest]
    simp
  · have hlt := hat.length_lt
    split_ifs <;> omega

theorem size_eq (h : lex.tokenType ≠ .endToken) : lex.size = lex.rest.length + 1 := by
  unfold LexContext.size
  rw [if_neg h]

theorem rest_le_size (lex : LexContext) : lex.rest.length ≤ lex.size := Nat.le_add_right ..

theorem semAction_ends (e : SemEvent) (s : σ) : ParseEnds (semAction sem e s) fun _ => True := by
  unfold semAction
  cases sem e s with
  | error e => exact .error (by simp)
  | ok s => exact .pure trivial

theorem reportParseError_ends {ctx : ParseContext} {Q : α → Prop} :
    ParseEnds (reportParseError ctx lex : Parse ε α) Q := by
  unfold reportParseError
  split_ifs
  · exact .error (by simp)
  · exact .error (by simp)

theorem nextToken_ends (lex : LexContext) :
    ParseEnds (nextToken utf8 lex : Parse ε LexContext) fun next => next.size ≤ lex.rest.length := by
  unfold nextToken
  cases h : gtypeLex utf8 lex.rest with
  | error e => exact .error (by simp)
  | ok next => exact .pure (size_le_of_lex h)

theorem lexAccept_ends (lex : LexContext) (t : TokenType) :
    ParseEnds (lexAccept utf8 lex t : Parse ε (Option LexContext)) fun found => ∀ next ∈ found,
      lex.tokenType = t ∧ next.size ≤ lex.rest.length := by
  unfold lexAccept
  split_ifs with ht
  · refine ((nextToken_ends lex).bind (f := fun next => .pure (some next)) fun next hnext => .pure ?_)
    rintro _ ⟨⟩
    exact ⟨ht, hnext⟩
  · exact .pure fun _ h => by cases h

theorem lexExpect_ends (ctx : ParseContext) (lex : LexContext) (t : TokenType) :
    ParseEnds (lexExpect utf8 ctx lex t : Parse ε LexContext) fun next =>
      lex.tokenType = t ∧ next.size ≤ lex.rest.length := by
  refine (lexAccept_ends lex t).bind fun found hfound => ?_
  cases found with
  | none => exact reportParseError_ends
  | some next => exact .pure (hfound next rfl)

theorem isScalar_ne_end (h : lex.tokenType.isScalar = true) : lex.tokenType ≠ .endToken := by
  intro he
  rw [he] at h
  cases h

theorem parseScalarAnnotation_ends (lex : LexContext) :
    ParseEnds ( parseScalarAnnotation utf8 lex : Parse ε _) fun found => found.1.size ≤ lex.size := by
  refine (lexAccept_ends lex .annotationToken).bind fun found hfound => ?_
  cases found with
  | none => exact .pure (Nat.le_refl _)
  | some next =>
    obtain ⟨-, hnext⟩ := hfound next rfl
    refine (lexAccept_ends next .identifier).bind fun found hfound => ?_
    cases found with
    | none => exact .error (by simp)
    | some last =>
      obtain ⟨-, hlast⟩ := hfound last rfl
      refine .pure ?_
      have h₁ := rest_le_size lex
      have h₂ := rest_le_size next
      dsimp only
      omega

/-- A part of the parser ends on what is smaller, and takes something off. -/
def EndsBelow (n : Nat) (item : LexContext → σ → Parse ε (LexContext × σ)) : Prop :=
  ∀ lex s, lex.size < n → ParseEnds (item lex s) fun result => result.1.size < lex.size

theorem parseScalar_ends (lex : LexContext) (s : σ) :
    ParseEnds (parseScalar utf8 sem lex s) fun result => result.1.size < lex.size := by
  unfold parseScalar
  split_ifs with hscalar
  · have hsize := size_eq (isScalar_ne_end hscalar)
    refine (nextToken_ends lex).bind fun next hnext => ?_
    refine (parseScalarAnnotation_ends next).bind fun found hfound => ?_
    refine (semAction_ends _ s).bind fun s _ => .pure ?_
    dsimp only
    omega
  · exact reportParseError_ends

theorem parseMore_ends {item : LexContext → σ → Parse ε (LexContext × σ)} (hitem : EndsBelow n item)
    (k : Nat) (hk : k ≤ n) (lex : LexContext) (s : σ) (hsize : lex.size < k) :
    ParseEnds (parseMore utf8 item k lex s) fun result => result.1.size ≤ lex.size := by
  induction k generalizing lex s with
  | zero => exact absurd hsize (Nat.not_lt_zero _)
  | succ k ih =>
    refine (lexAccept_ends lex .comma).bind fun found hfound => ?_
    cases found with
    | none => exact .pure (Nat.le_refl _)
    | some next =>
      obtain ⟨hcomma, hnext⟩ := hfound next rfl
      have hlex : lex.size = lex.rest.length + 1 := size_eq (by rw [hcomma]; decide)
      refine (hitem next s (by omega)).bind fun result hresult => ?_
      refine (ih (by omega) result.1 result.2 (by omega)).mono fun last hlast => ?_
      omega

theorem parseArrayElement_ends {value : LexContext → σ → Parse ε (LexContext × σ)}
    (hvalue : EndsBelow n value) : EndsBelow n (parseArrayElement sem value) := by
  intro lex s hsize
  refine (semAction_ends _ s).bind fun s _ => ?_
  refine (hvalue lex s hsize).bind fun result hresult => ?_
  exact (semAction_ends _ result.2).bind fun s _ => .pure hresult

theorem parseObjectField_ends {value : LexContext → σ → Parse ε (LexContext × σ)}
    (hvalue : EndsBelow n value) : EndsBelow n (parseObjectField utf8 sem value) := by
  intro lex s hsize
  refine (lexExpect_ends .string lex .string).bind fun next hnext => ?_
  refine (lexExpect_ends .objectLabel next .colon).bind fun label hlabel => ?_
  have h₁ := rest_le_size lex
  have h₂ := rest_le_size next
  have hlex : lex.size = lex.rest.length + 1 := size_eq (by rw [hnext.1]; decide)
  refine (semAction_ends _ s).bind fun s _ => ?_
  refine (hvalue label s (by omega)).bind fun result hresult => ?_
  refine (semAction_ends _ result.2).bind fun s _ => .pure ?_
  dsimp only
  omega

theorem parseElements_ends {value : LexContext → σ → Parse ε (LexContext × σ)}
    (hvalue : EndsBelow n value) (lex : LexContext) (s : σ) (hsize : lex.size < n) :
    ParseEnds (parseElements utf8 sem value n lex s) fun result => result.1.size ≤ lex.size := by
  unfold parseElements
  split_ifs
  · have helem : EndsBelow n (parseArrayElement sem value) := parseArrayElement_ends hvalue
    refine (helem lex s hsize).bind fun result hresult => ?_
    exact (parseMore_ends helem n (Nat.le_refl n) result.1 result.2 (by omega)).mono fun last hlast => by
      omega
  · exact .pure (Nat.le_refl _)

theorem parseFields_ends {value : LexContext → σ → Parse ε (LexContext × σ)}
    (hvalue : EndsBelow n value) (lex : LexContext) (s : σ) (hsize : lex.size < n) :
    ParseEnds (parseFields utf8 sem value n lex s) fun result => result.1.size ≤ lex.size := by
  unfold parseFields
  split_ifs
  · have hfield : EndsBelow n (parseObjectField utf8 sem value) := parseObjectField_ends hvalue
    refine (hfield lex s hsize).bind fun result hresult => ?_
    exact (parseMore_ends hfield n (Nat.le_refl n) result.1 result.2 (by omega)).mono fun last hlast => by
      omega
  · exact .pure (Nat.le_refl _)
  · exact reportParseError_ends

theorem parseArray_ends {value : LexContext → σ → Parse ε (LexContext × σ)} (hvalue : EndsBelow n value) :
    EndsBelow (n + 1) (parseArray utf8 sem value n) := by
  intro lex s hsize
  refine (semAction_ends _ s).bind fun s _ => ?_
  refine (lexExpect_ends .arrayStart lex .arrayStart).bind fun next hnext => ?_
  have hlex : lex.size = lex.rest.length + 1 := size_eq (by rw [hnext.1]; decide)
  refine (parseElements_ends hvalue next s (by omega)).bind fun result hresult => ?_
  refine (lexExpect_ends .arrayNext result.1 .arrayEnd).bind fun last hlast => ?_
  have hrest := rest_le_size result.1
  refine (semAction_ends _ result.2).bind fun s _ => .pure ?_
  dsimp only
  omega

theorem parseObject_ends {value : LexContext → σ → Parse ε (LexContext × σ)} (hvalue : EndsBelow n value) :
    EndsBelow (n + 1) (parseObject utf8 sem value n) := by
  intro lex s hsize
  refine (semAction_ends _ s).bind fun s _ => ?_
  refine (lexExpect_ends .objectStart lex .objectStart).bind fun next hnext => ?_
  have hlex : lex.size = lex.rest.length + 1 := size_eq (by rw [hnext.1]; decide)
  refine (parseFields_ends hvalue next s (by omega)).bind fun result hresult => ?_
  refine (lexExpect_ends .objectNext result.1 .objectEnd).bind fun last hlast => ?_
  have hrest := rest_le_size result.1
  refine (semAction_ends _ result.2).bind fun s _ => .pure ?_
  dsimp only
  omega

/-- **A value ends**, with fuel for what there is to read. -/
theorem parseValue_ends (n : Nat) : EndsBelow n (parseValue utf8 sem n) := by
  induction n with
  | zero => exact fun lex s hsize => absurd hsize (Nat.not_lt_zero _)
  | succ n ih =>
    intro lex s hsize
    unfold parseValue
    split
    · exact parseObject_ends ih lex s hsize
    · exact parseArray_ends ih lex s hsize
    · exact parseScalar_ends lex s

/-- **The parser never runs out of fuel.** -/
theorem parseGtype_ends (input : List UInt8) (s : σ) :
    parseGtype utf8 sem input s ≠ .error .outOfFuel := by
  refine ParseEnds.fuel (Q := fun _ => True) ?_
  refine (nextToken_ends _).bind fun lex hlex => ?_
  refine (parseValue_ends (input.length + 1) lex s (by dsimp only at hlex; omega)).bind fun result _ => ?_
  exact (lexExpect_ends _ result.1 _).bind fun _ _ => .pure trivial

end

/-! ## What is accepted -/

section

variable {ε σ α : Type} {utf8 : Bool} {sem : SemEvent → σ → Except ε σ} {lex lex' next : LexContext}
  {t : TokenType} {val input i r : List UInt8} {s s' : σ} {n : Nat}

theorem nextToken_ok : (nextToken utf8 lex : Parse ε LexContext) = .ok next ↔
    gtypeLex utf8 lex.rest = .ok next := by
  exact mapError_eq_ok

theorem lexAccept_some : (lexAccept utf8 lex t : Parse ε (Option LexContext)) = .ok (some next) ↔
    lex.tokenType = t ∧ gtypeLex utf8 lex.rest = .ok next := by
  unfold lexAccept
  split_ifs with ht
  · rw [← nextToken_ok (ε := ε)]
    cases (nextToken utf8 lex : Parse ε LexContext) <;> simp [Except.map, ht]
  · simp [ht]

theorem lexAccept_none : (lexAccept utf8 lex t : Parse ε (Option LexContext)) = .ok none ↔
    lex.tokenType ≠ t := by
  unfold lexAccept
  split_ifs with ht
  · cases (nextToken utf8 lex : Parse ε LexContext) <;> simp [Except.map, ht]
  · simp [ht]

theorem lexExpect_ok {ctx : ParseContext} : (lexExpect utf8 ctx lex t : Parse ε LexContext) = .ok next ↔
    lex.tokenType = t ∧ gtypeLex utf8 lex.rest = .ok next := by
  unfold lexExpect
  rw [← lexAccept_some (ε := ε)]
  cases h : (lexAccept utf8 lex t : Parse ε (Option LexContext)) with
  | error e => exact iff_of_false nofun nofun
  | ok found =>
    cases found with
    | none => exact iff_of_false nofun nofun
    | some found =>
      show Except.ok found = _ ↔ _
      simp

theorem semAction_ok {e : SemEvent} : semAction sem e s = .ok s' ↔ sem e s = .ok s' := by
  exact mapError_eq_ok

theorem runEvents_append {es es' : List SemEvent} :
    runEvents sem (es ++ es') s = (runEvents sem es s).bind (runEvents sem es') := by
  induction es generalizing s with
  | nil => rfl
  | cons e es ih =>
    rw [List.cons_append]
    unfold runEvents
    cases sem e s with
    | error e => rfl
    | ok s => exact ih

theorem elemRegions_eq (vs : List GtypeTree) : elemRegions utf8 vs = vs.map (GtypeTree.At utf8) := by
  induction vs with
  | nil => rfl
  | cons v vs ih =>
    unfold elemRegions
    rw [ih]
    rfl

theorem fieldRegions_eq (fields : List (List UInt8 × GtypeTree)) : fieldRegions utf8 fields =
    fields.map fun field => FieldAt utf8 field.1 (field.2.At utf8) := by
  induction fields with
  | nil => rfl
  | cons field fields ih =>
    unfold fieldRegions
    rw [ih]
    rfl

/-- The traversal of an element. -/
def elementEvents (v : GtypeTree) : List SemEvent :=
  .arrayElementStart v.isNull :: (v.events ++ [.arrayElementEnd v.isNull])

/-- The traversal of a field. -/
def objectFieldEvents (field : List UInt8 × GtypeTree) : List SemEvent :=
  .objectFieldStart field.1 field.2.isNull ::
    (field.2.events ++ [.objectFieldEnd field.1 field.2.isNull])

theorem elemEvents_eq (vs : List GtypeTree) : elemEvents vs = vs.flatMap elementEvents := by
  induction vs with
  | nil => rfl
  | cons v vs ih =>
    unfold elemEvents
    rw [ih, List.flatMap_cons]
    simp [elementEvents]

theorem fieldEvents_eq (fields : List (List UInt8 × GtypeTree)) :
    fieldEvents fields = fields.flatMap objectFieldEvents := by
  induction fields with
  | nil => rfl
  | cons field fields ih =>
    unfold fieldEvents
    rw [ih, List.flatMap_cons]
    simp [objectFieldEvents]

/-- Three parts of a run. -/
theorem runEvents_around {e e' : SemEvent} {es : List SemEvent} :
    runEvents sem (e :: (es ++ [e'])) s = .ok s' ↔
      ∃ s₁ s₂, sem e s = .ok s₁ ∧ runEvents sem es s₁ = .ok s₂ ∧ sem e' s₂ = .ok s' := by
  have hlast : ∀ s₂, runEvents sem [e'] s₂ = sem e' s₂ := by
    intro s₂
    unfold runEvents
    cases sem e' s₂ <;> rfl
  have hsplit : runEvents sem (e :: (es ++ [e'])) s =
      (sem e s).bind fun s₁ => (runEvents sem es s₁).bind (sem e') := by
    rw [runEvents]
    refine congrArg _ (funext fun s₁ => ?_)
    rw [runEvents_append]
    exact congrArg _ (funext hlast)
  rw [hsplit]
  constructor
  · intro h
    obtain ⟨s₁, hs₁, h⟩ := bind_eq_ok h
    obtain ⟨s₂, hs₂, h⟩ := bind_eq_ok h
    exact ⟨s₁, s₂, hs₁, hs₂, h⟩
  · rintro ⟨s₁, s₂, hs₁, hs₂, h⟩
    rw [hs₁, Except.bind, hs₂]
    exact h

/-- The end is no token. -/
theorem not_tokenAt_end : ¬ TokenAt utf8 .endToken val i r := by
  rintro ⟨w, text, -, htext, -⟩
  generalize ht : TokenType.endToken = t at htext
  cases htext with
  | punctuation h => rcases punctuation_type h with h | h | h | h | h <;> rw [h] at ht <;> cases ht
  | colon => cases ht
  | annotationToken => cases ht
  | string => cases ht
  | number h => rcases h.type with h | h | h <;> rw [h] at ht <;> cases ht
  | negative h => rcases h.type with h | h | h <;> rw [h] at ht <;> cases ht
  | negInfinity => cases ht
  | word => rcases wordType_type val with h | h | h | h | h <;> rw [h] at ht <;> cases ht

theorem tokenAt_of_type (h : gtypeLex utf8 i = .ok lex) (ht : lex.tokenType = t) (hne : t ≠ .endToken) :
    TokenAt utf8 t lex.lexeme i lex.rest := by
  subst ht
  rcases tokenAt_of_lex h with ⟨hend, -⟩ | hat
  · exact absurd hend hne
  · exact hat

/-- **What a part accepts is its region**, and the callbacks are invoked as its traversal. -/
def Sound (utf8 : Bool) (sem : SemEvent → σ → Except ε σ) (P : α → Region) (events : α → List SemEvent)
    (item : LexContext → σ → Parse ε (LexContext × σ)) : Prop :=
  ∀ i lex s lex' s', gtypeLex utf8 i = .ok lex → item lex s = .ok (lex', s') →
    ∃ a r, P a i r ∧ gtypeLex utf8 r = .ok lex' ∧ runEvents sem (events a) s = .ok s'

/-- What a value accepts, which is null exactly when its token is. -/
def ValueSound (utf8 : Bool) (sem : SemEvent → σ → Except ε σ)
    (value : LexContext → σ → Parse ε (LexContext × σ)) : Prop :=
  ∀ i lex s lex' s', gtypeLex utf8 i = .ok lex → value lex s = .ok (lex', s') →
    ∃ v r, GtypeTree.At utf8 v i r ∧ v.isNull = decide (lex.tokenType = .nullToken) ∧
      gtypeLex utf8 r = .ok lex' ∧ runEvents sem v.events s = .ok s'

theorem parseScalarAnnotation_sound {annot : Option (List UInt8)}
    (hlex : gtypeLex utf8 i = .ok lex)
    (h : ( parseScalarAnnotation utf8 lex : Parse ε _) = .ok (lex', annot)) :
    ∃ r, AnnotationAt utf8 annot i r ∧ gtypeLex utf8 r = .ok lex' := by
  obtain ⟨found, hfound, h⟩ := bind_eq_ok h
  cases found with
  | none =>
    cases h
    exact ⟨i, rfl, hlex⟩
  | some next =>
    obtain ⟨ht, hnext⟩ := lexAccept_some.mp hfound
    obtain ⟨found, hfound, h⟩ := bind_eq_ok h
    cases found with
    | none => cases h
    | some last =>
      obtain ⟨hid, hlast⟩ := lexAccept_some.mp hfound
      cases h
      exact ⟨next.rest, ⟨_, lex.rest, tokenAt_of_type hlex ht (by decide),
        tokenAt_of_type hnext hid (by decide)⟩, hlast⟩

theorem parseScalar_sound (hlex : gtypeLex utf8 i = .ok lex)
    (h : parseScalar utf8 sem lex s = .ok (lex', s')) :
    ∃ annot r, (GtypeTree.scalar lex.lexeme lex.tokenType annot).At utf8 i r ∧
      gtypeLex utf8 r = .ok lex' ∧ sem (.scalar lex.lexeme lex.tokenType annot) s = .ok s' := by
  unfold parseScalar at h
  split_ifs at h with hscalar
  · obtain ⟨next, hnext, h⟩ := bind_eq_ok h
    obtain ⟨⟨last, annot⟩, hannot, h⟩ := bind_eq_ok h
    obtain ⟨s₁, hs₁, h⟩ := bind_eq_ok h
    cases h
    obtain ⟨r, hat, hr⟩ := parseScalarAnnotation_sound (nextToken_ok.mp hnext) hannot
    exact ⟨annot, r, ⟨hscalar, lex.rest, tokenAt_of_type hlex rfl (isScalar_ne_end hscalar), hat⟩, hr,
      semAction_ok.mp hs₁⟩
  · cases h

theorem parseMore_sound {P : α → Region} {events : α → List SemEvent}
    {item : LexContext → σ → Parse ε (LexContext × σ)} (hitem : Sound utf8 sem P events item)
    (hlex : gtypeLex utf8 i = .ok lex) (h : parseMore utf8 item n lex s = .ok (lex', s')) :
    ∃ (as : List α) (r : List UInt8), MoreAt utf8 (as.map P) i r ∧ gtypeLex utf8 r = .ok lex' ∧
      runEvents sem (as.flatMap events) s = .ok s' := by
  induction n generalizing i lex s with
  | zero => cases h
  | succ n ih =>
    obtain ⟨found, hfound, h⟩ := bind_eq_ok h
    cases found with
    | none =>
      cases h
      exact ⟨[], i, rfl, hlex, rfl⟩
    | some next =>
      obtain ⟨ht, hnext⟩ := lexAccept_some.mp hfound
      obtain ⟨⟨lex₁, s₁⟩, hone, h⟩ := bind_eq_ok h
      obtain ⟨a, r₁, hp, hr₁, hev⟩ := hitem _ _ _ _ _ hnext hone
      obtain ⟨as, r, hmore, hr, hevs⟩ := ih hr₁ h
      refine ⟨a :: as, r, ⟨_, lex.rest, r₁, tokenAt_of_type hlex ht (by decide), hp, hmore⟩, hr, ?_⟩
      rw [List.flatMap_cons, runEvents_append, hev]
      exact hevs

theorem parseArrayElement_sound {value : LexContext → σ → Parse ε (LexContext × σ)}
    (hvalue : ValueSound utf8 sem value) :
    Sound utf8 sem (GtypeTree.At utf8) elementEvents (parseArrayElement sem value) := by
  intro i lex s lex' s' hlex h
  obtain ⟨s₁, hs₁, h⟩ := bind_eq_ok h
  obtain ⟨⟨lex₁, s₂⟩, hv, h⟩ := bind_eq_ok h
  obtain ⟨s₃, hs₃, h⟩ := bind_eq_ok h
  cases h
  obtain ⟨v, r, hat, hnull, hr, hev⟩ := hvalue _ _ _ _ _ hlex hv
  rw [← hnull] at hs₁ hs₃
  exact ⟨v, r, hat, hr, runEvents_around.mpr ⟨_, _, semAction_ok.mp hs₁, hev, semAction_ok.mp hs₃⟩⟩

theorem parseObjectField_sound {value : LexContext → σ → Parse ε (LexContext × σ)}
    (hvalue : ValueSound utf8 sem value) :
    Sound utf8 sem (fun field => FieldAt utf8 field.1 (field.2.At utf8)) objectFieldEvents
      (parseObjectField utf8 sem value) := by
  intro i lex s lex' s' hlex h
  obtain ⟨label, hlabel, h⟩ := bind_eq_ok h
  obtain ⟨first, hfirst, h⟩ := bind_eq_ok h
  obtain ⟨s₁, hs₁, h⟩ := bind_eq_ok h
  obtain ⟨⟨lex₁, s₂⟩, hv, h⟩ := bind_eq_ok h
  obtain ⟨s₃, hs₃, h⟩ := bind_eq_ok h
  cases h
  obtain ⟨hstring, hlabel⟩ := lexExpect_ok.mp hlabel
  obtain ⟨hcolon, hfirst⟩ := lexExpect_ok.mp hfirst
  obtain ⟨v, r, hat, hnull, hr, hev⟩ := hvalue _ _ _ _ _ hfirst hv
  rw [← hnull] at hs₁ hs₃
  refine ⟨(lex.lexeme, v), r, ⟨_, _, _, tokenAt_of_type hlex hstring (by decide),
    tokenAt_of_type hlabel hcolon (by decide), hat⟩, hr, ?_⟩
  exact runEvents_around.mpr ⟨_, _, semAction_ok.mp hs₁, hev, semAction_ok.mp hs₃⟩

theorem listAt_of_more {P : α → Region} {a : α} {as : List α} {r₁ : List UInt8} (h : P a i r₁)
    (hmore : MoreAt utf8 (as.map P) r₁ r) : ListAt utf8 ((a :: as).map P) i r := ⟨r₁, h, hmore⟩

theorem parseElements_sound {value : LexContext → σ → Parse ε (LexContext × σ)}
    (hvalue : ValueSound utf8 sem value) (hlex : gtypeLex utf8 i = .ok lex)
    (h : parseElements utf8 sem value n lex s = .ok (lex', s')) :
    ∃ vs r, ListAt utf8 (elemRegions utf8 vs) i r ∧ gtypeLex utf8 r = .ok lex' ∧
      runEvents sem (elemEvents vs) s = .ok s' := by
  unfold parseElements at h
  split_ifs at h
  · obtain ⟨⟨lex₁, s₁⟩, hone, h⟩ := bind_eq_ok h
    obtain ⟨v, r₁, hat, hr₁, hev⟩ := parseArrayElement_sound hvalue _ _ _ _ _ hlex hone
    obtain ⟨vs, r, hmore, hr, hevs⟩ := parseMore_sound (parseArrayElement_sound hvalue) hr₁ h
    refine ⟨v :: vs, r, ?_, hr, ?_⟩
    · rw [elemRegions_eq]
      exact listAt_of_more hat hmore
    · rw [elemEvents_eq, List.flatMap_cons, runEvents_append, hev]
      exact hevs
  · cases h
    exact ⟨[], i, rfl, hlex, rfl⟩

theorem parseFields_sound {value : LexContext → σ → Parse ε (LexContext × σ)}
    (hvalue : ValueSound utf8 sem value) (hlex : gtypeLex utf8 i = .ok lex)
    (h : parseFields utf8 sem value n lex s = .ok (lex', s')) :
    ∃ fields r, ListAt utf8 (fieldRegions utf8 fields) i r ∧ gtypeLex utf8 r = .ok lex' ∧
      runEvents sem (fieldEvents fields) s = .ok s' := by
  unfold parseFields at h
  split_ifs at h
  · obtain ⟨⟨lex₁, s₁⟩, hone, h⟩ := bind_eq_ok h
    obtain ⟨field, r₁, hat, hr₁, hev⟩ := parseObjectField_sound hvalue _ _ _ _ _ hlex hone
    obtain ⟨fields, r, hmore, hr, hevs⟩ := parseMore_sound (parseObjectField_sound hvalue) hr₁ h
    refine ⟨field :: fields, r, ?_, hr, ?_⟩
    · rw [fieldRegions_eq]
      exact listAt_of_more hat hmore
    · rw [fieldEvents_eq, List.flatMap_cons, runEvents_append, hev]
      exact hevs
  · cases h
    exact ⟨[], i, rfl, hlex, rfl⟩
  · cases h

theorem parseArray_sound {value : LexContext → σ → Parse ε (LexContext × σ)}
    (hvalue : ValueSound utf8 sem value) (hlex : gtypeLex utf8 i = .ok lex)
    (h : parseArray utf8 sem value n lex s = .ok (lex', s')) :
    ∃ vs r, (GtypeTree.array vs).At utf8 i r ∧ gtypeLex utf8 r = .ok lex' ∧
      runEvents sem (GtypeTree.array vs).events s = .ok s' := by
  obtain ⟨s₁, hs₁, h⟩ := bind_eq_ok h
  obtain ⟨first, hfirst, h⟩ := bind_eq_ok h
  obtain ⟨⟨lex₁, s₂⟩, hvs, h⟩ := bind_eq_ok h
  obtain ⟨last, hlast, h⟩ := bind_eq_ok h
  obtain ⟨s₃, hs₃, h⟩ := bind_eq_ok h
  cases h
  obtain ⟨hstart, hfirst⟩ := lexExpect_ok.mp hfirst
  obtain ⟨hend, hlast⟩ := lexExpect_ok.mp hlast
  obtain ⟨vs, r, hat, hr, hev⟩ := parseElements_sound hvalue hfirst hvs
  refine ⟨vs, lex₁.rest, ⟨_, _, _, r, tokenAt_of_type hlex hstart (by decide), hat,
    tokenAt_of_type hr hend (by decide)⟩, hlast, ?_⟩
  exact runEvents_around.mpr ⟨_, _, semAction_ok.mp hs₁, hev, semAction_ok.mp hs₃⟩

theorem parseObject_sound {value : LexContext → σ → Parse ε (LexContext × σ)}
    (hvalue : ValueSound utf8 sem value) (hlex : gtypeLex utf8 i = .ok lex)
    (h : parseObject utf8 sem value n lex s = .ok (lex', s')) :
    ∃ fields r, (GtypeTree.object fields).At utf8 i r ∧ gtypeLex utf8 r = .ok lex' ∧
      runEvents sem (GtypeTree.object fields).events s = .ok s' := by
  obtain ⟨s₁, hs₁, h⟩ := bind_eq_ok h
  obtain ⟨first, hfirst, h⟩ := bind_eq_ok h
  obtain ⟨⟨lex₁, s₂⟩, hfields, h⟩ := bind_eq_ok h
  obtain ⟨last, hlast, h⟩ := bind_eq_ok h
  obtain ⟨s₃, hs₃, h⟩ := bind_eq_ok h
  cases h
  obtain ⟨hstart, hfirst⟩ := lexExpect_ok.mp hfirst
  obtain ⟨hend, hlast⟩ := lexExpect_ok.mp hlast
  obtain ⟨fields, r, hat, hr, hev⟩ := parseFields_sound hvalue hfirst hfields
  refine ⟨fields, lex₁.rest, ⟨_, _, _, r, tokenAt_of_type hlex hstart (by decide), hat,
    tokenAt_of_type hr hend (by decide)⟩, hlast, ?_⟩
  exact runEvents_around.mpr ⟨_, _, semAction_ok.mp hs₁, hev, semAction_ok.mp hs₃⟩

/-- **What a value accepts is in the grammar.** -/
theorem parseValue_sound (n : Nat) : ValueSound utf8 sem (parseValue utf8 sem n) := by
  induction n with
  | zero =>
    intro i lex s lex' s' hlex h
    cases h
  | succ n ih =>
    intro i lex s lex' s' hlex h
    unfold parseValue at h
    split at h
    · next ht =>
      obtain ⟨fields, r, hat, hr, hev⟩ := parseObject_sound ih hlex h
      exact ⟨_, r, hat, by rw [ht]; rfl, hr, hev⟩
    · next ht =>
      obtain ⟨vs, r, hat, hr, hev⟩ := parseArray_sound ih hlex h
      exact ⟨_, r, hat, by rw [ht]; rfl, hr, hev⟩
    · obtain ⟨annot, r, hat, hr, hev⟩ := parseScalar_sound hlex h
      refine ⟨_, r, hat, rfl, hr, ?_⟩
      unfold GtypeTree.events runEvents
      rw [hev]
      rfl

theorem parseGtype_sound (h : parseGtype utf8 sem input s = .ok s') :
    ∃ v : GtypeTree, v.Document utf8 input ∧ runEvents sem v.events s = .ok s' := by
  obtain ⟨lex, hlex, h⟩ := bind_eq_ok h
  obtain ⟨⟨lex₁, s₁⟩, hv, h⟩ := bind_eq_ok h
  obtain ⟨last, hlast, h⟩ := bind_eq_ok h
  cases h
  obtain ⟨v, r, hat, -, hr, hev⟩ := parseValue_sound _ _ _ _ _ _ (nextToken_ok.mp hlex) hv
  obtain ⟨hend, -⟩ := lexExpect_ok.mp hlast
  refine ⟨v, ⟨r, hat, ?_⟩, hev⟩
  rcases tokenAt_of_lex hr with ⟨-, hspace, -⟩ | hat
  · exact hspace
  · rw [hend] at hat
    exact absurd hat (not_tokenAt_end)

end

/-! ## What is in the grammar -/

/-- What stands behind a value: whitespace, and the end, a comma or a closing bracket. -/
def Follow (r : List UInt8) : Prop :=
  ∃ w s, w.all isSpaceByte ∧ r = w ++ s ∧ ∀ c ∈ s.head?, c = 44 ∨ c = 93 ∨ c = 125

section

variable {ε σ α : Type} {utf8 : Bool} {sem : SemEvent → σ → Except ε σ} {lex lex' next : LexContext}
  {t : TokenType} {val input i r w : List UInt8} {s s' : σ} {n k : Nat} {c : UInt8}

/-- Whitespace is where anything ends. -/
theorem stops_of_space (hw : w.all isSpaceByte) (hr : Stops r) : Stops (w ++ r) := by
  cases w with
  | nil => exact hr
  | cons c w =>
    rintro _ ⟨⟩
    have hc : c = 32 ∨ c = 9 ∨ c = 10 ∨ c = 13 := by
      simpa [isSpaceByte] using (Bool.and_eq_true_iff.mp hw).1
    rcases hc with rfl | rfl | rfl | rfl <;> decide

theorem Follow.stops (h : Follow r) : Stops r := by
  obtain ⟨w, s, hw, rfl, hs⟩ := h
  refine stops_of_space hw fun c hc => ?_
  rcases hs c hc with rfl | rfl | rfl <;> decide

theorem follow_of_space (h : r.all isSpaceByte) : Follow r :=
  ⟨r, [], h, (List.append_nil r).symm, nofun⟩

/-- The tokens behind a value. -/
def TokenType.IsFollow (t : TokenType) : Prop :=
  t = .endToken ∨ t = .comma ∨ t = .arrayEnd ∨ t = .objectEnd

/-- A token of one byte is that byte. -/
theorem tokenText_follow {text : List UInt8} (h : TokenText utf8 t val text) (ht : t.IsFollow) :
    ∃ c, text = [c] ∧ (c = 44 ∨ c = 93 ∨ c = 125) := by
  unfold TokenType.IsFollow at ht
  cases h with
  | @punctuation c tokenType h =>
    refine ⟨c, rfl, ?_⟩
    unfold punctuation at h
    split_ifs at h with h₁ h₂ h₃ h₄ h₅ <;> cases h <;> simp_all
  | colon => simp at ht
  | annotationToken => simp at ht
  | string => simp at ht
  | number h => rcases h.type with rfl | rfl | rfl <;> simp at ht
  | negative h => rcases h.type with rfl | rfl | rfl <;> simp at ht
  | negInfinity => simp at ht
  | word => rcases wordType_type val with h | h | h | h | h <;> rw [h] at ht <;> simp at ht

theorem follow_of_tokenAt (h : TokenAt utf8 t val i r) (ht : t.IsFollow) : Follow i := by
  obtain ⟨w, text, hw, htext, rfl⟩ := h
  obtain ⟨c, rfl, hc⟩ := tokenText_follow htext ht
  refine ⟨w, c :: r, hw, rfl, ?_⟩
  rintro _ ⟨⟩
  exact hc

theorem Follow.token (utf8 : Bool) (h : Follow r) : ∃ lex, gtypeLex utf8 r = .ok lex ∧ lex.tokenType.IsFollow := by
  obtain ⟨w, s, hw, rfl, hs⟩ := h
  rw [gtypeLex_space hw]
  cases s with
  | nil => exact ⟨_, gtypeLex_end rfl, .inl rfl⟩
  | cons c s =>
    rcases hs c rfl with rfl | rfl | rfl
    · exact ⟨_, gtypeLex_cons (by decide), .inr (.inl rfl)⟩
    · exact ⟨_, gtypeLex_cons (by decide), .inr (.inr (.inl rfl))⟩
    · exact ⟨_, gtypeLex_cons (by decide), .inr (.inr (.inr rfl))⟩

/-- Only a colon and a typecast begin with a colon. -/
theorem head_ne_colon (h : TokenAt utf8 t val i r) (h₁ : t ≠ .colon) (h₂ : t ≠ .annotationToken) :
    i.head? ≠ some 58 := by
  obtain ⟨w, text, hw, htext, rfl⟩ := h
  cases w with
  | cons c w =>
    have hc := (Bool.and_eq_true_iff.mp hw).1
    rintro ⟨⟩
    cases hc
  | nil =>
    cases htext with
    | @punctuation c tokenType h =>
      rintro ⟨⟩
      cases h
    | colon => exact absurd rfl h₁
    | annotationToken => exact absurd rfl h₂
    | string => nofun
    | number h =>
      obtain ⟨c, s, rfl, hc⟩ := h.head
      rintro ⟨⟩
      cases hc
    | negative => nofun
    | negInfinity => nofun
    | word h =>
      obtain ⟨⟨c, s, rfl, -⟩, hall⟩ := h
      rintro ⟨⟩
      exact absurd (Bool.and_eq_true_iff.mp hall).1 (by decide)

theorem stops_of_annotation (h : TokenAt utf8 .annotationToken val i r) : Stops i := by
  obtain ⟨w, text, hw, htext, rfl⟩ := h
  refine stops_of_space hw ?_
  generalize ht : TokenType.annotationToken = t at htext
  cases htext with
  | annotationToken =>
    rintro _ ⟨⟩
    decide
  | punctuation h => rcases punctuation_type h with h | h | h | h | h <;> rw [h] at ht <;> cases ht
  | colon => cases ht
  | string => cases ht
  | number h => rcases h.type with h | h | h <;> rw [h] at ht <;> cases ht
  | negative h => rcases h.type with h | h | h <;> rw [h] at ht <;> cases ht
  | negInfinity => cases ht
  | word => rcases wordType_type val with h | h | h | h | h <;> rw [h] at ht <;> cases ht

/-- The token that is next, and no other. -/
theorem lex_of_tokenAt (h : TokenAt utf8 t val i r) (hends : EndsBefore t r)
    (hlex : gtypeLex utf8 i = .ok lex) : lex.tokenType = t ∧ lex.lexeme = val ∧ lex.rest = r := by
  obtain ⟨found, hfound, hspec⟩ := gtypeLex_token h hends
  obtain rfl := Except.ok.inj (hlex.symm.trans hfound)
  exact hspec

theorem endsBefore_punctuation (ht : t.IsPunctuation) (hne : t ≠ .colon) : EndsBefore t r :=
  ⟨fun h => absurd h hne, .inl ht⟩

theorem endsBefore_stops (hne : t ≠ .colon) (hr : Stops r) : EndsBefore t r :=
  ⟨fun h => absurd h hne, .inr hr⟩

theorem isScalar_ne (h : t.isScalar = true) : t ≠ .colon ∧ t ≠ .annotationToken ∧ t ≠ .arrayStart ∧
    t ≠ .objectStart ∧ t ≠ .arrayEnd := by
  refine ⟨?_, ?_, ?_, ?_, ?_⟩ <;> rintro rfl <;> cases h

/-- What a scalar ends before. -/
theorem stops_of_annotationAt {annot : Option (List UInt8)} {r₁ : List UInt8}
    (h : AnnotationAt utf8 annot r₁ r) (hr : Follow r) : Stops r₁ := by
  cases annot with
  | none =>
    obtain rfl : r₁ = r := h
    exact hr.stops
  | some name =>
    obtain ⟨a, r₂, ha, -⟩ := h
    exact stops_of_annotation ha

/-- **The first token of a value.** -/
theorem GtypeTree.At.firstToken {v : GtypeTree} (h : v.At utf8 i r) (hr : Follow r) :
    i.head? ≠ some 58 ∧ ∃ lex, gtypeLex utf8 i = .ok lex ∧
      v.isNull = decide (lex.tokenType = .nullToken) ∧ lex.tokenType ≠ .arrayEnd := by
  cases v with
  | scalar token t annot =>
    obtain ⟨hscalar, r₁, hat, hannot⟩ := h
    obtain ⟨hcolon, hann, -, -, hend⟩ := isScalar_ne hscalar
    refine ⟨head_ne_colon hat hcolon hann, ?_⟩
    obtain ⟨lex, hlex, ht, -⟩ := gtypeLex_token hat (endsBefore_stops hcolon (stops_of_annotationAt hannot hr))
    refine ⟨lex, hlex, ?_, by rwa [ht]⟩
    rw [ht]
    rfl
  | array elems =>
    obtain ⟨a, b, r₁, r₂, hstart, -⟩ := h
    refine ⟨head_ne_colon hstart (by decide) (by decide), ?_⟩
    obtain ⟨lex, hlex, ht, -⟩ := gtypeLex_token hstart (endsBefore_punctuation
      (.inr (.inr (.inl rfl))) (by decide))
    exact ⟨lex, hlex, by rw [ht]; rfl, by rw [ht]; decide⟩
  | object fields =>
    obtain ⟨a, b, r₁, r₂, hstart, -⟩ := h
    refine ⟨head_ne_colon hstart (by decide) (by decide), ?_⟩
    obtain ⟨lex, hlex, ht, -⟩ := gtypeLex_token hstart (endsBefore_punctuation (.inl rfl) (by decide))
    exact ⟨lex, hlex, by rw [ht]; rfl, by rw [ht]; decide⟩

/-! ### The grammar is accepted -/

/-- **A part accepts a region**, and goes on with what stands behind it. -/
def Accepts (utf8 : Bool) (sem : SemEvent → σ → Except ε σ) (n : Nat) (p : Region)
    (events : List SemEvent) (item : LexContext → σ → Parse ε (LexContext × σ)) : Prop :=
  ∀ i r lex s lex' s', p i r → Follow r → gtypeLex utf8 i = .ok lex → lex.size < n →
    gtypeLex utf8 r = .ok lex' → runEvents sem events s = .ok s' → item lex s = .ok (lex', s')

theorem parseScalarAnnotation_accepts {annot : Option (List UInt8)}
    (h : AnnotationAt utf8 annot i r) (hr : Follow r) (hlex : gtypeLex utf8 i = .ok lex)
    (hlex' : gtypeLex utf8 r = .ok lex') :
    ( parseScalarAnnotation utf8 lex : Parse ε _) = .ok (lex', annot) := by
  unfold parseScalarAnnotation
  cases annot with
  | none =>
    obtain rfl : i = r := h
    obtain rfl := Except.ok.inj (hlex.symm.trans hlex')
    obtain ⟨found, hfound, hfollow⟩ := hr.token utf8
    obtain rfl := Except.ok.inj (hlex.symm.trans hfound)
    have hne : lex.tokenType ≠ .annotationToken := by
      rcases hfollow with h | h | h | h <;> rw [h] <;> decide
    rw [lexAccept_none.mpr hne]
    rfl
  | some name =>
    obtain ⟨a, r₁, hannot, hid⟩ := h
    obtain ⟨ht, -, rfl⟩ := lex_of_tokenAt hannot
      (endsBefore_punctuation (.inr (.inr (.inr (.inr (.inr (.inr (.inl rfl))))))) (by decide)) hlex
    obtain ⟨next, hnext, hnt, hname, rfl⟩ := gtypeLex_token hid (endsBefore_stops (by decide) hr.stops)
    rw [lexAccept_some.mpr ⟨ht, hnext⟩, ok_bind_eq]
    dsimp only
    rw [lexAccept_some.mpr ⟨hnt, hlex'⟩, ok_bind_eq, hname]
    rfl

theorem parseScalar_accepts {token : List UInt8} {annot : Option (List UInt8)} :
    Accepts utf8 sem n ((GtypeTree.scalar token t annot).At utf8)
      (GtypeTree.scalar token t annot).events (parseScalar utf8 sem) := by
  rintro i r lex s lex' s' ⟨hscalar, r₁, hat, hannot⟩ hr hlex - hlex' hrun
  obtain ⟨hcolon, -⟩ := isScalar_ne hscalar
  obtain ⟨rfl, rfl, rfl⟩ := lex_of_tokenAt hat
    (endsBefore_stops hcolon (stops_of_annotationAt hannot hr)) hlex
  obtain ⟨next, hnext⟩ : ∃ next, gtypeLex utf8 lex.rest = .ok next := by
    cases annot with
    | none =>
      obtain rfl : lex.rest = r := hannot
      exact ⟨lex', hlex'⟩
    | some name =>
      obtain ⟨a, r₂, ha, -⟩ := hannot
      obtain ⟨next, hnext, -⟩ := gtypeLex_token ha
        (endsBefore_punctuation (.inr (.inr (.inr (.inr (.inr (.inr (.inl rfl))))))) (by decide))
      exact ⟨next, hnext⟩
  have hrun' : sem (.scalar lex.lexeme lex.tokenType annot) s = .ok s' := by
    unfold GtypeTree.events runEvents at hrun
    obtain ⟨s₁, hs₁, hrun⟩ := bind_eq_ok hrun
    cases hrun
    exact hs₁
  unfold parseScalar
  rw [if_pos hscalar, nextToken_ok.mpr hnext, ok_bind_eq,
    parseScalarAnnotation_accepts hannot hr hnext hlex', ok_bind_eq]
  dsimp only
  rw [semAction_ok.mpr hrun']
  rfl

/-- What a list may end before. -/
def ListEnd (utf8 : Bool) (r : List UInt8) : Prop :=
  Follow r ∧ ∀ lex, gtypeLex utf8 r = .ok lex → lex.tokenType ≠ .comma

theorem follow_of_more {ps : List Region} (h : MoreAt utf8 ps i r) (hr : Follow r) : Follow i := by
  cases ps with
  | nil =>
    obtain rfl : i = r := h
    exact hr
  | cons p ps =>
    obtain ⟨a, r₁, r₂, hcomma, -⟩ := h
    exact follow_of_tokenAt hcomma (.inr (.inl rfl))

theorem parseMore_accepts {P : α → Region} {events : α → List SemEvent}
    {item : LexContext → σ → Parse ε (LexContext × σ)} {as : List α}
    (hitem : ∀ a ∈ as, Accepts utf8 sem n (P a) (events a) item)
    (hends : EndsBelow n item)
    (hfirst : ∀ a ∈ as, ∀ i r, P a i r → Follow r → ∃ lex, gtypeLex utf8 i = .ok lex)
    (h : MoreAt utf8 (as.map P) i r) (hr : ListEnd utf8 r) (hlex : gtypeLex utf8 i = .ok lex) (hk : k ≤ n)
    (hsize : lex.size < k) (hlex' : gtypeLex utf8 r = .ok lex')
    (hrun : runEvents sem (as.flatMap events) s = .ok s') :
    parseMore utf8 item k lex s = .ok (lex', s') := by
  induction as generalizing i lex s k with
  | nil =>
    obtain rfl : i = r := h
    obtain rfl := Except.ok.inj (hlex.symm.trans hlex')
    cases hrun
    cases k with
    | zero => exact absurd hsize (Nat.not_lt_zero _)
    | succ k =>
      unfold parseMore
      rw [lexAccept_none.mpr (hr.2 lex hlex)]
      rfl
  | cons a as ih =>
    obtain ⟨c, r₁, r₂, hcomma, hp, hmore⟩ := h
    have hfollow := follow_of_more hmore hr.1
    obtain ⟨ht, -, rfl⟩ := lex_of_tokenAt hcomma
      (endsBefore_punctuation (.inr (.inr (.inr (.inr (.inl rfl))))) (by decide)) hlex
    obtain ⟨first, hf⟩ := hfirst a List.mem_cons_self _ _ hp hfollow
    obtain ⟨next, hnext, -⟩ := hfollow.token utf8
    rw [List.flatMap_cons, runEvents_append] at hrun
    obtain ⟨s₁, hs₁, hrun⟩ := bind_eq_ok hrun
    have hlexSize : lex.size = lex.rest.length + 1 := size_eq (by rw [ht]; decide)
    have hfirstSize := size_le_of_lex hf
    cases k with
    | zero => exact absurd hsize (Nat.not_lt_zero _)
    | succ k =>
      have hone := hitem a List.mem_cons_self _ _ first s next s₁ hp hfollow hf (by omega) hnext hs₁
      have hlt : next.size < first.size := (hends first s (by omega)).ok _ hone
      have hrest : parseMore utf8 item k next s₁ = .ok (lex', s') :=
        ih (fun b hb => hitem b (List.mem_cons_of_mem _ hb))
          (fun b hb => hfirst b (List.mem_cons_of_mem _ hb)) hmore hnext (by omega) (by omega) hrun
      unfold parseMore
      rw [lexAccept_some.mpr ⟨ht, hf⟩, ok_bind_eq]
      dsimp only
      rw [hone]
      exact hrest

theorem parseArrayElement_accepts {value : LexContext → σ → Parse ε (LexContext × σ)} {v : GtypeTree}
    (hvalue : Accepts utf8 sem n (v.At utf8) v.events value) :
    Accepts utf8 sem n (v.At utf8) (elementEvents v) (parseArrayElement sem value) := by
  intro i r lex s lex' s' hat hr hlex hsize hlex' hrun
  obtain ⟨s₁, s₂, hs₁, hev, hs₂⟩ := runEvents_around.mp hrun
  obtain ⟨-, found, hfound, hnull, -⟩ := hat.firstToken hr
  obtain rfl := Except.ok.inj (hlex.symm.trans hfound)
  unfold parseArrayElement
  dsimp only
  rw [← hnull, semAction_ok.mpr hs₁, ok_bind_eq,
    hvalue i r lex s₁ lex' s₂ hat hr hlex hsize hlex' hev, ok_bind_eq]
  dsimp only
  rw [semAction_ok.mpr hs₂]
  rfl

/-- The tokens of a field, up to its value. -/
theorem field_firstToken {v : GtypeTree} {fname : List UInt8}
    (h : FieldAt utf8 fname (v.At utf8) i r) (hr : Follow r) : ∃ lex label first,
      gtypeLex utf8 i = .ok lex ∧ lex.tokenType = .string ∧ lex.lexeme = fname ∧
      gtypeLex utf8 lex.rest = .ok label ∧ label.tokenType = .colon ∧
      gtypeLex utf8 label.rest = .ok first ∧ v.isNull = decide (first.tokenType = .nullToken) ∧
      v.At utf8 label.rest r := by
  obtain ⟨c, r₁, r₂, hstring, hcolon, hat⟩ := h
  obtain ⟨hhead, first, hfirst, hnull, -⟩ := hat.firstToken hr
  obtain ⟨lex, hlex, ht, hname, rfl⟩ := gtypeLex_token hstring (endsBefore_punctuation
    (.inr (.inr (.inr (.inr (.inr (.inr (.inr rfl))))))) (by decide))
  obtain ⟨label, hlabel, hlt, -, rfl⟩ := gtypeLex_token hcolon
    ⟨fun _ => hhead, .inl (.inr (.inr (.inr (.inr (.inr (.inl rfl))))))⟩
  exact ⟨lex, label, first, hlex, ht, hname, hlabel, hlt, hfirst, hnull, hat⟩

theorem parseObjectField_accepts {value : LexContext → σ → Parse ε (LexContext × σ)}
    {field : List UInt8 × GtypeTree}
    (hvalue : Accepts utf8 sem n (field.2.At utf8) field.2.events value) :
    Accepts utf8 sem n (FieldAt utf8 field.1 (field.2.At utf8)) (objectFieldEvents field)
      (parseObjectField utf8 sem value) := by
  intro i r lex s lex' s' hat hr hlex hsize hlex' hrun
  obtain ⟨s₁, s₂, hs₁, hev, hs₂⟩ := runEvents_around.mp hrun
  obtain ⟨found, label, first, hfound, ht, hname, hlabel, hlt, hfirst, hnull, hvat⟩ :=
    field_firstToken hat hr
  obtain rfl := Except.ok.inj (hlex.symm.trans hfound)
  have hsizes := size_le_of_lex hlabel
  have hsizes' := size_le_of_lex hfirst
  have h₁ := rest_le_size lex
  have h₂ := rest_le_size label
  unfold parseObjectField
  dsimp only
  rw [lexExpect_ok.mpr ⟨ht, hlabel⟩, ok_bind_eq, lexExpect_ok.mpr ⟨hlt, hfirst⟩, ok_bind_eq, ← hnull,
    hname, semAction_ok.mpr hs₁, ok_bind_eq,
    hvalue _ r first s₁ lex' s₂ hvat hr hfirst (by omega) hlex' hev, ok_bind_eq]
  dsimp only
  rw [semAction_ok.mpr hs₂]
  rfl

/-- What `parseElements` and `parseFields` end before. -/
theorem listEnd_of_tokenAt (h : TokenAt utf8 t val i r) (ht : t = .arrayEnd ∨ t = .objectEnd) :
    ListEnd utf8 i ∧ ∃ lex, gtypeLex utf8 i = .ok lex ∧ lex.tokenType = t ∧ lex.rest = r := by
  have hpunct : t.IsPunctuation ∧ t ≠ .colon ∧ t.IsFollow ∧ t ≠ .comma := by
    unfold TokenType.IsPunctuation TokenType.IsFollow
    rcases ht with rfl | rfl <;> decide
  obtain ⟨hp, hcolon, hfollow, hcomma⟩ := hpunct
  obtain ⟨lex, hlex, hlt, -, hrest⟩ := gtypeLex_token h (endsBefore_punctuation hp hcolon)
  refine ⟨⟨follow_of_tokenAt h hfollow, fun found hfound => ?_⟩, lex, hlex, hlt, hrest⟩
  obtain rfl := Except.ok.inj (hlex.symm.trans hfound)
  rwa [hlt]

theorem parseElements_accepts {value : LexContext → σ → Parse ε (LexContext × σ)} {vs : List GtypeTree}
    (hvalue : ∀ v ∈ vs, Accepts utf8 sem n (v.At utf8) v.events value) (hends : EndsBelow n value)
    (h : ListAt utf8 (elemRegions utf8 vs) i r) (hr : ListEnd utf8 r)
    (hend : ∀ lex, gtypeLex utf8 r = .ok lex → lex.tokenType = .arrayEnd)
    (hlex : gtypeLex utf8 i = .ok lex) (hsize : lex.size < n) (hlex' : gtypeLex utf8 r = .ok lex')
    (hrun : runEvents sem (elemEvents vs) s = .ok s') :
    parseElements utf8 sem value n lex s = .ok (lex', s') := by
  unfold parseElements
  rw [elemRegions_eq] at h
  rw [elemEvents_eq] at hrun
  cases vs with
  | nil =>
    obtain rfl : i = r := h
    obtain rfl := Except.ok.inj (hlex.symm.trans hlex')
    cases hrun
    rw [if_neg (not_not.mpr (hend lex hlex))]
    rfl
  | cons v vs =>
    obtain ⟨r₁, hat, hmore⟩ := h
    have hfollow := follow_of_more hmore hr.1
    obtain ⟨-, found, hfound, -, hne⟩ := hat.firstToken hfollow
    obtain rfl := Except.ok.inj (hlex.symm.trans hfound)
    obtain ⟨next, hnext, -⟩ := hfollow.token utf8
    rw [List.flatMap_cons, runEvents_append] at hrun
    obtain ⟨s₁, hs₁, hrun⟩ := bind_eq_ok hrun
    have helem : ∀ w ∈ v :: vs, Accepts utf8 sem n (w.At utf8) (elementEvents w)
        (parseArrayElement sem value) := fun w hw => parseArrayElement_accepts (hvalue w hw)
    have hone := helem v List.mem_cons_self _ _ lex s next s₁ hat hfollow hlex hsize hnext hs₁
    have hlt : next.size < lex.size := (parseArrayElement_ends hends lex s hsize).ok _ hone
    rw [if_pos hne, hone, ok_bind_eq]
    dsimp only
    exact parseMore_accepts (fun w hw => helem w (List.mem_cons_of_mem _ hw))
      (parseArrayElement_ends hends) (fun w _ i r hw hf => (hw.firstToken hf).2.imp fun _ h => h.1) hmore hr
      hnext (Nat.le_refl n) (by omega) hlex' hrun

theorem parseFields_accepts {value : LexContext → σ → Parse ε (LexContext × σ)}
    {fields : List (List UInt8 × GtypeTree)}
    (hvalue : ∀ field ∈ fields, Accepts utf8 sem n (field.2.At utf8) field.2.events value)
    (hends : EndsBelow n value) (h : ListAt utf8 (fieldRegions utf8 fields) i r) (hr : ListEnd utf8 r)
    (hend : ∀ lex, gtypeLex utf8 r = .ok lex → lex.tokenType = .objectEnd)
    (hlex : gtypeLex utf8 i = .ok lex) (hsize : lex.size < n) (hlex' : gtypeLex utf8 r = .ok lex')
    (hrun : runEvents sem (fieldEvents fields) s = .ok s') :
    parseFields utf8 sem value n lex s = .ok (lex', s') := by
  unfold parseFields
  rw [fieldRegions_eq] at h
  rw [fieldEvents_eq] at hrun
  cases fields with
  | nil =>
    obtain rfl : i = r := h
    obtain rfl := Except.ok.inj (hlex.symm.trans hlex')
    cases hrun
    have ht := hend lex hlex
    rw [if_neg (by rw [ht]; decide), if_pos ht]
    rfl
  | cons field fields =>
    obtain ⟨r₁, hat, hmore⟩ := h
    have hfollow := follow_of_more hmore hr.1
    obtain ⟨found, -, -, hfound, ht, -⟩ := field_firstToken hat hfollow
    obtain rfl := Except.ok.inj (hlex.symm.trans hfound)
    obtain ⟨next, hnext, -⟩ := hfollow.token utf8
    rw [List.flatMap_cons, runEvents_append] at hrun
    obtain ⟨s₁, hs₁, hrun⟩ := bind_eq_ok hrun
    have hfield : ∀ f ∈ field :: fields, Accepts utf8 sem n (FieldAt utf8 f.1 (f.2.At utf8))
        (objectFieldEvents f) (parseObjectField utf8 sem value) :=
      fun f hf => parseObjectField_accepts (hvalue f hf)
    have hone := hfield field List.mem_cons_self _ _ lex s next s₁ hat hfollow hlex hsize hnext hs₁
    have hlt : next.size < lex.size := (parseObjectField_ends hends lex s hsize).ok _ hone
    rw [if_pos ht, hone, ok_bind_eq]
    dsimp only
    refine parseMore_accepts (fun f hf => hfield f (List.mem_cons_of_mem _ hf)) (parseObjectField_ends hends)
      (fun f _ i r hf hfol => ?_) hmore hr hnext (Nat.le_refl n) (by omega) hlex' hrun
    obtain ⟨first, -, -, hfirst, -⟩ := field_firstToken hf hfol
    exact ⟨first, hfirst⟩

theorem parseArray_accepts {value : LexContext → σ → Parse ε (LexContext × σ)} {vs : List GtypeTree}
    (hvalue : ∀ v ∈ vs, Accepts utf8 sem n (v.At utf8) v.events value) (hends : EndsBelow n value) :
    Accepts utf8 sem (n + 1) ((GtypeTree.array vs).At utf8) (GtypeTree.array vs).events
      (parseArray utf8 sem value n) := by
  rintro i r lex s lex' s' ⟨a, b, r₁, r₂, hstart, hlist, hend⟩ hr hlex hsize hlex' hrun
  obtain ⟨s₁, s₂, hs₁, hev, hs₂⟩ := runEvents_around.mp hrun
  obtain ⟨ht, -, rfl⟩ := lex_of_tokenAt hstart
    (endsBefore_punctuation (.inr (.inr (.inl rfl))) (by decide)) hlex
  obtain ⟨hlistEnd, last, hlast, hlt, rfl⟩ := listEnd_of_tokenAt hend (.inl rfl)
  have hfirst : ∃ first, gtypeLex utf8 lex.rest = .ok first := by
    cases vs with
    | nil =>
      obtain rfl : lex.rest = r₂ := hlist
      exact ⟨last, hlast⟩
    | cons v vs =>
      obtain ⟨r₃, hat, hmore⟩ := hlist
      obtain ⟨-, first, hfirst, -⟩ := hat.firstToken (follow_of_more hmore hlistEnd.1)
      exact ⟨first, hfirst⟩
  obtain ⟨first, hfirst⟩ := hfirst
  have hlexSize : lex.size = lex.rest.length + 1 := size_eq (by rw [ht]; decide)
  have hfirstSize := size_le_of_lex hfirst
  have hends₂ : ∀ lex, gtypeLex utf8 r₂ = .ok lex → lex.tokenType = .arrayEnd := fun found hfound => by
    obtain rfl := Except.ok.inj (hlast.symm.trans hfound)
    exact hlt
  have helems := parseElements_accepts hvalue hends hlist hlistEnd hends₂ hfirst (by omega) hlast hev
  unfold parseArray
  rw [semAction_ok.mpr hs₁, ok_bind_eq, lexExpect_ok.mpr ⟨ht, hfirst⟩, ok_bind_eq, helems, ok_bind_eq]
  dsimp only
  rw [lexExpect_ok.mpr ⟨hlt, hlex'⟩, ok_bind_eq, semAction_ok.mpr hs₂]
  rfl

theorem parseObject_accepts {value : LexContext → σ → Parse ε (LexContext × σ)}
    {fields : List (List UInt8 × GtypeTree)}
    (hvalue : ∀ field ∈ fields, Accepts utf8 sem n (field.2.At utf8) field.2.events value)
    (hends : EndsBelow n value) :
    Accepts utf8 sem (n + 1) ((GtypeTree.object fields).At utf8) (GtypeTree.object fields).events
      (parseObject utf8 sem value n) := by
  rintro i r lex s lex' s' ⟨a, b, r₁, r₂, hstart, hlist, hend⟩ hr hlex hsize hlex' hrun
  obtain ⟨s₁, s₂, hs₁, hev, hs₂⟩ := runEvents_around.mp hrun
  obtain ⟨ht, -, rfl⟩ := lex_of_tokenAt hstart (endsBefore_punctuation (.inl rfl) (by decide)) hlex
  obtain ⟨hlistEnd, last, hlast, hlt, rfl⟩ := listEnd_of_tokenAt hend (.inr rfl)
  have hfirst : ∃ first, gtypeLex utf8 lex.rest = .ok first := by
    cases fields with
    | nil =>
      obtain rfl : lex.rest = r₂ := hlist
      exact ⟨last, hlast⟩
    | cons field fields =>
      obtain ⟨r₃, hat, hmore⟩ := hlist
      obtain ⟨first, -, -, hfirst, -⟩ := field_firstToken hat (follow_of_more hmore hlistEnd.1)
      exact ⟨first, hfirst⟩
  obtain ⟨first, hfirst⟩ := hfirst
  have hlexSize : lex.size = lex.rest.length + 1 := size_eq (by rw [ht]; decide)
  have hfirstSize := size_le_of_lex hfirst
  have hends₂ : ∀ lex, gtypeLex utf8 r₂ = .ok lex → lex.tokenType = .objectEnd := fun found hfound => by
    obtain rfl := Except.ok.inj (hlast.symm.trans hfound)
    exact hlt
  have hfields := parseFields_accepts hvalue hends hlist hlistEnd hends₂ hfirst (by omega) hlast hev
  unfold parseObject
  rw [semAction_ok.mpr hs₁, ok_bind_eq, lexExpect_ok.mpr ⟨ht, hfirst⟩, ok_bind_eq, hfields,
    ok_bind_eq]
  dsimp only
  rw [lexExpect_ok.mpr ⟨hlt, hlex'⟩, ok_bind_eq, semAction_ok.mpr hs₂]
  rfl

/-- What a value starts with decides the case of the switch. -/
theorem tokenType_of_scalar {token : List UInt8} {annot : Option (List UInt8)}
    (h : (GtypeTree.scalar token t annot).At utf8 i r) (hr : Follow r)
    (hlex : gtypeLex utf8 i = .ok lex) : lex.tokenType = t ∧ t.isScalar = true := by
  obtain ⟨hscalar, r₁, hat, hannot⟩ := h
  obtain ⟨hcolon, -⟩ := isScalar_ne hscalar
  exact ⟨(lex_of_tokenAt hat (endsBefore_stops hcolon (stops_of_annotationAt hannot hr)) hlex).1, hscalar⟩

mutual

/-- **What is in the grammar is accepted.** -/
theorem parseValue_accepts (utf8 : Bool) (sem : SemEvent → σ → Except ε σ) : (v : GtypeTree) → (n : Nat) →
    Accepts utf8 sem n (v.At utf8) v.events (parseValue utf8 sem n)
  | _, 0 => fun i r lex s lex' s' _ _ _ hsize => absurd hsize (Nat.not_lt_zero _)
  | .scalar token t annot, n + 1 => by
    intro i r lex s lex' s' hat hr hlex hsize hlex' hrun
    obtain ⟨rfl, hscalar⟩ := tokenType_of_scalar hat hr hlex
    obtain ⟨-, -, harray, hobject, -⟩ := isScalar_ne hscalar
    unfold parseValue
    split
    · next h => exact absurd h hobject
    · next h => exact absurd h harray
    · exact parseScalar_accepts i r lex s lex' s' hat hr hlex hsize hlex' hrun
  | .array vs, n + 1 => by
    intro i r lex s lex' s' hat hr hlex hsize hlex' hrun
    have ht : lex.tokenType = .arrayStart := by
      obtain ⟨a, b, r₁, r₂, hstart, -⟩ := hat
      exact (lex_of_tokenAt hstart (endsBefore_punctuation (.inr (.inr (.inl rfl))) (by decide)) hlex).1
    unfold parseValue
    rw [ht]
    exact parseArray_accepts (elems_accept utf8 sem vs n) (parseValue_ends n) i r lex s lex' s' hat hr hlex
      hsize hlex' hrun
  | .object fields, n + 1 => by
    intro i r lex s lex' s' hat hr hlex hsize hlex' hrun
    have ht : lex.tokenType = .objectStart := by
      obtain ⟨a, b, r₁, r₂, hstart, -⟩ := hat
      exact (lex_of_tokenAt hstart (endsBefore_punctuation (.inl rfl) (by decide)) hlex).1
    unfold parseValue
    rw [ht]
    exact parseObject_accepts (fields_accept utf8 sem fields n) (parseValue_ends n) i r lex s lex' s' hat hr
      hlex hsize hlex' hrun

theorem elems_accept (utf8 : Bool) (sem : SemEvent → σ → Except ε σ) : (vs : List GtypeTree) → (n : Nat) →
    ∀ v ∈ vs, Accepts utf8 sem n (v.At utf8) v.events (parseValue utf8 sem n)
  | [], _ => nofun
  | v :: vs, n => List.forall_mem_cons.mpr ⟨parseValue_accepts utf8 sem v n, elems_accept utf8 sem vs n⟩

theorem fields_accept (utf8 : Bool) (sem : SemEvent → σ → Except ε σ) :
    (fields : List (List UInt8 × GtypeTree)) → (n : Nat) →
    ∀ field ∈ fields, Accepts utf8 sem n (field.2.At utf8) field.2.events (parseValue utf8 sem n)
  | [], _ => nofun
  | (_, v) :: fields, n =>
    List.forall_mem_cons.mpr ⟨parseValue_accepts utf8 sem v n, fields_accept utf8 sem fields n⟩

end

theorem parseGtype_complete {v : GtypeTree} (h : v.Document utf8 input)
    (hrun : runEvents sem v.events s = .ok s') : parseGtype utf8 sem input s = .ok s' := by
  obtain ⟨r, hat, hspace⟩ := h
  have hr := follow_of_space hspace
  obtain ⟨-, lex, hlex, -⟩ := hat.firstToken hr
  have hsize := size_le_of_lex hlex
  have hend : gtypeLex utf8 r = _ := gtypeLex_end hspace
  have hv := parseValue_accepts utf8 sem v (input.length + 1) input r lex s _ s' hat hr hlex (by omega) hend hrun
  unfold parseGtype
  rw [nextToken_ok.mpr hlex, ok_bind_eq, hv, ok_bind_eq]
  dsimp only
  rw [lexExpect_ok.mpr ⟨rfl, gtypeLex_end (by rfl)⟩]
  rfl

/-! ## The language of the parser -/

/-- The callbacks that only note what they are called with. -/
def noteEvent (event : SemEvent) (events : List SemEvent) : Except Empty (List SemEvent) :=
  .ok (events ++ [event])

theorem runEvents_noteEvent (es events : List SemEvent) :
    runEvents noteEvent es events = .ok (events ++ es) := by
  induction es generalizing events with
  | nil => simp [runEvents]
  | cons e es ih =>
    unfold runEvents
    show runEvents noteEvent es (events ++ [e]) = _
    rw [ih, List.append_assoc]
    rfl

/-- Two trees of one document have one traversal. -/
theorem GtypeTree.Document.events_unique {v v' : GtypeTree} (h : v.Document utf8 input)
    (h' : v'.Document utf8 input) : v.events = v'.events := by
  have hv := parseGtype_complete h (runEvents_noteEvent v.events [])
  have hv' := parseGtype_complete h' (runEvents_noteEvent v'.events [])
  exact Except.ok.inj (hv.symm.trans hv')

end

/-- **The parser accepts the documents of its grammar**, with any callbacks: it ends on every input,
invokes the callbacks as the traversal of the tree, and accepts no other input. -/
theorem parseGtype_iff (utf8 : Bool) (input : List UInt8) :
    (∀ (ε σ : Type) (sem : SemEvent → σ → Except ε σ) (s s' : σ), parseGtype utf8 sem input s = .ok s' ↔
      ∃ v : GtypeTree, v.Document utf8 input ∧ runEvents sem v.events s = .ok s') ∧
    (∀ (ε σ : Type) (sem : SemEvent → σ → Except ε σ) (s : σ),
      parseGtype utf8 sem input s ≠ .error .outOfFuel) ∧
    ∀ v v' : GtypeTree, v.Document utf8 input → v'.Document utf8 input → v.events = v'.events := by
  refine ⟨fun ε σ sem s s' => ⟨parseGtype_sound, ?_⟩, fun ε σ sem s => parseGtype_ends input s,
    fun v v' h h' => h.events_unique h'⟩
  rintro ⟨v, hv, hrun⟩
  exact parseGtype_complete hv hrun

/-- The floats of a tree are what the number states read, with a sign or without. -/
def GtypeTree.NumbersByStates (v : GtypeTree) : Prop :=
  ∀ token annot, SemEvent.scalar token .float annot ∈ v.events →
    NumberText .float token ∨ ∃ digits, token = 45 :: digits ∧ NumberText .float digits

/-- A word is a float, too: `NaN` is accepted. -/
theorem parseGtype_accepts_nan : ¬ ∀ utf8 input,
    (∃ events, parseGtype utf8 noteEvent input [] = .ok events) ↔
      ∃ v : GtypeTree, v.Document utf8 input ∧ v.NumbersByStates := by
  intro h
  have hparse : parseGtype true noteEvent (ascii "NaN") [] = .ok [.scalar (ascii "NaN") .float none] := by
    rfl
  obtain ⟨v, hv, hnumbers⟩ := (h true (ascii "NaN")).mp ⟨_, hparse⟩
  have hevents := parseGtype_complete hv (runEvents_noteEvent v.events [])
  rw [hparse] at hevents
  have hmem : SemEvent.scalar (ascii "NaN") .float none ∈ v.events := by
    rw [← List.nil_append v.events, ← Except.ok.inj hevents]
    exact List.mem_singleton_self _
  rcases hnumbers _ _ hmem with hnum | ⟨digits, hdigits, -⟩
  · obtain ⟨c, s, hs, hc⟩ := hnum.head
    cases hs
    cases hc
  · cases hdigits

end NeoPostGraph
