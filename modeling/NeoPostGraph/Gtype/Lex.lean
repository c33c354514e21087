import NeoPostGraph.Gtype.LexNumber
import NeoPostGraph.Gtype.LexString

/-!
# The lexer

`gtype_lex` (`gtype_parser.c:430-615`) reads one token from what is left of the input.

* `gtypeLex`: the lexer. `LexContext` is what it leaves behind: a token and the input behind it.
* `StringText`: what stands between quotes, in any server encoding.
* `TokenText`: a token. `TokenAt`: a token is next. `EndsBefore`: what may stand behind it.

Results:
* `tokenAt_of_lex`: what the lexer takes off the input is whitespace and a token.
* `gtypeLex_token`: a token is taken whole.
-/

namespace NeoPostGraph

/-! ## Tokens -/

/-- What the lexer reports. -/
inductive LexErr where
  | string (e : LexStringErr)
  /-- `report_invalid_token`. -/
  | invalidToken (token : List UInt8)
deriving DecidableEq, Repr

/-- `gtype_lex_context`, without the places it keeps for the context line of an error. -/
structure LexContext where
  tokenType : TokenType
  /-- From `token_start` to `token_terminator`. -/
  token : List UInt8
  /-- The decoded string, for a string. -/
  strval : List UInt8
  /-- The input from `token_terminator` on. -/
  rest : List UInt8
deriving DecidableEq, Repr

/-- What `lex_accept` hands back. -/
def LexContext.lexeme (lex : LexContext) : List UInt8 :=
  if lex.tokenType = .string then lex.strval else lex.token

/-! ## The lexer -/

/-- The tokens of one byte, the colon apart. -/
def punctuation (c : UInt8) : Option TokenType :=
  if c = 123 then some .objectStart
  else if c = 125 then some .objectEnd
  else if c = 91 then some .arrayStart
  else if c = 93 then some .arrayEnd
  else if c = 44 then some .comma
  else none

/-- What a word is, if it is no identifier. -/
def wordType (word : List UInt8) : TokenType :=
  if eqIgnoreCase word (ascii "nan") ∨ eqIgnoreCase word (ascii "inf") then .float
  else if word = ascii "true" then .trueToken
  else if word = ascii "null" then .nullToken
  else if word = ascii "false" then .falseToken
  else if eqIgnoreCase word (ascii "infinity") then .float
  else .identifier

/-- What a minus sign and a word are. -/
def isNegInfinity (word : List UInt8) : Bool :=
  eqIgnoreCase word (ascii "inf") || eqIgnoreCase word (ascii "infinity")

/-- The token in front of what is left. -/
def tokenBefore (s rest : List UInt8) : List UInt8 := s.take (s.length - rest.length)

/-- A number, from where its token starts and from where its digits do. -/
def lexNumberToken (s digits : List UInt8) : Except LexErr LexContext :=
  let st := gtypeLexNumber digits
  if st.error then .error (.invalidToken (tokenBefore s st.s))
  else .ok ⟨st.tokenType, tokenBefore s st.s, [], st.s⟩

/-- The token that begins with a byte that is no whitespace. -/
def lexToken (utf8 : Bool) (c : UInt8) (rest : List UInt8) : Except LexErr LexContext :=
  match punctuation c with
  | some tokenType => .ok ⟨tokenType, [c], [], rest⟩
  | none =>
    if c = 58 then
      match behindByte 58 rest with
      | some rest => .ok ⟨.annotationToken, [58, 58], [], rest⟩
      | none => .ok ⟨.colon, [58], [], rest⟩
    else if c = 34 then
      match gtypeLexString utf8 true (c :: rest) with
      | .error e => .error (.string e)
      | .ok (strval, rest') => .ok ⟨.string, tokenBefore (c :: rest) rest', strval.getD [], rest'⟩
    else if c = 45 then
      if rest.head?.any fun d => d = 105 ∨ d = 73 then
        let word := rest.takeWhile isLetterByte
        if isNegInfinity word then .ok ⟨.float, 45 :: word, [], rest.dropWhile isLetterByte⟩
        else .error (.invalidToken (45 :: word))
      else lexNumberToken (c :: rest) rest
    else if isDigitByte c then lexNumberToken (c :: rest) (c :: rest)
    else
      let word := (c :: rest).takeWhile gtypeAlphanumericChar
      if word = [] then .error (.invalidToken [c])
      else .ok ⟨wordType word, word, [], (c :: rest).dropWhile gtypeAlphanumericChar⟩

/-- `gtype_lex`. -/
def gtypeLex (utf8 : Bool) (input : List UInt8) : Except LexErr LexContext :=
  match input.dropWhile isSpaceByte with
  | [] => .ok ⟨.endToken, [], [], []⟩
  | c :: rest => lexToken utf8 c rest

/-! ## What a string is -/

/-- An item whose escape the server encoding has: outside UTF-8 an escape designates ASCII only. -/
def Encodable (utf8 : Bool) (src val : List UInt8) : Prop := utf8 = true ∨ src.length ≤ 2 ∨ val.length = 1

/-- What stands between the quotes, with the bytes it decodes to. -/
inductive StringText (utf8 : Bool) : List UInt8 → List UInt8 → Prop
  | nil : StringText utf8 [] []
  | cons {src val srcs vals : List UInt8} (h : StringItem src val) (henc : Encodable utf8 src val)
      (hs : StringText utf8 srcs vals) : StringText utf8 (src ++ srcs) (val ++ vals)

section

variable {utf8 : Bool} {acc s src val body : List UInt8} {st st' : LexState}
  {r : Option (List UInt8) × List UInt8}

theorem HexQuad.length {digits : List UInt8} {n : Nat} (h : HexQuad digits n) : digits.length = 4 := h.four

/-- A code point that ASCII has is one byte. -/
theorem unicodeToUtf8_ascii {n : Nat} (h : n ≤ 0x7f) : unicodeToUtf8 n = [UInt8.ofNat n] := if_pos h

/-- Another one is more. -/
theorem length_unicodeToUtf8 {n : Nat} (h : ¬ n ≤ 0x7f) : 1 < (unicodeToUtf8 n).length := by
  unfold unicodeToUtf8
  rw [if_neg h]
  split_ifs <;> simp

/-- What another encoding takes, UTF-8 takes too. -/
theorem lexUnicode_mono {ch : Nat} (h : lexUnicode utf8 st ch = .ok st') :
    lexUnicode true st ch = .ok st' := by
  have hpoint : ∀ acc ch, lexCodePoint utf8 acc ch = .ok st' → lexCodePoint true acc ch = .ok st' := by
    intro acc ch hok
    unfold lexCodePoint at hok ⊢
    rw [if_pos rfl]
    split_ifs at hok ⊢ with hzero hutf8 hascii
    · exact hok
    · rw [unicodeToUtf8_ascii hascii]
      exact hok
  unfold lexUnicode at h ⊢
  cases hval : st.strval with
  | none =>
    rw [hval] at h
    exact h
  | some acc =>
    rw [hval] at h
    dsimp only at h ⊢
    split_ifs at h ⊢ with hhigh hhi hlow hhi'
    · exact h
    · cases hsur : st.hiSurrogate with
      | none =>
        rw [hsur] at h
        exact h
      | some hi =>
        rw [hsur] at h
        exact hpoint _ _ h
    · exact hpoint _ _ h

theorem lexStringLoop_mono (h : lexStringLoop utf8 st s = .ok r) : lexStringLoop true st s = .ok r := by
  induction hn : s.length using Nat.strongRecOn generalizing s st with
  | ind n ih =>
    cases lexStep_of_ok h with
    | quote hs hval hhi =>
      rw [hs, lexStringLoop.eq_def]
      dsimp only
      rw [if_pos rfl, hhi, ← hval]
      rfl
    | @plain c s' st' hs hc hquote hback hst hrest =>
      subst hs
      rw [lexStringLoop_plain hc hquote hback, hst]
      exact ih _ (by rw [← hn]; simp) hrest rfl
    | @escape e s' st' hs hst hrest =>
      subst hs
      have he : e ≠ 117 := by
        rintro rfl
        unfold lexEscape at hst
        split at hst
        · split_ifs at hst
          cases hst
        · cases hst
      rw [lexStringLoop_escape he, hst]
      exact ih _ (by rw [← hn]; simp only [List.length_cons]; omega) hrest rfl
    | @unicode digits s' ch st' hs hquad hst hrest =>
      subst hs
      rw [lexStringLoop_unicode hquad, lexUnicode_mono hst]
      exact ih _ (by rw [← hn]; simp only [List.length_cons, List.length_append]; omega) hrest rfl

/-- **One item, in any encoding**: the loop goes over it if the encoding has it. -/
theorem lexStringLoop_encodable (h : StringItem src val) (henc : Encodable utf8 src val) :
    lexStringLoop utf8 ⟨some acc, none⟩ (src ++ s) = lexStringLoop utf8 ⟨some (acc ++ val), none⟩ s := by
  cases utf8 with
  | true => exact lexStringLoop_item h
  | false =>
    cases h with
    | plain hc hquote hback =>
      rw [List.singleton_append, lexStringLoop_plain hc hquote hback]
      rfl
    | @simple e c h =>
      obtain ⟨he, hbytes⟩ := lexEscapeBytes_of_simple h
      rw [List.cons_append, List.singleton_append, lexStringLoop_escape he]
      simp only [lexEscape, hbytes]
      rfl
    | @kept e h =>
      obtain ⟨he, hbytes⟩ := lexEscapeBytes_of_kept h
      rw [List.cons_append, List.singleton_append, lexStringLoop_escape he]
      simp only [lexEscape, hbytes]
      rfl
    | @unicode digits c h hne =>
      have hone : (String.utf8EncodeChar c).length = 1 := by
        rcases henc with henc | henc | henc
        · cases henc
        · rw [List.length_cons, List.length_cons, h.four] at henc
          omega
        · exact henc
      have hascii : c.toNat ≤ 0x7f := by
        refine Decidable.of_not_not fun hnot => ?_
        have hlen := length_unicodeToUtf8 hnot
        rw [unicodeToUtf8_eq] at hlen
        omega
      have hval : lexUnicode false ⟨some acc, none⟩ c.toNat = .ok ⟨some (acc ++ String.utf8EncodeChar c), none⟩ := by
        unfold lexUnicode lexCodePoint
        simp only
        rw [if_neg (by omega), if_neg (by omega), if_neg (by decide), if_neg hne, if_neg (by decide),
          if_pos hascii, ← unicodeToUtf8_eq, unicodeToUtf8_ascii hascii]
      rw [List.cons_append, List.cons_append, lexStringLoop_unicode h, hval]
      rfl
    | @pair high low hi lo hhigh hlow hhi hlo =>
      exfalso
      rcases henc with henc | henc | henc
      · cases henc
      · simp at henc
      · have hge : ¬ (Char.ofNat (0x10000 + (hi - 0xd800) * 1024 + (lo - 0xdc00))).toNat ≤ 0x7f := by
          rw [toNat_pair hhi hlo]
          omega
        have hlen := length_unicodeToUtf8 hge
        rw [unicodeToUtf8_eq] at hlen
        omega

/-- What is accepted, every escape of it is in the encoding. -/
theorem encodable_of_ok (h : StringItem src val)
    (hok : lexStringLoop utf8 ⟨some acc, none⟩ (src ++ s) = .ok r) : Encodable utf8 src val := by
  cases utf8 with
  | true => exact .inl rfl
  | false =>
    cases h with
    | plain => exact .inr (.inl (by simp))
    | simple => exact .inr (.inl (by simp))
    | kept => exact .inr (.inl (by simp))
    | @unicode digits c h hne =>
      refine .inr (.inr ?_)
      rw [List.cons_append, List.cons_append, lexStringLoop_unicode h] at hok
      obtain ⟨st', hst, -⟩ := bind_eq_ok hok
      have hvalid : c.toNat < 0xd800 ∨ 0xdfff < c.toNat ∧ c.toNat < 0x110000 := c.valid
      unfold lexUnicode lexCodePoint at hst
      simp only at hst
      rw [if_neg (by omega), if_neg (by omega), if_neg (by decide), if_neg hne, if_neg (by decide)] at hst
      split_ifs at hst with hascii
      rw [← unicodeToUtf8_eq, unicodeToUtf8_ascii hascii]
      rfl
    | @pair high low hi lo hhigh hlow hhi hlo =>
      rw [List.append_assoc, List.cons_append, List.cons_append, lexStringLoop_unicode hhigh] at hok
      obtain ⟨st', hst, hok⟩ := bind_eq_ok hok
      have hhi' : 0xd800 ≤ hi ∧ hi ≤ 0xdbff := hhi
      have hlo' : 0xdc00 ≤ lo ∧ lo ≤ 0xdfff := hlo
      unfold lexUnicode at hst
      simp only at hst
      rw [if_pos hhi', if_neg (by decide)] at hst
      cases hst
      rw [List.cons_append, List.cons_append, lexStringLoop_unicode hlow] at hok
      obtain ⟨st', hst, -⟩ := bind_eq_ok hok
      unfold lexUnicode lexCodePoint at hst
      simp only at hst
      rw [if_neg (by omega), if_pos hlo', if_neg (by omega), if_neg (by decide), if_neg (by omega)] at hst
      cases hst

theorem stringText_of_body (h : StringBody body val)
    (hok : lexStringLoop utf8 ⟨some acc, none⟩ (body ++ s) = .ok r) : StringText utf8 body val := by
  induction h generalizing acc with
  | nil => exact .nil
  | @cons src val srcs vals h hs ih =>
    rw [List.append_assoc] at hok
    have henc := encodable_of_ok h hok
    rw [lexStringLoop_encodable h henc] at hok
    exact .cons h henc (ih hok)

/-- **A body, in any encoding**: the loop goes over it and adds what it decodes to. -/
theorem lexStringLoop_text (h : StringText utf8 body val) :
    lexStringLoop utf8 ⟨some acc, none⟩ (body ++ s) = lexStringLoop utf8 ⟨some (acc ++ val), none⟩ s := by
  induction h generalizing acc with
  | nil => simp
  | cons h henc hs ih => rw [List.append_assoc, lexStringLoop_encodable h henc, ih, List.append_assoc]

/-- **A string token**: what is accepted is a quote, a body and a quote. -/
theorem gtypeLexString_iff : gtypeLexString utf8 true (34 :: s) = .ok r ↔
    ∃ body val, s = body ++ 34 :: r.2 ∧ StringText utf8 body val ∧ r.1 = some val := by
  have hstart : gtypeLexString utf8 true (34 :: s) = lexStringLoop utf8 ⟨some [], none⟩ s := rfl
  rw [hstart]
  constructor
  · intro hok
    obtain ⟨body, val, hs, hbody, hr⟩ := stringBody_of_ok (lexStringLoop_mono hok)
    rw [hs] at hok
    exact ⟨body, val, hs, stringText_of_body hbody hok, hr⟩
  · rintro ⟨body, val, rfl, hbody, hr⟩
    rw [lexStringLoop_text hbody, lexStringLoop.eq_def]
    dsimp only
    rw [if_pos rfl, List.nil_append, ← hr]
    rfl

end

/-! ## What a token is -/

/-- A word does not begin with a digit. -/
def WordText (word : List UInt8) : Prop :=
  (∃ c s, word = c :: s ∧ isDigitByte c = false) ∧ word.all gtypeAlphanumericChar

/-- A token: its type, what it stands for, and its text. -/
inductive TokenText (utf8 : Bool) : TokenType → List UInt8 → List UInt8 → Prop
  | punctuation {c : UInt8} {tokenType : TokenType} (h : punctuation c = some tokenType) :
      TokenText utf8 tokenType [c] [c]
  | colon : TokenText utf8 .colon [58] [58]
  | annotationToken : TokenText utf8 .annotationToken [58, 58] [58, 58]
  | string {body val : List UInt8} (h : StringText utf8 body val) :
      TokenText utf8 .string val (34 :: body ++ [34])
  | number {tokenType : TokenType} {text : List UInt8} (h : NumberText tokenType text) :
      TokenText utf8 tokenType text text
  | negative {tokenType : TokenType} {text : List UInt8} (h : NumberText tokenType text) :
      TokenText utf8 tokenType (45 :: text) (45 :: text)
  | negInfinity {word : List UInt8} (h : isNegInfinity word) :
      TokenText utf8 .float (45 :: word) (45 :: word)
  | word {word : List UInt8} (h : WordText word) : TokenText utf8 (wordType word) word word

/-- The tokens that end where they end. -/
def TokenType.IsPunctuation (t : TokenType) : Prop :=
  t = .objectStart ∨ t = .objectEnd ∨ t = .arrayStart ∨ t = .arrayEnd ∨ t = .comma ∨ t = .colon ∨
    t = .annotationToken ∨ t = .string

/-- What may stand behind a token, for it to end there. -/
def EndsBefore (t : TokenType) (r : List UInt8) : Prop :=
  (t = .colon → r.head? ≠ some 58) ∧ (t.IsPunctuation ∨ Stops r)

/-- **A token is next**, behind whitespace. -/
def TokenAt (utf8 : Bool) (t : TokenType) (val input rest : List UInt8) : Prop :=
  ∃ w text, w.all isSpaceByte ∧ TokenText utf8 t val text ∧ input = w ++ (text ++ rest)

section

variable {utf8 : Bool} {t : TokenType} {val text input r w word : List UInt8} {c : UInt8}
  {lex : LexContext}

theorem tokenBefore_append (text r : List UInt8) : tokenBefore (text ++ r) r = text := by
  unfold tokenBefore
  rw [List.length_append, Nat.add_sub_cancel, List.take_left']
  rfl

theorem gtypeLex_cons (hc : isSpaceByte c = false) : gtypeLex utf8 (c :: r) = lexToken utf8 c r := by
  unfold gtypeLex
  rw [List.dropWhile_cons_of_neg (by simp [hc])]

/-- Whitespace in front of a token makes no difference. -/
theorem gtypeLex_space (hw : w.all isSpaceByte) : gtypeLex utf8 (w ++ r) = gtypeLex utf8 r := by
  unfold gtypeLex
  rw [List.dropWhile_append_of_pos fun c hc => List.all_eq_true.mp hw c hc]

/-- A byte that is alphanumeric, a minus sign, a colon or a quote is no whitespace. -/
theorem isSpaceByte_of_not (hc : c = 45 ∨ c = 58 ∨ c = 34 ∨ gtypeAlphanumericChar c = true) :
    isSpaceByte c = false := by
  refine Bool.eq_false_iff.mpr fun hspace => ?_
  have hspace' : c = 32 ∨ c = 9 ∨ c = 10 ∨ c = 13 := by simpa [isSpaceByte] using hspace
  rcases hspace' with rfl | rfl | rfl | rfl <;> revert hc <;> decide

theorem isSpaceByte_of_punctuation (h : punctuation c = some t) : isSpaceByte c = false := by
  refine Bool.eq_false_iff.mpr fun hspace => ?_
  have hspace' : c = 32 ∨ c = 9 ∨ c = 10 ∨ c = 13 := by simpa [isSpaceByte] using hspace
  rcases hspace' with rfl | rfl | rfl | rfl <;> cases h

/-- An alphanumeric byte is no punctuation. -/
theorem not_punctuation (hc : c = 45 ∨ c = 58 ∨ c = 34 ∨ gtypeAlphanumericChar c = true) :
    punctuation c = none := by
  unfold punctuation
  have hne : ∀ d : UInt8, d ≠ 45 → d ≠ 58 → d ≠ 34 → gtypeAlphanumericChar d = false → c ≠ d := by
    rintro d h₁ h₂ h₃ h₄ rfl
    rcases hc with h | h | h | h
    · exact h₁ h
    · exact h₂ h
    · exact h₃ h
    · rw [h₄] at h
      cases h
  rw [if_neg (hne 123 (by decide) (by decide) (by decide) (by decide)),
    if_neg (hne 125 (by decide) (by decide) (by decide) (by decide)),
    if_neg (hne 91 (by decide) (by decide) (by decide) (by decide)),
    if_neg (hne 93 (by decide) (by decide) (by decide) (by decide)),
    if_neg (hne 44 (by decide) (by decide) (by decide) (by decide))]

/-- A number begins with a digit. -/
theorem NumberText.head (h : NumberText t text) : ∃ c s, text = c :: s ∧ isDigitByte c = true := by
  have hmain : ∀ {main : List UInt8}, IntText main → ∃ c s, main = c :: s ∧ isDigitByte c = true := by
    rintro main (rfl | ⟨c, ds, rfl, hge, hle, -⟩)
    · exact ⟨48, [], rfl, by decide⟩
    · exact ⟨c, ds, rfl, isDigitByte_of_main ⟨hge, hle⟩⟩
  cases h with
  | integer h => exact hmain h
  | decimal h =>
    obtain ⟨c, s, rfl, hc⟩ := hmain h
    exact ⟨c, _, rfl, hc⟩
  | exponent h =>
    obtain ⟨c, s, rfl, hc⟩ := hmain h
    exact ⟨c, _, rfl, hc⟩
  | inet h =>
    obtain ⟨c, s, rfl, hc⟩ := hmain h
    exact ⟨c, _, rfl, hc⟩

theorem NumberText.type (h : NumberText t text) : t = .integer ∨ t = .float ∨ t = .inet := by
  cases h with
  | integer => exact .inl rfl
  | decimal => exact .inr (.inl rfl)
  | exponent => exact .inr (.inl rfl)
  | inet => exact .inr (.inr rfl)

theorem wordType_type (word : List UInt8) : wordType word = .float ∨ wordType word = .trueToken ∨
    wordType word = .nullToken ∨ wordType word = .falseToken ∨ wordType word = .identifier := by
  unfold wordType
  split_ifs <;> simp

theorem punctuation_type (h : punctuation c = some t) : t = .objectStart ∨ t = .objectEnd ∨
    t = .arrayStart ∨ t = .arrayEnd ∨ t = .comma := by
  unfold punctuation at h
  split_ifs at h <;> cases h <;> simp

/-! ### What the lexer takes off -/

/-- What is left of the input in a token. -/
def LexContext.Takes (utf8 : Bool) (lex : LexContext) (input : List UInt8) : Prop :=
  ∃ text, TokenText utf8 lex.tokenType lex.lexeme text ∧ input = text ++ lex.rest

theorem lexNumberToken_ok {s digits : List UInt8} (sign : List UInt8) (hs : s = sign ++ digits)
    (hsign : ∀ t text, NumberText t text → TokenText utf8 t (sign ++ text) (sign ++ text))
    (h : lexNumberToken s digits = .ok lex) : lex.Takes utf8 s := by
  unfold lexNumberToken at h
  dsimp only at h
  split_ifs at h with herr
  cases h
  obtain ⟨text, htext, hdigits⟩ := numberText_of_lex (Bool.eq_false_iff.mpr herr)
  have hne : (gtypeLexNumber digits).tokenType ≠ .string := by
    rcases htext.type with h | h | h <;> rw [h] <;> decide
  have hwhole : s = sign ++ text ++ (gtypeLexNumber digits).s := by
    rw [List.append_assoc, ← hdigits, hs]
  refine ⟨sign ++ text, ?_, hwhole⟩
  have hlexeme : tokenBefore s (gtypeLexNumber digits).s = sign ++ text := by
    conv_lhs => rw [hwhole]
    exact tokenBefore_append ..
  unfold LexContext.lexeme
  dsimp only
  rw [if_neg hne, hlexeme]
  exact hsign _ _ htext

theorem lexToken_ok (h : lexToken utf8 c r = .ok lex) : lex.Takes utf8 (c :: r) := by
  unfold lexToken at h
  cases hpunct : punctuation c with
  | some tokenType =>
    rw [hpunct] at h
    cases h
    refine ⟨[c], ?_, rfl⟩
    have hne : tokenType ≠ .string := by
      rcases punctuation_type hpunct with rfl | rfl | rfl | rfl | rfl <;> decide
    unfold LexContext.lexeme
    dsimp only
    rw [if_neg hne]
    exact .punctuation hpunct
  | none =>
    rw [hpunct] at h
    dsimp only at h
    split_ifs at h with hcolon hquote hminus hinf hneg hdigit hword
    · subst hcolon
      cases hnext : behindByte 58 r with
      | some s =>
        rw [hnext] at h
        cases h
        exact ⟨[58, 58], .annotationToken, by rw [behindByte_eq_some.mp hnext]; rfl⟩
      | none =>
        rw [hnext] at h
        cases h
        exact ⟨[58], .colon, rfl⟩
    · subst hquote
      cases hstr : gtypeLexString utf8 true (34 :: r) with
      | error e =>
        rw [hstr] at h
        cases h
      | ok found =>
        obtain ⟨strval, rest⟩ := found
        rw [hstr] at h
        cases h
        obtain ⟨body, val, hs, hbody, hval⟩ := gtypeLexString_iff.mp hstr
        refine ⟨34 :: body ++ [34], ?_, ?_⟩
        · dsimp only at hval
          rw [hval]
          exact .string hbody
        · rw [hs]
          simp
    · subst hminus
      cases h
      refine ⟨45 :: r.takeWhile isLetterByte, .negInfinity hneg, ?_⟩
      rw [List.cons_append, List.takeWhile_append_dropWhile]
    · subst hminus
      exact lexNumberToken_ok [45] rfl (fun _ _ h => .negative h) h
    · exact lexNumberToken_ok [] rfl (fun _ _ h => .number h) h
    · cases h
      refine ⟨(c :: r).takeWhile gtypeAlphanumericChar, ?_, by
        rw [List.takeWhile_append_dropWhile]⟩
      have hne : wordType ((c :: r).takeWhile gtypeAlphanumericChar) ≠ .string := by
        rcases wordType_type ((c :: r).takeWhile gtypeAlphanumericChar) with h | h | h | h | h <;>
          rw [h] <;> decide
      unfold LexContext.lexeme
      dsimp only
      rw [if_neg hne]
      refine .word ⟨?_, all_takeWhile ..⟩
      have hc : gtypeAlphanumericChar c = true := by
        refine Decidable.of_not_not fun hnot => hword ?_
        exact List.takeWhile_cons_of_neg hnot
      exact ⟨c, r.takeWhile gtypeAlphanumericChar, List.takeWhile_cons_of_pos hc,
        Bool.eq_false_iff.mpr hdigit⟩

/-- **What the lexer takes off is whitespace and a token**; at the end of the input there is none. -/
theorem tokenAt_of_lex (h : gtypeLex utf8 input = .ok lex) :
    (lex.tokenType = .endToken ∧ input.all isSpaceByte ∧ lex.rest = []) ∨
      TokenAt utf8 lex.tokenType lex.lexeme input lex.rest := by
  unfold gtypeLex at h
  have hsplit := List.takeWhile_append_dropWhile (p := isSpaceByte) (l := input)
  cases hs : input.dropWhile isSpaceByte with
  | nil =>
    rw [hs] at h hsplit
    cases h
    refine .inl ⟨rfl, ?_, rfl⟩
    rw [List.append_nil] at hsplit
    rw [← hsplit]
    exact all_takeWhile ..
  | cons c s =>
    rw [hs] at h hsplit
    obtain ⟨text, htext, hrest⟩ := lexToken_ok h
    exact .inr ⟨_, text, all_takeWhile .., htext, by rw [← hrest, hsplit]⟩

/-! ### A token is taken whole -/

theorem eqIgnoreCase_letters {s : List UInt8} (h : eqIgnoreCase word s = true) (hs : s.all isLetterByte) :
    word.all isLetterByte := by
  have hmap : word.map lowerByte = s.map lowerByte := of_decide_eq_true h
  have hfold : ∀ c : UInt8, isLetterByte c = isLetterByte (lowerByte c) := by
    intro c
    unfold lowerByte
    split_ifs with hupper
    · obtain ⟨hge, hle⟩ := hupper
      have h₁ := UInt8.le_iff_toNat_le.mp hge
      have h₂ := UInt8.le_iff_toNat_le.mp hle
      have hsum : (c + 32).toNat = c.toNat + 32 := by
        rw [UInt8.toNat_add]
        simp at h₁ h₂ ⊢
        omega
      have hlow : 97 ≤ c + 32 ∧ c + 32 ≤ 122 := by
        rw [UInt8.le_iff_toNat_le, UInt8.le_iff_toNat_le, hsum]
        simp at h₁ h₂ ⊢
        omega
      unfold isLetterByte
      simp [hge, hle, hlow]
    · rfl
  have hall : ∀ l : List UInt8, l.all isLetterByte = (l.map lowerByte).all isLetterByte := by
    intro l
    rw [List.all_map]
    exact congrArg l.all (funext hfold)
  rw [hall, hmap, ← hall]
  exact hs

theorem isNegInfinity_letters (h : isNegInfinity word = true) : word.all isLetterByte := by
  rcases Bool.or_eq_true_iff.mp h with h | h
  · exact eqIgnoreCase_letters h (by decide)
  · exact eqIgnoreCase_letters h (by decide)

/-- Such a word begins with an `i`. -/
theorem isNegInfinity_head (h : isNegInfinity word = true) :
    word.head?.any (fun d => d = 105 ∨ d = 73) = true := by
  have hhead : ∀ s : List UInt8, s.head? = some 105 → eqIgnoreCase word s = true →
      word.head?.any (fun d => d = 105 ∨ d = 73) = true := by
    intro s hs heq
    have hmap : word.map lowerByte = s.map lowerByte := of_decide_eq_true heq
    have hfirst := congrArg List.head? hmap
    rw [List.head?_map, List.head?_map, hs] at hfirst
    cases hw : word.head? with
    | none =>
      rw [hw] at hfirst
      cases hfirst
    | some c =>
      rw [hw] at hfirst
      have hlow : lowerByte c = 105 := Option.some.inj hfirst
      unfold lowerByte at hlow
      split_ifs at hlow
      · have hc : c = 73 := by
          have hcancel : c + 32 = 73 + 32 := hlow
          exact (UInt8.add_left_inj 32).mp hcancel
        simp [hc]
      · simp [hlow]
  rcases Bool.or_eq_true_iff.mp h with h | h
  · exact hhead _ (by decide) h
  · exact hhead _ (by decide) h

theorem lexNumberToken_text (sign : List UInt8) (h : NumberText t text) (hr : Stops r) :
    lexNumberToken (sign ++ text ++ r) (text ++ r) = .ok ⟨t, sign ++ text, [], r⟩ := by
  unfold lexNumberToken
  rw [gtypeLexNumber_text h hr]
  dsimp only
  rw [if_neg (by decide), tokenBefore_append]

theorem alphanumeric_of_letter (h : isLetterByte c = true) : gtypeAlphanumericChar c = true := by
  unfold gtypeAlphanumericChar
  simp [h]

theorem Stops.letter (h : Stops r) : ∀ c ∈ r.head?, isLetterByte c = false := by
  intro c hc
  refine Bool.eq_false_iff.mpr fun hd => ?_
  have hnot := (h c hc).1
  rw [alphanumeric_of_letter hd] at hnot
  cases hnot

/-- A digit is none of the bytes that the switch asks for first. -/
theorem digit_ne (h : isDigitByte c = true) : c ≠ 58 ∧ c ≠ 34 ∧ c ≠ 45 := by
  refine ⟨?_, ?_, ?_⟩ <;> rintro rfl <;> cases h

theorem alphanumeric_ne (h : gtypeAlphanumericChar c = true) : c ≠ 58 ∧ c ≠ 34 ∧ c ≠ 45 := by
  refine ⟨?_, ?_, ?_⟩ <;> rintro rfl <;> revert h <;> decide

/-- What a token begins with, and what the switch makes of the rest. -/
theorem lexToken_text (h : TokenText utf8 t val text) (hends : EndsBefore t r) :
    ∃ c s lex, text ++ r = c :: s ∧ isSpaceByte c = false ∧ lexToken utf8 c s = .ok lex ∧
      lex.tokenType = t ∧ lex.lexeme = val ∧ lex.rest = r := by
  have hstop : ¬ t.IsPunctuation → Stops r := fun hnot => hends.2.resolve_left hnot
  cases h with
  | @punctuation c tokenType hp =>
    refine ⟨c, r, ⟨t, [c], [], r⟩, rfl, isSpaceByte_of_punctuation hp, ?_, rfl, ?_, rfl⟩
    · unfold lexToken
      rw [hp]
    · have hne : t ≠ .string := by
        rcases punctuation_type hp with rfl | rfl | rfl | rfl | rfl <;> decide
      exact if_neg hne
  | colon =>
    refine ⟨58, r, ⟨.colon, [58], [], r⟩, rfl, by decide, ?_, rfl, rfl, rfl⟩
    unfold lexToken
    rw [not_punctuation (.inr (.inl rfl)), behindByte_eq_none.mpr (hends.1 rfl)]
    rfl
  | annotationToken =>
    refine ⟨58, 58 :: r, ⟨.annotationToken, [58, 58], [], r⟩, rfl, by decide, ?_, rfl, rfl, rfl⟩
    unfold lexToken
    rw [not_punctuation (.inr (.inl rfl)), behindByte_self]
    rfl
  | @string body val h =>
    refine ⟨34, body ++ 34 :: r, ⟨.string, 34 :: body ++ [34], val, r⟩, by simp, by decide, ?_, rfl, rfl, rfl⟩
    have hstr : gtypeLexString utf8 true (34 :: (body ++ 34 :: r)) = .ok (some val, r) :=
      gtypeLexString_iff.mpr ⟨body, val, rfl, h, rfl⟩
    unfold lexToken
    rw [not_punctuation (.inr (.inr (.inl rfl)))]
    dsimp only
    rw [if_neg (by decide), if_pos rfl, hstr]
    have hwhole : 34 :: (body ++ 34 :: r) = 34 :: body ++ [34] ++ r := by simp
    dsimp only
    rw [hwhole, tokenBefore_append]
    rfl
  | @number tokenType text h =>
    have hnot : ¬ t.IsPunctuation := by
      unfold TokenType.IsPunctuation
      rcases h.type with rfl | rfl | rfl <;> decide
    have hlex := lexNumberToken_text [] h (hstop hnot)
    obtain ⟨c, s, rfl, hc⟩ := h.head
    obtain ⟨h₁, h₂, h₃⟩ := digit_ne hc
    have halnum := alphanumeric_of_digit hc
    refine ⟨c, s ++ r, ⟨t, c :: s, [], r⟩, rfl, isSpaceByte_of_not (.inr (.inr (.inr halnum))), ?_, rfl, ?_,
      rfl⟩
    · unfold lexToken
      rw [not_punctuation (.inr (.inr (.inr halnum)))]
      dsimp only
      rw [if_neg h₁, if_neg h₂, if_neg h₃, if_pos hc]
      exact hlex
    · have hne : t ≠ .string := by
        rcases h.type with rfl | rfl | rfl <;> decide
      exact if_neg hne
  | @negative tokenType text h =>
    have hnot : ¬ t.IsPunctuation := by
      unfold TokenType.IsPunctuation
      rcases h.type with rfl | rfl | rfl <;> decide
    have hlex := lexNumberToken_text [45] h (hstop hnot)
    obtain ⟨c, s, rfl, hc⟩ := h.head
    refine ⟨45, c :: s ++ r, ⟨t, 45 :: c :: s, [], r⟩, rfl, by decide, ?_, rfl, ?_, rfl⟩
    · have hword : ¬ (c = 105 ∨ c = 73) := by
        rintro (rfl | rfl) <;> cases hc
      unfold lexToken
      rw [not_punctuation (.inl rfl)]
      dsimp only
      rw [if_neg (by decide), if_neg (by decide), if_pos rfl, if_neg (by simpa using hword)]
      exact hlex
    · have hne : t ≠ .string := by
        rcases h.type with rfl | rfl | rfl <;> decide
      exact if_neg hne
  | @negInfinity word h =>
    have hr : Stops r := hstop (by unfold TokenType.IsPunctuation; decide)
    have hletters := isNegInfinity_letters h
    refine ⟨45, word ++ r, ⟨.float, 45 :: word, [], r⟩, rfl, by decide, ?_, rfl, rfl, rfl⟩
    have hhead : (word ++ r).head?.any (fun d => d = 105 ∨ d = 73) = true := by
      have hfirst := isNegInfinity_head h
      cases word with
      | nil => cases hfirst
      | cons c word => exact hfirst
    unfold lexToken
    rw [not_punctuation (.inl rfl)]
    dsimp only
    rw [if_neg (by decide), if_neg (by decide), if_pos rfl, if_pos hhead,
      takeWhile_run hletters hr.letter, dropWhile_run hletters hr.letter, if_pos h]
  | word h =>
    have hnot : ¬ (wordType val).IsPunctuation := by
      unfold TokenType.IsPunctuation
      rcases wordType_type val with h | h | h | h | h <;> rw [h] <;> decide
    have hr := hstop hnot
    obtain ⟨⟨c, s, rfl, hc⟩, hall⟩ := h
    have halnum : gtypeAlphanumericChar c = true := (Bool.and_eq_true_iff.mp hall).1
    obtain ⟨h₁, h₂, h₃⟩ := alphanumeric_ne halnum
    refine ⟨c, s ++ r, ⟨wordType (c :: s), c :: s, [], r⟩, rfl,
      isSpaceByte_of_not (.inr (.inr (.inr halnum))), ?_, rfl, ?_, rfl⟩
    · have htake := takeWhile_run hall fun d hd => (hr d hd).1
      have hdrop := dropWhile_run hall fun d hd => (hr d hd).1
      rw [List.cons_append] at htake hdrop
      unfold lexToken
      rw [not_punctuation (.inr (.inr (.inr halnum)))]
      dsimp only
      rw [if_neg h₁, if_neg h₂, if_neg h₃, if_neg (by simp [hc]), htake, hdrop, if_neg (by simp)]
    · have hne : wordType (c :: s) ≠ .string := by
        rcases wordType_type (c :: s) with h | h | h | h | h <;> rw [h] <;> decide
      exact if_neg hne

/-- **A token is taken whole.** -/
theorem gtypeLex_token (h : TokenAt utf8 t val input r) (hends : EndsBefore t r) :
    ∃ lex, gtypeLex utf8 input = .ok lex ∧ lex.tokenType = t ∧ lex.lexeme = val ∧ lex.rest = r := by
  obtain ⟨w, text, hw, htext, rfl⟩ := h
  obtain ⟨c, s, lex, hcs, hc, hlex, ht, hval, hr⟩ := lexToken_text htext hends
  refine ⟨lex, ?_, ht, hval, hr⟩
  rw [gtypeLex_space hw, hcs, gtypeLex_cons hc, hlex]

/-- At the end of the input. -/
theorem gtypeLex_end (h : input.all isSpaceByte) : gtypeLex utf8 input = .ok ⟨.endToken, [], [], []⟩ := by
  have hall := dropWhile_run (r := []) h (by simp)
  unfold gtypeLex
  rw [List.append_nil] at hall
  rw [hall]

end

end NeoPostGraph
