import NeoPostGraph.Error
import Mathlib.Data.List.TakeWhile
import Mathlib.Data.Nat.Digits.Defs
import Mathlib.Tactic.Ring

/-!
# String literals

`gtype_lex_string` (`gtype_parser.c:620-851`) reads a literal from its opening quote on, and `escape_gtype`
(`gtype.c:226-264`) prints one. An escaped high surrogate is kept in `hi_surrogate` until the escape behind
it, which has to be a low one.

* `gtypeLexString`: the scanner. `LexState` is what its loop carries.
* `StringItem`, `StringBody`: what stands between the quotes, with what it decodes to.

Results: `gtypeLexString_spec` (what is accepted is a body and a quote, and the result is what the body
decodes to; a surrogate that is alone is rejected wherever it stands), `stringBody_escape` (the printed
literal of a string decodes to that string).
-/

namespace NeoPostGraph

/-! ## The scanner -/

/-- What `gtype_lex_string` reports. -/
inductive LexStringErr where
  /-- `report_invalid_token`: the input ends in the literal. -/
  | invalidToken
  | mustBeEscaped (c : UInt8)
  | fourHexDigits
  | highAfterHigh
  | lowMustFollowHigh
  | nulEscape
  | aboveAscii
  /-- With the byte behind the backslash, the first of the character that is shown. -/
  | invalidEscape (c : UInt8)
deriving DecidableEq, Repr

/-- Two hexadecimal digits, as `%02x` prints them. -/
def hexByte (c : UInt8) : String := String.ofList [Nat.digitChar (c.toNat / 16), Nat.digitChar (c.toNat % 16)]

/-- The detail of an error, with the token or the character it shows. -/
def LexStringErr.detail (shown : String) : LexStringErr → String
  | invalidToken => "Token \"" ++ shown ++ "\" is invalid."
  | mustBeEscaped c => "Character with value 0x" ++ hexByte c ++ " must be escaped."
  | fourHexDigits => "\"\\u\" must be followed by four hexadecimal digits."
  | highAfterHigh => "Unicode high surrogate must not follow a high surrogate."
  | lowMustFollowHigh => "Unicode low surrogate must follow a high surrogate."
  | nulEscape => "\\u0000 cannot be converted to text."
  | aboveAscii => "Unicode escape values cannot be used for code point values above 007F when the server " ++
      "encoding is not UTF8."
  | invalidEscape _ => "Escape sequence \"\\" ++ shown ++ "\" is invalid."

/-- What the loop carries: `lex->strval`, if escapes are wanted decoded, and `hi_surrogate`. -/
structure LexState where
  strval : Option (List UInt8)
  hiSurrogate : Option Nat
deriving DecidableEq, Repr

/-- One hexadecimal digit of `ch`. -/
def lexHexDigit (ch : Nat) (c : UInt8) : Except LexStringErr Nat :=
  if 48 ≤ c ∧ c ≤ 57 then .ok (ch * 16 + (c.toNat - 48))
  else if 97 ≤ c ∧ c ≤ 102 then .ok (ch * 16 + (c.toNat - 97) + 10)
  else if 65 ≤ c ∧ c ≤ 70 then .ok (ch * 16 + (c.toNat - 65) + 10)
  else .error .fourHexDigits

/-- `unicode_to_utf8`. -/
def unicodeToUtf8 (c : Nat) : List UInt8 :=
  if c ≤ 0x7f then [UInt8.ofNat c]
  else if c ≤ 0x7ff then [UInt8.ofNat (0xc0 + c / 64 % 32), UInt8.ofNat (0x80 + c % 64)]
  else if c ≤ 0xffff then
    [UInt8.ofNat (0xe0 + c / 4096 % 16), UInt8.ofNat (0x80 + c / 64 % 64), UInt8.ofNat (0x80 + c % 64)]
  else
    [UInt8.ofNat (0xf0 + c / 262144 % 8), UInt8.ofNat (0x80 + c / 4096 % 64),
      UInt8.ofNat (0x80 + c / 64 % 64), UInt8.ofNat (0x80 + c % 64)]

/-- A code point that is no surrogate is added to the buffer. -/
def lexCodePoint (utf8 : Bool) (strval : List UInt8) (ch : Nat) : Except LexStringErr LexState :=
  if ch = 0 then .error .nulEscape
  else if utf8 then .ok ⟨some (strval ++ unicodeToUtf8 ch), none⟩
  else if ch ≤ 0x7f then .ok ⟨some (strval ++ [UInt8.ofNat ch]), none⟩
  else .error .aboveAscii

/-- The code of a `\u` escape. -/
def lexUnicode (utf8 : Bool) (st : LexState) (ch : Nat) : Except LexStringErr LexState :=
  match st.strval with
  | none => .ok st
  | some strval =>
    if 0xd800 ≤ ch ∧ ch ≤ 0xdbff then
      if st.hiSurrogate.isSome then .error .highAfterHigh
      else .ok ⟨some strval, some (ch % 1024 * 1024)⟩
    else if 0xdc00 ≤ ch ∧ ch ≤ 0xdfff then
      match st.hiSurrogate with
      | none => .error .lowMustFollowHigh
      | some hi => lexCodePoint utf8 strval (0x10000 + hi + ch % 1024)
    else if st.hiSurrogate.isSome then .error .lowMustFollowHigh
    else lexCodePoint utf8 strval ch

/-- The `switch` over the byte behind a backslash. Its `default` asks for an `x` once more, which has a
case of its own. -/
def lexEscapeBytes (c : UInt8) : Option (List UInt8) :=
  if c = 34 ∨ c = 92 ∨ c = 47 then some [c]
  else if c = 98 then some [8]
  else if c = 102 then some [12]
  else if c = 110 then some [10]
  else if c = 114 then some [13]
  else if c = 116 then some [9]
  else if c = 120 then some [92, 120]
  else if 48 ≤ c ∧ c ≤ 57 then some [92, c]
  else none

/-- An escape that is not `\u`. Without a buffer `strchr` finds the end of its string too. -/
def lexEscape (st : LexState) (c : UInt8) : Except LexStringErr LexState :=
  match st.strval with
  | some strval =>
    if st.hiSurrogate.isSome then .error .lowMustFollowHigh
    else match lexEscapeBytes c with
      | some bytes => .ok ⟨some (strval ++ bytes), none⟩
      | none => .error (.invalidEscape c)
  | none => if c ∈ [34, 92, 47, 98, 102, 110, 114, 116, 0] then .ok st else .error (.invalidEscape c)

/-- A byte that stands for itself. -/
def lexPlain (st : LexState) (c : UInt8) : Except LexStringErr LexState :=
  match st.strval with
  | some strval =>
    if st.hiSurrogate.isSome then .error .lowMustFollowHigh else .ok ⟨some (strval ++ [c]), none⟩
  | none => .ok st

/-- The loop of `gtype_lex_string`, on what is left of the input: the buffer and the input behind the
closing quote. -/
def lexStringLoop (utf8 : Bool) (st : LexState) :
    List UInt8 → Except LexStringErr (Option (List UInt8) × List UInt8)
  | [] => .error .invalidToken
  | c :: s =>
    if c = 34 then
      if st.hiSurrogate.isSome then .error .lowMustFollowHigh else .ok (st.strval, s)
    else if c < 32 then .error (.mustBeEscaped c)
    else if c = 92 then
      match s with
      | [] => .error .invalidToken
      | e :: s =>
        if e = 117 then
          match s with
          | h₁ :: h₂ :: h₃ :: h₄ :: s => do
            let ch ← [h₁, h₂, h₃, h₄].foldlM lexHexDigit 0
            let st ← lexUnicode utf8 st ch
            lexStringLoop utf8 st s
          | short => do
            let _ ← short.foldlM lexHexDigit 0
            .error .invalidToken
        else do
          let st ← lexEscape st e
          lexStringLoop utf8 st s
    else do
      let st ← lexPlain st c
      lexStringLoop utf8 st s

/-- `gtype_lex_string`: the first byte is the opening quote. `needEscapes` is whether the context has a
buffer, as it has in every caller. -/
def gtypeLexString (utf8 needEscapes : Bool) (input : List UInt8) :
    Except LexStringErr (Option (List UInt8) × List UInt8) :=
  lexStringLoop utf8 ⟨if needEscapes then some [] else none, none⟩ (input.drop 1)

/-! ## The printer -/

/-- A digit of `%x`. -/
def hexDigitByte (d : Nat) : UInt8 := if d < 10 then UInt8.ofNat (48 + d) else UInt8.ofNat (87 + d)

/-- What `escape_gtype` prints for one byte. -/
def escapeByte (c : UInt8) : List UInt8 :=
  if c = 8 then [92, 98]
  else if c = 12 then [92, 102]
  else if c = 10 then [92, 110]
  else if c = 13 then [92, 114]
  else if c = 9 then [92, 116]
  else if c = 34 then [92, 34]
  else if c = 92 then [92, 92]
  else if c < 32 then [92, 117, 48, 48, hexDigitByte (c.toNat / 16), hexDigitByte (c.toNat % 16)]
  else [c]

/-- `escape_gtype`, of a string that ends at its first NUL. -/
def escapeGtype (str : List UInt8) : List UInt8 :=
  34 :: (str.takeWhile (· ≠ 0)).flatMap escapeByte ++ [34]

/-! ## What a literal is -/

/-- The value of a hexadecimal digit. -/
def hexValue (c : UInt8) : Option Nat :=
  if 48 ≤ c ∧ c ≤ 57 then some (c.toNat - 48)
  else if 97 ≤ c ∧ c ≤ 102 then some (c.toNat - 87)
  else if 65 ≤ c ∧ c ≤ 70 then some (c.toNat - 55)
  else none

/-- Four hexadecimal digits, and the number they write. -/
structure HexQuad (digits : List UInt8) (n : Nat) : Prop where
  four : digits.length = 4
  value : ∃ ds : List Nat, digits.map hexValue = ds.map some ∧ n = Nat.ofDigits 16 ds.reverse

/-- The escapes of one character, with that character. -/
def simpleEscapes : List (UInt8 × UInt8) :=
  [(34, 34), (92, 92), (47, 47), (98, 8), (102, 12), (110, 10), (114, 13), (116, 9)]

/-- The escapes that stay as they are written: `\x` and those of decimal digits. -/
def KeptEscape (e : UInt8) : Prop := e = 120 ∨ 48 ≤ e ∧ e ≤ 57

def IsHighSurrogate (n : Nat) : Prop := 0xd800 ≤ n ∧ n ≤ 0xdbff

def IsLowSurrogate (n : Nat) : Prop := 0xdc00 ≤ n ∧ n ≤ 0xdfff

/-- One item between the quotes, with the bytes it decodes to. -/
inductive StringItem : List UInt8 → List UInt8 → Prop
  | plain {c : UInt8} (hc : 32 ≤ c) (hquote : c ≠ 34) (hback : c ≠ 92) : StringItem [c] [c]
  | simple {e c : UInt8} (h : (e, c) ∈ simpleEscapes) : StringItem [92, e] [c]
  | kept {e : UInt8} (h : KeptEscape e) : StringItem [92, e] [92, e]
  | unicode {digits : List UInt8} {c : Char} (h : HexQuad digits c.toNat) (hne : c.toNat ≠ 0) :
      StringItem (92 :: 117 :: digits) (String.utf8EncodeChar c)
  | pair {high low : List UInt8} {hi lo : Nat} (hhigh : HexQuad high hi) (hlow : HexQuad low lo)
      (hhi : IsHighSurrogate hi) (hlo : IsLowSurrogate lo) :
      StringItem (92 :: 117 :: high ++ 92 :: 117 :: low)
        (String.utf8EncodeChar (Char.ofNat (0x10000 + (hi - 0xd800) * 1024 + (lo - 0xdc00))))

/-- What stands between the quotes, with the bytes it decodes to. -/
inductive StringBody : List UInt8 → List UInt8 → Prop
  | nil : StringBody [] []
  | cons {src val srcs vals : List UInt8} (h : StringItem src val) (hs : StringBody srcs vals) :
      StringBody (src ++ srcs) (val ++ vals)

/-! ## Escapes of a code point -/

theorem lexHexDigit_eq (ch : Nat) (c : UInt8) :
    lexHexDigit ch c = match hexValue c with
      | some v => .ok (ch * 16 + v)
      | none => .error .fourHexDigits := by
  unfold lexHexDigit hexValue
  split_ifs with h₁ h₂ h₃
  · rfl
  · have hge : 97 ≤ c.toNat := UInt8.le_iff_toNat_le.mp h₂.1
    congr 1
    omega
  · have hge : 65 ≤ c.toNat := UInt8.le_iff_toNat_le.mp h₃.1
    congr 1
    omega
  · rfl

theorem hexValue_lt {c : UInt8} {v : Nat} (h : hexValue c = some v) : v < 16 := by
  unfold hexValue at h
  split_ifs at h with h₁ h₂ h₃ <;> cases h
  · have := UInt8.le_iff_toNat_le.mp h₁.2
    simp at this
    omega
  · have := UInt8.le_iff_toNat_le.mp h₂.2
    simp at this
    omega
  · have := UInt8.le_iff_toNat_le.mp h₃.2
    simp at this
    omega

/-- The loop over the digits computes the number they write. -/
theorem foldlM_lexHexDigit_iff {digits : List UInt8} {ch n : Nat} :
    digits.foldlM lexHexDigit ch = .ok n ↔ ∃ ds : List Nat, digits.map hexValue = ds.map some ∧
      n = ch * 16 ^ digits.length + Nat.ofDigits 16 ds.reverse := by
  induction digits generalizing ch with
  | nil =>
    constructor
    · intro h
      cases h
      exact ⟨[], rfl, by simp⟩
    · rintro ⟨ds, hds, rfl⟩
      obtain rfl : ds = [] := by simpa using hds.symm
      simp
      rfl
  | cons c digits ih =>
    rw [List.foldlM_cons, lexHexDigit_eq]
    -- the first digit has the weight of all behind it
    have hweight : ∀ {v : Nat} {ds : List Nat}, digits.map hexValue = ds.map some →
        ch * 16 ^ (c :: digits).length + Nat.ofDigits 16 (v :: ds).reverse =
          (ch * 16 + v) * 16 ^ digits.length + Nat.ofDigits 16 ds.reverse := by
      intro v ds hds
      have hlen : ds.length = digits.length := by simpa using (congrArg List.length hds).symm
      rw [List.reverse_cons, Nat.ofDigits_append, List.length_reverse, hlen, List.length_cons, pow_succ,
        Nat.ofDigits_singleton]
      ring
    cases hv : hexValue c with
    | none =>
      constructor
      · intro h
        cases h
      · rintro ⟨ds, hds, -⟩
        cases ds with
        | nil => cases hds
        | cons v ds =>
          rw [List.map_cons, List.map_cons, hv] at hds
          cases (List.cons.inj hds).1
    | some v =>
      refine Iff.trans ih ⟨?_, ?_⟩
      · rintro ⟨ds, hds, rfl⟩
        exact ⟨v :: ds, by rw [List.map_cons, List.map_cons, hv, hds], (hweight hds).symm⟩
      · rintro ⟨ds, hds, rfl⟩
        cases ds with
        | nil => cases hds
        | cons v' ds =>
          rw [List.map_cons, List.map_cons, hv] at hds
          obtain ⟨hfirst, hrest⟩ := List.cons.inj hds
          cases hfirst
          exact ⟨ds, hrest, hweight hrest⟩

theorem hexQuad_iff {digits : List UInt8} {n : Nat} :
    HexQuad digits n ↔ digits.length = 4 ∧ digits.foldlM lexHexDigit 0 = .ok n := by
  rw [foldlM_lexHexDigit_iff]
  simp only [Nat.zero_mul, Nat.zero_add]
  exact ⟨fun ⟨h, h'⟩ => ⟨h, h'⟩, fun ⟨h, h'⟩ => ⟨h, h'⟩⟩

theorem HexQuad.lt {digits : List UInt8} {n : Nat} (h : HexQuad digits n) : n < 65536 := by
  obtain ⟨hfour, ds, hds, rfl⟩ := h
  have hlen : ds.reverse.length = 4 := by
    rw [List.length_reverse, ← hfour]
    simpa using (congrArg List.length hds).symm
  have hlt := Nat.ofDigits_lt_base_pow_length (b := 16) (l := ds.reverse) (by decide) fun d hd => by
    have hmem : some d ∈ digits.map hexValue := by
      rw [hds]
      exact List.mem_map_of_mem (List.mem_reverse.mp hd)
    obtain ⟨c, -, hc⟩ := List.mem_map.mp hmem
    exact hexValue_lt hc
  rwa [hlen] at hlt

/-- The bytes of a code point are those of its character. -/
theorem unicodeToUtf8_eq (c : Char) : unicodeToUtf8 c.toNat = String.utf8EncodeChar c := by
  have hnat : c.toNat = c.val.toNat := rfl
  unfold unicodeToUtf8 String.utf8EncodeChar
  rw [hnat]
  simp only [Nat.add_comm]

/-! ## One item -/

theorem lexEscapeBytes_of_simple {e c : UInt8} (h : (e, c) ∈ simpleEscapes) :
    e ≠ 117 ∧ lexEscapeBytes e = some [c] := by
  simp only [simpleEscapes, List.mem_cons, Prod.mk.injEq, List.not_mem_nil, or_false] at h
  rcases h with ⟨rfl, rfl⟩ | ⟨rfl, rfl⟩ | ⟨rfl, rfl⟩ | ⟨rfl, rfl⟩ | ⟨rfl, rfl⟩ | ⟨rfl, rfl⟩ | ⟨rfl, rfl⟩ |
    ⟨rfl, rfl⟩ <;> exact ⟨by decide, rfl⟩

theorem lexEscapeBytes_of_kept {e : UInt8} (h : KeptEscape e) :
    e ≠ 117 ∧ lexEscapeBytes e = some [92, e] := by
  rcases h with rfl | ⟨hge, hle⟩
  · exact ⟨by decide, rfl⟩
  · have hnat : 48 ≤ e.toNat ∧ e.toNat ≤ 57 :=
      ⟨UInt8.le_iff_toNat_le.mp hge, UInt8.le_iff_toNat_le.mp hle⟩
    have hne : ∀ c : UInt8, c.toNat < 48 ∨ 57 < c.toNat → e ≠ c := by
      rintro c hc rfl
      omega
    refine ⟨hne 117 (by decide), ?_⟩
    unfold lexEscapeBytes
    simp [hne 34 (by decide), hne 92 (by decide), hne 47 (by decide), hne 98 (by decide),
      hne 102 (by decide), hne 110 (by decide), hne 114 (by decide), hne 116 (by decide),
      hne 120 (by decide), hge, hle]

theorem stringItem_of_lexEscapeBytes {e : UInt8} {bytes : List UInt8} (h : lexEscapeBytes e = some bytes) :
    StringItem [92, e] bytes := by
  unfold lexEscapeBytes at h
  split_ifs at h with h₁ h₂ h₃ h₄ h₅ h₆ h₇ h₈ <;> cases h
  · refine StringItem.simple ?_
    rcases h₁ with rfl | rfl | rfl <;> decide
  · exact StringItem.simple (h₂ ▸ by decide)
  · exact StringItem.simple (h₃ ▸ by decide)
  · exact StringItem.simple (h₄ ▸ by decide)
  · exact StringItem.simple (h₅ ▸ by decide)
  · exact StringItem.simple (h₆ ▸ by decide)
  · subst h₇
    exact StringItem.kept (Or.inl rfl)
  · exact StringItem.kept (Or.inr h₈)

section

variable {acc s : List UInt8} {hi : Option Nat}

/-- A byte that is no quote, no control character and no backslash. -/
theorem lexStringLoop_plain {st : LexState} {utf8 : Bool} {c : UInt8} (hc : 32 ≤ c) (hquote : c ≠ 34)
    (hback : c ≠ 92) :
    lexStringLoop utf8 st (c :: s) = (lexPlain st c).bind fun st => lexStringLoop utf8 st s := by
  have hge : ¬ c < 32 := fun h => by
    have h₁ := UInt8.le_iff_toNat_le.mp hc
    have h₂ := UInt8.lt_iff_toNat_lt.mp h
    omega
  rw [lexStringLoop.eq_def]
  dsimp only
  rw [if_neg hquote, if_neg hge, if_neg hback]
  rfl

theorem lexStringLoop_escape {st : LexState} {utf8 : Bool} {e : UInt8} (he : e ≠ 117) :
    lexStringLoop utf8 st (92 :: e :: s) =
      (lexEscape st e).bind fun st => lexStringLoop utf8 st s := by
  rw [lexStringLoop.eq_def]
  dsimp only
  rw [if_neg (by decide), if_neg (by decide), if_pos rfl, if_neg he]
  rfl

theorem lexStringLoop_unicode {st : LexState} {utf8 : Bool} {digits : List UInt8} {ch : Nat}
    (h : HexQuad digits ch) :
    lexStringLoop utf8 st (92 :: 117 :: (digits ++ s)) =
      (lexUnicode utf8 st ch).bind fun st => lexStringLoop utf8 st s := by
  obtain ⟨hfour, hch⟩ := hexQuad_iff.mp h
  match digits, hfour with
  | [h₁, h₂, h₃, h₄], _ =>
    rw [lexStringLoop.eq_def]
    dsimp only [List.cons_append, List.nil_append]
    rw [if_neg (by decide), if_neg (by decide), if_pos rfl, if_pos rfl, hch]
    rfl

theorem lexUnicode_high {n : Nat} (h : IsHighSurrogate n) :
    lexUnicode true ⟨some acc, none⟩ n = .ok ⟨some acc, some (n % 1024 * 1024)⟩ := by
  unfold lexUnicode
  simp only [if_pos (show 0xd800 ≤ n ∧ n ≤ 0xdbff from h), Option.isSome_none, Bool.false_eq_true, if_false]

theorem lexUnicode_low {n h : Nat} (hn : IsLowSurrogate n) :
    lexUnicode true ⟨some acc, some h⟩ n =
      .ok ⟨some (acc ++ unicodeToUtf8 (0x10000 + h + n % 1024)), none⟩ := by
  have hlow : 0xdc00 ≤ n ∧ n ≤ 0xdfff := hn
  unfold lexUnicode lexCodePoint
  simp only
  rw [if_neg (by omega), if_pos hlow, if_neg (by omega), if_pos trivial]

/-- A code point that is written by one escape is that of a character. -/
theorem lexUnicode_char {c : Char} (hne : c.toNat ≠ 0) :
    lexUnicode true ⟨some acc, none⟩ c.toNat = .ok ⟨some (acc ++ String.utf8EncodeChar c), none⟩ := by
  have hvalid : c.toNat < 0xd800 ∨ 0xdfff < c.toNat ∧ c.toNat < 0x110000 := c.valid
  unfold lexUnicode lexCodePoint
  simp only
  rw [if_neg (by omega), if_neg (by omega), if_neg (by decide), if_neg hne, if_pos trivial, unicodeToUtf8_eq]

theorem toNat_pair {hi lo : Nat} (hhi : IsHighSurrogate hi) (hlo : IsLowSurrogate lo) :
    (Char.ofNat (0x10000 + (hi - 0xd800) * 1024 + (lo - 0xdc00))).toNat =
      0x10000 + hi % 1024 * 1024 + lo % 1024 := by
  unfold IsHighSurrogate at hhi
  unfold IsLowSurrogate at hlo
  have hvalid : Nat.isValidChar (0x10000 + (hi - 0xd800) * 1024 + (lo - 0xdc00)) := Or.inr (by omega)
  have hself : (Char.ofNat (0x10000 + (hi - 0xd800) * 1024 + (lo - 0xdc00))).toNat =
      0x10000 + (hi - 0xd800) * 1024 + (lo - 0xdc00) := by
    rw [Char.ofNat, dif_pos hvalid]
    rfl
  rw [hself]
  omega

/-- **One item**: the loop goes over it and adds what it decodes to. -/
theorem lexStringLoop_item {src val : List UInt8} (h : StringItem src val) :
    lexStringLoop true ⟨some acc, none⟩ (src ++ s) = lexStringLoop true ⟨some (acc ++ val), none⟩ s := by
  cases h with
  | plain hc hquote hback =>
    rw [List.singleton_append, lexStringLoop_plain hc hquote hback]
    rfl
  | @simple e c h =>
    obtain ⟨he, hbytes⟩ := lexEscapeBytes_of_simple h
    rw [List.cons_append, List.singleton_append, lexStringLoop_escape he]
    simp only [lexEscape, hbytes]
    rfl
  | @kept e h =>
    obtain ⟨he, hbytes⟩ := lexEscapeBytes_of_kept h
    rw [List.cons_append, List.singleton_append, lexStringLoop_escape he]
    simp only [lexEscape, hbytes]
    rfl
  | unicode h hne =>
    rw [List.cons_append, List.cons_append, lexStringLoop_unicode h, lexUnicode_char hne]
    rfl
  | pair hhigh hlow hhi hlo =>
    rw [← unicodeToUtf8_eq, toNat_pair hhi hlo, List.append_assoc, List.cons_append, List.cons_append,
      List.cons_append, List.cons_append, lexStringLoop_unicode hhigh, lexUnicode_high hhi]
    refine (lexStringLoop_unicode hlow).trans ?_
    rw [lexUnicode_low hlo]
    rfl

/-! ## What is accepted -/

/-- What the loop can do with the front of its input. -/
inductive LexStep (utf8 : Bool) (st : LexState) (s : List UInt8) (r : Option (List UInt8) × List UInt8) : Prop
  | quote (hs : s = 34 :: r.2) (hval : r.1 = st.strval) (hhi : st.hiSurrogate = none)
  | plain {c : UInt8} {s' : List UInt8} {st' : LexState} (hs : s = c :: s') (hc : 32 ≤ c) (hquote : c ≠ 34)
      (hback : c ≠ 92) (hst : lexPlain st c = .ok st') (hrest : lexStringLoop utf8 st' s' = .ok r)
  | escape {e : UInt8} {s' : List UInt8} {st' : LexState} (hs : s = 92 :: e :: s')
      (hst : lexEscape st e = .ok st') (hrest : lexStringLoop utf8 st' s' = .ok r)
  | unicode {digits s' : List UInt8} {ch : Nat} {st' : LexState} (hs : s = 92 :: 117 :: (digits ++ s'))
      (hquad : HexQuad digits ch) (hst : lexUnicode utf8 st ch = .ok st')
      (hrest : lexStringLoop utf8 st' s' = .ok r)

theorem lexStep_of_ok {utf8 : Bool} {st : LexState} {r : Option (List UInt8) × List UInt8}
    (h : lexStringLoop utf8 st s = .ok r) : LexStep utf8 st s r := by
  match s, h with
  | [], h => cases h
  | c :: s, h =>
    rw [lexStringLoop.eq_def] at h
    dsimp only at h
    split_ifs at h with hquote hhi hlt hback
    · subst hquote
      cases h
      exact .quote rfl rfl (by simpa using hhi)
    · subst hback
      match s, h with
      | [], h => cases h
      | e :: s, h =>
        dsimp only at h
        split_ifs at h with hu
        · subst hu
          split at h
          · next h₁ h₂ h₃ h₄ s =>
            obtain ⟨ch, hch, h⟩ := bind_eq_ok h
            obtain ⟨st', hst, h⟩ := bind_eq_ok h
            have hquad : HexQuad [h₁, h₂, h₃, h₄] ch := hexQuad_iff.mpr ⟨rfl, hch⟩
            exact .unicode rfl hquad hst h
          · obtain ⟨_, _, h⟩ := bind_eq_ok h
            cases h
        · obtain ⟨st', hst, h⟩ := bind_eq_ok h
          exact .escape rfl hst h
    · obtain ⟨st', hst, h⟩ := bind_eq_ok h
      have hge : 32 ≤ c := UInt8.le_iff_toNat_le.mpr (by
        have := mt UInt8.lt_iff_toNat_lt.mpr hlt
        simpa using this)
      exact .plain rfl hge hquote hback hst h

/-- Behind a high surrogate there is a low one. -/
theorem lexStringLoop_high {h : Nat} {r : Option (List UInt8) × List UInt8}
    (hok : lexStringLoop true ⟨some acc, some h⟩ s = .ok r) :
    ∃ low lo s', s = 92 :: 117 :: (low ++ s') ∧ HexQuad low lo ∧ IsLowSurrogate lo ∧
      lexStringLoop true ⟨some (acc ++ unicodeToUtf8 (0x10000 + h + lo % 1024)), none⟩ s' = .ok r := by
  cases lexStep_of_ok hok with
  | quote _ _ hhi => cases hhi
  | plain _ _ _ _ hst _ => cases hst
  | escape _ hst _ => cases hst
  | @unicode low s' lo st' hs hquad hst hrest =>
    have hlow : IsLowSurrogate lo := by
      unfold lexUnicode at hst
      simp only [Option.isSome_some, if_true] at hst
      split_ifs at hst with h₁ h₂
      exact h₂
    rw [lexUnicode_low hlow] at hst
    cases hst
    exact ⟨low, lo, s', hs, hquad, hlow, hrest⟩

/-- What is accepted begins with the closing quote or with an item. -/
theorem lexStringLoop_next {r : Option (List UInt8) × List UInt8}
    (hok : lexStringLoop true ⟨some acc, none⟩ s = .ok r) :
    (s = 34 :: r.2 ∧ r.1 = some acc) ∨ ∃ src val s', s = src ++ s' ∧ src ≠ [] ∧ StringItem src val ∧
      lexStringLoop true ⟨some (acc ++ val), none⟩ s' = .ok r := by
  cases lexStep_of_ok hok with
  | quote hs hval _ => exact Or.inl ⟨hs, hval⟩
  | @plain c s' st' hs hc hquote hback hst hrest =>
    cases hst
    exact Or.inr ⟨[c], [c], s', hs, by simp, .plain hc hquote hback, hrest⟩
  | @escape e s' st' hs hst hrest =>
    cases hbytes : lexEscapeBytes e with
    | none =>
      simp only [lexEscape, hbytes] at hst
      cases hst
    | some bytes =>
      simp only [lexEscape, hbytes] at hst
      cases hst
      exact Or.inr ⟨[92, e], bytes, s', hs, by simp, stringItem_of_lexEscapeBytes hbytes, hrest⟩
  | @unicode digits s' ch st' hs hquad hst hrest =>
    have hlt := hquad.lt
    by_cases hhigh : IsHighSurrogate ch
    · rw [lexUnicode_high hhigh] at hst
      cases hst
      obtain ⟨low, lo, s'', rfl, hlow, hlo, hrest⟩ := lexStringLoop_high hrest
      refine Or.inr ⟨_, _, s'', ?_, by simp, .pair hquad hlow hhigh hlo, ?_⟩
      · rw [hs]
        simp
      · rw [← unicodeToUtf8_eq, toNat_pair hhigh hlo]
        exact hrest
    · have hlow : ¬ IsLowSurrogate ch := by
        intro hlow
        unfold lexUnicode at hst
        simp only [if_neg (show ¬ (0xd800 ≤ ch ∧ ch ≤ 0xdbff) from hhigh),
          if_pos (show 0xdc00 ≤ ch ∧ ch ≤ 0xdfff from hlow)] at hst
        cases hst
      unfold IsHighSurrogate at hhigh
      unfold IsLowSurrogate at hlow
      have hvalid : Nat.isValidChar ch := by
        unfold Nat.isValidChar
        omega
      have hself : (Char.ofNat ch).toNat = ch := by
        rw [Char.ofNat, dif_pos hvalid]
        rfl
      have hne : ch ≠ 0 := by
        rintro rfl
        cases hst
      rw [← hself] at hquad hst hne
      rw [lexUnicode_char hne] at hst
      cases hst
      exact Or.inr ⟨_, _, s', hs, by simp, .unicode hquad hne, hrest⟩

/-- **What is accepted is a body and a quote.** -/
theorem stringBody_of_ok {r : Option (List UInt8) × List UInt8}
    (hok : lexStringLoop true ⟨some acc, none⟩ s = .ok r) :
    ∃ body val, s = body ++ 34 :: r.2 ∧ StringBody body val ∧ r.1 = some (acc ++ val) := by
  induction hn : s.length using Nat.strong_induction_on generalizing s acc with
  | _ n ih =>
    rcases lexStringLoop_next hok with ⟨hs, hval⟩ | ⟨src, val, s', hs, hne, hitem, hrest⟩
    · exact ⟨[], [], hs, .nil, by rw [hval, List.append_nil]⟩
    · -- the item is not empty
      have hlt : s'.length < n := by
        have hpos := List.length_pos_iff.mpr hne
        rw [← hn, hs, List.length_append]
        omega
      obtain ⟨body, vals, hbody, hvals, hr⟩ := ih _ hlt hrest rfl
      exact ⟨src ++ body, val ++ vals, by rw [hs, hbody, List.append_assoc], .cons hitem hvals,
        by rw [hr, List.append_assoc]⟩

/-- **A body**: the loop goes over it and adds what it decodes to. -/
theorem lexStringLoop_body {src val : List UInt8} (h : StringBody src val) :
    lexStringLoop true ⟨some acc, none⟩ (src ++ s) = lexStringLoop true ⟨some (acc ++ val), none⟩ s := by
  induction h generalizing acc with
  | nil => simp
  | cons h _ ih => rw [List.append_assoc, lexStringLoop_item h, ih, List.append_assoc]

end

/-! ## What is printed -/

theorem hexValue_hexDigitByte : ∀ d < 16, hexValue (hexDigitByte d) = some d := by
  decide

/-- The printed form of a byte is an item that decodes to it. -/
theorem stringItem_escapeByte {c : UInt8} (hc : c ≠ 0) : StringItem (escapeByte c) [c] := by
  unfold escapeByte
  split_ifs with h₁ h₂ h₃ h₄ h₅ h₆ h₇ h₈
  · subst h₁
    exact .simple (by decide)
  · subst h₂
    exact .simple (by decide)
  · subst h₃
    exact .simple (by decide)
  · subst h₄
    exact .simple (by decide)
  · subst h₅
    exact .simple (by decide)
  · subst h₆
    exact .simple (by decide)
  · subst h₇
    exact .simple (by decide)
  · have hlt : c.toNat < 32 := UInt8.lt_iff_toNat_lt.mp h₈
    have hvalid : Nat.isValidChar c.toNat := Or.inl (by omega)
    have hself : (Char.ofNat c.toNat).toNat = c.toNat := by
      rw [Char.ofNat, dif_pos hvalid]
      rfl
    have hquad : HexQuad [48, 48, hexDigitByte (c.toNat / 16), hexDigitByte (c.toNat % 16)]
        (Char.ofNat c.toNat).toNat := by
      refine ⟨rfl, [0, 0, c.toNat / 16, c.toNat % 16], ?_, ?_⟩
      · have hhigh := hexValue_hexDigitByte (c.toNat / 16) (by omega)
        have hlow := hexValue_hexDigitByte (c.toNat % 16) (by omega)
        simp only [List.map_cons, List.map_nil, hhigh, hlow]
        rfl
      · rw [hself]
        simp [Nat.ofDigits_cons]
        omega
    have hbytes : String.utf8EncodeChar (Char.ofNat c.toNat) = [c] := by
      rw [← unicodeToUtf8_eq, hself, unicodeToUtf8, if_pos (by omega)]
      simp
    have hne : (Char.ofNat c.toNat).toNat ≠ 0 := by
      rw [hself]
      exact fun h => hc (UInt8.toNat_inj.mp h)
    exact hbytes ▸ .unicode hquad hne
  · have hge : 32 ≤ c := UInt8.le_iff_toNat_le.mpr (by
      have := mt UInt8.lt_iff_toNat_lt.mpr h₈
      simpa using this)
    exact .plain hge h₆ h₇

theorem stringBody_escape {x : List UInt8} (hx : 0 ∉ x) : StringBody (x.flatMap escapeByte) x := by
  induction x with
  | nil => exact .nil
  | cons c x ih =>
    rw [List.mem_cons, not_or] at hx
    exact .cons (stringItem_escapeByte (Ne.symm hx.1)) (ih hx.2)

/-! ## Literals -/

/-- **String literals**: with the escapes decoded and UTF-8, what is accepted is the opening quote, a body
and a quote, and the result is what the body decodes to. An escaped surrogate that is alone is rejected,
whatever stands before and behind it, and the printed literal of a string is read as that string. -/
theorem gtypeLexString_spec :
    (∀ s r, gtypeLexString true true (34 :: s) = .ok r ↔
      ∃ body val, s = body ++ 34 :: r.2 ∧ StringBody body val ∧ r.1 = some val) ∧
    (∀ body val digits n s, StringBody body val → HexQuad digits n → IsHighSurrogate n →
      (¬ ∃ low lo s', s = 92 :: 117 :: (low ++ s') ∧ HexQuad low lo ∧ IsLowSurrogate lo) →
      ∀ r, gtypeLexString true true (34 :: (body ++ 92 :: 117 :: (digits ++ s))) ≠ .ok r) ∧
    (∀ body val digits n s, StringBody body val → HexQuad digits n → IsLowSurrogate n →
      gtypeLexString true true (34 :: (body ++ 92 :: 117 :: (digits ++ s))) = .error .lowMustFollowHigh) ∧
    ∀ x rest, 0 ∉ x → gtypeLexString true true (escapeGtype x ++ rest) = .ok (some x, rest) := by
  have hstart : ∀ s, gtypeLexString true true (34 :: s) = lexStringLoop true ⟨some [], none⟩ s :=
    fun s => rfl
  have hbody : ∀ {body val rest : List UInt8}, StringBody body val →
      lexStringLoop true ⟨some [], none⟩ (body ++ 34 :: rest) = .ok (some val, rest) := by
    intro body val rest h
    rw [lexStringLoop_body h, lexStringLoop.eq_def]
    rfl
  refine ⟨fun s r => ⟨fun h => ?_, ?_⟩, ?_, ?_, fun x rest hx => ?_⟩
  · obtain ⟨body, val, hs, hval, hr⟩ := stringBody_of_ok ((hstart s).symm.trans h)
    exact ⟨body, val, hs, hval, hr⟩
  · rintro ⟨body, val, rfl, hval, hr⟩
    rw [hstart, hbody hval, ← hr]
  · intro body val digits n s hval hquad hhigh hlow r hok
    rw [hstart, lexStringLoop_body hval, lexStringLoop_unicode hquad, lexUnicode_high hhigh] at hok
    obtain ⟨low, lo, s', hs, hquad', hlo, -⟩ := lexStringLoop_high hok
    exact hlow ⟨low, lo, s', hs, hquad', hlo⟩
  · intro body val digits n s hval hquad hlow
    have hlo : 0xdc00 ≤ n ∧ n ≤ 0xdfff := hlow
    rw [hstart, lexStringLoop_body hval, lexStringLoop_unicode hquad]
    unfold lexUnicode
    dsimp only
    rw [if_neg (by omega), if_pos hlo]
    rfl
  · have hall : x.takeWhile (· ≠ 0) = x := by
      refine List.takeWhile_eq_self_iff.mpr fun c hc => ?_
      simpa using fun h : c = 0 => hx (h ▸ hc)
    unfold escapeGtype
    rw [hall, List.cons_append, List.cons_append, List.append_assoc, List.singleton_append, hstart,
      hbody (stringBody_escape hx)]

/-- An escape that is accepted and is not one character: `"\x"` stays a backslash and an `x`. -/
theorem gtypeLexString_keeps_x :
    ¬ ∀ e val, e ≠ 117 → gtypeLexString true true [34, 92, e, 34] = .ok (some val, []) → ∃ c, val = [c] := by
  intro h
  obtain ⟨c, hc⟩ := h 120 [92, 120] (by decide) rfl
  cases hc

end NeoPostGraph
