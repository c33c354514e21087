import Mathlib.Data.List.TakeWhile
import Mathlib.Data.UInt
import Mathlib.Tactic.SplitIfs

/-!
# Number literals

`gtype_lex_number` (`gtype_parser.c:881-995`) reads a token that begins with a digit or a minus sign: an
integer, a float, or an address, which is what has a second dot.

* `gtypeLexNumber`: the scanner. `NumberState` is what its parts hand on; a part that fails does not stop
  the next ones.
* `NumberText`: what a number is, by its parts.
* `Stops`: what may stand behind a number, for it to end there.

Results:
* `numberText_of_lex`: what is read without an error is a number.
* `gtypeLexNumber_text`: a number is read whole.
-/

namespace NeoPostGraph

/-! ## Bytes -/

/-- The bytes of an ASCII string. -/
def ascii (s : String) : List UInt8 := s.toList.map fun c => UInt8.ofNat c.toNat

/-- Leading whitespace of a token. -/
def isSpaceByte (c : UInt8) : Bool := c = 32 ∨ c = 9 ∨ c = 10 ∨ c = 13

def isDigitByte (c : UInt8) : Bool := 48 ≤ c ∧ c ≤ 57

def isLetterByte (c : UInt8) : Bool := (97 ≤ c ∧ c ≤ 122) ∨ (65 ≤ c ∧ c ≤ 90)

/-- `GTYPE_ALPHANUMERIC_CHAR`. -/
def gtypeAlphanumericChar (c : UInt8) : Bool := isLetterByte c || isDigitByte c || c = 95 || 128 ≤ c

/-- What goes on with an address behind its second dot. -/
def isAddressByte (c : UInt8) : Bool := isDigitByte c || c = 46

/-- `pg_tolower`, in ASCII. -/
def lowerByte (c : UInt8) : UInt8 := if 65 ≤ c ∧ c ≤ 90 then c + 32 else c

/-- `pg_strncasecmp(s, t, n) == 0`, of two strings of `n` bytes. -/
def eqIgnoreCase (s t : List UInt8) : Bool := s.map lowerByte = t.map lowerByte

/-- The input behind a byte, if that comes next. -/
def behindByte (c : UInt8) : List UInt8 → Option (List UInt8)
  | [] => none
  | d :: s => if d = c then some s else none

/-! ## Tokens -/

/-- `gtype_token_type`. -/
inductive TokenType where
  | invalid
  | string
  | integer
  | float
  | numeric
  | timestamp
  | timestamptz
  | date
  | time
  | timetz
  | interval
  | inet
  | cidr
  | macaddr
  | macaddr8
  | objectStart
  | objectEnd
  | arrayStart
  | arrayEnd
  | comma
  | colon
  | annotationToken
  | identifier
  | trueToken
  | falseToken
  | nullToken
  | endToken
deriving DecidableEq, Repr

/-! ## Numbers -/

/-- What `gtype_lex_number` has found so far. -/
structure NumberState where
  tokenType : TokenType
  error : Bool
  /-- The input that is left. -/
  s : List UInt8

/-- One digit, and all that goes on with it. -/
def lexDigits (goesOn : UInt8 → Bool) (st : NumberState) : NumberState :=
  match st.s with
  | [] => { st with error := true }
  | c :: s => if isDigitByte c then { st with s := s.dropWhile goesOn } else { st with error := true }

/-- Part 2: the main digit string. -/
def lexMainDigits (s : List UInt8) : NumberState :=
  match s with
  | [] => ⟨.integer, true, s⟩
  | c :: rest =>
    if c = 48 then ⟨.integer, false, rest⟩
    else if 49 ≤ c ∧ c ≤ 57 then ⟨.integer, false, rest.dropWhile isDigitByte⟩
    else ⟨.integer, true, s⟩

/-- Part 3: the decimal portion. -/
def lexDecimal (st : NumberState) : NumberState :=
  match behindByte 46 st.s with
  | some s => lexDigits isDigitByte { st with tokenType := .float, s := s }
  | none => st

/-- The netmask of an address. -/
def lexNetmask (st : NumberState) : NumberState :=
  match behindByte 47 st.s with
  | some s => lexDigits isDigitByte { st with s := s }
  | none => st

/-- The sign of an exponent. -/
def skipSign (s : List UInt8) : List UInt8 :=
  match s with
  | [] => []
  | c :: rest => if c = 43 ∨ c = 45 then rest else s

/-- Part 4b: the exponent. -/
def lexExponent (st : NumberState) : NumberState :=
  match st.s with
  | [] => st
  | c :: s =>
    if c = 101 ∨ c = 69 then lexDigits isDigitByte { st with tokenType := .float, s := skipSign s } else st

/-- Part 4: a second dot makes it an address; an address has no exponent. -/
def lexInetOrExponent (st : NumberState) : NumberState :=
  match behindByte 46 st.s with
  | some s => lexNetmask (lexDigits isAddressByte { st with tokenType := .inet, s := s })
  | none => lexExponent st

/-- Trailing garbage. -/
def lexGarbage (st : NumberState) : NumberState :=
  { st with
    error := st.error || st.s.head?.any gtypeAlphanumericChar
    s := st.s.dropWhile gtypeAlphanumericChar }

/-- `gtype_lex_number`, from behind the minus sign on. -/
def gtypeLexNumber (s : List UInt8) : NumberState :=
  lexGarbage (lexInetOrExponent (lexDecimal (lexMainDigits s)))

/-! ## What a number is -/

/-- A single zero, or digits that do not begin with one. -/
def IntText (s : List UInt8) : Prop :=
  s = [48] ∨ ∃ c ds, s = c :: ds ∧ 49 ≤ c ∧ c ≤ 57 ∧ ds.all isDigitByte

/-- A digit and bytes that go on with it. -/
def DigitsText (goesOn : UInt8 → Bool) (s : List UInt8) : Prop :=
  ∃ c ds, s = c :: ds ∧ isDigitByte c = true ∧ ds.all goesOn

/-- The decimal portion and the exponent of a number, each of which may be missing. -/
def DecimalText (s : List UInt8) : Prop := s = [] ∨ ∃ ds, s = 46 :: ds ∧ DigitsText isDigitByte ds

def ExponentText (s : List UInt8) : Prop :=
  ∃ e sign ds, s = e :: sign ++ ds ∧ (e = 101 ∨ e = 69) ∧ (sign = [] ∨ sign = [43] ∨ sign = [45]) ∧
    DigitsText isDigitByte ds

def NetmaskText (s : List UInt8) : Prop := s = [] ∨ ∃ ds, s = 47 :: ds ∧ DigitsText isDigitByte ds

/-- The numbers, as the lexer's states have them: an address is what has a second dot, and may have any
more of them. -/
inductive NumberText : TokenType → List UInt8 → Prop
  | integer {main : List UInt8} (h : IntText main) : NumberText .integer main
  | decimal {main ds : List UInt8} (h : IntText main) (hds : DigitsText isDigitByte ds) :
      NumberText .float (main ++ 46 :: ds)
  | exponent {main decimal exponent : List UInt8} (h : IntText main) (hdec : DecimalText decimal)
      (hexp : ExponentText exponent) : NumberText .float (main ++ decimal ++ exponent)
  | inet {main ds address netmask : List UInt8} (h : IntText main) (hds : DigitsText isDigitByte ds)
      (haddr : DigitsText isAddressByte address) (hmask : NetmaskText netmask) :
      NumberText .inet (main ++ 46 :: ds ++ 46 :: address ++ netmask)

/-- What a number or a word may stand before. -/
def Stops (s : List UInt8) : Prop :=
  ∀ c ∈ s.head?, gtypeAlphanumericChar c = false ∧ c ≠ 46 ∧ c ≠ 47

section

variable {goesOn : UInt8 → Bool} {st : NumberState} {c : UInt8} {s r ds : List UInt8}

theorem behindByte_eq_some {t : List UInt8} : behindByte c s = some t ↔ s = c :: t := by
  cases s with
  | nil => simp [behindByte]
  | cons d s =>
    unfold behindByte
    dsimp only
    split_ifs with h <;> simp [h]

theorem behindByte_self : behindByte c (c :: s) = some s := behindByte_eq_some.mpr rfl

theorem behindByte_eq_none : behindByte c s = none ↔ s.head? ≠ some c := by
  cases s with
  | nil => simp [behindByte]
  | cons d s =>
    unfold behindByte
    dsimp only
    split_ifs with h <;> simp [h]

/-- A run of bytes ends where one does not go on. -/
theorem dropWhile_run (hds : ds.all goesOn) (hr : ∀ c ∈ r.head?, goesOn c = false) :
    (ds ++ r).dropWhile goesOn = r := by
  rw [List.dropWhile_append_of_pos fun c hc => List.all_eq_true.mp hds c hc]
  cases r with
  | nil => rfl
  | cons c r => exact List.dropWhile_cons_of_neg (by simp [hr c rfl])

theorem takeWhile_run (hds : ds.all goesOn) (hr : ∀ c ∈ r.head?, goesOn c = false) :
    (ds ++ r).takeWhile goesOn = ds := by
  rw [List.takeWhile_append_of_pos fun c hc => List.all_eq_true.mp hds c hc]
  cases r with
  | nil => simp
  | cons c r => rw [List.takeWhile_cons_of_neg (by simp [hr c rfl]), List.append_nil]

theorem all_takeWhile (goesOn : UInt8 → Bool) (s : List UInt8) : (s.takeWhile goesOn).all goesOn := by
  rw [List.all_eq_true]
  exact fun c hc => List.mem_takeWhile_imp hc

theorem isDigitByte_of_main (h : 49 ≤ c ∧ c ≤ 57) : isDigitByte c = true := by
  have hge : 48 ≤ c := UInt8.le_trans (by decide) h.1
  unfold isDigitByte
  simp [hge, h.2]

theorem alphanumeric_of_digit (h : isDigitByte c = true) : gtypeAlphanumericChar c = true := by
  unfold gtypeAlphanumericChar
  simp [h]

theorem Stops.digit (h : Stops r) : ∀ c ∈ r.head?, isDigitByte c = false := by
  intro c hc
  refine Bool.eq_false_iff.mpr fun hd => ?_
  have hnot := (h c hc).1
  rw [alphanumeric_of_digit hd] at hnot
  cases hnot

/-! ### The steps of the scanner -/

/-- **Digits are read whole.** -/
theorem lexDigits_text (h : DigitsText goesOn ds) (hs : st.s = ds ++ r)
    (hr : ∀ c ∈ r.head?, goesOn c = false) : lexDigits goesOn st = { st with s := r } := by
  obtain ⟨c, ds, rfl, hc, hds⟩ := h
  unfold lexDigits
  rw [hs, List.cons_append]
  dsimp only
  rw [if_pos hc, dropWhile_run hds hr]

/-- What is read without an error is digits. -/
theorem lexDigits_ok (h : (lexDigits goesOn st).error = false) :
    st.error = false ∧ (lexDigits goesOn st).tokenType = st.tokenType ∧
      ∃ ds, DigitsText goesOn ds ∧ st.s = ds ++ (lexDigits goesOn st).s := by
  unfold lexDigits at h ⊢
  cases hs : st.s with
  | nil =>
    rw [hs] at h
    cases h
  | cons c s =>
    rw [hs] at h
    dsimp only at h ⊢
    split_ifs at h ⊢ with hc
    refine ⟨h, rfl, c :: s.takeWhile goesOn, ⟨c, _, rfl, hc, all_takeWhile goesOn s⟩, ?_⟩
    rw [List.cons_append, List.takeWhile_append_dropWhile]

theorem lexMainDigits_text (h : IntText ds) (hr : ∀ c ∈ r.head?, isDigitByte c = false) :
    lexMainDigits (ds ++ r) = ⟨.integer, false, r⟩ := by
  rcases h with rfl | ⟨c, ds, rfl, hge, hle, hds⟩
  · rfl
  · have hne : c ≠ 48 := by
      rintro rfl
      exact absurd hge (by decide)
    unfold lexMainDigits
    rw [List.cons_append]
    dsimp only
    rw [if_neg hne, if_pos ⟨hge, hle⟩, dropWhile_run hds hr]

theorem lexMainDigits_ok (h : (lexMainDigits s).error = false) :
    (lexMainDigits s).tokenType = .integer ∧ ∃ ds, IntText ds ∧ s = ds ++ (lexMainDigits s).s := by
  unfold lexMainDigits at h ⊢
  cases s with
  | nil => cases h
  | cons c s =>
    dsimp only at h ⊢
    split_ifs at h ⊢ with hzero hdigit
    · exact ⟨rfl, [48], .inl rfl, by rw [hzero]; rfl⟩
    · refine ⟨rfl, c :: s.takeWhile isDigitByte,
        .inr ⟨c, _, rfl, hdigit.1, hdigit.2, all_takeWhile isDigitByte s⟩, ?_⟩
      rw [List.cons_append, List.takeWhile_append_dropWhile]

/-- The decimal portion, if there is one. -/
theorem lexDecimal_ok (h : (lexDecimal st).error = false) : st.error = false ∧
    ((lexDecimal st = st ∧ st.s.head? ≠ some 46) ∨ ((lexDecimal st).tokenType = .float ∧
      ∃ ds, DigitsText isDigitByte ds ∧ st.s = 46 :: ds ++ (lexDecimal st).s)) := by
  unfold lexDecimal at h ⊢
  cases hdot : behindByte 46 st.s with
  | none =>
    rw [hdot] at h
    exact ⟨h, .inl ⟨rfl, behindByte_eq_none.mp hdot⟩⟩
  | some s =>
    rw [hdot] at h
    obtain ⟨herr, htype, ds, hds, hs⟩ := lexDigits_ok h
    exact ⟨herr, .inr ⟨htype, ds, hds, by rw [behindByte_eq_some.mp hdot, List.cons_append, ← hs]⟩⟩

theorem lexNetmask_ok (h : (lexNetmask st).error = false) : st.error = false ∧
    (lexNetmask st).tokenType = st.tokenType ∧
      ∃ netmask, NetmaskText netmask ∧ st.s = netmask ++ (lexNetmask st).s := by
  unfold lexNetmask at h ⊢
  cases hslash : behindByte 47 st.s with
  | none =>
    rw [hslash] at h
    exact ⟨h, rfl, [], .inl rfl, rfl⟩
  | some s =>
    rw [hslash] at h
    obtain ⟨herr, htype, ds, hds, hs⟩ := lexDigits_ok h
    exact ⟨herr, htype, 47 :: ds, .inr ⟨ds, rfl, hds⟩,
      by rw [behindByte_eq_some.mp hslash, List.cons_append, ← hs]⟩

theorem lexNetmask_text {netmask : List UInt8} (h : NetmaskText netmask) (hs : st.s = netmask ++ r)
    (hr : Stops r) : lexNetmask st = { st with s := r } := by
  unfold lexNetmask
  rcases h with rfl | ⟨ds, rfl, hds⟩
  · rw [List.nil_append] at hs
    rw [behindByte_eq_none.mpr fun hc => (hr 47 (hs ▸ hc)).2.2 rfl]
    exact congrArg (NumberState.mk _ _) hs
  · rw [hs, List.cons_append, behindByte_self]
    exact lexDigits_text hds rfl hr.digit

theorem lexExponent_ok (h : (lexExponent st).error = false) : st.error = false ∧
    (lexExponent st = st ∨ ((lexExponent st).tokenType = .float ∧
      ∃ exponent, ExponentText exponent ∧ st.s = exponent ++ (lexExponent st).s)) := by
  unfold lexExponent at h ⊢
  cases hs : st.s with
  | nil =>
    rw [hs] at h
    exact ⟨h, .inl rfl⟩
  | cons e s =>
    rw [hs] at h
    dsimp only at h ⊢
    split_ifs at h ⊢ with he
    · obtain ⟨herr, htype, ds, hds, hrest⟩ := lexDigits_ok h
      have hsign : ∃ sign, (sign = [] ∨ sign = [43] ∨ sign = [45]) ∧ s = sign ++ skipSign s := by
        cases s with
        | nil => exact ⟨[], .inl rfl, rfl⟩
        | cons c s =>
          unfold skipSign
          dsimp only
          split_ifs with hc
          · rcases hc with rfl | rfl
            · exact ⟨[43], .inr (.inl rfl), rfl⟩
            · exact ⟨[45], .inr (.inr rfl), rfl⟩
          · exact ⟨[], .inl rfl, rfl⟩
      obtain ⟨sign, hsign, hskip⟩ := hsign
      refine ⟨herr, .inr ⟨htype, e :: sign ++ ds, ⟨e, sign, ds, rfl, he, hsign, hds⟩, ?_⟩⟩
      dsimp only at hrest
      rw [List.append_assoc, ← hrest, List.cons_append, ← hskip]
    · exact ⟨h, .inl rfl⟩

theorem skipSign_text (goesOn : UInt8 → Bool) {sign : List UInt8} (hsign : sign = [] ∨ sign = [43] ∨ sign = [45])
    (hds : DigitsText goesOn ds) : skipSign (sign ++ ds) = ds := by
  obtain ⟨c, ds, rfl, hc, -⟩ := hds
  have hne : ¬ (c = 43 ∨ c = 45) := by
    rintro (rfl | rfl) <;> cases hc
  rcases hsign with rfl | rfl | rfl
  · unfold skipSign
    exact if_neg hne
  · rfl
  · rfl

theorem lexExponent_text {exponent : List UInt8} (h : ExponentText exponent) (hs : st.s = exponent ++ r)
    (hr : Stops r) : lexExponent st = { st with tokenType := .float, s := r } := by
  obtain ⟨e, sign, ds, rfl, he, hsign, hds⟩ := h
  have hskip : skipSign (sign ++ (ds ++ r)) = ds ++ r := by
    obtain ⟨c, ds', rfl, hc, -⟩ := id hds
    exact skipSign_text (fun _ => true) hsign ⟨c, ds' ++ r, by simp, hc, by simp⟩
  unfold lexExponent
  rw [hs, List.append_assoc, List.cons_append]
  dsimp only
  rw [if_pos he]
  exact lexDigits_text hds hskip hr.digit

/-- Nothing to do before what a number stops at. -/
theorem lexExponent_stops (hr : Stops st.s) : lexExponent st = st := by
  unfold lexExponent
  cases hs : st.s with
  | nil => rfl
  | cons c s =>
    have hc := hr c (by rw [hs]; rfl)
    dsimp only
    rw [if_neg]
    rintro (rfl | rfl)
    · cases hc.1
    · cases hc.1

theorem lexDecimal_none (hs : st.s.head? ≠ some 46) : lexDecimal st = st := by
  unfold lexDecimal
  rw [behindByte_eq_none.mpr hs]

theorem lexDecimal_text (h : DigitsText isDigitByte ds) (hs : st.s = 46 :: ds ++ r)
    (hr : ∀ c ∈ r.head?, isDigitByte c = false) :
    lexDecimal st = { st with tokenType := .float, s := r } := by
  unfold lexDecimal
  rw [hs, List.cons_append, behindByte_self]
  exact lexDigits_text h rfl hr

/-- **What is read without an error is a number.** -/
theorem numberText_of_lex (h : (gtypeLexNumber s).error = false) :
    ∃ text, NumberText (gtypeLexNumber s).tokenType text ∧ s = text ++ (gtypeLexNumber s).s := by
  have hgarbage : (lexInetOrExponent (lexDecimal (lexMainDigits s))).error = false ∧
      (gtypeLexNumber s).s = (lexInetOrExponent (lexDecimal (lexMainDigits s))).s := by
    unfold gtypeLexNumber lexGarbage at h ⊢
    obtain ⟨herr, hhead⟩ := Bool.or_eq_false_iff.mp h
    refine ⟨herr, ?_⟩
    dsimp only
    cases hs : (lexInetOrExponent (lexDecimal (lexMainDigits s))).s with
    | nil => rfl
    | cons c t =>
      rw [hs] at hhead
      exact List.dropWhile_cons_of_neg (by simpa using hhead)
  rw [hgarbage.2]
  replace h := hgarbage.1
  show ∃ text, NumberText (lexInetOrExponent (lexDecimal (lexMainDigits s))).tokenType text ∧ _
  unfold lexInetOrExponent at h ⊢
  cases hdot : behindByte 46 (lexDecimal (lexMainDigits s)).s with
  | some t =>
    rw [hdot] at h
    dsimp only at h ⊢
    obtain ⟨haddr, htype, netmask, hmask, hrest⟩ := lexNetmask_ok h
    obtain ⟨hdec, haddrType, address, haddress, hs₂⟩ := lexDigits_ok haddr
    obtain ⟨hmain, hdecimal⟩ := lexDecimal_ok hdec
    obtain ⟨-, main, hmainText, hs⟩ := lexMainDigits_ok hmain
    rcases hdecimal with ⟨hsame, hnot⟩ | ⟨-, ds, hds, hs₁⟩
    · rw [hsame] at hdot
      exact absurd (by rw [behindByte_eq_some.mp hdot]; rfl) hnot
    · refine ⟨main ++ 46 :: ds ++ 46 :: address ++ netmask, ?_, ?_⟩
      · rw [htype, haddrType]
        exact .inet hmainText hds haddress hmask
      · have htail := hs₂.trans (congrArg (address ++ ·) hrest)
        refine hs.trans ?_
        rw [hs₁, behindByte_eq_some.mp hdot]
        conv_lhs => rw [show t = _ from htail]
        simp
  | none =>
    rw [hdot] at h
    dsimp only at h ⊢
    obtain ⟨hdec, hexponent⟩ := lexExponent_ok h
    obtain ⟨hmain, hdecimal⟩ := lexDecimal_ok hdec
    obtain ⟨hmainType, main, hmainText, hs⟩ := lexMainDigits_ok hmain
    have hdecText : ∃ decimal, DecimalText decimal ∧
        (lexMainDigits s).s = decimal ++ (lexDecimal (lexMainDigits s)).s ∧
        NumberText (lexDecimal (lexMainDigits s)).tokenType (main ++ decimal) := by
      rcases hdecimal with ⟨hsame, -⟩ | ⟨htype, ds, hds, hs₁⟩
      · exact ⟨[], .inl rfl, by rw [hsame]; rfl, by rw [hsame, hmainType, List.append_nil]; exact .integer hmainText⟩
      · exact ⟨46 :: ds, .inr ⟨ds, rfl, hds⟩, hs₁, by rw [htype]; exact .decimal hmainText hds⟩
    obtain ⟨decimal, hdecimalText, hs₁, htext⟩ := hdecText
    rcases hexponent with hsame | ⟨htype, exponent, hexp, hs₂⟩
    · rw [hsame]
      exact ⟨main ++ decimal, htext, by rw [List.append_assoc, ← hs₁, ← hs]⟩
    · rw [htype]
      refine ⟨main ++ decimal ++ exponent, .exponent hmainText hdecimalText hexp, ?_⟩
      rw [List.append_assoc, List.append_assoc, ← hs₂, ← hs₁, ← hs]

/-- **A number is read whole.** -/
theorem gtypeLexNumber_text {type : TokenType} {text : List UInt8} (h : NumberText type text)
    (hr : Stops r) : gtypeLexNumber (text ++ r) = ⟨type, false, r⟩ := by
  have hgarbage : lexGarbage ⟨type, false, r⟩ = ⟨type, false, r⟩ := by
    unfold lexGarbage
    cases r with
    | nil => rfl
    | cons c r =>
      have hc := (hr c rfl).1
      simp [hc]
  have hdot : r.head? ≠ some 46 := fun hc => (hr 46 hc).2.1 rfl
  suffices hs : lexInetOrExponent (lexDecimal (lexMainDigits (text ++ r))) = ⟨type, false, r⟩ by
    unfold gtypeLexNumber
    rw [hs, hgarbage]
  unfold lexInetOrExponent
  cases h with
  | integer hmain =>
    rw [lexMainDigits_text hmain hr.digit, lexDecimal_none hdot, behindByte_eq_none.mpr hdot]
    exact lexExponent_stops hr
  | @decimal main ds hmain hds =>
    have hhead : ∀ c ∈ (46 :: ds ++ r).head?, isDigitByte c = false := by
      rintro c ⟨⟩
      rfl
    rw [List.append_assoc, lexMainDigits_text hmain hhead, lexDecimal_text hds rfl hr.digit,
      behindByte_eq_none.mpr hdot]
    exact lexExponent_stops hr
  | @exponent main decimal exponent hmain hdec hexp =>
    have hhead : ∀ c ∈ (exponent ++ r).head?, isDigitByte c = false ∧ c ≠ 46 := by
      obtain ⟨e, sign, ds, rfl, he, -⟩ := hexp
      rintro c ⟨⟩
      rcases he with rfl | rfl <;> exact ⟨rfl, by decide⟩
    have hstop : (exponent ++ r).head? ≠ some 46 := fun hc => (hhead 46 hc).2 rfl
    have hlexed : ∃ t, lexDecimal (lexMainDigits (main ++ decimal ++ exponent ++ r)) =
        ⟨t, false, exponent ++ r⟩ := by
      rcases hdec with rfl | ⟨ds, rfl, hds⟩
      · rw [List.append_nil, List.append_assoc, lexMainDigits_text hmain fun c hc => (hhead c hc).1]
        exact ⟨_, lexDecimal_none hstop⟩
      · have hfirst : ∀ c ∈ (46 :: ds ++ (exponent ++ r)).head?, isDigitByte c = false := by
          rintro c ⟨⟩
          rfl
        rw [List.append_assoc, List.append_assoc, lexMainDigits_text hmain hfirst]
        exact ⟨_, lexDecimal_text hds rfl fun c hc => (hhead c hc).1⟩
    obtain ⟨t, hlexed⟩ := hlexed
    rw [hlexed, behindByte_eq_none.mpr hstop]
    exact lexExponent_text hexp rfl hr
  | @inet main ds address netmask hmain hds haddr hmask =>
    have hfirst : ∀ c ∈ (46 :: ds ++ (46 :: address ++ (netmask ++ r))).head?, isDigitByte c = false := by
      rintro c ⟨⟩
      rfl
    have hsecond : ∀ c ∈ (46 :: address ++ (netmask ++ r)).head?, isDigitByte c = false := by
      rintro c ⟨⟩
      rfl
    have hthird : ∀ c ∈ (netmask ++ r).head?, isAddressByte c = false := by
      rcases hmask with rfl | ⟨ds, rfl, -⟩
      · intro c hc
        unfold isAddressByte
        rw [hr.digit c hc, decide_eq_false (hr c hc).2.1]
        rfl
      · rintro c ⟨⟩
        rfl
    simp only [List.append_assoc]
    rw [lexMainDigits_text hmain hfirst, lexDecimal_text hds rfl hsecond]
    dsimp only [List.cons_append]
    rw [behindByte_self]
    dsimp only
    rw [lexDigits_text haddr rfl hthird]
    exact lexNetmask_text hmask rfl hr

end

end NeoPostGraph
