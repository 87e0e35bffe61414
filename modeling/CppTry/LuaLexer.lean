import CppTry.Memory

namespace CppTry

namespace Lua

def isXDigit (c : Byte) : Bool :=
  isDigit c || (chr 'a' ≤ c && c ≤ chr 'f') || (chr 'A' ≤ c && c ≤ chr 'F')

def isAlpha (c : Byte) : Bool :=
  (chr 'a' ≤ c && c ≤ chr 'z') || (chr 'A' ≤ c && c ≤ chr 'Z') || c == chr '_'

def isAlnum (c : Byte) : Bool := isAlpha c || isDigit c

def isNewline (c : Byte) : Bool := c == chr '\n' || c == chr '\r'

def digitValue (c : Byte) : Nat :=
  if isDigit c then c.toNat - 48 else if chr 'a' ≤ c then c.toNat - 87 else c.toNat - 55

/-- The number that digits stand for, the highest first. -/
def numberOf (base : Nat) (digits : List Byte) : Nat :=
  digits.foldl (fun n c => base * n + digitValue c) 0

/-- The tokens of Lua 5.3. A numeral that is no decimal integer is kept as it is written. -/
inductive Token
  | name (s : List Byte)
  | reserved (s : List Byte)
  | string (s : List Byte)
  | int (n : Nat)
  | number (s : List Byte)
  | symbol (s : List Byte)
  deriving DecidableEq

def reservedWords : List (List Byte) :=
  ["and", "break", "do", "else", "elseif", "end", "false", "for", "function", "goto", "if", "in",
    "local", "nil", "not", "or", "repeat", "return", "then", "true", "until", "while"].map text

/-- A line break of one or two bytes, behind its first byte. -/
def skipNewline (c : Byte) : List Byte → List Byte
  | d :: s => if isNewline d && d != c then s else d :: s
  | [] => []

/-- The bytes of a code point in UTF-8. -/
def utf8 (x : Nat) : List Byte :=
  if x < 0x80 then [UInt8.ofNat x]
  else if x < 0x800 then [UInt8.ofNat (0xC0 + x / 0x40), UInt8.ofNat (0x80 + x % 0x40)]
  else if x < 0x10000 then
    [UInt8.ofNat (0xE0 + x / 0x1000), UInt8.ofNat (0x80 + x / 0x40 % 0x40),
      UInt8.ofNat (0x80 + x % 0x40)]
  else [UInt8.ofNat (0xF0 + x / 0x40000), UInt8.ofNat (0x80 + x / 0x1000 % 0x40),
    UInt8.ofNat (0x80 + x / 0x40 % 0x40), UInt8.ofNat (0x80 + x % 0x40)]

/-- The escapes of one letter. -/
def letterEscape (c : Byte) : Option Byte :=
  if c == chr 'a' then some 7 else if c == chr 'b' then some 8 else if c == chr 'f' then some 12
  else if c == chr 'n' then some 10 else if c == chr 'r' then some 13
  else if c == chr 't' then some 9 else if c == chr 'v' then some 11
  else if c == chr '\\' || c == chr '"' || c == chr '\'' then some c else none

/-- `\xXX`, behind the `x`. -/
def hexEscape : List Byte → Option (List Byte × List Byte)
  | h :: l :: s =>
    if isXDigit h && isXDigit l then some ([UInt8.ofNat (numberOf 16 [h, l])], s) else none
  | _ => none

/-- `\u` and hexadecimal digits in braces, behind the `u`. -/
def unicodeEscape : List Byte → Option (List Byte × List Byte)
  | [] => none
  | b :: s =>
    let digits := s.takeWhile isXDigit
    if b == chr '{' && !digits.isEmpty && numberOf 16 digits ≤ 0x10FFFF then
      match s.dropWhile isXDigit with
      | e :: s => if e == chr '}' then some (utf8 (numberOf 16 digits), s) else none
      | [] => none
    else none

/-- `\ddd`: up to three digits. -/
def decimalEscape (s : List Byte) : Option (List Byte × List Byte) :=
  let digits := (s.take 3).takeWhile isDigit
  if !digits.isEmpty && numberOf 10 digits ≤ 255 then
    some ([UInt8.ofNat (numberOf 10 digits)], s.drop digits.length)
  else none

/-- The bytes of an escape sequence, and what follows it; `s` starts behind the backslash. -/
def readEscape : List Byte → Option (List Byte × List Byte)
  | [] => none
  | c :: s =>
    match letterEscape c with
    | some b => some ([b], s)
    | none =>
      if isNewline c then some ([chr '\n'], skipNewline c s)
      else if c == chr 'z' then some ([], s.dropWhile isSpace)
      else if c == chr 'x' then hexEscape s
      else if c == chr 'u' then unicodeEscape s
      else decimalEscape (c :: s)

theorem skipNewline_suffix (c : Byte) (s : List Byte) : skipNewline c s <:+ s := by
  unfold skipNewline
  split
  next d s =>
    split
    next => exact List.suffix_cons d s
    next => exact List.suffix_refl _
  next => exact List.suffix_refl _

theorem length_utf8 (x : Nat) : (utf8 x).length ≤ 4 := by
  unfold utf8
  split_ifs <;> simp

section
variable {s bs rest : List Byte}

theorem hexEscape_eaten (h : hexEscape s = some (bs, rest)) :
    ∃ eaten, s = eaten ++ rest ∧ bs.length ≤ eaten.length := by
  unfold hexEscape at h
  split at h
  next a b s =>
    split at h
    next =>
      cases h
      exact ⟨[a, b], rfl, by simp⟩
    next => cases h
  next => cases h

theorem unicodeEscape_eaten (h : unicodeEscape s = some (bs, rest)) :
    ∃ eaten, s = eaten ++ rest ∧ bs.length ≤ eaten.length + 1 := by
  unfold unicodeEscape at h
  split at h
  next => cases h
  next b s =>
    dsimp only at h
    split at h
    next hd =>
      split at h
      next e r hr =>
        split at h
        next =>
          cases h
          have hne : s.takeWhile isXDigit ≠ [] := by
            simp only [Bool.and_eq_true, Bool.not_eq_true', List.isEmpty_eq_false_iff] at hd
            exact hd.1.2
          have hpos := List.length_pos_iff.mpr hne
          have hle := length_utf8 (numberOf 16 (s.takeWhile isXDigit))
          refine ⟨b :: (s.takeWhile isXDigit ++ [e]), ?_, ?_⟩
          · rw [List.cons_append, List.append_assoc, List.singleton_append, ← hr,
              List.takeWhile_append_dropWhile]
          · simp only [List.length_cons, List.length_append, List.length_nil]
            omega
        next => cases h
      next => cases h
    next => cases h

theorem decimalEscape_eaten (h : decimalEscape s = some (bs, rest)) :
    ∃ eaten, s = eaten ++ rest ∧ eaten ≠ [] ∧ bs.length ≤ eaten.length := by
  unfold decimalEscape at h
  dsimp only at h
  split at h
  next hd =>
    cases h
    have hne : (s.take 3).takeWhile isDigit ≠ [] := by
      simp only [Bool.and_eq_true, Bool.not_eq_true', List.isEmpty_eq_false_iff] at hd
      exact hd.1
    have hp := (List.takeWhile_prefix (l := s.take 3) isDigit).trans (List.take_prefix 3 s)
    exact ⟨(s.take 3).takeWhile isDigit, (List.prefix_iff_eq_append.mp hp).symm, hne,
      List.length_pos_iff.mpr hne⟩
  next => cases h

/-- An escape sequence has at least as many bytes as it stands for. -/
theorem readEscape_eaten (h : readEscape s = some (bs, rest)) :
    ∃ eaten, s = eaten ++ rest ∧ eaten ≠ [] ∧ bs.length ≤ eaten.length := by
  unfold readEscape at h
  split at h
  next => cases h
  next c s =>
    split at h
    next b _ =>
      cases h
      exact ⟨[c], rfl, by simp, by simp⟩
    next =>
      split_ifs at h with hn hz hx hu
      · cases h
        obtain ⟨e, he⟩ := skipNewline_suffix c s
        exact ⟨c :: e, by rw [List.cons_append, he], by simp, by simp⟩
      · cases h
        exact ⟨c :: s.takeWhile isSpace, by simp, by simp, by simp⟩
      · obtain ⟨e, rfl, hl⟩ := hexEscape_eaten h
        exact ⟨c :: e, rfl, by simp, Nat.le_succ_of_le hl⟩
      · obtain ⟨e, rfl, hl⟩ := unicodeEscape_eaten h
        exact ⟨c :: e, rfl, by simp, hl⟩
      · exact decimalEscape_eaten h

end

/-- A string literal, behind its opening delimiter. -/
def readString (del : Byte) (s : List Byte) : Option (List Byte × List Byte) :=
  match s with
  | [] => none
  | c :: s =>
    if c == del then some ([], s)
    else if isNewline c then none
    else if c == chr '\\' then
      match _h : readEscape s with
      | some (bs, rest) => (readString del rest).map fun r => (bs ++ r.1, r.2)
      | none => none
    else (readString del s).map fun r => (c :: r.1, r.2)
termination_by s.length
decreasing_by
  · obtain ⟨eaten, rfl, _⟩ := readEscape_eaten _h
    simp only [List.length_cons, List.length_append]
    omega
  · exact Nat.lt_succ_self _

/-- The bytes that stand for themselves in a literal with the delimiter `del`. -/
def Literal (del : Byte) (s : List Byte) : Prop :=
  ∀ c ∈ s, c ≠ del ∧ isNewline c = false ∧ c ≠ chr '\\'

instance (del : Byte) (s : List Byte) : Decidable (Literal del s) :=
  List.decidableBAll _ s

theorem Literal.readString {del : Byte} {s : List Byte} (h : Literal del s) (rest : List Byte) :
    readString del (s ++ del :: rest) = some (s, rest) := by
  induction s with
  | nil => simp [Lua.readString]
  | cons c s ih =>
    obtain ⟨⟨hdel, hn, hesc⟩, hs⟩ := List.forall_mem_cons.mp h
    rw [List.cons_append, Lua.readString]
    simp [hdel, hn, hesc, ih hs]

/-- A literal stands for no more bytes than it has, and only for itself if for as many. -/
theorem readString_content {del : Byte} {s value rest : List Byte}
    (h : readString del s = some (value, rest)) :
    ∃ content, s = content ++ del :: rest ∧ value.length ≤ content.length ∧
      (value.length = content.length → value = content ∧ Literal del content) := by
  fun_induction readString del s generalizing value with
  | case1 => cases h
  | case2 c s hc =>
    cases h
    refine ⟨[], ?_, by simp, fun _ => ⟨rfl, by simp [Literal]⟩⟩
    rw [beq_iff_eq.mp hc]
    rfl
  | case3 => cases h
  | case4 c s hc hn he bs r hesc ih =>
    obtain ⟨⟨value', rest'⟩, hr, hv⟩ := Option.map_eq_some_iff.mp h
    cases hv
    obtain ⟨eaten, rfl, _, hle⟩ := readEscape_eaten hesc
    obtain ⟨content, rfl, hlen, _⟩ := ih hr
    refine ⟨c :: (eaten ++ content), by simp, ?_, fun hl => ?_⟩
    · simp only [List.length_cons, List.length_append]
      omega
    · simp only [List.length_cons, List.length_append] at hl
      omega
  | case5 => cases h
  | case6 c s hc hn he ih =>
    obtain ⟨⟨value', rest'⟩, hr, hv⟩ := Option.map_eq_some_iff.mp h
    cases hv
    obtain ⟨content, rfl, hlen, hsame⟩ := ih hr
    refine ⟨c :: content, rfl, Nat.succ_le_succ hlen, fun hl => ?_⟩
    obtain ⟨rfl, hlit⟩ := hsame (Nat.succ.inj hl)
    refine ⟨rfl, List.forall_mem_cons.mpr ⟨⟨?_, ?_, ?_⟩, hlit⟩⟩
    · simpa using hc
    · simpa using hn
    · simpa using he

/-- The number of `=` of a long bracket, and what follows its second bracket `b`. -/
def longBracket (b : Byte) (s : List Byte) : Option (Nat × List Byte) :=
  match s.dropWhile (· == chr '=') with
  | c :: rest => if c == b then some ((s.takeWhile (· == chr '=')).length, rest) else none
  | [] => none

/-- The body of a long string or comment, up to the bracket that closes it. -/
def readLong (level : Nat) : List Byte → Option (List Byte × List Byte)
  | [] => none
  | c :: s =>
    match if c == chr ']' then longBracket (chr ']') s else none with
    | some (n, rest) =>
      if n = level then some ([], rest) else (readLong level s).map fun r => (c :: r.1, r.2)
    | none => (readLong level s).map fun r => (c :: r.1, r.2)

/-- Line breaks in a long string count as one `\n` each. -/
def normalizeNewlines : List Byte → List Byte
  | [] => []
  | [c] => if isNewline c then [chr '\n'] else [c]
  | c :: d :: s =>
    if isNewline c then
      if isNewline d && d != c then chr '\n' :: normalizeNewlines s
      else chr '\n' :: normalizeNewlines (d :: s)
    else c :: normalizeNewlines (d :: s)

/-- A long string, behind its second bracket; a line break that follows it is skipped. -/
def readLongString (level : Nat) (s : List Byte) : Option (List Byte × List Byte) :=
  (readLong level s).map fun r =>
    let body := normalizeNewlines r.1
    (if body.head? = some (chr '\n') then body.tail else body, r.2)

/-- Where the reader of a numeral is: anywhere, behind an exponent's mark, or behind its sign. -/
inductive NumeralState
  | body
  | mark
  | sign

/-- The bytes that a numeral goes on with. -/
def numeralRun (expo : List Byte) : NumeralState → List Byte → List Byte
  | _, [] => []
  | .body, c :: s =>
    if c ∈ expo then c :: numeralRun expo .mark s
    else if isXDigit c || c == chr '.' then c :: numeralRun expo .body s else []
  | .mark, c :: s =>
    if c == chr '+' || c == chr '-' then c :: numeralRun expo .sign s
    else if isXDigit c || c == chr '.' then c :: numeralRun expo .body s else []
  | .sign, c :: s => if isXDigit c || c == chr '.' then c :: numeralRun expo .body s else []

/-- The text of a numeral at the start of `s`, which begins with a digit. -/
def numeralText : List Byte → List Byte
  | c :: x :: s =>
    if c == chr '0' && x ∈ text "xX" then c :: x :: numeralRun (text "Pp") .body s
    else c :: numeralRun (text "Ee") .body (x :: s)
  | s => s

/-- What follows the digits of a numeral, before and behind its point. -/
def dropMantissa (digit : Byte → Bool) (s : List Byte) : Option (List Byte) :=
  match s.dropWhile digit with
  | c :: r =>
    if c == chr '.' then
      if s.head? = some (chr '.') ∧ !(r.head?.any digit) then none else some (r.dropWhile digit)
    else if s.takeWhile digit = [] then none else some (c :: r)
  | [] => if s = [] then none else some []

def isExponent (mark : List Byte) : List Byte → Bool
  | [] => true
  | c :: s =>
    let digits := match s with
      | d :: r => if d == chr '+' || d == chr '-' then r else d :: r
      | [] => []
    mark.contains c && !digits.isEmpty && digits.all isDigit

def isDecimal (s : List Byte) : Bool :=
  (dropMantissa isDigit s).any (isExponent (text "Ee"))

/-- A well-formed numeral, decimal or hexadecimal. -/
def isNumeral : List Byte → Bool
  | c :: x :: s =>
    if c == chr '0' && x ∈ text "xX" then (dropMantissa isXDigit s).any (isExponent (text "Pp"))
    else isDecimal (c :: x :: s)
  | s => isDecimal s

/-- The token of a numeral, unless it is malformed. -/
def numeralToken (s : List Byte) : Option Token :=
  if s.all isDigit && numberOf 10 s < 2 ^ 63 then some (.int (numberOf 10 s))
  else if isNumeral s then some (.number s) else none

inductive Step
  | done
  | error
  | skip (rest : List Byte)
  | token (t : Token) (rest : List Byte)

def readNumeral (point s : List Byte) : Step :=
  match numeralToken (point ++ numeralText s) with
  | some t => .token t (s.drop (numeralText s).length)
  | none => .error

/-- A comment, behind `--`. -/
def comment (s : List Byte) : Step :=
  match s with
  | c :: r =>
    match if c == chr '[' then longBracket (chr '[') r else none with
    | some (level, body) =>
      match readLong level body with
      | some (_, rest) => .skip rest
      | none => .error
    | none => .skip (s.dropWhile fun c => !isNewline c)
  | [] => .skip []

/-- The characters that make one symbol with a `c` before them. -/
def secondOf (c : Byte) : List Byte :=
  if c == chr '=' || c == chr '~' then [chr '=']
  else if c == chr '<' || c == chr '>' then [chr '=', c]
  else if c == chr '/' || c == chr ':' || c == chr '.' then [c] else []

def readSymbol (c : Byte) : List Byte → Step
  | [] => .token (.symbol [c]) []
  | d :: s =>
    if d ∈ secondOf c then
      if c == chr '.' && s.head? = some (chr '.') then .token (.symbol (text "...")) s.tail
      else .token (.symbol [c, d]) s
    else .token (.symbol [c]) (d :: s)

/-- The next token, or a piece that is none. -/
def next : List Byte → Step
  | [] => .done
  | c :: s =>
    if isSpace c then .skip s
    else if isAlpha c then
      let word := c :: s.takeWhile isAlnum
      .token (if word ∈ reservedWords then .reserved word else .name word) (s.dropWhile isAlnum)
    else if isDigit c then readNumeral [] (c :: s)
    else if c == chr '"' || c == chr '\'' then
      match readString c s with
      | some (value, rest) => .token (.string value) rest
      | none => .error
    else if c == chr '-' && s.head? = some (chr '-') then comment s.tail
    else if c == chr '.' && s.head?.any isDigit then readNumeral [c] s
    else if c == chr '[' && (s.head? = some (chr '[') || s.head? = some (chr '=')) then
      match longBracket (chr '[') s with
      | some (level, body) =>
        match readLongString level body with
        | some (value, rest) => .token (.string value) rest
        | none => .error
      | none => .error
    else readSymbol c s

/-- All tokens of a text, unless it has a lexical error. -/
def lex (s : List Byte) : Option (List Token) :=
  match next s with
  | .done => some []
  | .error => none
  | .skip rest => if rest.length < s.length then lex rest else none
  | .token t rest => if rest.length < s.length then (lex rest).map (t :: ·) else none
termination_by s.length

end Lua

end CppTry
