import CppTry.NetDefine
import Mathlib.Data.List.TakeWhile

namespace CppTry

def isalpha (c : Byte) : Bool :=
  (chr 'a' ≤ c && c ≤ chr 'z') || (chr 'A' ≤ c && c ≤ chr 'Z')

/-- `Entity`; the length is that of the pattern. -/
structure Entity where
  pattern : List Byte
  value : Byte

def entities : List Entity :=
  [⟨text "quot", chr '"'⟩, ⟨text "amp", chr '&'⟩, ⟨text "apos", chr '\''⟩, ⟨text "lt", chr '<'⟩,
    ⟨text "gt", chr '>'⟩]

namespace XMLUtil

/-- `StringEqual` without `nChar`: `strncmp` over the first `INT_MAX` bytes. -/
def stringEqual (p q : List Byte) : Bool := p.take intMax == q.take intMax

def isUTF8Continuation (c : Byte) : Bool := c &&& 0x80 != 0

def isWhiteSpace (c : Byte) : Bool := !isUTF8Continuation c && isSpace c

/-- Without the count of the lines. -/
def skipWhiteSpace (p : List Byte) : List Byte := p.dropWhile isWhiteSpace

def isNameStartChar (c : Byte) : Bool :=
  if 128 ≤ c then true else if isalpha c then true else c == chr ':' || c == chr '_'

def isNameChar (c : Byte) : Bool :=
  isNameStartChar c || isDigit c || c == chr '.' || c == chr '-'

def bom : List Byte := [0xef, 0xbb, 0xbf]

/-- Whether there is a byte order mark, and what follows it. -/
def readBOM (p : List Byte) : Bool × List Byte :=
  if bom.isPrefixOf p then (true, p.drop 3) else (false, p)

/-- `(char)((input | BYTE_MARK) & BYTE_MASK)`. -/
def continuationByte (input : Nat) : Byte := UInt8.ofNat ((input ||| 0x80) &&& 0xBF)

/-- The bytes in `output`; there are `*length` of them. -/
def convertUTF32ToUTF8 (input : Nat) : List Byte :=
  if input < 0x80 then [UInt8.ofNat input]
  else if input < 0x800 then [UInt8.ofNat (input >>> 6 ||| 0xC0), continuationByte input]
  else if input < 0x10000 then
    [UInt8.ofNat (input >>> 6 >>> 6 ||| 0xE0), continuationByte (input >>> 6),
      continuationByte input]
  else if input < 0x200000 then
    [UInt8.ofNat (input >>> 6 >>> 6 >>> 6 ||| 0xF0), continuationByte (input >>> 6 >>> 6),
      continuationByte (input >>> 6), continuationByte input]
  else []

def hexDigit (c : Byte) : Option Nat :=
  if isDigit c then some (c.toNat - 48)
  else if chr 'a' ≤ c && c ≤ chr 'f' then some (c.toNat - 87)
  else if chr 'A' ≤ c && c ≤ chr 'F' then some (c.toNat - 55)
  else none

def decimalDigit (c : Byte) : Option Nat := if isDigit c then some (c.toNat - 48) else none

/-- The width of an `unsigned long`. -/
def ulongBits : Build → Nat
  | .win => 32
  | .posix => 64

/-- The loops of `GetCharacterRef` over the digits, from the last one back. The asserts on the digits
and the multiplier are compiled out. -/
def addDigits (build : Build) (base : Nat) (digit : Byte → Option Nat) :
    List Byte → Nat → Nat → Option Nat
  | [], ucs, _ => some ucs
  | c :: q, ucs, mult => do
    let d ← digit c
    addDigits build base digit q ((ucs + mult * d % 2 ^ 32) % 2 ^ ulongBits build)
      (mult * base % 2 ^ 32)

/-- What is in front of the semicolon that `strchr` finds. -/
def beforeSemicolon (q : List Byte) : Option (List Byte) :=
  if chr ';' ∈ q then some (q.takeWhile (· ≠ chr ';')) else none

/-- How far `p` moves, and the bytes in `value`; `p` is at the `&`. The loops go back to the
nearest `x` or `#`, which need not be the one behind the `&`. -/
def getCharacterRef (build : Build) : List Byte → Option (Nat × List Byte)
  | _ :: hash :: mark :: q =>
    if hash = chr '#' then
      if mark = chr 'x' then do
        let body ← beforeSemicolon q
        let ucs ← addDigits build 16 hexDigit (body.reverse.takeWhile (· ≠ chr 'x')) 0 1
        pure (body.length + 4, convertUTF32ToUTF8 ucs)
      else do
        let body ← beforeSemicolon (mark :: q)
        let ucs ← addDigits build 10 decimalDigit (body.reverse.takeWhile (· ≠ chr '#')) 0 1
        pure (body.length + 3, convertUTF32ToUTF8 ucs)
    else some (1, [])
  | _ => some (1, [])

end XMLUtil

end CppTry
