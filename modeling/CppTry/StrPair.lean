import CppTry.XMLUtil

namespace CppTry

namespace StrPair
open XMLUtil

/-- The flags of a `StrPair` that its text has not been read from yet. -/
structure Flags where
  needsEntityProcessing : Bool
  needsNewlineNormalization : Bool
  needsWhitespaceCollapsing : Bool

/-- `TEXT_ELEMENT`, which `ATTRIBUTE_VALUE` is equal to. -/
def textElement : Flags := ⟨true, true, false⟩

/-- `TEXT_ELEMENT_LEAVE_ENTITIES`, `ATTRIBUTE_VALUE_LEAVE_ENTITIES` and `COMMENT`. -/
def leaveEntities : Flags := ⟨false, true, false⟩

/-- The text up to `endTag`, and what follows the end tag. -/
def parseText (endTag : List Byte) : List Byte → Option (List Byte × List Byte)
  | [] => none
  | c :: p =>
    if endTag.isPrefixOf (c :: p) then some ([], (c :: p).drop endTag.length)
    else (parseText endTag p).map fun (raw, rest) => (c :: raw, rest)

def parseName : List Byte → Option (List Byte × List Byte)
  | [] => none
  | c :: p =>
    if isNameStartChar c then some (c :: p.takeWhile isNameChar, p.dropWhile isNameChar) else none

/-- A turn of the loop of `GetStr` with `c` at the read pointer and `p` behind it: how far the read
pointer goes, and what is written. An unknown entity moves the write pointer over a byte that it
leaves as it is (`none`). -/
def turn (build : Build) (flags : Flags) (c : Byte) (p : List Byte) : Nat × Option (List Byte) :=
  if flags.needsNewlineNormalization && c == chr '\r' then
    (if p.head? = some (chr '\n') then 2 else 1, some [chr '\n'])
  else if flags.needsNewlineNormalization && c == chr '\n' then
    (if p.head? = some (chr '\r') then 2 else 1, some [chr '\n'])
  else if flags.needsEntityProcessing && c == chr '&' then
    if p.head? = some (chr '#') then
      match getCharacterRef build (c :: p) with
      | none => (1, some [c])
      | some (passed, value) => (passed, some value)
    else
      match entities.find? fun entity => (entity.pattern ++ [chr ';']).isPrefixOf p with
      | some entity => (entity.pattern.length + 2, some [entity.value])
      | none => (1, none)
  else (1, some [c])

theorem getCharacterRef_passed {build : Build} {p value : List Byte} {passed : Nat}
    (h : getCharacterRef build p = some (passed, value)) : 1 ≤ passed := by
  unfold getCharacterRef at h
  split at h
  next first hash mark q =>
    split at h
    next =>
      split at h
      all_goals
        obtain ⟨body, _, h⟩ := Option.bind_eq_some_iff.mp h
        obtain ⟨ucs, _, h⟩ := Option.bind_eq_some_iff.mp h
        cases h
        omega
    next =>
      cases h
      exact le_refl 1
  next =>
    cases h
    exact le_refl 1

theorem turn_passed (build : Build) (flags : Flags) (c : Byte) (p : List Byte) :
    1 ≤ (turn build flags c p).1 := by
  unfold turn
  split
  next => split <;> omega
  next =>
    split
    next => split <;> omega
    next =>
      split
      next =>
        split
        next =>
          split
          next => exact le_refl 1
          next passed value h => exact getCharacterRef_passed h
        next =>
          split
          next => exact Nat.succ_le_succ (Nat.zero_le _)
          next => exact le_refl 1
      next => exact le_refl 1

/-- The loop of `GetStr`: `p` is left to read and `out` is written. The write pointer is not behind
the read pointer, so that what an unknown entity leaves is a byte of the text before the call. -/
def getStrLoop (build : Build) (flags : Flags) (raw : List Byte) (p out : List Byte) : List Byte :=
  match p with
  | [] => out
  | c :: p =>
    let (passed, written) := turn build flags c p
    getStrLoop build flags raw (p.drop (passed - 1)) (out ++ written.getD [raw.getD out.length 0])
termination_by p.length
decreasing_by
  rw [List.length_drop, List.length_cons]
  omega

/-- The loop of `CollapseWhitespace`; `gap` is a run of white space that is not written yet. -/
def collapseLoop (gap : Bool) : List Byte → List Byte
  | [] => []
  | c :: p =>
    if isWhiteSpace c then collapseLoop true p
    else if gap then chr ' ' :: c :: collapseLoop false p
    else c :: collapseLoop false p

def collapseWhitespace (s : List Byte) : List Byte := collapseLoop false (skipWhiteSpace s)

/-- The text of a `StrPair` over `raw`, up to its first NUL. -/
def getStr (build : Build) (flags : Flags) (raw : List Byte) : List Byte :=
  let s := (getStrLoop build flags raw raw []).takeWhile (· ≠ 0)
  if flags.needsWhitespaceCollapsing then collapseWhitespace s else s

end StrPair

end CppTry
