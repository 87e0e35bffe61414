import CppTry.Decimal
import CppTry.NetDefine

namespace CppTry

/-- A reply: the text so far, and for each open table the number of its fields, the innermost
first. -/
structure HttpResponse where
  resBuff : List Byte
  luaTableKeyCount : List Int

namespace HttpResponse

def new : HttpResponse := ⟨[], []⟩

/-- The formatted text is given. -/
def addText (res : HttpResponse) (text : List Byte) : HttpResponse :=
  { res with resBuff := res.resBuff ++ text }

/-- What `%s` prints of a string. -/
def cString (s : List Byte) : List Byte := s.takeWhile (· ≠ 0)

/-- What `%I64d` prints: with glibc `I` is a flag and 64 the width of a field for an `int`. -/
def formatI64d (build : Build) (value : Int64) : List Byte :=
  match build with
  | .win => decimal value.toInt
  | .posix =>
    let digits := decimal value.toInt32.toInt
    List.replicate (64 - digits.length) (chr ' ') ++ digits

/-- The top of an empty stack is undefined. -/
def addLuaKeyCount (res : HttpResponse) : Option (Int × HttpResponse) :=
  match res.luaTableKeyCount with
  | [] => none
  | n :: counts => some (n, { res with luaTableKeyCount := wrap32 (n + 1) :: counts })

/-- A null `key` is an array element. -/
def addLuaKey (res : HttpResponse) (key : Option (List Byte)) : Option HttpResponse := do
  let (n, res) ← res.addLuaKeyCount
  let res := if n > 0 then res.addText (text ", ") else res
  match key with
  | some key => pure (res.addText (cString key ++ text "="))
  | none => pure res

def beginLuaTable (res : HttpResponse) : HttpResponse :=
  let res := res.addText [chr '{']
  { res with luaTableKeyCount := 0 :: res.luaTableKeyCount }

def endLuaTable (res : HttpResponse) : Option HttpResponse :=
  match res.luaTableKeyCount with
  | [] => none
  | _ :: counts => some ({ res with luaTableKeyCount := counts }.addText [chr '}'])

def addLuaKeyValueInt (res : HttpResponse) (key : Option (List Byte)) (value : Int32) :
    Option HttpResponse := do
  let res ← res.addLuaKey key
  pure (res.addText (decimal value.toInt))

def addLuaKeyValueInt64 (build : Build) (res : HttpResponse) (key : Option (List Byte))
    (value : Int64) : Option HttpResponse := do
  let res ← res.addLuaKey key
  pure (res.addText (formatI64d build value))

def addLuaKeyValue (res : HttpResponse) (key : Option (List Byte)) (value : List Byte) :
    Option HttpResponse := do
  let res ← res.addLuaKey key
  pure (res.addText (chr '"' :: cString value ++ [chr '"']))

end HttpResponse

end CppTry
