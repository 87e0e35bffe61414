import CppTry.LuaWriter
import Mathlib.Data.Nat.Digits.Lemmas

namespace CppTry

open Lua

theorem length_natText_le {n k : Nat} (hk : 0 < k) (h : n < 10 ^ k) : (natText n).length ≤ k := by
  unfold natText
  split
  next => exact hk
  next =>
    rw [List.length_map, List.length_reverse]
    exact (Nat.digits_length_le_iff (by omega) n).mpr h

theorem length_decimal_le (value : Int64) : (decimal value.toInt).length ≤ 20 := by
  have hlow := value.le_toInt
  have hhigh := value.toInt_lt
  have hdigits : (natText value.toInt.natAbs).length ≤ 19 := length_natText_le (by omega) (by omega)
  unfold decimal
  split
  next =>
    rw [List.length_cons]
    omega
  next => omega

namespace HttpResponse

/-- A call on a reply; a null key is `none`. -/
inductive Call
  | beginLuaTable
  | endLuaTable
  | addLuaKey (key : Option (List Byte))
  | addInt (key : Option (List Byte)) (value : Int32)
  | addInt64 (key : Option (List Byte)) (value : Int64)
  | addString (key : Option (List Byte)) (value : List Byte)

def call (build : Build) (res : HttpResponse) : Call → Option HttpResponse
  | .beginLuaTable => some res.beginLuaTable
  | .endLuaTable => res.endLuaTable
  | .addLuaKey key => res.addLuaKey key
  | .addInt key value => res.addLuaKeyValueInt key value
  | .addInt64 key value => res.addLuaKeyValueInt64 build key value
  | .addString key value => res.addLuaKeyValue key value

def runCalls (build : Build) (res : HttpResponse) : List Call → Option HttpResponse
  | [] => some res
  | c :: cs => do
    let res ← res.call build c
    runCalls build res cs

namespace Call

/-- The number of open tables after a call; only in an open table is there something to close or
to fill. -/
def depth (n : Nat) : Call → Option Nat
  | .beginLuaTable => some (n + 1)
  | .endLuaTable => if n = 0 then none else some (n - 1)
  | _ => if n = 0 then none else some n

def isInt64 : Call → Bool
  | .addInt64 _ _ => true
  | _ => false

/-- What a call adds to the text when the innermost table has had `n` fields. -/
def added (build : Build) (n : Int) : Call → List Byte
  | .beginLuaTable => [chr '{']
  | .endLuaTable => [chr '}']
  | .addLuaKey key => separator n ++ keyText (key.map cString)
  | .addInt key value => separator n ++ keyText (key.map cString) ++ decimal value.toInt
  | .addInt64 key value => separator n ++ keyText (key.map cString) ++ formatI64d build value
  | .addString key value =>
    separator n ++ keyText (key.map cString) ++ (chr '"' :: cString value ++ [chr '"'])

end Call

/-- The calls respect the nesting of tables when `n` tables are open before them. -/
def Nested (n : Nat) : List Call → Prop
  | [] => True
  | c :: cs => ∃ m, c.depth n = some m ∧ Nested m cs

/-- The field is wider than the longest 64-bit number. -/
theorem formatI64d_longer (value : Int64) :
    (formatI64d .win value).length < (formatI64d .posix value).length := by
  have hwin := length_decimal_le value
  unfold formatI64d
  simp only [List.length_append, List.length_replicate]
  omega

theorem added_eq {c : Call} (h : c.isInt64 = false) (n : Int) :
    c.added .posix n = c.added .win n := by
  cases c with
  | addInt64 key value => cases h
  | _ => rfl

theorem added_longer (c : Call) (n : Int) :
    (c.added .win n).length + (if c.isInt64 = true then 1 else 0) ≤ (c.added .posix n).length := by
  cases c with
  | addInt64 key value =>
    have hlonger := formatI64d_longer value
    simp only [Call.added, Call.isInt64, if_true, List.length_append]
    omega
  | _ => exact le_refl _

/-- A call that respects the nesting is carried out; the tables' counts are then the same on both
builds. -/
theorem call_eq {c : Call} {counts : List Int} {m : Nat} (h : c.depth counts.length = some m) :
    ∃ counts' : List Int, counts'.length = m ∧ ∀ (build : Build) (buff : List Byte),
      call build ⟨buff, counts⟩ c = some ⟨buff ++ c.added build (counts.headD 0), counts'⟩ := by
  cases c with
  | beginLuaTable =>
    cases h
    exact ⟨0 :: counts, rfl, fun _ _ => rfl⟩
  | _ =>
    cases counts with
    | nil => cases h
    | cons n counts =>
      cases h
      first
      | exact ⟨counts, rfl, fun _ _ => rfl⟩
      | refine ⟨wrap32 (n + 1) :: counts, rfl, fun build buff => ?_⟩
        simp [call, addLuaKeyValueInt, addLuaKeyValueInt64, addLuaKeyValue, addLuaKey_text,
          Call.added, addText]

theorem runCalls_eq {cs : List Call} {counts : List Int} (h : Nested counts.length cs) :
    ∃ (tp tw : List Byte) (counts' : List Int),
      (∀ buff, runCalls .posix ⟨buff, counts⟩ cs = some ⟨buff ++ tp, counts'⟩) ∧
      (∀ buff, runCalls .win ⟨buff, counts⟩ cs = some ⟨buff ++ tw, counts'⟩) ∧
      ((∀ c ∈ cs, c.isInt64 = false) → tp = tw) ∧
      tw.length + cs.countP Call.isInt64 ≤ tp.length := by
  induction cs generalizing counts with
  | nil => exact ⟨[], [], counts, by simp [runCalls], by simp [runCalls], by simp⟩
  | cons c cs ih =>
    obtain ⟨m, hc, hcs⟩ := h
    obtain ⟨counts₁, rfl, hcall⟩ := call_eq hc
    obtain ⟨tp, tw, counts', hp, hw, hsame, hle⟩ := ih hcs
    refine ⟨c.added .posix (counts.headD 0) ++ tp, c.added .win (counts.headD 0) ++ tw, counts',
      ?_, ?_, ?_, ?_⟩
    · intro buff
      rw [runCalls, hcall, Option.bind_eq_bind, Option.bind_some, hp, List.append_assoc]
    · intro buff
      rw [runCalls, hcall, Option.bind_eq_bind, Option.bind_some, hw, List.append_assoc]
    · intro hall
      rw [added_eq (hall c (by simp)), hsame fun d hd => hall d (by simp [hd])]
    · have hlonger := added_longer c (counts.headD 0)
      rw [List.countP_cons, List.length_append, List.length_append]
      omega

/-- The builds write the same reply exactly when no 64-bit number is added: glibc pads its `int` to
64 places. -/
theorem reply_same_iff {cs : List Call} (h : Nested 0 cs) :
    ∃ p w, runCalls .posix new cs = some p ∧ runCalls .win new cs = some w ∧
      (p.resBuff = w.resBuff ↔ ∀ key value, Call.addInt64 key value ∉ cs) := by
  have hopen : Nested ([] : List Int).length cs := h
  obtain ⟨tp, tw, counts, hp, hw, hsame, hle⟩ := runCalls_eq hopen
  have hnone : (∀ c ∈ cs, c.isInt64 = false) ↔ ∀ key value, Call.addInt64 key value ∉ cs := by
    constructor
    · intro hall key value hmem
      cases hall _ hmem
    · intro hno c hc
      cases c with
      | addInt64 key value => exact absurd hc (hno key value)
      | _ => rfl
  refine ⟨_, _, hp [], hw [], ?_⟩
  rw [← hnone]
  constructor
  · intro he c hc
    have hlen : tp.length = tw.length := congrArg List.length he
    have hzero : cs.countP Call.isInt64 = 0 := by omega
    simpa using List.countP_eq_zero.mp hzero c hc
  · intro hall
    rw [hsame hall]

/-- A table with a number and a string. -/
def plainReply : List Call :=
  [.beginLuaTable, .addInt (some (text "id")) (-7), .addLuaKey (some (text "info")),
    .beginLuaTable, .addString none (text "x"), .endLuaTable, .endLuaTable]

theorem plainReply_same : ∃ p w, runCalls .posix new plainReply = some p ∧
    runCalls .win new plainReply = some w ∧ p.resBuff = w.resBuff := by
  have hnested : Nested 0 plainReply := by simp [plainReply, Nested, Call.depth]
  obtain ⟨p, w, hp, hw, hiff⟩ := reply_same_iff hnested
  exact ⟨p, w, hp, hw, hiff.mpr (by simp [plainReply])⟩

/-- The time that the test page replies with. -/
def timeReply : List Call :=
  [.beginLuaTable, .addInt64 (some (text "time")) 5, .endLuaTable]

theorem timeReply_differs : Nested 0 timeReply ∧
    ∃ p w, runCalls .posix new timeReply = some p ∧ runCalls .win new timeReply = some w ∧
      w.resBuff = text "{time=5}" ∧ p.resBuff ≠ w.resBuff := by
  refine ⟨by simp [timeReply, Nested, Call.depth], _, _, rfl, rfl, ?_, ?_⟩
  · decide
  · decide

end HttpResponse

end CppTry
