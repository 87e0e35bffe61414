import Mathlib.Data.List.TakeWhile
import CppTry.HttpResponse
import CppTry.LuaTable
import CppTry.StringUtil

namespace CppTry

open Lua

namespace HttpResponse

mutual

/-- The calls that write one field; there is none for a number that is no integer. -/
def addField (res : HttpResponse) (key : Option (List Byte)) : Value → Option HttpResponse
  | .int n => res.addLuaKeyValueInt key (Int32.ofInt n)
  | .number _ _ => none
  | .string s => res.addLuaKeyValue key s
  | .table fs => do
    let res ← res.addLuaKey key
    let res ← addFields res.beginLuaTable fs
    res.endLuaTable

def addFields (res : HttpResponse) : Fields → Option HttpResponse
  | .nil => some res
  | .cons key value rest => do
    let res ← addField res key value
    addFields res rest

end

/-- The calls that write a whole table. -/
def addTable (res : HttpResponse) (fs : Fields) : Option HttpResponse := do
  let res ← res.beginLuaTable.addFields fs
  res.endLuaTable

end HttpResponse

namespace Lua

def keyText : Option (List Byte) → List Byte
  | some key => key ++ [chr '=']
  | none => []

mutual

/-- A value as the reply shows it. -/
def Value.text : Value → List Byte
  | .int n => decimal n
  | .number negative s => if negative then chr '-' :: s else s
  | .string s => chr '"' :: (s ++ [chr '"'])
  | .table fs => chr '{' :: ((CppTry.text ", ").intercalate fs.texts ++ [chr '}'])

def Fields.texts : Fields → List (List Byte)
  | .nil => []
  | .cons key value rest => (keyText key ++ value.text) :: rest.texts

end

def Fields.length : Fields → Nat
  | .nil => 0
  | .cons _ _ rest => rest.length + 1

mutual

/-- What the reply can show: 32-bit integers, strings that need no escape, and names as keys. -/
def Value.WellFormed : Value → Prop
  | .int n => -2 ^ 31 ≤ n ∧ n < 2 ^ 31
  | .number _ _ => False
  | .string s => Literal (chr '"') s ∧ 0 ∉ s
  | .table fs => fs.WellFormed

def Fields.WellFormed : Fields → Prop
  | .nil => True
  | .cons key value rest =>
    (∀ k ∈ key, isName k = true) ∧ value.WellFormed ∧ rest.WellFormed

end

mutual

/-- No table has more fields than an `int` counts before it turns negative. -/
def Value.Countable : Value → Prop
  | .table fs => fs.length ≤ 2 ^ 31 ∧ fs.Countable
  | _ => True

def Fields.Countable : Fields → Prop
  | .nil => True
  | .cons _ value rest => value.Countable ∧ rest.Countable

end

end Lua

namespace HttpResponse

/-- The separator before a field when the table has had `n` of them. -/
def separator (n : Int) : List Byte := if n > 0 then text ", " else []

theorem cString_eq {s : List Byte} (h : 0 ∉ s) : cString s = s := takeWhile_eq_self h

theorem isName_nul {key : List Byte} (h : isName key = true) : 0 ∉ key := by
  simp only [isName, Bool.and_eq_true, List.all_eq_true] at h
  intro hz
  exact absurd (h.1.2 0 hz) (by decide)

theorem addLuaKey_text (buff : List Byte) (n : Int) (counts : List Int) (key : Option (List Byte)) :
    addLuaKey ⟨buff, n :: counts⟩ key =
      some ⟨buff ++ separator n ++ keyText (key.map cString), wrap32 (n + 1) :: counts⟩ := by
  have hsep : (if n > 0 then addText ⟨buff, wrap32 (n + 1) :: counts⟩ (text ", ")
      else ⟨buff, wrap32 (n + 1) :: counts⟩) = ⟨buff ++ separator n, wrap32 (n + 1) :: counts⟩ := by
    unfold separator
    split
    next => rfl
    next => rw [List.append_nil]
  cases key with
  | none =>
    change some (if n > 0 then _ else _) = _
    rw [hsep, Option.map_none, keyText, List.append_nil]
  | some k =>
    change some (addText (if n > 0 then _ else _) (cString k ++ _)) = _
    rw [hsep]
    rfl

theorem map_cString {key : Option (List Byte)} (h : ∀ k ∈ key, isName k = true) :
    key.map cString = key := by
  cases key with
  | none => rfl
  | some k => rw [Option.map_some, cString_eq (isName_nul (h k rfl))]

theorem addLuaKey_eq (buff : List Byte) (n : Int) (counts : List Int) {key : Option (List Byte)}
    (h : ∀ k ∈ key, isName k = true) :
    addLuaKey ⟨buff, n :: counts⟩ key =
      some ⟨buff ++ separator n ++ keyText key, wrap32 (n + 1) :: counts⟩ := by
  rw [addLuaKey_text, map_cString h]

mutual

theorem addField_eq {value : Value} (hw : value.WellFormed) (hc : value.Countable)
    (buff : List Byte) (n : Int) (counts : List Int) {key : Option (List Byte)}
    (hk : ∀ k ∈ key, isName k = true) :
    addField ⟨buff, n :: counts⟩ key value =
      some ⟨buff ++ separator n ++ keyText key ++ value.text, wrap32 (n + 1) :: counts⟩ := by
  have hkey := addLuaKey_eq buff n counts hk
  cases value with
  | int i =>
    have hi : (Int32.ofInt i).toInt = i := Int32.toInt_ofInt_of_le hw.1 hw.2
    rw [addField, addLuaKeyValueInt, hkey, hi]
    rfl
  | number negative s => exact hw.elim
  | string s =>
    have hs := cString_eq hw.2
    rw [addField, addLuaKeyValue, hkey, hs]
    rfl
  | table fs =>
    rw [addField, hkey]
    have hfs := addFields_eq hw hc.2 (buff ++ separator n ++ keyText key ++ [chr '{']) 0
      (wrap32 (n + 1) :: counts) (by rw [Nat.zero_add]; exact hc.1)
    rw [if_pos rfl] at hfs
    change (addFields ⟨buff ++ separator n ++ keyText key ++ [chr '{'],
      wrap32 (0 : Nat) :: wrap32 (n + 1) :: counts⟩ fs).bind endLuaTable = _
    rw [hfs]
    simp [endLuaTable, addText, Value.text]

theorem addFields_eq {fs : Fields} (hw : fs.WellFormed) (hc : fs.Countable) (buff : List Byte)
    (k : Nat) (counts : List Int) (hk : k + fs.length ≤ 2 ^ 31) :
    addFields ⟨buff, wrap32 k :: counts⟩ fs =
      some ⟨buff ++ (if k = 0 then (text ", ").intercalate fs.texts
        else fs.texts.flatMap (text ", " ++ ·)), wrap32 (k + fs.length : Nat) :: counts⟩ := by
  cases fs with
  | nil =>
    rw [addFields]
    simp [Fields.texts, Fields.length]
  | cons key value rest =>
    obtain ⟨hname, hvalue, hrest⟩ := hw
    rw [Fields.length] at hk
    have hcount : wrap32 (wrap32 k + 1) = wrap32 (k + 1 : Nat) := by
      unfold wrap32
      omega
    have hfirst := addField_eq hvalue hc.1 buff (wrap32 k) counts hname
    have hothers := addFields_eq hrest hc.2
      (buff ++ separator (wrap32 k) ++ keyText key ++ value.text) (k + 1) counts (by omega)
    rw [if_neg (Nat.succ_ne_zero k)] at hothers
    rw [addFields, hfirst, hcount]
    change addFields _ rest = _
    rw [hothers, Fields.texts, Fields.length]
    have hsep : separator (wrap32 k) = if k = 0 then [] else text ", " := by
      rw [wrap32_eq (by omega) (by omega), separator]
      split_ifs <;> first | rfl | omega
    have hlen : k + 1 + rest.length = k + (rest.length + 1) := by omega
    rw [hsep, hlen]
    split_ifs with hz
    · rw [intercalate_cons_flatMap]
      simp
    · simp

end

end HttpResponse

namespace Lua

theorem natText_head (n : Nat) (rest : List Byte) :
    ∃ d < 10, (natText n ++ rest).head? = some (digitChar d) := by
  obtain ⟨ds, hne, hd, ht, _⟩ := natText_digits n
  cases ds with
  | nil => exact absurd rfl hne
  | cons d ds => exact ⟨d, hd d (by simp), by rw [ht]; rfl⟩

theorem natText_head_ne {c : Byte} (hc : isDigit c = false) (n : Nat) (rest : List Byte) :
    (natText n ++ rest).head? ≠ some c := by
  obtain ⟨d, hd, hh⟩ := natText_head n rest
  rw [hh]
  rintro he
  rw [← Option.some.inj he, (digitChar_digit hd).1] at hc
  cases hc

/-- A decimal number: an integer if Lua has room for it. -/
def Value.ofDecimal (n : Int) : Value :=
  if n.natAbs < 2 ^ 63 then .int n else .number (n < 0) (natText n.natAbs)

theorem lex_decimal (n : Int) {rest : List Byte} (hr : Stops rest) :
    lex (decimal n ++ rest) = (lex rest).map ((Value.ofDecimal n).tokens ++ ·) := by
  have htok : (Value.ofDecimal n).tokens =
      if n < 0 then [symbol '-', natToken n.natAbs] else [natToken n.natAbs] := by
    unfold Value.ofDecimal natToken
    split_ifs with hn <;> simp [Value.tokens, *]
  rw [htok]
  unfold decimal
  split_ifs
  · rw [List.cons_append, lex_minus (natText_head_ne (by decide) _ _), lex_natText _ hr,
      Option.map_map]
    rfl
  · rw [lex_natText _ hr]
    rfl

theorem decimal_head_ne {c : Byte} (hc : isDigit c = false) (hm : c ≠ chr '-') (n : Int)
    (rest : List Byte) : (decimal n ++ rest).head? ≠ some c := by
  unfold decimal
  split_ifs
  · exact fun he => hm (Option.some.inj he).symm
  · exact natText_head_ne hc _ _

/-- A value that can be written does not start with a `=`. -/
theorem Value.WellFormed.text_head {v : Value} (h : v.WellFormed) (rest : List Byte) :
    (v.text ++ rest).head? ≠ some (chr '=') := by
  cases v with
  | int n => exact decimal_head_ne (by decide) (by decide) n rest
  | number negative s => exact h.elim
  | string s =>
    unfold Value.text
    rw [List.cons_append, List.head?_cons]
    decide
  | table fs =>
    unfold Value.text
    rw [List.cons_append, List.head?_cons]
    decide

theorem lex_keyText {key : Option (List Byte)} (h : ∀ k ∈ key, isName k = true) {s : List Byte}
    (hs : s.head? ≠ some (chr '=')) :
    lex (keyText key ++ s) = (lex s).map (keyTokens key ++ ·) := by
  cases key with
  | none =>
    change lex s = (lex s).map id
    rw [Option.map_id]
    rfl
  | some k =>
    rw [keyText, List.append_assoc, List.singleton_append, lex_name (h k rfl) rfl, lex_equals hs,
      Option.map_map]
    rfl

mutual

theorem lex_text {v : Value} (h : v.WellFormed) {rest : List Byte} (hr : Stops rest) :
    lex (v.text ++ rest) = (lex rest).map (v.tokens ++ ·) := by
  cases v with
  | int n =>
    obtain ⟨hl, hu⟩ : -2 ^ 31 ≤ n ∧ n < 2 ^ 31 := h
    have hint : Value.ofDecimal n = .int n := if_pos (by omega)
    have hlex := lex_decimal n hr
    rw [hint] at hlex
    exact hlex
  | number negative s => exact h.elim
  | string s =>
    rw [Value.text, List.cons_append, List.append_assoc, List.singleton_append, lex_string h.1]
    rfl
  | table fs =>
    rw [Value.text, List.cons_append, List.append_assoc, List.singleton_append, lex_open,
      lex_texts h, Option.map_map]
    simp [Value.tokens, Function.comp_def]

theorem lex_texts {fs : Fields} (h : fs.WellFormed) (rest : List Byte) :
    lex ((CppTry.text ", ").intercalate fs.texts ++ chr '}' :: rest) =
      (lex rest).map fun ts => fs.tokens ++ symbol '}' :: ts := by
  cases fs with
  | nil =>
    rw [Fields.texts, List.intercalate_nil, List.nil_append, lex_close]
    rfl
  | cons key value others =>
    obtain ⟨hk, hv, ho⟩ := h
    cases others with
    | nil =>
      change lex ((CppTry.text ", ").intercalate [keyText key ++ value.text] ++ _) = _
      rw [List.intercalate_singleton, List.append_assoc, lex_keyText hk (hv.text_head _),
        lex_text hv (by simp [Stops]), lex_close, Option.map_map, Option.map_map]
      simp [Fields.tokens, Fields.comma, Fields.isNil, Function.comp_def]
    | cons key' value' others' =>
      have hrest := lex_texts ho rest
      change lex ((CppTry.text ", ").intercalate ((keyText key ++ value.text) ::
        (keyText key' ++ value'.text) :: others'.texts) ++ _) = _
      have hsplit : (CppTry.text ", ").intercalate ((keyText key ++ value.text) ::
          (keyText key' ++ value'.text) :: others'.texts) ++ chr '}' :: rest =
          keyText key ++ (value.text ++ chr ',' :: chr ' ' ::
            ((CppTry.text ", ").intercalate (Fields.cons key' value' others').texts ++
              chr '}' :: rest)) := by
        rw [List.intercalate_cons_cons]
        simp only [List.append_assoc]
        rfl
      rw [hsplit, lex_keyText hk (hv.text_head _), lex_text hv (by simp [Stops]), lex_comma, lex_space, hrest,
        Option.map_map, Option.map_map, Option.map_map]
      simp [Fields.tokens, Fields.comma, Fields.isNil, Function.comp_def]

end

/-- What the reply shows of a table is that table again. -/
theorem parse_text {v : Value} (h : v.WellFormed) : parse v.text = some v := by
  have hl : lex (v.text ++ []) = _ := lex_text h (by simp [Stops])
  rw [List.append_nil] at hl
  apply parse_of_lex
  rw [hl, show lex [] = some [] by rw [lex]; rfl, Option.map_some, List.append_nil]

end Lua

namespace HttpResponse

/-- Writing a table appends its text, leaves the counters as they were, and the text stands for
the table. -/
theorem addTable_roundtrip {fs : Fields} (hw : fs.WellFormed) (hc : (Value.table fs).Countable)
    (res : HttpResponse) :
    ∃ res', res.addTable fs = some res' ∧
      res'.resBuff = res.resBuff ++ (Value.table fs).text ∧
      res'.luaTableKeyCount = res.luaTableKeyCount ∧
      parse (Value.table fs).text = some (.table fs) := by
  have hfs := addFields_eq hw hc.2 (res.resBuff ++ [chr '{']) 0 res.luaTableKeyCount
    (by rw [Nat.zero_add]; exact hc.1)
  rw [if_pos rfl] at hfs
  refine ⟨⟨res.resBuff ++ (Value.table fs).text, res.luaTableKeyCount⟩, ?_, rfl, rfl,
    parse_text hw⟩
  change (addFields ⟨res.resBuff ++ [chr '{'], wrap32 (0 : Nat) :: res.luaTableKeyCount⟩ fs).bind
    endLuaTable = _
  rw [hfs]
  simp [endLuaTable, addText, Value.text]

/-- A table with a name, a nested table and an element without a name. -/
def someTable : Fields :=
  .cons (some (text "id")) (.int (-7)) (.cons (some (text "list"))
    (.table (.cons none (.string (text "a b")) (.cons none (.int 0) .nil))) .nil)

theorem someTable_roundtrip : ∃ res', new.addTable someTable = some res' ∧
    res'.resBuff = [] ++ (Value.table someTable).text ∧ res'.luaTableKeyCount = [] ∧
    parse (Value.table someTable).text = some (.table someTable) := by
  have hw : someTable.WellFormed := by
    simp only [someTable, Fields.WellFormed, Value.WellFormed]
    decide
  have hc : (Value.table someTable).Countable := by
    simp only [someTable, Value.Countable, Fields.Countable]
    decide
  exact addTable_roundtrip hw hc new

/-- A table of `n` elements. -/
def elements (value : Value) : Nat → Fields
  | 0 => .nil
  | n + 1 => .cons none value (elements value n)

theorem addFields_elements_succ (res : HttpResponse) (value : Value) (n : Nat) :
    res.addFields (elements value (n + 1)) =
      (res.addFields (elements value n)).bind fun res => res.addField none value := by
  induction n generalizing res with
  | zero =>
    change (res.addField none value).bind some = res.addField none value
    cases res.addField none value <;> rfl
  | succ n ih =>
    rw [elements, addFields, elements, addFields]
    cases res.addField none value with
    | none => rfl
    | some res => exact ih res

theorem elements_texts (value : Value) (n : Nat) :
    (elements value n).texts = List.replicate n value.text := by
  induction n with
  | zero => rfl
  | succ n ih =>
    rw [elements, Fields.texts, ih]
    rfl

theorem elements_length (value : Value) (n : Nat) : (elements value n).length = n := by
  induction n with
  | zero => rfl
  | succ n ih => rw [elements, Fields.length, ih]

theorem elements_wellFormed {value : Value} (h : value.WellFormed) (n : Nat) :
    (elements value n).WellFormed := by
  induction n with
  | zero => trivial
  | succ n ih => exact ⟨by simp, h, ih⟩

theorem elements_countable {value : Value} (h : value.Countable) (n : Nat) :
    (elements value n).Countable := by
  induction n with
  | zero => trivial
  | succ n ih => exact ⟨h, ih⟩

theorem length_intercalate_replicate (sep t : List Byte) (k : Nat) :
    (sep.intercalate (List.replicate (k + 1) t)).length = t.length + k * (sep.length + t.length) := by
  rw [List.replicate_succ, intercalate_cons_flatMap]
  simp [List.length_flatMap]

/-- Behind 2147483648 fields the counter is negative, and the next field gets no separator. -/
theorem addTable_elements {value : Value} (hw : value.WellFormed) (hc : value.Countable) {m : Nat}
    (hm : m = 2 ^ 31) : new.addTable (elements value (m + 1)) =
      some ⟨chr '{' :: ((text ", ").intercalate (List.replicate m value.text) ++ value.text ++
        [chr '}']), []⟩ := by
  have hfs := addFields_eq (elements_wellFormed hw m) (elements_countable hc m) [chr '{'] 0 []
    (by rw [elements_length]; omega)
  rw [if_pos rfl, elements_texts, elements_length, Nat.zero_add] at hfs
  have hname : ∀ k ∈ (none : Option (List Byte)), isName k = true := by simp
  have hlast := addField_eq hw hc ([chr '{'] ++ (text ", ").intercalate
    (List.replicate m value.text)) (wrap32 m) [] hname
  have hsep : separator (wrap32 m) = [] := by
    have hneg : wrap32 m = -2 ^ 31 := by
      unfold wrap32
      omega
    rw [hneg]
    rfl
  change ((addFields ⟨[chr '{'], wrap32 (0 : Nat) :: []⟩ (elements value (m + 1))).bind
    endLuaTable) = _
  rw [addFields_elements_succ, hfs, Option.bind_some, hlast, Option.bind_some, hsep]
  simp [endLuaTable, addText, keyText]

/-- A table of more than 2147483648 elements is not what is written for it. -/
theorem elements_unseparated {value : Value} (hw : value.WellFormed) (hc : value.Countable) {m : Nat}
    (hm : m = 2 ^ 31) {res' : HttpResponse}
    (h : new.addTable (elements value (m + 1)) = some res') :
    res'.resBuff ≠ (Value.table (elements value (m + 1))).text := by
  rw [addTable_elements hw hc hm] at h
  cases h
  intro he
  have hl := congrArg List.length he
  have ht : (Value.table (elements value (m + 1))).text =
      chr '{' :: ((text ", ").intercalate (elements value (m + 1)).texts ++ [chr '}']) := by
    rw [Value.text]
  obtain ⟨k, rfl⟩ : ∃ k, m = k + 1 := ⟨2 ^ 31 - 1, by omega⟩
  rw [ht, elements_texts] at hl
  simp only [List.length_cons, List.length_append, length_intercalate_replicate] at hl
  have hsep : (text ", ").length = 2 := rfl
  rw [hsep, Nat.succ_mul] at hl
  omega

theorem elements_not_roundtrip :
    (elements (.int 0) (2 ^ 31 + 1)).WellFormed ∧
      ¬ ∃ res', new.addTable (elements (.int 0) (2 ^ 31 + 1)) = some res' ∧
        res'.resBuff = new.resBuff ++ (Value.table (elements (.int 0) (2 ^ 31 + 1))).text := by
  have hzero : (Value.int 0).WellFormed := by
    simp only [Value.WellFormed]
    decide
  exact ⟨elements_wellFormed hzero _,
    fun ⟨res', hres, hbuff⟩ => elements_unseparated hzero trivial rfl hres hbuff⟩

end HttpResponse

end CppTry
