import CppTry.LuaTokens

namespace CppTry

namespace Lua

mutual

/-- The values of a table constructor that is made of numbers, strings and tables only. A numeral
that is no decimal integer is kept as it is written. -/
inductive Value
  | int (n : Int)
  | number (negative : Bool) (s : List Byte)
  | string (s : List Byte)
  | table (fields : Fields)

/-- The fields of a table, with a name or by position. -/
inductive Fields
  | nil
  | cons (key : Option (List Byte)) (value : Value) (rest : Fields)

end

abbrev symbol (c : Char) : Token := .symbol [chr c]

/-- The name before a `=`, if the field has one. -/
def parseKey : List Token → Option (List Byte) × List Token
  | .name n :: .symbol m :: ts =>
    if m = [chr '='] then (some n, ts) else (none, .name n :: .symbol m :: ts)
  | ts => (none, ts)

mutual

/-- A number, a string or a table. -/
def parseValue : Nat → List Token → Option (Value × List Token)
  | _ + 1, .int n :: ts => some (.int n, ts)
  | _ + 1, .number s :: ts => some (.number false s, ts)
  | _ + 1, .string s :: ts => some (.string s, ts)
  | fuel + 1, .symbol m :: ts =>
    if m = [chr '{'] then (parseFields fuel ts).map fun r => (.table r.1, r.2)
    else match ts with
      | .int n :: ts => if m = [chr '-'] then some (.int (-n), ts) else none
      | .number s :: ts => if m = [chr '-'] then some (.number true s, ts) else none
      | _ => none
  | _, _ => none

/-- The fields behind a `{` or a separator, up to the `}`. -/
def parseFields : Nat → List Token → Option (Fields × List Token)
  | 0, _ => none
  | fuel + 1, ts =>
    if ts.head? = some (symbol '}') then some (.nil, ts.tail)
    else
      match parseValue fuel (parseKey ts).2 with
      | some (value, .symbol m :: ts') =>
        if m = [chr ','] ∨ m = [chr ';'] then
          (parseFields fuel ts').map fun r => (.cons (parseKey ts).1 value r.1, r.2)
        else if m = [chr '}'] then some (.cons (parseKey ts).1 value .nil, ts') else none
      | _ => none

end

/-- The table, or other value, that a text stands for. -/
def parse (s : List Byte) : Option Value :=
  match lex s with
  | none => none
  | some ts =>
    match parseValue (ts.length + 1) ts with
    | some (value, []) => some value
    | _ => none

def keyTokens : Option (List Byte) → List Token
  | some key => [.name key, symbol '=']
  | none => []

def Fields.isNil : Fields → Bool
  | nil => true
  | cons _ _ _ => false

/-- The separator before these fields. -/
def Fields.comma (fs : Fields) : List Token := if fs.isNil then [] else [symbol ',']

mutual

def Value.tokens : Value → List Token
  | .int n => if n < 0 then [symbol '-', .int n.natAbs] else [.int n.natAbs]
  | .number negative s => if negative then [symbol '-', .number s] else [.number s]
  | .string s => [.string s]
  | .table fs => symbol '{' :: (fs.tokens ++ [symbol '}'])

def Fields.tokens : Fields → List Token
  | .nil => []
  | .cons key value rest => keyTokens key ++ value.tokens ++ rest.comma ++ rest.tokens

end

theorem Value.tokens_ne_nil (v : Value) : v.tokens ≠ [] := by
  cases v with
  | int n =>
    unfold tokens
    split_ifs <;> simp
  | number negative s =>
    unfold tokens
    split_ifs <;> simp
  | string s => simp [tokens]
  | table fs => simp [tokens]

/-- A value does not start as a named field or the end of a table does. -/
theorem Value.tokens_head (v : Value) (ts : List Token) :
    (v.tokens ++ ts).head? ≠ some (symbol '}') ∧ parseKey (v.tokens ++ ts) = (none, v.tokens ++ ts) := by
  cases v with
  | int n =>
    unfold tokens
    split_ifs
    · exact ⟨by simp; decide, rfl⟩
    · exact ⟨by simp, rfl⟩
  | number negative s =>
    unfold tokens
    split_ifs
    · exact ⟨by simp; decide, rfl⟩
    · exact ⟨by simp, rfl⟩
  | string s => exact ⟨by simp [tokens], by simp [tokens, parseKey]⟩
  | table fs => exact ⟨by simp [tokens]; decide, by simp [tokens, parseKey]⟩

theorem parseKey_keyTokens (key : Option (List Byte)) (v : Value) (ts : List Token) :
    (keyTokens key ++ (v.tokens ++ ts)).head? ≠ some (symbol '}') ∧
      parseKey (keyTokens key ++ (v.tokens ++ ts)) = (key, v.tokens ++ ts) := by
  cases key with
  | none => exact v.tokens_head ts
  | some k => exact ⟨by simp [keyTokens], by simp [keyTokens, parseKey]⟩

mutual

theorem parseValue_tokens (v : Value) (ts : List Token) {fuel : Nat}
    (hf : v.tokens.length ≤ fuel) : parseValue fuel (v.tokens ++ ts) = some (v, ts) := by
  have hpos := List.length_pos_iff.mpr v.tokens_ne_nil
  obtain ⟨fuel, rfl⟩ := Nat.exists_eq_add_one.mpr (Nat.lt_of_lt_of_le hpos hf)
  cases v with
  | int n =>
    unfold Value.tokens
    split_ifs with hn
    · have hneg : -(n.natAbs : Int) = n := by omega
      change some (Value.int (-(n.natAbs : Int)), ts) = _
      rw [hneg]
    · have habs : (n.natAbs : Int) = n := by omega
      change some (Value.int (n.natAbs : Int), ts) = _
      rw [habs]
  | number negative s =>
    cases negative with
    | false => rfl
    | true => rfl
  | string s => rfl
  | table fs =>
    rw [Value.tokens, List.length_cons, List.length_append, List.length_singleton] at hf
    have hfs : parseFields fuel (fs.tokens ++ symbol '}' :: ts) = some (fs, ts) :=
      parseFields_tokens fs ts (by omega)
    rw [Value.tokens, List.cons_append, List.append_assoc, List.singleton_append]
    change (parseFields fuel _).map _ = _
    rw [hfs]
    rfl

theorem parseFields_tokens (fs : Fields) (ts : List Token) {fuel : Nat}
    (hf : fs.tokens.length < fuel) :
    parseFields fuel (fs.tokens ++ symbol '}' :: ts) = some (fs, ts) := by
  obtain ⟨fuel, rfl⟩ := Nat.exists_eq_add_one.mpr (Nat.lt_of_le_of_lt (Nat.zero_le _) hf)
  cases fs with
  | nil => simp [Fields.tokens, parseFields]
  | cons key value rest =>
    have hpos := List.length_pos_iff.mpr value.tokens_ne_nil
    rw [Fields.tokens, List.length_append, List.length_append, List.length_append] at hf
    have happ : (Fields.cons key value rest).tokens ++ symbol '}' :: ts =
        keyTokens key ++ (value.tokens ++ (rest.comma ++ (rest.tokens ++ symbol '}' :: ts))) := by
      simp [Fields.tokens]
    obtain ⟨hhead, hkey⟩ := parseKey_keyTokens key value
      (rest.comma ++ (rest.tokens ++ symbol '}' :: ts))
    have hvalue : parseValue fuel (value.tokens ++ (rest.comma ++
        (rest.tokens ++ symbol '}' :: ts))) = some _ := parseValue_tokens value _ (by omega)
    rw [happ, parseFields, if_neg hhead, hkey]
    dsimp only
    rw [hvalue]
    cases rest with
    | nil => rfl
    | cons key' value' rest' =>
      have hlen : (Fields.cons key' value' rest').tokens.length < fuel := by omega
      change (parseFields fuel ((Fields.cons key' value' rest').tokens ++ symbol '}' :: ts)).map _ = _
      rw [parseFields_tokens (.cons key' value' rest') ts hlen]
      rfl

end

theorem lex_of_parse {s : List Byte} {v : Value} (h : parse s = some v) :
    ∃ ts, lex s = some ts := by
  unfold parse at h
  cases hs : lex s with
  | none =>
    rw [hs] at h
    cases h
  | some ts => exact ⟨ts, rfl⟩

/-- A text whose tokens are those of a value stands for it. -/
theorem parse_of_lex {s : List Byte} {v : Value} (h : lex s = some v.tokens) : parse s = some v := by
  have hv := parseValue_tokens v [] (Nat.le_succ v.tokens.length)
  rw [List.append_nil] at hv
  rw [parse, h]
  change (match parseValue (v.tokens.length + 1) v.tokens with
    | some (value, []) => some value
    | _ => none) = _
  rw [hv]

theorem parseFields_first {k v : List Byte} {ts ts' : List Token} {fuel : Nat} {fs : Fields}
    (h : parseFields (fuel + 2) (.name k :: symbol '=' :: .string v :: ts) = some (fs, ts')) :
    ∃ rest, fs = .cons (some k) (.string v) rest := by
  have hkey : parseKey (.name k :: symbol '=' :: .string v :: ts) = (some k, .string v :: ts) := rfl
  have hvalue : parseValue (fuel + 1) (.string v :: ts) = some (.string v, ts) := rfl
  rw [parseFields, if_neg (by simp), hkey] at h
  dsimp only at h
  rw [hvalue] at h
  split at h
  next value m ts1 he =>
    cases he
    split_ifs at h
    · obtain ⟨r, _, hr⟩ := Option.map_eq_some_iff.mp h
      cases hr
      exact ⟨_, rfl⟩
    · cases h
      exact ⟨_, rfl⟩
  next => cases h

theorem parse_first {s : List Byte} {k v : List Byte} {ts : List Token} {key : Option (List Byte)}
    {value : Value} {rest : Fields}
    (h : lex s = some (symbol '{' :: .name k :: symbol '=' :: .string v :: ts))
    (hp : parse s = some (.table (.cons key value rest))) : value = .string v := by
  have htable : parseValue (ts.length + 5)
      (symbol '{' :: .name k :: symbol '=' :: .string v :: ts) =
      (parseFields (ts.length + 4) (.name k :: symbol '=' :: .string v :: ts)).map
        fun r => (.table r.1, r.2) := rfl
  rw [parse, h] at hp
  dsimp only [List.length_cons] at hp
  rw [htable] at hp
  cases hf : parseFields (ts.length + 4) (.name k :: symbol '=' :: .string v :: ts) with
  | none =>
    rw [hf] at hp
    cases hp
  | some r =>
    obtain ⟨others, hr⟩ := parseFields_first hf
    rw [hf, Option.map_some, hr] at hp
    split at hp
    next value' he =>
      have hv := (Prod.mk.inj (Option.some.inj he)).1
      cases hp
      exact (Fields.cons.inj (Value.table.inj hv)).2.1.symm
    next => cases hp

end Lua

end CppTry
