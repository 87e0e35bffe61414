import CppTry.Decimal

namespace CppTry

/-- The conversions of numbers, of Lua's and of C's: `δ` is `lua_Number` and `φ` is `float`. -/
structure LuaNumbers (δ φ : Type) where
  zero : δ
  ofInteger : Int64 → δ
  /-- the number that a text stands for -/
  ofText : List Byte → Option δ
  toText : δ → List Byte
  /-- the casts; `none` is a number outside the range, where C leaves them undefined -/
  toInt : δ → Option Int32
  toLong : δ → Option Int64
  toFloat : δ → φ

/-- Tables are references; `other` is a function, userdata or thread. -/
inductive LuaValue (δ : Type)
  | nil
  | boolean (b : Bool)
  | integer (n : Int64)
  | number (x : δ)
  | string (s : List Byte)
  | table (t : Nat)
  | other (n : Nat)
deriving DecidableEq

/-- The entries of a table without metamethods, in the order in which `lua_next` gives them. -/
structure LuaTable (δ : Type) where
  entries : List (LuaValue δ × LuaValue δ)
  keys_nodup : (entries.map Prod.fst).Nodup
  keys_ne_nil : ∀ e ∈ entries, e.1 ≠ .nil
  values_ne_nil : ∀ e ∈ entries, e.2 ≠ .nil

/-- `lua_State`: the stack, its top first, and the tables. -/
structure LuaState (δ : Type) where
  stack : List (LuaValue δ)
  tables : Nat → LuaTable δ

namespace LuaValue
variable {δ φ : Type}

/-- `lua_isstring`: a string, or a number, which is always convertible to one. -/
def isString : LuaValue δ → Bool
  | .integer _ => true
  | .number _ => true
  | .string _ => true
  | _ => false

def toBoolean : LuaValue δ → Bool
  | .nil => false
  | .boolean b => b
  | _ => true

def toNumber (nums : LuaNumbers δ φ) : LuaValue δ → δ
  | .integer n => nums.ofInteger n
  | .number x => x
  | .string s => (nums.ofText s).getD nums.zero
  | _ => nums.zero

/-- `NULL` is `none`. -/
def toText (nums : LuaNumbers δ φ) : LuaValue δ → Option (List Byte)
  | .integer n => some (decimal n.toInt)
  | .number x => some (nums.toText x)
  | .string s => some s
  | _ => none

theorem isSome_toText (nums : LuaNumbers δ φ) (value : LuaValue δ) :
    (value.toText nums).isSome = value.isString := by
  cases value with
  | _ => rfl

end LuaValue

variable {δ φ : Type}

namespace LuaState

/-- The value at an index that counts from the top, which is -1. -/
def index (L : LuaState δ) (idx : Int) : Option (LuaValue δ) :=
  if idx < 0 then L.stack[(-idx - 1).toNat]? else none

def pushString (L : LuaState δ) (s : List Byte) : LuaState δ :=
  { L with stack := .string s :: L.stack }

def pushNil (L : LuaState δ) : LuaState δ := { L with stack := .nil :: L.stack }

def pop (L : LuaState δ) (n : Nat) : Option (LuaState δ) :=
  if n ≤ L.stack.length then some { L with stack := L.stack.drop n } else none

theorem pop_one (value : LuaValue δ) (stack : List (LuaValue δ)) (tables : Nat → LuaTable δ) :
    pop ⟨value :: stack, tables⟩ 1 = some ⟨stack, tables⟩ := by
  simp [pop]

def toBoolean (L : LuaState δ) (idx : Int) : Bool := (L.index idx).elim false LuaValue.toBoolean

def toNumber (nums : LuaNumbers δ φ) (L : LuaState δ) (idx : Int) : δ :=
  (L.index idx).elim nums.zero (LuaValue.toNumber nums)

/-- `lua_tostring`; a number on the stack becomes its text there too. -/
def toText (nums : LuaNumbers δ φ) (L : LuaState δ) (idx : Int) :
    Option (List Byte) × LuaState δ :=
  match (L.index idx).bind (LuaValue.toText nums) with
  | none => (none, L)
  | some s => (some s, { L with stack := L.stack.set (-idx - 1).toNat (.string s) })

theorem toText_top (nums : LuaNumbers δ φ) (stack : List (LuaValue δ)) (tables : Nat → LuaTable δ)
    (value : LuaValue δ) : ∃ value' : LuaValue δ,
      toText nums ⟨value :: stack, tables⟩ (-1) = (value.toText nums, ⟨value' :: stack, tables⟩) := by
  have hindex : index ⟨value :: stack, tables⟩ (-1) = some value := rfl
  unfold toText
  rw [hindex, Option.bind_some]
  cases value.toText nums with
  | none => exact ⟨value, rfl⟩
  | some s => exact ⟨.string s, rfl⟩

end LuaState

variable [DecidableEq δ]

namespace LuaTable

def get (t : LuaTable δ) (key : LuaValue δ) : LuaValue δ :=
  ((t.entries.find? (·.1 = key)).map Prod.snd).getD .nil

/-- The entries that follow a key, all of them behind `nil`; a key that the table does not have is
an error. -/
def behind (t : LuaTable δ) (key : LuaValue δ) : Option (List (LuaValue δ × LuaValue δ)) :=
  if key = .nil then some t.entries
  else if key ∈ t.entries.map Prod.fst then some (t.entries.dropWhile (·.1 ≠ key)).tail
  else none

theorem tail_dropWhile {es rest : List (LuaValue δ × LuaValue δ)} {e : LuaValue δ × LuaValue δ}
    {pre : List (LuaValue δ × LuaValue δ)} (hn : (es.map Prod.fst).Nodup)
    (h : es = pre ++ e :: rest) : (es.dropWhile (·.1 ≠ e.1)).tail = rest := by
  subst h
  have hpre : ∀ x ∈ pre, decide (x.1 ≠ e.1) = true := by
    intro x hx
    rw [List.map_append, List.map_cons] at hn
    have hne := (List.nodup_append.mp hn).2.2 x.1 (List.mem_map_of_mem hx) e.1 (by simp)
    simpa using hne
  rw [List.dropWhile_append_of_pos hpre]
  simp

theorem behind_next {t : LuaTable δ} {key : LuaValue δ} {e : LuaValue δ × LuaValue δ}
    {rest : List (LuaValue δ × LuaValue δ)} (h : t.behind key = some (e :: rest)) :
    t.behind e.1 = some rest := by
  obtain ⟨pre, hpre⟩ : ∃ pre, t.entries = pre ++ e :: rest := by
    unfold behind at h
    split_ifs at h with hnil hkey
    · exact ⟨[], Option.some.inj h⟩
    · have htail : (t.entries.dropWhile (·.1 ≠ key)).tail <:+ t.entries :=
        (List.tail_suffix _).trans (List.dropWhile_suffix _)
      rw [Option.some.inj h] at htail
      obtain ⟨pre, hpre⟩ := htail
      exact ⟨pre, hpre.symm⟩
  have hmem : e ∈ t.entries := by simp [hpre]
  unfold behind
  rw [if_neg (t.keys_ne_nil e hmem), if_pos (List.mem_map_of_mem hmem),
    tail_dropWhile t.keys_nodup hpre]

end LuaTable

namespace LuaState

/-- `lua_gettable`: the key on the top is replaced by its value; without metamethods only a table
has one. -/
def getTable (L : LuaState δ) (idx : Int) : Option (LuaState δ) :=
  match L.index idx, L.stack with
  | some (.table t), key :: stack => some { L with stack := (L.tables t).get key :: stack }
  | _, _ => none

/-- `lua_next`: the key on the top is replaced by the next key and its value, or only popped. -/
def next (L : LuaState δ) (idx : Int) : Option (Bool × LuaState δ) :=
  match L.index idx, L.stack with
  | some (.table t), key :: stack =>
    match (L.tables t).behind key with
    | none => none
    | some [] => some (false, { L with stack := stack })
    | some (e :: _) => some (true, { L with stack := e.2 :: e.1 :: stack })
  | _, _ => none

end LuaState

end CppTry
