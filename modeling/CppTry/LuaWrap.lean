import CppTry.LuaState
import Mathlib.Data.List.Forall2

namespace CppTry

namespace LuaWrap

variable {δ φ α : Type}

section
variable [DecidableEq δ]

def readBool (L : LuaState δ) (name : List Byte) : Option (Bool × LuaState δ) := do
  let L := L.pushString name
  let L ← L.getTable (-2)
  let ret := L.toBoolean (-1)
  let L ← L.pop 1
  pure (ret, L)

def readDouble (nums : LuaNumbers δ φ) (L : LuaState δ) (name : List Byte) :
    Option (δ × LuaState δ) := do
  let L := L.pushString name
  let L ← L.getTable (-2)
  let ret := L.toNumber nums (-1)
  let L ← L.pop 1
  pure (ret, L)

def readInt (nums : LuaNumbers δ φ) (L : LuaState δ) (name : List Byte) :
    Option (Int32 × LuaState δ) := do
  let (x, L) ← readDouble nums L name
  let ret ← nums.toInt x
  pure (ret, L)

def readLong (nums : LuaNumbers δ φ) (L : LuaState δ) (name : List Byte) :
    Option (Int64 × LuaState δ) := do
  let (x, L) ← readDouble nums L name
  let ret ← nums.toLong x
  pure (ret, L)

def readFloat (nums : LuaNumbers δ φ) (L : LuaState δ) (name : List Byte) :
    Option (φ × LuaState δ) := do
  let (x, L) ← readDouble nums L name
  pure (nums.toFloat x, L)

/-- A `string` from a C string, which ends at its first NUL; there is none at `NULL`. -/
def assign (ret : Option (List Byte)) : Option (List Byte) := ret.map (·.takeWhile (· ≠ 0))

/-- The overload with a reference: `_str` is the old content of the string. -/
def readStringTo (nums : LuaNumbers δ φ) (L : LuaState δ) (name _str : List Byte) :
    Option (List Byte × LuaState δ) := do
  let L := L.pushString name
  let L ← L.getTable (-2)
  let (ret, L) := L.toText nums (-1)
  let L ← L.pop 1
  let str ← assign ret
  pure (str, L)

def readString (nums : LuaNumbers δ φ) (L : LuaState δ) (name : List Byte) :
    Option (List Byte × LuaState δ) :=
  readStringTo nums L name []

/-- The `while` loop of the array readers with a budget; `readLoop_eq` shows that the one it gets
is never used up. -/
def readLoop (convert : LuaState δ → Option (α × LuaState δ)) :
    Nat → List α → LuaState δ → Option (List α × LuaState δ)
  | 0, _, _ => none
  | fuel + 1, v, L => do
    let (more, L) ← L.next (-2)
    if more then do
      let (value, L) ← convert L
      let v := v ++ [value]
      let L ← L.pop 1
      readLoop convert fuel v L
    else pure (v, L)

/-- A turn for each entry of the table at -2, and the one that ends the loop. -/
def turns (L : LuaState δ) : Nat :=
  match L.index (-2) with
  | some (.table t) => (L.tables t).entries.length + 1
  | _ => 1

/-- The array readers; `_v` is the old content of the vector. -/
def readArray (convert : LuaState δ → Option (α × LuaState δ)) (L : LuaState δ) (name : List Byte)
    (_v : List α) : Option (List α × LuaState δ) := do
  let v := []
  let L := L.pushString name
  let L ← L.getTable (-2)
  let L := L.pushNil
  let (v, L) ← readLoop convert (turns L) v L
  let L ← L.pop 1
  pure (v, L)

def readBoolArray : LuaState δ → List Byte → List Bool → Option (List Bool × LuaState δ) :=
  readArray fun L => some (L.toBoolean (-1), L)

section
variable (nums : LuaNumbers δ φ)

def readDoubleArray : LuaState δ → List Byte → List δ → Option (List δ × LuaState δ) :=
  readArray fun L => some (L.toNumber nums (-1), L)

def readIntArray : LuaState δ → List Byte → List Int32 → Option (List Int32 × LuaState δ) :=
  readArray fun L => (nums.toInt (L.toNumber nums (-1))).map fun value => (value, L)

def readLongArray : LuaState δ → List Byte → List Int64 → Option (List Int64 × LuaState δ) :=
  readArray fun L => (nums.toLong (L.toNumber nums (-1))).map fun value => (value, L)

def readFloatArray : LuaState δ → List Byte → List φ → Option (List φ × LuaState δ) :=
  readArray fun L => some (nums.toFloat (L.toNumber nums (-1)), L)

def readStringArray :
    LuaState δ → List Byte → List (List Byte) → Option (List (List Byte) × LuaState δ) :=
  readArray fun L =>
    let (value, L) := L.toText nums (-1)
    (assign value).map fun value => (value, L)

end

end

/-- What the body of a loop does with the value on the top: it is converted, and may be changed. -/
def Converts (convert : LuaState δ → Option (α × LuaState δ)) (conv : LuaValue δ → Option α) :
    Prop :=
  ∀ value stack tables, ∃ value', convert ⟨value :: stack, tables⟩ =
    (conv value).map fun a => (a, ⟨value' :: stack, tables⟩)

theorem converts_boolean : Converts (fun L : LuaState δ => some (L.toBoolean (-1), L))
    fun value => some value.toBoolean :=
  fun value _ _ => ⟨value, rfl⟩

theorem converts_number (nums : LuaNumbers δ φ) : Converts (fun L => some (L.toNumber nums (-1), L))
    fun value => some (value.toNumber nums) :=
  fun value _ _ => ⟨value, rfl⟩

theorem converts_cast (nums : LuaNumbers δ φ) (cast : δ → Option α) :
    Converts (fun L => (cast (L.toNumber nums (-1))).map fun value => (value, L))
      fun value => cast (value.toNumber nums) :=
  fun value _ _ => ⟨value, rfl⟩

theorem converts_text (nums : LuaNumbers δ φ) : Converts (fun L =>
    (assign (L.toText nums (-1)).1).map fun value => (value, (L.toText nums (-1)).2))
      fun value => assign (value.toText nums) := by
  intro value stack tables
  obtain ⟨value', htop⟩ := LuaState.toText_top nums stack tables value
  refine ⟨value', ?_⟩
  simp only [htop]

/-- A call returns, with the stack as it was. -/
def Neutral {β : Type} (L : LuaState δ) (result : Option (β × LuaState δ)) : Prop :=
  ∃ ret, result = some (ret, L)

theorem neutral_map_iff {β : Type} {L : LuaState δ} {ret : Option β} :
    Neutral L (ret.map fun r => (r, L)) ↔ ret.isSome := by
  unfold Neutral
  cases ret with
  | none => simp
  | some r => simp

/-- An array reader, on a table with entries of a convertible type: it returns with the stack as it
was, and in the vector is each entry's value, converted, whatever was there before. -/
def Fills (conv : LuaValue δ → Option α) (entries : List (LuaValue δ × LuaValue δ))
    (L : LuaState δ) (read : List α → Option (List α × LuaState δ)) : Prop :=
  (∀ e ∈ entries, (conv e.2).isSome) → ∀ v, ∃ out, read v = some (out, L) ∧
    List.Forall₂ (fun e a => conv e.2 = some a) entries out

/-- All entries are converted, one by one. -/
theorem exists_mapM_iff {β : Type} {f : β → Option α} {r : β → α → Prop} {es : List β} :
    (∃ out, es.mapM f = some out ∧ List.Forall₂ r es out) ↔ ∀ e ∈ es, ∃ a, f e = some a ∧ r e a := by
  induction es with
  | nil => simp
  | cons e es ih =>
    rw [List.forall_mem_cons, ← ih, List.mapM_cons]
    simp only [Option.bind_eq_bind, Option.bind_eq_some_iff, Option.pure_def, Option.some.injEq]
    constructor
    · rintro ⟨_, ⟨a, ha, out, hout, rfl⟩, hr⟩
      cases hr with
      | cons hfirst hrest => exact ⟨⟨a, ha, hfirst⟩, out, hout, hrest⟩
    · rintro ⟨⟨a, ha, hfirst⟩, out, hout, hrest⟩
      exact ⟨a :: out, ⟨a, ha, out, hout, rfl⟩, List.Forall₂.cons hfirst hrest⟩

variable [DecidableEq δ]

theorem getField (t : Nat) (stack : List (LuaValue δ)) (tables : Nat → LuaTable δ)
    (name : List Byte) :
    (LuaState.pushString ⟨.table t :: stack, tables⟩ name).getTable (-2) =
      some ⟨(tables t).get (.string name) :: .table t :: stack, tables⟩ := rfl

/-- The loop, with a key on the top and its table below: what is behind the key is converted, and
the key goes. -/
theorem readLoop_eq {convert : LuaState δ → Option (α × LuaState δ)}
    {conv : LuaValue δ → Option α} (hc : Converts convert conv) {t : Nat} {tables : Nat → LuaTable δ}
    {key : LuaValue δ} {rest : List (LuaValue δ × LuaValue δ)} (stack : List (LuaValue δ))
    (v : List α) {fuel : Nat} (hkey : (tables t).behind key = some rest)
    (hfuel : rest.length < fuel) :
    readLoop convert fuel v ⟨key :: .table t :: stack, tables⟩ =
      (rest.mapM fun e => conv e.2).map fun out => (v ++ out, ⟨.table t :: stack, tables⟩) := by
  induction rest generalizing key v fuel with
  | nil =>
    obtain ⟨fuel, rfl⟩ : ∃ n, fuel = n + 1 := ⟨fuel - 1, by omega⟩
    have hnext : LuaState.next ⟨key :: .table t :: stack, tables⟩ (-2) =
        some (false, ⟨.table t :: stack, tables⟩) := by
      simp [LuaState.next, LuaState.index, hkey]
    rw [readLoop, hnext]
    simp
  | cons e rest ih =>
    obtain ⟨fuel, rfl⟩ : ∃ n, fuel = n + 1 := ⟨fuel - 1, by omega⟩
    have hnext : LuaState.next ⟨key :: .table t :: stack, tables⟩ (-2) =
        some (true, ⟨e.2 :: e.1 :: .table t :: stack, tables⟩) := by
      simp [LuaState.next, LuaState.index, hkey]
    obtain ⟨value', hvalue⟩ := hc e.2 (e.1 :: .table t :: stack) tables
    rw [List.length_cons] at hfuel
    rw [readLoop, hnext]
    simp only [Option.bind_eq_bind, Option.bind_some, if_true, List.mapM_cons]
    rw [hvalue]
    cases conv e.2 with
    | none => rfl
    | some a =>
      simp only [Option.map_some, Option.bind_some, LuaState.pop_one]
      rw [ih (v ++ [a]) (LuaTable.behind_next hkey) (by omega)]
      cases rest.mapM fun e => conv e.2 with
      | none => rfl
      | some out => simp

/-- The array reader empties the vector, and takes nothing from the stack and leaves nothing there. -/
theorem readArray_eq {convert : LuaState δ → Option (α × LuaState δ)}
    {conv : LuaValue δ → Option α} (hc : Converts convert conv) {t t' : Nat}
    (stack : List (LuaValue δ)) {tables : Nat → LuaTable δ} {name : List Byte} (v : List α)
    (hfield : (tables t).get (.string name) = .table t') :
    readArray convert ⟨.table t :: stack, tables⟩ name v =
      ((tables t').entries.mapM fun e => conv e.2).map fun out => (out, ⟨.table t :: stack, tables⟩) := by
  have hkey : (tables t').behind .nil = some (tables t').entries := if_pos rfl
  have hturns : turns ⟨.nil :: .table t' :: .table t :: stack, tables⟩ =
      (tables t').entries.length + 1 := rfl
  simp only [readArray, getField, hfield, Option.bind_eq_bind, Option.bind_some, LuaState.pushNil,
    hturns]
  rw [readLoop_eq hc (.table t :: stack) [] hkey (Nat.lt_succ_self _)]
  cases (tables t').entries.mapM fun e => conv e.2 with
  | none => rfl
  | some out =>
    simp only [Option.map_some, Option.bind_some, LuaState.pop_one, List.nil_append]
    rfl

theorem fills {convert : LuaState δ → Option (α × LuaState δ)} {conv : LuaValue δ → Option α}
    (hc : Converts convert conv) {t t' : Nat} (stack : List (LuaValue δ))
    {tables : Nat → LuaTable δ} {name : List Byte}
    (hfield : (tables t).get (.string name) = .table t') :
    Fills conv (tables t').entries ⟨.table t :: stack, tables⟩
      (readArray convert ⟨.table t :: stack, tables⟩ name) := by
  intro hconv v
  have hall : ∀ e ∈ (tables t').entries, ∃ a, conv e.2 = some a ∧ conv e.2 = some a := by
    intro e he
    obtain ⟨a, ha⟩ := Option.isSome_iff_exists.mp (hconv e he)
    exact ⟨a, ha, ha⟩
  obtain ⟨out, hout, heach⟩ := exists_mapM_iff.mpr hall
  rw [readArray_eq hc stack v hfield, hout]
  exact ⟨out, rfl, heach⟩

section
variable (nums : LuaNumbers δ φ) (t : Nat) (stack : List (LuaValue δ)) (tables : Nat → LuaTable δ)
  (name : List Byte)

theorem readBool_eq : readBool ⟨.table t :: stack, tables⟩ name =
    some (((tables t).get (.string name)).toBoolean, ⟨.table t :: stack, tables⟩) := by
  simp only [readBool, getField, Option.bind_eq_bind, Option.bind_some, LuaState.pop_one]
  rfl

theorem readDouble_eq : readDouble nums ⟨.table t :: stack, tables⟩ name =
    some (((tables t).get (.string name)).toNumber nums, ⟨.table t :: stack, tables⟩) := by
  simp only [readDouble, getField, Option.bind_eq_bind, Option.bind_some, LuaState.pop_one]
  rfl

theorem readInt_eq : readInt nums ⟨.table t :: stack, tables⟩ name =
    (nums.toInt (((tables t).get (.string name)).toNumber nums)).map
      fun ret => (ret, ⟨.table t :: stack, tables⟩) := by
  unfold readInt
  rw [readDouble_eq, Option.map_eq_bind]
  rfl

theorem readLong_eq : readLong nums ⟨.table t :: stack, tables⟩ name =
    (nums.toLong (((tables t).get (.string name)).toNumber nums)).map
      fun ret => (ret, ⟨.table t :: stack, tables⟩) := by
  unfold readLong
  rw [readDouble_eq, Option.map_eq_bind]
  rfl

theorem readFloat_eq : readFloat nums ⟨.table t :: stack, tables⟩ name =
    some (nums.toFloat (((tables t).get (.string name)).toNumber nums),
      ⟨.table t :: stack, tables⟩) := by
  unfold readFloat
  rw [readDouble_eq]
  rfl

theorem readStringTo_eq (str : List Byte) : readStringTo nums ⟨.table t :: stack, tables⟩ name str =
    (assign (((tables t).get (.string name)).toText nums)).map
      fun ret => (ret, ⟨.table t :: stack, tables⟩) := by
  obtain ⟨value', htop⟩ := LuaState.toText_top nums (.table t :: stack) tables
    ((tables t).get (.string name))
  simp only [readStringTo, getField, Option.bind_eq_bind, Option.bind_some]
  rw [htop, Option.map_eq_bind]
  simp only [LuaState.pop_one, Option.bind_some]
  rfl

end

/-- The readers, with a table on the top. `ReadString` hands the `NULL` of `lua_tostring` on. -/
theorem readers_neutral_iff (nums : LuaNumbers δ φ) {L : LuaState δ} {t : Nat}
    {stack : List (LuaValue δ)} (h : L.stack = .table t :: stack) (name : List Byte) :
    Neutral L (readBool L name) ∧ Neutral L (readDouble nums L name) ∧
      Neutral L (readFloat nums L name) ∧
      (Neutral L (readInt nums L name) ↔
        (nums.toInt (((L.tables t).get (.string name)).toNumber nums)).isSome) ∧
      (Neutral L (readLong nums L name) ↔
        (nums.toLong (((L.tables t).get (.string name)).toNumber nums)).isSome) ∧
      (Neutral L (readString nums L name) ↔ ((L.tables t).get (.string name)).isString) ∧
      (∀ str, Neutral L (readStringTo nums L name str) ↔
        ((L.tables t).get (.string name)).isString) ∧
      ∀ t', (L.tables t).get (.string name) = .table t' →
        Fills (fun value => some value.toBoolean) (L.tables t').entries L (readBoolArray L name) ∧
        Fills (fun value => some (value.toNumber nums)) (L.tables t').entries L
          (readDoubleArray nums L name) ∧
        Fills (fun value => some (nums.toFloat (value.toNumber nums))) (L.tables t').entries L
          (readFloatArray nums L name) ∧
        Fills (fun value => nums.toInt (value.toNumber nums)) (L.tables t').entries L
          (readIntArray nums L name) ∧
        Fills (fun value => nums.toLong (value.toNumber nums)) (L.tables t').entries L
          (readLongArray nums L name) ∧
        Fills (fun value => assign (value.toText nums)) (L.tables t').entries L
          (readStringArray nums L name) := by
  obtain ⟨stack', tables⟩ := L
  cases h
  have hstring : ∀ str, Neutral ⟨.table t :: stack, tables⟩
      (readStringTo nums ⟨.table t :: stack, tables⟩ name str) ↔
      ((tables t).get (.string name)).isString := by
    intro str
    rw [readStringTo_eq, neutral_map_iff, assign, Option.isSome_map, LuaValue.isSome_toText]
  refine ⟨⟨_, readBool_eq t stack tables name⟩, ⟨_, readDouble_eq nums t stack tables name⟩,
    ⟨_, readFloat_eq nums t stack tables name⟩, ?_, ?_, hstring [], hstring, ?_⟩
  · rw [readInt_eq, neutral_map_iff]
  · rw [readLong_eq, neutral_map_iff]
  · intro t' hfield
    exact ⟨fills converts_boolean stack hfield, fills (converts_number nums) stack hfield,
      fills (converts_cast nums (some ∘ nums.toFloat)) stack hfield,
      fills (converts_cast nums nums.toInt) stack hfield,
      fills (converts_cast nums nums.toLong) stack hfield, fills (converts_text nums) stack hfield⟩

/-- Whole numbers as `lua_Number`. -/
def wholeNumbers : LuaNumbers Int Int where
  zero := 0
  ofInteger n := n.toInt
  ofText s := if s ≠ [] ∧ s.all fun c => chr '0' ≤ c && c ≤ chr '9'
    then some (s.foldl (fun n c => 10 * n + (c.toNat - 48)) 0) else none
  toText x := decimal x ++ text ".0"
  toInt x := if -2 ^ 31 ≤ x ∧ x < 2 ^ 31 then some (Int32.ofInt x) else none
  toLong x := if -2 ^ 63 ≤ x ∧ x < 2 ^ 63 then some (Int64.ofInt x) else none
  toFloat x := x

/-- `{ids = {10, 20}}` on the stack. -/
def config : LuaState Int where
  stack := [.table 0]
  tables
    | 0 => ⟨[(.string (text "ids"), .table 1)], by simp, by simp, by simp⟩
    | 1 => ⟨[(.integer 1, .integer 10), (.integer 2, .integer 20)], by simp, by simp, by simp⟩
    | _ => ⟨[], by simp, by simp, by simp⟩

theorem config_ids : config.stack = [.table 0] ∧ Neutral config (readBool config (text "ids")) ∧
    ∃ out, readIntArray wholeNumbers config (text "ids") [7] = some (out, config) ∧
      out.length = 2 := by
  obtain ⟨hbool, _, _, _, _, _, _, harrays⟩ :=
    readers_neutral_iff wholeNumbers (show config.stack = .table 0 :: [] from rfl) (text "ids")
  obtain ⟨_, _, _, hints, _⟩ := harrays 1 rfl
  have hconv : ∀ e ∈ (config.tables 1).entries,
      (wholeNumbers.toInt (e.2.toNumber wholeNumbers)).isSome := by
    intro e he
    simp [config] at he
    rcases he with rfl | rfl
    · decide
    · decide
  obtain ⟨out, hread, hout⟩ := hints hconv [7]
  exact ⟨rfl, hbool, out, hread, hout.length_eq.symm⟩

/-- A field that is not there: `str.assign(NULL)`. -/
theorem config_name : config.stack = [.table 0] ∧
    ¬ Neutral config (readString wholeNumbers config (text "name")) := by
  refine ⟨rfl, ?_⟩
  rintro ⟨str, hread⟩
  have hnone : readString wholeNumbers config (text "name") = none := rfl
  rw [hnone] at hread
  cases hread

end LuaWrap

end CppTry
