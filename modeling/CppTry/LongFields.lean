import CppTry.LuaWrap
import CppTry.Significand

namespace CppTry

variable {δ φ : Type}

/-- `lua_Number` is a double: `whole x` is what stands before the point of `x`, unless `x` is
infinite or no number. -/
structure LuaNumbers.Binary64 (nums : LuaNumbers δ φ) (whole : δ → Option Int) : Prop where
  ofInteger (n : Int64) : whole (nums.ofInteger n) = some (roundBits 53 n.toInt)
  toLong (x : δ) : nums.toLong x = (whole x).bind fun k =>
    if -2 ^ 63 ≤ k ∧ k < 2 ^ 63 then some (Int64.ofInt k) else none

namespace LuaWrap

/-- An integer survives the way through a double if and only if 53 bits hold it. -/
theorem toLong_ofInteger_iff {nums : LuaNumbers δ φ} {whole : δ → Option Int}
    (h : nums.Binary64 whole) (n : Int64) :
    nums.toLong (nums.ofInteger n) = some n ↔ Representable 53 n.toInt := by
  rw [h.toLong, h.ofInteger, Option.bind_some, ← roundBits_eq_iff (by decide)]
  constructor
  · intro hret
    split at hret
    next hrange =>
      have hval := congrArg Int64.toInt (Option.some.inj hret)
      rwa [Int64.toInt_ofInt_of_le hrange.1 hrange.2] at hval
    next => cases hret
  · intro hround
    rw [hround, if_pos ⟨n.le_toInt, n.toInt_lt⟩, Int64.ofInt_toInt]

/-- An entry of an array that is an integer is read as it is. -/
def Unchanged (e : LuaValue δ × LuaValue δ) (a : Int64) : Prop := ∀ n, e.2 = .integer n → a = n

/-- An integer that 53 bits hold, or another value that can be cast. -/
def Exact (nums : LuaNumbers δ φ) : LuaValue δ → Prop
  | .integer n => Representable 53 n.toInt
  | value => (nums.toLong (value.toNumber nums)).isSome

theorem exact_iff {nums : LuaNumbers δ φ} {whole : δ → Option Int} (h : nums.Binary64 whole)
    (e : LuaValue δ × LuaValue δ) :
    Exact nums e.2 ↔ ∃ a, nums.toLong (e.2.toNumber nums) = some a ∧ Unchanged e a := by
  obtain ⟨key, value⟩ := e
  unfold Unchanged
  cases value with
  | integer n =>
    refine (toLong_ofInteger_iff h n).symm.trans ⟨fun hn => ⟨n, hn, ?_⟩, ?_⟩
    · rintro m ⟨⟩
      rfl
    · rintro ⟨a, ha, hn⟩
      rwa [hn n rfl] at ha
  | _ => simp [Exact, Option.isSome_iff_exists]

variable [DecidableEq δ]

/-- The readers of 64-bit integers, with a table on the top. They go through `lua_tonumber`. -/
theorem readLong_exact_iff {nums : LuaNumbers δ φ} {whole : δ → Option Int}
    (hd : nums.Binary64 whole) {L : LuaState δ} {t : Nat} {stack : List (LuaValue δ)}
    (h : L.stack = .table t :: stack) (name : List Byte) :
    (∀ n, (L.tables t).get (.string name) = .integer n →
      (readLong nums L name = some (n, L) ↔ Representable 53 n.toInt)) ∧
    ∀ t', (L.tables t).get (.string name) = .table t' → ∀ v,
      ((∃ out, readLongArray nums L name v = some (out, L) ∧
          List.Forall₂ Unchanged (L.tables t').entries out) ↔
        ∀ e ∈ (L.tables t').entries, Exact nums e.2) := by
  obtain ⟨stack', tables⟩ := L
  cases h
  constructor
  · intro n hfield
    rw [readLong_eq, hfield, ← toLong_ofInteger_iff hd n]
    simp [LuaValue.toNumber]
  · intro t' hfield v
    rw [readLongArray, readArray_eq (converts_cast nums nums.toLong) stack v hfield]
    simp only [exact_iff hd, ← exists_mapM_iff, Option.map_eq_some_iff, Prod.mk.injEq, and_true,
      exists_eq_right]

/-- Whole numbers again, those of a double. -/
def doubles : LuaNumbers Int Int := { wholeNumbers with ofInteger n := roundBits 53 n.toInt }

theorem doubles_binary64 : doubles.Binary64 some := ⟨fun _ => rfl, fun _ => rfl⟩

theorem roles_names : ([.string (text "small"), .string (text "large"), .string (text "all")] :
    List (LuaValue Int)).Nodup := by decide

/-- A small identifier and one above 2^53, in a field each and together in an array. -/
def roles : LuaState Int where
  stack := [.table 0]
  tables
    | 0 => ⟨[(.string (text "small"), .integer 1001), (.string (text "large"), .integer (2 ^ 53 + 1)),
        (.string (text "all"), .table 1)], roles_names, by simp, by simp⟩
    | 1 => ⟨[(.integer 1, .integer 1001), (.integer 2, .integer (2 ^ 53 + 1))], by simp, by simp,
        by simp⟩
    | n => config.tables n

theorem roles_small : roles.stack = [.table 0] ∧
    readLong doubles roles (text "small") = some (1001, roles) := by
  have hfield : (roles.tables 0).get (.string (text "small")) = .integer 1001 := by decide
  exact ⟨rfl, ((readLong_exact_iff doubles_binary64 (L := roles) rfl (text "small")).1 1001
    hfield).mpr ⟨1001, 0, by decide, by decide⟩⟩

/-- The large identifier is one too small, and the largest 64-bit integer cannot be cast. -/
theorem roles_large : roles.stack = [.table 0] ∧
    (roles.tables 0).get (.string (text "large")) = .integer (2 ^ 53 + 1) ∧
    readLong doubles roles (text "large") = some (2 ^ 53, roles) ∧
    readLongArray doubles roles (text "all") [] = some ([1001, 2 ^ 53], roles) ∧
    doubles.toLong (doubles.ofInteger (2 ^ 63 - 1)) = none := by
  have hlong : doubles.toLong (doubles.ofInteger (2 ^ 53 + 1)) = some (2 ^ 53) := by decide +kernel
  have hfield : (roles.tables 0).get (.string (text "large")) = .integer (2 ^ 53 + 1) := by decide
  have harray : (roles.tables 0).get (.string (text "all")) = .table 1 := by decide
  have hsmall : doubles.toLong (doubles.ofInteger 1001) = some 1001 := by decide
  have hread := readLong_eq doubles 0 [] roles.tables (text "large")
  have hreads := readArray_eq (converts_cast doubles doubles.toLong) [] [] harray
  rw [hfield, LuaValue.toNumber, hlong] at hread
  refine ⟨rfl, hfield, hread, ?_, by decide +kernel⟩
  refine hreads.trans ?_
  simp [roles, LuaValue.toNumber, hlong, hsmall]

end LuaWrap

end CppTry
