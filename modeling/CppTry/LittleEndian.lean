import Mathlib.Algebra.Group.Int.Defs
import Mathlib.Algebra.Group.Nat.Defs
import Mathlib.Data.List.Basic

namespace CppTry

/-- The `width` low bytes of `n`, lowest first. -/
def leBytes : Nat → Nat → List UInt8
  | 0, _ => []
  | width + 1, n => UInt8.ofNat n :: leBytes width (n / 256)

/-- The number whose bytes are given, lowest first. -/
def leValue : List UInt8 → Nat
  | [] => 0
  | b :: bs => b.toNat + 256 * leValue bs

@[simp] theorem length_leBytes (width n : Nat) : (leBytes width n).length = width := by
  induction width generalizing n with
  | zero => rfl
  | succ width ih => simp [leBytes, ih]

theorem leValue_leBytes (width n : Nat) : leValue (leBytes width n) = n % 256 ^ width := by
  induction width generalizing n with
  | zero => simp [leBytes, leValue, Nat.mod_one]
  | succ width ih =>
    simp only [leBytes, leValue, ih, UInt8.toNat_ofNat']
    have hp : 256 ^ (width + 1) = 256 * 256 ^ width := Nat.pow_succ'
    rw [hp]
    exact Nat.mod_mul.symm

theorem or_eq_add {x y i : Nat} (hx : 2 ^ i ∣ x) (hy : y < 2 ^ i) : x ||| y = x + y := by
  obtain ⟨a, rfl⟩ := hx
  exact (Nat.two_pow_add_eq_or_of_lt hy a).symm

theorem joinUInt16 (b0 b1 : UInt8) :
    b1.toUInt16 <<< 8 ||| b0.toUInt16 = UInt16.ofNat (leValue [b0, b1]) := by
  have h0 := b0.toNat_lt
  have h1 := b1.toNat_lt
  apply UInt16.toNat_inj.mp
  simp only [UInt16.toNat_or, UInt16.toNat_shiftLeft, UInt8.toNat_toUInt16, UInt16.toNat_ofNat',
    leValue, Nat.shiftLeft_eq, UInt16.reduceToNat, Nat.reduceMod, Nat.reducePow]
  rw [or_eq_add (i := 8) (by omega) (by omega)]
  omega

theorem joinUInt32 (b0 b1 b2 b3 : UInt8) :
    b3.toUInt32 <<< 24 ||| b2.toUInt32 <<< 16 ||| b1.toUInt32 <<< 8 ||| b0.toUInt32 =
      UInt32.ofNat (leValue [b0, b1, b2, b3]) := by
  have h0 := b0.toNat_lt
  have h1 := b1.toNat_lt
  have h2 := b2.toNat_lt
  have h3 := b3.toNat_lt
  apply UInt32.toNat_inj.mp
  simp only [UInt32.toNat_or, UInt32.toNat_shiftLeft, UInt8.toNat_toUInt32, UInt32.toNat_ofNat',
    leValue, Nat.shiftLeft_eq, UInt32.reduceToNat, Nat.reduceMod, Nat.reducePow]
  rw [or_eq_add (y := b2.toNat * 65536 % _) (i := 24) (by omega) (by omega),
    or_eq_add (y := b1.toNat * 256 % _) (i := 16) (by omega) (by omega),
    or_eq_add (y := b0.toNat) (i := 8) (by omega) (by omega)]
  omega

theorem joinUInt64 (b0 b1 b2 b3 b4 b5 b6 b7 : UInt8) :
    b7.toUInt64 <<< 56 ||| b6.toUInt64 <<< 48 ||| b5.toUInt64 <<< 40 ||| b4.toUInt64 <<< 32 |||
      b3.toUInt64 <<< 24 ||| b2.toUInt64 <<< 16 ||| b1.toUInt64 <<< 8 ||| b0.toUInt64 =
      UInt64.ofNat (leValue [b0, b1, b2, b3, b4, b5, b6, b7]) := by
  have h0 := b0.toNat_lt
  have h1 := b1.toNat_lt
  have h2 := b2.toNat_lt
  have h3 := b3.toNat_lt
  have h4 := b4.toNat_lt
  have h5 := b5.toNat_lt
  have h6 := b6.toNat_lt
  have h7 := b7.toNat_lt
  apply UInt64.toNat_inj.mp
  simp only [UInt64.toNat_or, UInt64.toNat_shiftLeft, UInt8.toNat_toUInt64, UInt64.toNat_ofNat',
    leValue, Nat.shiftLeft_eq, UInt64.reduceToNat, Nat.reduceMod, Nat.reducePow]
  rw [or_eq_add (y := b6.toNat * 281474976710656 % _) (i := 56) (by omega) (by omega),
    or_eq_add (y := b5.toNat * 1099511627776 % _) (i := 48) (by omega) (by omega),
    or_eq_add (y := b4.toNat * 4294967296 % _) (i := 40) (by omega) (by omega),
    or_eq_add (y := b3.toNat * 16777216 % _) (i := 32) (by omega) (by omega),
    or_eq_add (y := b2.toNat * 65536 % _) (i := 24) (by omega) (by omega),
    or_eq_add (y := b1.toNat * 256 % _) (i := 16) (by omega) (by omega),
    or_eq_add (y := b0.toNat) (i := 8) (by omega) (by omega)]
  omega

theorem uint16_leBytes (v : UInt16) : UInt16.ofNat (leValue (leBytes 2 v.toNat)) = v := by
  have hv : v.toNat < 256 ^ 2 := by
    have hlt := v.toNat_lt
    omega
  rw [leValue_leBytes, Nat.mod_eq_of_lt hv, UInt16.ofNat_toNat]

theorem uint32_leBytes (v : UInt32) : UInt32.ofNat (leValue (leBytes 4 v.toNat)) = v := by
  have hv : v.toNat < 256 ^ 4 := by
    have hlt := v.toNat_lt
    omega
  rw [leValue_leBytes, Nat.mod_eq_of_lt hv, UInt32.ofNat_toNat]

theorem uint64_leBytes (v : UInt64) : UInt64.ofNat (leValue (leBytes 8 v.toNat)) = v := by
  have hv : v.toNat < 256 ^ 8 := by
    have hlt := v.toNat_lt
    omega
  rw [leValue_leBytes, Nat.mod_eq_of_lt hv, UInt64.ofNat_toNat]

theorem leValue_lt (bs : List UInt8) : leValue bs < 256 ^ bs.length := by
  induction bs with
  | nil => simp [leValue]
  | cons b bs ih =>
    have hb := b.toNat_lt
    rw [List.length_cons, Nat.pow_succ, leValue]
    omega

theorem leBytes_leValue (bs : List UInt8) : leBytes bs.length (leValue bs) = bs := by
  induction bs with
  | nil => rfl
  | cons b bs ih =>
    have hb := b.toNat_lt
    have hdiv : (b.toNat + 256 * leValue bs) / 256 = leValue bs := by omega
    have hlow : UInt8.ofNat (b.toNat + 256 * leValue bs) = b := by
      apply UInt8.toNat_inj.mp
      rw [UInt8.toNat_ofNat']
      omega
    rw [List.length_cons, leBytes, leValue, hdiv, ih, hlow]

theorem leBytes_uint16 {bs : List UInt8} (h : bs.length = 2) :
    leBytes 2 (UInt16.ofNat (leValue bs)).toNat = bs := by
  have hlt := leValue_lt bs
  rw [h] at hlt
  rw [UInt16.toNat_ofNat_of_lt' (by omega), ← h, leBytes_leValue]

theorem leBytes_uint32 {bs : List UInt8} (h : bs.length = 4) :
    leBytes 4 (UInt32.ofNat (leValue bs)).toNat = bs := by
  have hlt := leValue_lt bs
  rw [h] at hlt
  rw [UInt32.toNat_ofNat_of_lt' (by omega), ← h, leBytes_leValue]

theorem leBytes_uint64 {bs : List UInt8} (h : bs.length = 8) :
    leBytes 8 (UInt64.ofNat (leValue bs)).toNat = bs := by
  have hlt := leValue_lt bs
  rw [h] at hlt
  rw [UInt64.toNat_ofNat_of_lt' (by omega), ← h, leBytes_leValue]

theorem and_255 (n : Nat) : n &&& 255 = n % 256 := Nat.and_two_pow_sub_one_eq_mod n 8

theorem splitUInt16 (v : UInt16) :
    [(v &&& 0xFF).toUInt8, ((v >>> 8) &&& 0xFF).toUInt8] = leBytes 2 v.toNat := by
  simp only [leBytes, List.cons.injEq, and_true]
  refine ⟨?_, ?_⟩
  all_goals
    apply UInt8.toNat_inj.mp
    simp only [UInt16.toNat_toUInt8, UInt16.toNat_and, UInt16.toNat_shiftRight, UInt8.toNat_ofNat',
      UInt16.reduceToNat, Nat.reduceMod, and_255, Nat.shiftRight_eq_div_pow, Nat.reducePow]
    omega

theorem splitUInt32 (v : UInt32) :
    [(v &&& 0xFF).toUInt8, ((v >>> 8) &&& 0xFF).toUInt8, ((v >>> 16) &&& 0xFF).toUInt8,
      ((v >>> 24) &&& 0xFF).toUInt8] = leBytes 4 v.toNat := by
  simp only [leBytes, List.cons.injEq, and_true]
  refine ⟨?_, ?_, ?_, ?_⟩
  all_goals
    apply UInt8.toNat_inj.mp
    simp only [UInt32.toNat_toUInt8, UInt32.toNat_and, UInt32.toNat_shiftRight, UInt8.toNat_ofNat',
      UInt32.reduceToNat, Nat.reduceMod, and_255, Nat.shiftRight_eq_div_pow, Nat.reducePow]
    omega

theorem splitUInt64 (v : UInt64) :
    [(v &&& 0xFF).toUInt8, ((v >>> 8) &&& 0xFF).toUInt8, ((v >>> 16) &&& 0xFF).toUInt8,
      ((v >>> 24) &&& 0xFF).toUInt8, ((v >>> 32) &&& 0xFF).toUInt8, ((v >>> 40) &&& 0xFF).toUInt8,
      ((v >>> 48) &&& 0xFF).toUInt8, ((v >>> 56) &&& 0xFF).toUInt8] = leBytes 8 v.toNat := by
  simp only [leBytes, List.cons.injEq, and_true]
  refine ⟨?_, ?_, ?_, ?_, ?_, ?_, ?_, ?_⟩
  all_goals
    apply UInt8.toNat_inj.mp
    simp only [UInt64.toNat_toUInt8, UInt64.toNat_and, UInt64.toNat_shiftRight, UInt8.toNat_ofNat',
      UInt64.reduceToNat, Nat.reduceMod, and_255, Nat.shiftRight_eq_div_pow, Nat.reducePow]
    omega

end CppTry
