import Mathlib.Algebra.Group.Int.Defs
import Mathlib.Algebra.Group.Nat.Defs

namespace CppTry

/-- An integer with at most `p` significant bits. -/
def Representable (p : Nat) (n : Int) : Prop :=
  ∃ m : Int, ∃ k : Nat, m.natAbs < 2 ^ p ∧ n = m * 2 ^ k

/-- The multiple of `u` that is nearest to `n`; half-way between two, the one that is `u` times an
even number. -/
def nearestMultiple (u n : Int) : Int :=
  if 2 * (n % u) < u ∨ 2 * (n % u) = u ∧ n / u % 2 = 0 then n / u * u else (n / u + 1) * u

/-- `n` rounded to `p` significant bits. -/
def roundBits (p : Nat) (n : Int) : Int := nearestMultiple (2 ^ (n.natAbs.log2 + 1 - p)) n

example : roundBits 3 17 = 16 ∧ roundBits 3 18 = 16 ∧ roundBits 3 22 = 24 ∧
    roundBits 3 (-22) = -24 := by decide

theorem nearestMultiple_cases (u n : Int) :
    (nearestMultiple u n = n / u * u ∧ 2 * (n % u) ≤ u) ∨
      (nearestMultiple u n = (n / u + 1) * u ∧ u ≤ 2 * (n % u)) := by
  unfold nearestMultiple
  split
  next h => exact Or.inl ⟨rfl, by omega⟩
  next h => exact Or.inr ⟨rfl, by omega⟩

theorem nearestMultiple_nearest {u m : Int} (hu : 0 < u) (n : Int) (h : u ∣ m) :
    (n - nearestMultiple u n).natAbs ≤ (n - m).natAbs := by
  obtain ⟨c, rfl⟩ := h
  have hn := Int.mul_ediv_add_emod n u
  have h0 := Int.emod_nonneg n (by omega : u ≠ 0)
  have hlt := Int.emod_lt_of_pos n hu
  have hside : u * c ≤ u * (n / u) ∨ u * (n / u) + u ≤ u * c := by
    by_cases hc : c ≤ n / u
    · exact Or.inl (Int.mul_le_mul_of_nonneg_left hc (by omega))
    · have hle : u * (n / u + 1) ≤ u * c := Int.mul_le_mul_of_nonneg_left (by omega) (by omega)
      rw [Int.mul_add, Int.mul_one] at hle
      exact Or.inr hle
  rcases nearestMultiple_cases u n with ⟨he, hr⟩ | ⟨he, hr⟩
  · rw [he, Int.mul_comm]
    omega
  · rw [he, Int.add_mul, Int.one_mul, Int.mul_comm]
    omega

theorem Representable.of_le {p : Nat} {m : Int} (hp : 0 < p) (h : m.natAbs ≤ 2 ^ p) (k : Nat) :
    Representable p (m * 2 ^ k) := by
  obtain ⟨p, rfl⟩ := Nat.exists_eq_add_one.mpr hp
  have hpow : (2 : Nat) ^ (p + 1) = 2 ^ p * 2 := Nat.pow_succ 2 p
  have hpos : 0 < 2 ^ p := Nat.two_pow_pos p
  by_cases hlt : m.natAbs < 2 ^ (p + 1)
  · exact ⟨m, k, hlt, rfl⟩
  · -- the significand is the next power of two
    refine ⟨m / 2, k + 1, by omega, ?_⟩
    have heven : m = m / 2 * 2 := by omega
    rw [Int.pow_succ', ← Int.mul_assoc]
    exact congrArg (· * 2 ^ k) heven

/-- The bits that are dropped, and those that are kept. -/
theorem natAbs_lt_shift (p : Nat) (n : Int) :
    n.natAbs < 2 ^ p * 2 ^ (n.natAbs.log2 + 1 - p) := by
  rw [← Nat.pow_add]
  exact Nat.lt_of_lt_of_le Nat.lt_log2_self (Nat.pow_le_pow_right (by decide) (by omega))

theorem representable_roundBits {p : Nat} (hp : 0 < p) (n : Int) :
    Representable p (roundBits p n) := by
  have hlt := natAbs_lt_shift p n
  unfold roundBits
  generalize n.natAbs.log2 + 1 - p = k at hlt ⊢
  have hpos : (0 : Int) < 2 ^ k := Int.pow_pos (by decide)
  have hbound : -((2 ^ p : Nat) : Int) * 2 ^ k < n ∧ n < ((2 ^ p : Nat) : Int) * 2 ^ k := by
    have hcast : ((2 ^ p * 2 ^ k : Nat) : Int) = ((2 ^ p : Nat) : Int) * 2 ^ k := by push_cast; rfl
    rw [Int.neg_mul, ← hcast]
    omega
  have hlow : -((2 ^ p : Nat) : Int) ≤ n / 2 ^ k :=
    Int.le_ediv_of_mul_le hpos (Int.le_of_lt hbound.1)
  have hhigh : n / 2 ^ k < (2 ^ p : Nat) := Int.ediv_lt_of_lt_mul hpos hbound.2
  rcases nearestMultiple_cases (2 ^ k) n with ⟨he, _⟩ | ⟨he, _⟩
  · rw [he]
    exact Representable.of_le hp (by omega) k
  · rw [he]
    exact Representable.of_le hp (by omega) k

theorem two_pow_dvd {k j : Nat} (h : k ≤ j) : (2 : Int) ^ k ∣ 2 ^ j := by
  obtain ⟨d, rfl⟩ := Nat.exists_eq_add_of_le h
  exact ⟨2 ^ d, Int.pow_add 2 k d⟩

/-- `roundBits` gives the nearest integer with `p` significant bits. -/
theorem roundBits_nearest {p : Nat} (hp : 0 < p) (n : Int) {m : Int} (h : Representable p m) :
    (n - roundBits p n).natAbs ≤ (n - m).natAbs := by
  obtain ⟨a, j, ha, rfl⟩ := h
  obtain ⟨k, hk⟩ : ∃ k, k = n.natAbs.log2 + 1 - p := ⟨_, rfl⟩
  have hpos : (0 : Int) < 2 ^ k := Int.pow_pos (by decide)
  rw [roundBits, ← hk]
  by_cases hj : k ≤ j
  · exact nearestMultiple_nearest hpos n (Int.dvd_mul_of_dvd_right (two_pow_dvd hj))
  · -- `m` is below the power of two below `n`, which is a multiple too
    have hne : n.natAbs ≠ 0 := by
      intro h0
      rw [h0, Nat.log2_zero] at hk
      omega
    have hself := Nat.log2_self_le hne
    have hdvd : (2 : Int) ^ k ∣ 2 ^ n.natAbs.log2 := two_pow_dvd (by omega)
    have hm : (a * 2 ^ j).natAbs ≤ 2 ^ n.natAbs.log2 :=
      calc (a * 2 ^ j).natAbs = a.natAbs * 2 ^ j := by rw [Int.natAbs_mul, Int.natAbs_pow]; rfl
        _ ≤ 2 ^ p * 2 ^ j := Nat.mul_le_mul_right _ (Nat.le_of_lt ha)
        _ = 2 ^ (p + j) := (Nat.pow_add 2 p j).symm
        _ ≤ 2 ^ n.natAbs.log2 := Nat.pow_le_pow_right (by decide) (by omega)
    have hcast : ((2 ^ n.natAbs.log2 : Nat) : Int) = 2 ^ n.natAbs.log2 := by push_cast; rfl
    rcases Int.le_total 0 n with hn | hn
    · have hnear := nearestMultiple_nearest hpos n hdvd
      omega
    · have hnear := nearestMultiple_nearest hpos n (Int.dvd_neg.mpr hdvd)
      omega

theorem roundBits_eq_iff {p : Nat} (hp : 0 < p) {n : Int} :
    roundBits p n = n ↔ Representable p n := by
  constructor
  · intro h
    rw [← h]
    exact representable_roundBits hp n
  · intro h
    have hnear := roundBits_nearest hp n h
    omega

end CppTry
