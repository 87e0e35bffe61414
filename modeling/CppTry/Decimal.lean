import Mathlib.Data.Nat.Digits.Defs
import CppTry.Memory

namespace CppTry

/-- A digit as a character. -/
def digitChar (d : Nat) : Byte := UInt8.ofNat (48 + d)

/-- The decimal digits of a number, the highest first. -/
def natText (n : Nat) : List Byte :=
  if n = 0 then [digitChar 0] else (Nat.digits 10 n).reverse.map digitChar

/-- A number as `%d` prints it. -/
def decimal (n : Int) : List Byte :=
  if n < 0 then chr '-' :: natText n.natAbs else natText n.natAbs

theorem natText_digits (n : Nat) :
    ∃ ds : List Nat, ds ≠ [] ∧ (∀ d ∈ ds, d < 10) ∧ natText n = ds.map digitChar ∧
      ds.foldl (fun m d => 10 * m + d) 0 = n := by
  unfold natText
  split
  next h => exact ⟨[0], by simp, by simp, rfl, by simp [h]⟩
  next h =>
    refine ⟨(Nat.digits 10 n).reverse, ?_, ?_, rfl, ?_⟩
    · rw [ne_eq, List.reverse_eq_nil_iff]
      exact Nat.digits_ne_nil_iff_ne_zero.mpr h
    · intro d hd
      exact Nat.digits_lt_base (by omega) (List.mem_reverse.mp hd)
    · have hv := Nat.ofDigits_digits 10 n
      rw [Nat.ofDigits_eq_foldr] at hv
      rw [List.foldl_reverse]
      simpa [Nat.add_comm] using hv

theorem digitChar_toNat {d : Nat} (h : d < 10) : (digitChar d).toNat = 48 + d := by
  rw [digitChar, UInt8.toNat_ofNat']
  omega

/-- Different numbers have different digits. -/
theorem natText_injective : Function.Injective natText := by
  intro m n h
  obtain ⟨ds, _, hds, htext, hm⟩ := natText_digits m
  obtain ⟨es, _, hes, htext', hn⟩ := natText_digits n
  have hvalues (l : List Nat) (hl : ∀ d ∈ l, d < 10) :
      (l.map digitChar).map (fun c => c.toNat - 48) = l := by
    rw [List.map_map]
    refine (List.map_congr_left fun d hd => ?_).trans (List.map_id l)
    rw [Function.comp_apply, digitChar_toNat (hl d hd), Nat.add_sub_cancel_left, id]
  rw [← hm, ← hn, ← hvalues ds hds, ← htext, h, htext', hvalues es hes]

theorem natText_bounds {n : Nat} {c : Byte} (h : c ∈ natText n) : 48 ≤ c.toNat ∧ c.toNat < 58 := by
  obtain ⟨ds, _, hds, htext, _⟩ := natText_digits n
  rw [htext] at h
  obtain ⟨d, hd, rfl⟩ := List.mem_map.mp h
  have hlt := hds d hd
  rw [digitChar_toNat hlt]
  omega

end CppTry
