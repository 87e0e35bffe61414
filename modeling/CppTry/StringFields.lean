import Mathlib.Data.List.TakeWhile
import CppTry.DataUtil

namespace CppTry

namespace DataUtil

/-- What a reader gets of a string that was written with the width `n`. -/
def recovered (value : List Byte) (n : Nat) : List Byte :=
  (if n = 0 then value else value.take n).takeWhile (· ≠ 0)

/-- The bytes of a string of width `n > 0`. -/
def padded (value : List Byte) (n : Nat) : List Byte :=
  (value ++ [0]).take n ++ zeros (n - (value.length + 1))

theorem length_padded (value : List Byte) (n : Nat) : (padded value n).length = n := by
  simp only [padded, List.length_append, List.length_take, List.length_singleton, length_zeros]
  omega

/-- The number of bytes that `WriteString` moves its index by. -/
def stringWidth (value : List Byte) (n : Nat) : Nat :=
  if n = 0 then 4 + (value.length + 1) else n

theorem takeWhile_nul (value rest : List Byte) :
    (value ++ 0 :: rest).takeWhile (· ≠ 0) = value.takeWhile (· ≠ 0) := by
  induction value with
  | nil => rfl
  | cons b value ih =>
    rw [List.cons_append, List.takeWhile_cons, List.takeWhile_cons, ih]

theorem cString_isPrefix (value : List Byte) : value.takeWhile (· ≠ 0) ++ [0] <+: value ++ [0] := by
  induction value with
  | nil => exact List.prefix_refl _
  | cons b value ih =>
    by_cases hb : b = 0
    · rw [hb]
      exact ⟨value ++ [0], rfl⟩
    · rw [List.takeWhile_cons_of_pos (by simpa using hb), List.cons_append, List.cons_append]
      exact List.cons_prefix_cons.mpr ⟨rfl, ih⟩

theorem length_cString {value : List Byte} (h : value.length + 1 ≤ 0x7FFFFFFF) :
    (Int32.ofNat (value.length + 1)).toInt = value.length + 1 := by
  rw [Int32.toInt_ofNat_of_lt (by omega)]
  rfl

theorem strcpy_eq {dst value : List Byte} {pos : Nat}
    (h : pos + (value.length + 1) ≤ dst.length) :
    strcpy dst pos (value ++ [0]) = some (splice dst pos (value.takeWhile (· ≠ 0) ++ [0])) := by
  have hle := (List.takeWhile_prefix (l := value) (· ≠ 0)).length_le
  have hcopy : (value ++ [0]).take ((value.takeWhile (· ≠ 0)).length + 1) =
      value.takeWhile (· ≠ 0) ++ [0] := by
    have ht := (List.prefix_iff_eq_take.mp (cString_isPrefix value)).symm
    rw [List.length_append, List.length_singleton] at ht
    exact ht
  have hc : memcpy dst pos (value ++ [0]) (0 : Nat)
      ((value.takeWhile (· ≠ 0)).length + 1 : Nat) = some _ :=
    memcpy_eq_some (by omega) (by rw [List.length_append, List.length_singleton]; omega)
  rw [List.drop_zero, hcopy] at hc
  unfold strcpy
  rw [takeWhile_nul]
  exact hc

theorem writeString_prefixed {src value : List Byte} {i : Nat}
    (hv : value.length + 1 ≤ 0x7FFFFFFF) (hs : i + 4 + (value.length + 1) ≤ src.length)
    (hi : i + 4 + (value.length + 1) < 2 ^ 31) :
    writeString src i value 0 =
      some (splice src i (leBytes 4 (value.length + 1) ++ (value.takeWhile (· ≠ 0) ++ [0])),
        ((i + stringWidth value 0 : Nat) : Int)) := by
  have hw : writeInt32 src i (Int32.ofNat (value.length + 1)) =
      some (splice src i (leBytes 4 (value.length + 1)), ((i + 4 : Nat) : Int)) := by
    rw [writeInt32, writeUInt32_eq _ (by omega)]
    have hn : (Int32.ofNat (value.length + 1)).toUInt32.toNat = value.length + 1 := by
      rw [Int32.toUInt32_ofNat', UInt32.toNat_ofNat_of_lt' (show _ < 2 ^ 32 by omega)]
    rw [hn]
    rfl
  have hl : (splice src i (leBytes 4 (value.length + 1))).length = src.length :=
    length_splice (by rw [length_leBytes]; omega)
  have hc : strcpy (splice src i (leBytes 4 (value.length + 1))) (i + 4 : Nat) (value ++ [0]) =
      some _ := strcpy_eq (by omega)
  have hm : splice (splice src i (leBytes 4 (value.length + 1)))
      (i + (leBytes 4 (value.length + 1)).length) (value.takeWhile (· ≠ 0) ++ [0]) = _ :=
    splice_splice (by omega)
  rw [length_leBytes] at hm
  rw [hm] at hc
  unfold writeString
  simp only [if_true, hw, Option.bind_eq_bind, Option.bind_some, hc, length_cString hv]
  rw [wrap32_eq (by omega) (by omega), stringWidth, if_pos rfl]
  congr 2
  omega

theorem writeString_fixed {src value : List Byte} {i n : Nat} (hn : 0 < n)
    (hv : value.length + 1 ≤ 0x7FFFFFFF) (hs : i + n ≤ src.length) (hi : i + n < 2 ^ 31) :
    writeString src i value n =
      some (splice src i (padded value n), ((i + n : Nat) : Int)) := by
  have hlen : (value ++ [0]).length = value.length + 1 := by simp
  have hnum : min (Int32.ofNat (value.length + 1)).toInt (n : Int) = (min (value.length + 1) n : Nat) := by
    rw [length_cString hv]
    omega
  have hc : memcpy src i (value ++ [0]) (0 : Nat) (min (value.length + 1) n : Nat) = some _ :=
    memcpy_eq_some (by omega) (by omega)
  rw [List.drop_zero] at hc
  have hne : ¬ (n : Int) = 0 := by omega
  unfold writeString padded
  simp only [hnum, hne, if_false, Option.bind_eq_bind]
  change (memcpy src i (value ++ [0]) (0 : Nat) (min (value.length + 1) n : Nat)).bind _ = _
  rw [hc, Option.bind_some]
  have hwrap : wrap32 (i + n) = ((i + n : Nat) : Int) := by
    rw [wrap32_eq (by omega) (by omega)]
    omega
  split
  next hpad =>
    have hmin : min (value.length + 1) n = value.length + 1 := by omega
    have hset : memset (splice src i (value ++ [0])) (i + (value.length + 1) : Nat) 0
        (n - (value.length + 1) : Nat) = some _ :=
      memset_eq_some 0 (by rw [length_splice (by omega)]; omega)
    have hjoin : splice (splice src i (value ++ [0])) (i + (value ++ [0]).length)
        (zeros (n - (value.length + 1))) = _ := splice_splice (by omega)
    rw [hlen] at hjoin
    have hend : ((i : Int) + (value.length + 1 : Nat)) = ((i + (value.length + 1) : Nat) : Int) := by
      omega
    have hrest : ((n : Int) - (value.length + 1 : Nat)) = ((n - (value.length + 1) : Nat) : Int) := by
      omega
    rw [hmin, List.take_of_length_le (by omega), hend, hrest, hset, Option.bind_some,
      List.take_of_length_le (by omega), ← hjoin, hwrap]
    rfl
  next hpad =>
    have hmin : min (value.length + 1) n = n := by omega
    rw [hmin, Option.bind_some, hwrap, Nat.sub_eq_zero_of_le (by omega)]
    simp [zeros]

theorem lengthPrefix_of_holds {src : List Byte} {i len : Nat} (h : Holds src i (leBytes 4 len))
    (hl : len ≤ 0x7FFFFFFF) : lengthPrefix src i = len := by
  rw [Holds, length_leBytes] at h
  rw [lengthPrefix, h, leValue_leBytes, Nat.mod_eq_of_lt (by omega)]
  exact Int32.toInt_ofNat_of_lt (by omega)

theorem strnlen_room {src : List Byte} {i len : Nat} (h : i + len ≤ src.length) (next : Int) :
    (strnlen src i len).map (fun k => ((src.drop i).take k, next)) =
      some (((src.drop i).take len).takeWhile (· ≠ 0), next) := by
  have ht := strnlen_take src (i := i) (by omega) len
  rw [if_pos (Or.inl (by rw [List.length_drop]; omega))] at ht
  have hm := congrArg (Option.map fun s => (s, next)) ht
  rw [Option.map_map] at hm
  exact hm

theorem readString_holds {src rest value : List Byte} {i : Nat} (hi : i ≤ src.length)
    (hv : value.length + 1 ≤ 0x7FFFFFFF)
    (hr : (value.takeWhile (· ≠ 0) ++ 0 :: rest).length = value.length + 1)
    (hb : i + 4 + (value.length + 1) < 2 ^ 31)
    (h : Holds src i (leBytes 4 (value.length + 1) ++ (value.takeWhile (· ≠ 0) ++ 0 :: rest))) :
    readString src i 0 = some (recovered value 0, ((i + stringWidth value 0 : Nat) : Int)) := by
  have hle := h.le hi
  rw [List.length_append, length_leBytes, hr] at hle
  have hp := lengthPrefix_of_holds h.left hv
  have hbody := h.right
  rw [length_leBytes, Holds, hr] at hbody
  have hlen : (lengthPrefix src i % 2 ^ 64).toNat = value.length + 1 := by omega
  have hnext : wrap32 ((i + 4 : Nat) + lengthPrefix src i) = ((i + stringWidth value 0 : Nat) : Int) := by
    rw [wrap32_eq (by omega) (by omega), stringWidth, if_pos rfl]
    omega
  rw [readString_prefixed (by omega), hlen, hnext, strnlen_room (by omega), hbody, takeWhile_nul,
    List.takeWhile_idem, recovered, if_pos rfl]

theorem takeWhile_padded (value : List Byte) (n : Nat) :
    (padded value n).takeWhile (· ≠ 0) = (value.take n).takeWhile (· ≠ 0) := by
  unfold padded
  by_cases hn : n ≤ value.length
  · rw [List.take_append_of_le_length hn, Nat.sub_eq_zero_of_le (by omega)]
    simp [zeros]
  · rw [List.take_of_length_le (by simp; omega), List.append_assoc, List.take_of_length_le (by omega)]
    exact takeWhile_nul value _

theorem readString_fixed {src value : List Byte} {i n : Nat} (hn : 0 < n)
    (hi : i ≤ src.length) (hb : i + n < 2 ^ 31)
    (h : Holds src i (padded value n)) :
    readString src i n = some (recovered value n, ((i + n : Nat) : Int)) := by
  have hle := h.le hi
  rw [length_padded] at hle
  rw [Holds, length_padded] at h
  have hne : ¬ (n : Int) = 0 := by omega
  have hsize : ((n : Int) % 2 ^ 64).toNat = n := by omega
  have hnext : wrap32 (i + n) = ((i + n : Nat) : Int) := by
    rw [wrap32_eq (by omega) (by omega)]
    omega
  have hs := strnlen_room hle ((i + n : Nat) : Int)
  rw [h, takeWhile_padded] at hs
  rw [recovered, if_neg (by omega), ← hs]
  unfold readString
  rw [if_neg hne, Option.bind_eq_bind, Option.bind_some]
  dsimp only
  rw [hsize, hnext]
  cases strnlen src i n <;> rfl

/-- The bytes that `WriteString` accounts for do not depend on what the buffer held before. -/
def Determined (value : List Byte) (n i : Nat) : Prop :=
  ∀ src src' : List Byte, i + stringWidth value n ≤ src.length →
    i + stringWidth value n ≤ src'.length →
    ∃ out out' r, writeString src i value n = some (out, r) ∧
      writeString src' i value n = some (out', r) ∧
      ∀ j : Nat, i ≤ j → j < r → out[j]? = out'[j]?

/-- A write is determined when it covers all it accounts for. -/
theorem determined_of_splice {value : List Byte} {n i : Nat} {block : List Byte}
    (hl : block.length = stringWidth value n)
    (hw : ∀ src : List Byte, i + stringWidth value n ≤ src.length →
      writeString src i value n =
        some (splice src i block, ((i + stringWidth value n : Nat) : Int))) :
    Determined value n i := by
  intro src src' hs hs'
  refine ⟨_, _, _, hw src hs, hw src' hs', fun j hij hj => ?_⟩
  rw [getElem?_splice_inside (by omega) hij (by omega),
    getElem?_splice_inside (by omega) hij (by omega)]

/-- Behind a NUL in the string, the last of the bytes that are accounted for is never written. -/
theorem not_determined {value : List Byte} {i : Nat} (hv : value.length + 1 ≤ 0x7FFFFFFF)
    (hb : i + stringWidth value 0 < 2 ^ 31) (hnul : 0 ∈ value) : ¬ Determined value 0 i := by
  have hwidth : stringWidth value 0 = 4 + (value.length + 1) := if_pos rfl
  have hcut : (value.takeWhile (· ≠ 0)).length < value.length := length_takeWhile_lt_iff.mpr hnul
  rw [hwidth] at hb
  have hlast : ∀ b : Byte, ∃ out, writeString (List.replicate (i + stringWidth value 0) b) i value 0 =
      some (out, ((i + stringWidth value 0 : Nat) : Int)) ∧ out[i + 4 + value.length]? = some b := by
    intro b
    have hlen : (List.replicate (i + stringWidth value 0) b).length = i + 4 + (value.length + 1) := by
      rw [List.length_replicate, hwidth, Nat.add_assoc]
    refine ⟨_, writeString_prefixed hv (by omega) (by omega), ?_⟩
    rw [getElem?_splice]
    · rw [List.getElem?_replicate, if_pos (by omega)]
    · simp only [List.length_append, length_leBytes, List.length_singleton]
      omega
    · simp only [List.length_append, length_leBytes, List.length_singleton]
      omega
  intro h
  obtain ⟨out, hw, hj⟩ := hlast 0
  obtain ⟨out', hw', hj'⟩ := hlast 1
  obtain ⟨_, _, _, h1, h2, hsame⟩ := h (List.replicate (i + stringWidth value 0) 0)
    (List.replicate (i + stringWidth value 0) 1) (by simp) (by simp)
  cases hw.symm.trans h1
  cases hw'.symm.trans h2
  have he := hsame (i + 4 + value.length) (by omega) (by omega)
  rw [hj, hj'] at he
  cases he

/-- `WriteString` exposes no old byte exactly when it pads to a width or the string has no NUL. -/
theorem writeString_determined_iff {value : List Byte} {n i : Nat}
    (hv : value.length + 1 ≤ 0x7FFFFFFF) (hb : i + stringWidth value n < 2 ^ 31) :
    Determined value n i ↔ n ≠ 0 ∨ 0 ∉ value := by
  constructor
  · intro h
    by_contra hno
    rw [not_or, Decidable.not_not, Decidable.not_not] at hno
    obtain ⟨rfl, hnul⟩ := hno
    exact not_determined hv hb hnul h
  · intro h
    by_cases hn : n = 0
    · subst hn
      have hnul : 0 ∉ value := h.resolve_left fun hne => hne rfl
      have hcut : value.takeWhile (· ≠ 0) = value := takeWhile_eq_self hnul
      have hwidth : stringWidth value 0 = 4 + (value.length + 1) := if_pos rfl
      refine determined_of_splice ?_ fun src hs =>
        writeString_prefixed hv (by omega) (by omega)
      rw [hcut, hwidth, List.length_append, length_leBytes, List.length_append,
        List.length_singleton]
    · have hwidth : stringWidth value n = n := if_neg hn
      refine determined_of_splice ((length_padded value n).trans hwidth.symm) fun src hs => ?_
      rw [hwidth] at hs hb ⊢
      exact writeString_fixed (Nat.pos_of_ne_zero hn) hv hs hb

theorem hello_determined : Determined (text "hello") 0 3 :=
  (writeString_determined_iff (by decide) (by decide)).mpr (Or.inr (by decide))

/-- The byte behind the copied NUL is the old one. -/
theorem nulInside_exposes : ([65, 0, 66] : List Byte).length + 1 ≤ 0x7FFFFFFF ∧
    ¬ Determined [65, 0, 66] 0 0 :=
  ⟨by decide, not_determined (by decide) (by decide) (by decide)⟩

end DataUtil

end CppTry
