import CppTry.Splice
import Mathlib.Algebra.Group.Int.Defs
import Mathlib.Algebra.Group.Nat.Defs
import Mathlib.Data.List.TakeWhile

namespace CppTry

abbrev Byte := UInt8

/-- A character constant. -/
abbrev chr (c : Char) : Byte := c.toUInt8

/-- A string literal, without its NUL. -/
def text (s : String) : List Byte := s.toList.map chr

/-- `isspace` in the C locale. -/
def isSpace (c : Byte) : Bool := c == chr ' ' || (9 ≤ c && c ≤ 13)

def isDigit (c : Byte) : Bool := chr '0' ≤ c && c ≤ chr '9'

/-- A fresh array of `n` bytes. -/
def zeros (n : Nat) : List Byte := List.replicate n 0

/-- The value of a 32-bit `int` expression; an overflow, which the language leaves undefined, wraps
around as in the compiled code. -/
def wrap32 (x : Int) : Int := (x + 2 ^ 31) % 2 ^ 32 - 2 ^ 31

/-- `INT_MAX`. -/
def intMax : Nat := 2147483647

/-- `src[i]`; a read outside the array has no value. -/
def readByte (src : List Byte) (i : Int) : Option Byte :=
  if 0 ≤ i then src[i.toNat]? else none

/-- `src[i] = b`; a write outside the array is undefined. -/
def writeByte (src : List Byte) (i : Int) (b : Byte) : Option (List Byte) :=
  if 0 ≤ i ∧ i < src.length then some (src.set i.toNat b) else none

/-- `memcpy(dst + pos, src + start, len)`. A negative length is a huge `size_t`,
so it and any range outside the two arrays leave the copy undefined. -/
def memcpy (dst : List Byte) (pos : Int) (src : List Byte) (start len : Int) : Option (List Byte) :=
  if 0 ≤ len ∧ 0 ≤ pos ∧ pos + len ≤ dst.length ∧ 0 ≤ start ∧ start + len ≤ src.length then
    some (splice dst pos.toNat ((src.drop start.toNat).take len.toNat))
  else none

/-- `memset(dst + pos, b, len)`. -/
def memset (dst : List Byte) (pos : Int) (b : Byte) (len : Int) : Option (List Byte) :=
  memcpy dst pos (List.replicate len.toNat b) 0 len

/-- `strcpy(dst + pos, src)`: the bytes of `src` up to its first NUL, and the NUL. -/
def strcpy (dst : List Byte) (pos : Int) (src : List Byte) : Option (List Byte) :=
  memcpy dst pos src 0 ((src.takeWhile (· ≠ 0)).length + 1)

/-- The bytes of an object of `n` bytes, in the order in which they lie in memory. -/
abbrev Image (n : Nat) := { bytes : List Byte // bytes.length = n }

/-- `*(T*)(src + index)` for a type of `n` bytes. -/
def readImage (n : Nat) (src : List Byte) (index : Int) : Option (Image n) :=
  if h : 0 ≤ index ∧ index + n ≤ src.length then
    some ⟨(src.drop index.toNat).take n, by rw [List.length_take, List.length_drop]; omega⟩
  else none

/-- `strnlen(src + start, maxlen)`: the scan ends at a NUL or after `maxlen`
bytes, and has no value when it would leave the array first. -/
def strnlen (src : List Byte) (start : Int) (maxlen : Nat) : Option Nat :=
  if 0 ≤ start ∧ start ≤ src.length then
    let tail := src.drop start.toNat
    let n := (tail.takeWhile (· ≠ 0)).length
    if maxlen ≤ n then some maxlen else if n < tail.length then some n else none
  else none

@[simp] theorem length_zeros (n : Nat) : (zeros n).length = n := List.length_replicate

theorem wrap32_eq {x : Int} (hl : -2 ^ 31 ≤ x) (hu : x < 2 ^ 31) : wrap32 x = x := by
  unfold wrap32
  omega

theorem readByte_natCast (src : List Byte) (i : Nat) : readByte src i = src[i]? := by
  simp [readByte]

theorem memcpy_eq_some {dst src : List Byte} {pos start len : Nat}
    (hd : pos + len ≤ dst.length) (hs : start + len ≤ src.length) :
    memcpy dst pos src start len = some (splice dst pos ((src.drop start).take len)) := by
  unfold memcpy
  rw [if_pos (by omega)]
  simp

theorem memset_eq_some {dst : List Byte} {pos len : Nat} (b : Byte) (h : pos + len ≤ dst.length) :
    memset dst pos b len = some (splice dst pos (List.replicate len b)) := by
  have hc : memcpy dst pos (List.replicate len b) (0 : Nat) len = some _ :=
    memcpy_eq_some h (by rw [List.length_replicate]; omega)
  rw [List.drop_zero, List.take_of_length_le (Nat.le_of_eq List.length_replicate)] at hc
  exact hc

theorem memcpy_negative {dst src : List Byte} {pos start len : Int} (h : len < 0) :
    memcpy dst pos src start len = none := by
  unfold memcpy
  rw [if_neg (by omega)]

theorem memcpy_length {dst src out : List Byte} {pos start len : Int}
    (h : memcpy dst pos src start len = some out) : out.length = dst.length := by
  unfold memcpy at h
  split at h
  next hb =>
    cases Option.some.inj h
    apply length_splice
    simp only [List.length_take, List.length_drop]
    omega
  next => simp at h

theorem forall_byte {p : Byte → Bool} (h : ∀ n : Fin 256, p (UInt8.ofNat n) = true) (c : Byte) :
    p c = true := by
  have hc := h ⟨c.toNat, c.toNat_lt⟩
  rwa [UInt8.ofNat_toNat] at hc

theorem all_ne {c : Byte} {bs : List Byte} (h : c ∉ bs) : ∀ b ∈ bs, decide (b ≠ c) = true := by
  intro b hb
  rw [decide_eq_true_eq]
  rintro rfl
  exact h hb

theorem takeWhile_eq_self {c : Byte} {bs : List Byte} (h : c ∉ bs) :
    bs.takeWhile (· ≠ c) = bs := List.takeWhile_eq_self_iff.mpr (all_ne h)

theorem length_takeWhile_lt_iff {tail : List Byte} :
    (tail.takeWhile (· ≠ 0)).length < tail.length ↔ 0 ∈ tail := by
  induction tail with
  | nil => simp
  | cons b tail ih =>
    by_cases hb : b = 0
    · simp [hb]
    · rw [List.takeWhile_cons_of_pos (by simpa using hb), List.length_cons, List.length_cons,
        Nat.add_lt_add_iff_right, ih]
      simp [Ne.symm hb]

theorem strnlen_take (src : List Byte) {i : Nat} (h : i ≤ src.length) (maxlen : Nat) :
    (strnlen src i maxlen).map (fun k => (src.drop i).take k) =
      if maxlen ≤ (src.drop i).length ∨ 0 ∈ src.drop i
      then some (((src.drop i).take maxlen).takeWhile (· ≠ 0)) else none := by
  have hlt := @length_takeWhile_lt_iff (src.drop i)
  have hle := (List.takeWhile_prefix (l := src.drop i) (· ≠ 0)).length_le
  have htake : ∀ k, k ≤ ((src.drop i).takeWhile (· ≠ 0)).length →
      (src.drop i).take k = ((src.drop i).take k).takeWhile (· ≠ 0) := by
    intro k hk
    obtain ⟨rest, hr⟩ := List.takeWhile_prefix (l := src.drop i) (· ≠ 0)
    rw [← List.take_takeWhile]
    conv_lhs => rw [← hr]
    rw [List.take_append_of_le_length hk]
  unfold strnlen
  rw [if_pos (by omega), Int.toNat_natCast]
  dsimp only
  split
  next hm =>
    rw [if_pos (Or.inl (by omega)), Option.map_some, ← htake maxlen hm]
  next hm =>
    split
    next hn =>
      rw [if_pos (Or.inr (hlt.mp hn)), Option.map_some, htake _ (Nat.le_refl _),
        ← List.take_takeWhile, ← List.take_takeWhile, List.take_of_length_le (Nat.le_refl _),
        List.take_of_length_le (by omega)]
    next hn =>
      rw [if_neg, Option.map_none]
      rw [← hlt]
      omega

end CppTry
