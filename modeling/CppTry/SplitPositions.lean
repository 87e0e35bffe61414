import CppTry.StringUtil

namespace CppTry

/-- `std::string::npos`, the largest `size_t` of `w` bits. -/
def npos (w : Nat) : Nat := 2 ^ w - 1

/-- The value of a `size_t` expression; it wraps around. -/
def wrapSize (w : Nat) (x : Int) : Nat := (x % 2 ^ w).toNat

theorem wrapSize_eq {w n : Nat} (h : n < 2 ^ w) : wrapSize w n = n := by
  have hp : (2 : Int) ^ w = ((2 ^ w : Nat) : Int) := (Int.natCast_pow 2 w).symm
  rw [wrapSize, hp, ← Int.natCast_emod, Int.toNat_natCast, Nat.mod_eq_of_lt h]

/-- `std::string`; its size is always below `npos`. -/
structure StdString (w : Nat) where
  bytes : List Byte
  size_lt : bytes.length < npos w

namespace StdString

variable {w : Nat}

def findFirstOf (s : StdString w) (sp : List Byte) (pos : Nat) : Nat :=
  (CppTry.findFirstOf s.bytes sp pos).getD (npos w)

/-- A position behind the end throws, the end itself does not. -/
def substr (s : StdString w) (pos n : Nat) : Option (List Byte) :=
  if pos ≤ s.bytes.length then some (CppTry.substr s.bytes pos n) else none

theorem findFirstOf_bounds {s : StdString w} {sp : List Byte} {pos : Nat}
    (h : s.findFirstOf sp pos ≠ npos w) :
    CppTry.findFirstOf s.bytes sp pos = some (s.findFirstOf sp pos) ∧
      pos ≤ s.findFirstOf sp pos ∧ s.findFirstOf sp pos < s.bytes.length := by
  unfold findFirstOf at h ⊢
  cases hf : CppTry.findFirstOf s.bytes sp pos with
  | none =>
    rw [hf] at h
    exact absurd rfl h
  | some i => exact ⟨rfl, CppTry.findFirstOf_bounds hf⟩

theorem wrapSize_succ {s : StdString w} {i : Nat} (h : i < s.bytes.length) :
    wrapSize w ((i : Int) + 1) = i + 1 := by
  have hlt := s.size_lt
  unfold npos at hlt
  exact wrapSize_eq (n := i + 1) (by omega)

/-- The loop of `Split`, from the search that sets `index` on, and the piece behind it. -/
def splitLoop (s : StdString w) (sp : List Byte) (last : Nat) (v : List (List Byte)) :
    Option (List (List Byte)) :=
  let index := s.findFirstOf sp last
  if _h : index ≠ npos w then do
    let piece ← s.substr last (wrapSize w (index - last))
    splitLoop s sp (wrapSize w (index + 1)) (v ++ [piece])
  else if wrapSize w (index - last) > 0 then do
    let piece ← s.substr last (wrapSize w (index - last))
    some (v ++ [piece])
  else some v
termination_by s.bytes.length - last
decreasing_by
  obtain ⟨_, hl, hi⟩ := findFirstOf_bounds _h
  rw [wrapSize_succ hi]
  omega

def split (s : StdString w) (sp : List Byte) (v : List (List Byte)) : Option (List (List Byte)) :=
  if s.bytes.isEmpty then some v else splitLoop s sp 0 v

/-- No position wraps around, no `substr` throws, and the piece behind the last separator is always
pushed: `npos` stands behind every position. -/
theorem splitLoop_eq (s : StdString w) (sp : List Byte) {last : Nat} (v : List (List Byte))
    (h : last ≤ s.bytes.length) :
    s.splitLoop sp last v = some (StringUtil.splitLoop s.bytes sp last v) := by
  have hsize := s.size_lt
  have hpow := Nat.two_pow_pos w
  unfold npos at hsize
  fun_induction StringUtil.splitLoop s.bytes sp last v with
  | case1 last v index hf ih =>
    obtain ⟨hl, hi⟩ := CppTry.findFirstOf_bounds hf
    have hindex : s.findFirstOf sp last = index := by rw [findFirstOf, hf, Option.getD_some]
    have hne : index ≠ npos w := by
      unfold npos
      omega
    have hgap : wrapSize w ((index : Int) - last) = index - last := by
      rw [← Int.natCast_sub hl]
      exact wrapSize_eq (by omega)
    rw [splitLoop, hindex, dif_pos hne, hgap, substr, if_pos h, wrapSize_succ hi]
    exact ih (by omega)
  | case2 last v hf =>
    have hindex : s.findFirstOf sp last = npos w := by rw [findFirstOf, hf, Option.getD_none]
    have hle : last ≤ npos w := by
      unfold npos
      omega
    have hgap : wrapSize w ((npos w : Int) - last) = npos w - last := by
      rw [← Int.natCast_sub hle]
      refine wrapSize_eq ?_
      unfold npos
      omega
    have hpos : npos w - last > 0 := by
      unfold npos
      omega
    rw [splitLoop, hindex, dif_neg (not_not.mpr rfl), hgap, if_pos hpos, substr, if_pos h]
    have hpiece : CppTry.substr s.bytes last (npos w - last) = s.bytes.drop last := by
      apply List.take_of_length_le
      rw [List.length_drop]
      unfold npos
      omega
    rw [hpiece]
    rfl

theorem split_eq (s : StdString w) (sp : List Byte) (v : List (List Byte)) :
    s.split sp v = some (StringUtil.split s.bytes sp v) := by
  unfold split StringUtil.split
  split
  next => rfl
  next => exact splitLoop_eq s sp v (Nat.zero_le _)

/-- The pieces in their order with the separators between them. -/
def rejoin (pieces : List (List Byte)) (seps : List Byte) : List Byte :=
  (pieces.zipWith (· ++ ·) (seps.map ([·]) ++ [[]])).flatten

/-- `Split` returns, and what it puts behind the old elements is the string cut at each of its
separators. -/
theorem split_lossless (s : StdString w) (sp : List Byte) (v : List (List Byte)) :
    ∃ pieces, s.split sp v = some (v ++ pieces) ∧ (s.bytes = [] → pieces = []) ∧
      (s.bytes ≠ [] → pieces.length = s.bytes.countP (· ∈ sp) + 1 ∧
        (∀ piece ∈ pieces, ∀ c ∈ piece, c ∉ sp) ∧
        rejoin pieces (s.bytes.filter (· ∈ sp)) = s.bytes) := by
  rw [split_eq]
  by_cases he : s.bytes = []
  · refine ⟨[], ?_, fun _ => rfl, fun hne => absurd he hne⟩
    rw [StringUtil.split, he, List.append_nil]
    rfl
  · refine ⟨s.bytes.splitOnP (· ∈ sp), ?_, fun hnil => absurd hnil he, fun _ => ⟨?_, ?_, ?_⟩⟩
    · rw [StringUtil.split_eq sp v he]
    · exact length_splitOnP s.bytes
    · intro piece hpiece c hc
      simpa using not_mem_of_mem_splitOnP hpiece c hc
    · exact List.splitOnP_spec s.bytes

end StdString

end CppTry
