import CppTry.Memory

namespace CppTry

/-- `ByteBuffer`: an array of `size` bytes whose first `length` are in use. -/
structure ByteBuffer where
  data : List Byte
  size : Int
  length : Int
deriving DecidableEq

namespace ByteBuffer

/-- The constructor; the fresh array's bytes are never read before they are written. -/
def new (size : Int) : ByteBuffer := ⟨zeros size.toNat, size, 0⟩

def addData (b : ByteBuffer) (data : List Byte) (len : Int) : Option (Bool × ByteBuffer) :=
  if wrap32 (b.length + len) > b.size then some (false, b)
  else do
    let out ← memcpy b.data b.length data 0 len
    pure (true, { b with data := out, length := b.length + len })

/-- The release build drops the `assert`s of `GetData` and `RemoveData`. -/
def getData (b : ByteBuffer) (dst : List Byte) (index len : Int) : Option (List Byte) :=
  memcpy dst 0 b.data index len

/-- The rest moves back within one array: the copy ascends, as `memmove` does here. -/
def removeData (b : ByteBuffer) (len : Int) : Option ByteBuffer :=
  let rest := wrap32 (b.length - len)
  if 0 < rest then do
    let out ← memcpy b.data 0 b.data len rest
    pure { b with data := out, length := rest }
  else some { b with length := rest }

def clear (b : ByteBuffer) : ByteBuffer := { b with length := 0 }

/-- The bytes in use. -/
def contents (b : ByteBuffer) : List Byte := b.data.take b.length.toNat

/-- What the operations keep while their arguments are in range. -/
structure Valid (b : ByteBuffer) : Prop where
  data_length : (b.data.length : Int) = b.size
  length_nonneg : 0 ≤ b.length
  length_le : b.length ≤ b.size
  size_lt : b.size < 2 ^ 31

theorem new_valid {size : Int} (hp : 0 ≤ size) (hs : size < 2 ^ 31) : (new size).Valid :=
  ⟨by simp only [new, length_zeros]; omega, Int.le_refl 0, hp, hs⟩

theorem Valid.contents_length {b : ByteBuffer} (hv : b.Valid) :
    (b.contents.length : Int) = b.length := by
  obtain ⟨hd, hn, hl, hs⟩ := hv
  simp only [contents, List.length_take]
  omega

theorem addData_fits {b : ByteBuffer} {data : List Byte} {n : Nat} (hv : b.Valid)
    (hn : n ≤ data.length) (hf : b.length + n ≤ b.size) :
    ∃ b', b.addData data n = some (true, b') ∧ b'.Valid ∧ b'.size = b.size ∧
      b'.contents = b.contents ++ data.take n := by
  obtain ⟨hd, h0, hl, hs⟩ := hv
  have hg : ¬ wrap32 (b.length + n) > b.size := by
    rw [wrap32_eq (by omega) (by omega)]
    omega
  obtain ⟨k, hk⟩ := Int.eq_ofNat_of_zero_le h0
  have hm : memcpy b.data k data (0 : Nat) n = some _ := memcpy_eq_some (by omega) (by omega)
  rw [List.drop_zero, Int.natCast_zero] at hm
  have ht : (data.take n).length = n := by rw [List.length_take]; omega
  have hlen : (splice b.data k (data.take n)).length = b.data.length := length_splice (by omega)
  refine ⟨⟨splice b.data k (data.take n), b.size, b.length + n⟩, ?_, ⟨?_, ?_, hf, hs⟩, rfl, ?_⟩
  · rw [addData, if_neg hg, hk, hm]
    rfl
  · rw [hlen, hd]
  · change 0 ≤ b.length + n
    omega
  · have he : (b.length + (n : Int)).toNat = k + (data.take n).length := by omega
    simp only [contents, he]
    rw [take_splice (by omega), hk]
    rfl

/-- A block that does not fit is refused and changes nothing. -/
theorem addData_refused {b : ByteBuffer} {data : List Byte} {len : Int} (hv : b.Valid)
    (hl : b.length + len < 2 ^ 31) (hf : b.size < b.length + len) :
    b.addData data len = some (false, b) := by
  obtain ⟨hd, hn, hle, hs⟩ := hv
  unfold addData
  rw [if_pos]
  rw [wrap32_eq (by omega) hl]
  exact hf

theorem addData_some {b b' : ByteBuffer} {data : List Byte} {len : Int} {ok : Bool} (hv : b.Valid)
    (h : b.addData data len = some (ok, b')) :
    b'.Valid ∧ b'.size = b.size ∧ ∃ more, b'.contents = b.contents ++ more := by
  have hsame := h
  unfold addData at h
  split at h
  next =>
    cases h
    exact ⟨hv, rfl, [], (List.append_nil _).symm⟩
  next =>
    obtain ⟨out, hm, _⟩ := Option.bind_eq_some_iff.mp h
    unfold memcpy at hm
    split at hm
    next hbounds =>
      obtain ⟨hlen, _, hroom, _, hdata⟩ := hbounds
      obtain ⟨n, rfl⟩ := Int.eq_ofNat_of_zero_le hlen
      have hsize := hv.data_length
      obtain ⟨b'', he, hvalid, hb, hcontents⟩ := addData_fits hv
        (show n ≤ data.length by omega) (by omega)
      rw [he] at hsame
      cases hsame
      exact ⟨hvalid, hb, data.take n, hcontents⟩
    next => cases hm

theorem removeData_valid {b : ByteBuffer} {n : Nat} (hv : b.Valid) (hn : n ≤ b.length) :
    ∃ b', b.removeData n = some b' ∧ b'.Valid ∧ b'.size = b.size ∧
      b'.contents = b.contents.drop n := by
  obtain ⟨hd, h0, hl, hs⟩ := hv
  obtain ⟨k, hk⟩ := Int.eq_ofNat_of_zero_le (show 0 ≤ b.length - n by omega)
  have hw : wrap32 (b.length - n) = k := by rw [wrap32_eq (by omega) (by omega), hk]
  have hc : b.contents.drop n = (b.data.drop n).take k := by
    rw [contents, List.drop_take]
    congr 1
    omega
  rw [hc]
  unfold removeData
  simp only [hw]
  by_cases hp : 0 < (k : Int)
  · have hm : memcpy b.data (0 : Nat) b.data n k = some _ := memcpy_eq_some (by omega) (by omega)
    have hlen : ((b.data.drop n).take k).length = k := by
      simp only [List.length_take, List.length_drop]
      omega
    have ht : (splice b.data 0 ((b.data.drop n).take k)).take (0 + ((b.data.drop n).take k).length) =
        _ := take_splice (by omega)
    rw [hlen] at ht
    rw [if_pos hp]
    refine ⟨⟨splice b.data 0 ((b.data.drop n).take k), b.size, k⟩, ?_, ⟨?_, ?_, ?_, hs⟩, rfl, ?_⟩
    · rw [show ((0 : Nat) : Int) = 0 from rfl] at hm
      rw [hm]
      rfl
    · rw [length_splice (by omega), hd]
    · exact Int.natCast_nonneg k
    · change (k : Int) ≤ b.size
      omega
    · simpa [contents] using ht
  · have hz : k = 0 := by omega
    subst k
    exact ⟨⟨b.data, b.size, 0⟩, by simp, ⟨hd, Int.le_refl 0, by change 0 ≤ b.size; omega, hs⟩, rfl,
      by simp [contents]⟩

theorem getData_valid {b : ByteBuffer} {dst : List Byte} {index len : Nat} (hv : b.Valid)
    (hi : index + len ≤ b.length) (hd : len ≤ dst.length) :
    b.getData dst index len = some (splice dst 0 ((b.contents.drop index).take len)) := by
  have hl := hv.data_length
  have hs := hv.length_le
  have hm : memcpy dst (0 : Nat) b.data index len = some _ := memcpy_eq_some (by omega) (by omega)
  have hc : (b.contents.drop index).take len = (b.data.drop index).take len := by
    rw [contents, List.drop_take, List.take_take]
    congr 1
    omega
  rw [hc]
  exact hm

end ByteBuffer

end CppTry
