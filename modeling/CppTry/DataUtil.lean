import CppTry.LittleEndian
import CppTry.Memory

namespace CppTry

namespace DataUtil

/-- The stores of `WriteUInt16`, `WriteUInt32` and `WriteUInt64`: the highest address first. -/
def writeBytes (src : List Byte) (index : Int) : List Byte → Option (List Byte)
  | [] => some src
  | b :: bs => do
    let out ← writeBytes src (index + 1) bs
    writeByte out index b

def writeUInt64 (src : List Byte) (index : Int) (value : UInt64) : Option (List Byte × Int) := do
  let out ← writeBytes src index
    [(value &&& 0xFF).toUInt8, ((value >>> 8) &&& 0xFF).toUInt8, ((value >>> 16) &&& 0xFF).toUInt8,
      ((value >>> 24) &&& 0xFF).toUInt8, ((value >>> 32) &&& 0xFF).toUInt8,
      ((value >>> 40) &&& 0xFF).toUInt8, ((value >>> 48) &&& 0xFF).toUInt8,
      ((value >>> 56) &&& 0xFF).toUInt8]
  pure (out, index + 8)

/-- The caller's `*next` goes in and comes out, for the readers add to it. -/
def readUInt64 (src : List Byte) (index next : Int) : Option (UInt64 × Int) := do
  let b7 ← readByte src (index + 7)
  let b6 ← readByte src (index + 6)
  let b5 ← readByte src (index + 5)
  let b4 ← readByte src (index + 4)
  let b3 ← readByte src (index + 3)
  let b2 ← readByte src (index + 2)
  let b1 ← readByte src (index + 1)
  let b0 ← readByte src index
  pure (b7.toUInt64 <<< 56 ||| b6.toUInt64 <<< 48 ||| b5.toUInt64 <<< 40 ||| b4.toUInt64 <<< 32 |||
    b3.toUInt64 <<< 24 ||| b2.toUInt64 <<< 16 ||| b1.toUInt64 <<< 8 ||| b0.toUInt64, next + 8)

def writeUInt32 (src : List Byte) (index : Int) (value : UInt32) : Option (List Byte × Int) := do
  let out ← writeBytes src index
    [(value &&& 0xFF).toUInt8, ((value >>> 8) &&& 0xFF).toUInt8, ((value >>> 16) &&& 0xFF).toUInt8,
      ((value >>> 24) &&& 0xFF).toUInt8]
  pure (out, index + 4)

def readUInt32 (src : List Byte) (index next : Int) : Option (UInt32 × Int) := do
  let b3 ← readByte src (index + 3)
  let b2 ← readByte src (index + 2)
  let b1 ← readByte src (index + 1)
  let b0 ← readByte src index
  pure (b3.toUInt32 <<< 24 ||| b2.toUInt32 <<< 16 ||| b1.toUInt32 <<< 8 ||| b0.toUInt32, next + 4)

def writeUInt16 (src : List Byte) (index : Int) (value : UInt16) : Option (List Byte × Int) := do
  let out ← writeBytes src index [(value &&& 0xFF).toUInt8, ((value >>> 8) &&& 0xFF).toUInt8]
  pure (out, index + 2)

def readUInt16 (src : List Byte) (index next : Int) : Option (UInt16 × Int) := do
  let b1 ← readByte src (index + 1)
  let b0 ← readByte src index
  pure (b1.toUInt16 <<< 8 ||| b0.toUInt16, next + 2)

def writeInt64 (src : List Byte) (index : Int) (value : Int64) : Option (List Byte × Int) :=
  writeUInt64 src index value.toUInt64

def readInt64 (src : List Byte) (index next : Int) : Option (Int64 × Int) :=
  (readUInt64 src index next).map fun r => (r.1.toInt64, r.2)

def writeInt32 (src : List Byte) (index : Int) (value : Int32) : Option (List Byte × Int) :=
  writeUInt32 src index value.toUInt32

def readInt32 (src : List Byte) (index next : Int) : Option (Int32 × Int) :=
  (readUInt32 src index next).map fun r => (r.1.toInt32, r.2)

def writeInt16 (src : List Byte) (index : Int) (value : Int16) : Option (List Byte × Int) :=
  writeUInt16 src index value.toUInt16

def readInt16 (src : List Byte) (index next : Int) : Option (Int16 × Int) :=
  (readUInt16 src index next).map fun r => (r.1.toInt16, r.2)

/-- A `float` is the four bytes that represent it. -/
def writeFloat (src : List Byte) (index : Int) (value : Image 4) : Option (List Byte × Int) := do
  let out ← memcpy src index value.val 0 4
  pure (out, index + 4)

def readFloat (src : List Byte) (index next : Int) : Option (Image 4 × Int) := do
  let ret ← readImage 4 src index
  pure (ret, next + 4)

def readDouble (src : List Byte) (index next : Int) : Option (Image 8 × Int) := do
  let ret ← readImage 8 src index
  pure (ret, next + 8)

/-- `value.c_str()` is the string and a NUL. -/
def writeString (src : List Byte) (index : Int) (value : List Byte) (n : Int) :
    Option (List Byte × Int) := do
  let len := (Int32.ofNat (value.length + 1)).toInt
  if n = 0 then
    let (out, index) ← writeInt32 src index (Int32.ofNat (value.length + 1))
    let out ← strcpy out index (value ++ [0])
    pure (out, wrap32 (index + len))
  else
    let num := min len n
    let out ← memcpy src index (value ++ [0]) 0 num
    let out ← if num < n then memset out (index + num) 0 (n - num) else some out
    pure (out, wrap32 (index + n))

/-- `ReadString`: the length prefix (or `n`) becomes a `size_t` for `strnlen`, so a
negative one lets the scan run to the first NUL; `*next` is set, not added to. -/
def readString (src : List Byte) (index : Int) (n : Int) : Option (List Byte × Int) := do
  let (len, index) ← if n = 0 then
      (readInt32 src index index).map fun r => (r.1.toInt, r.2)
    else some (n, index)
  let strlen ← strnlen src index (len % 2 ^ 64).toNat
  pure ((src.drop index.toNat).take strlen, wrap32 (index + len))

/-- The length that stands before a string written with `n = 0`. -/
def lengthPrefix (src : List Byte) (i : Nat) : Int :=
  (UInt32.ofNat (leValue ((src.drop i).take 4))).toInt32.toInt

theorem writeByte_splice {src ys : List Byte} {i : Nat} {y : Byte}
    (h : i + 1 + ys.length ≤ src.length) :
    writeByte (splice src (i + 1) ys) i y = some (splice src i (y :: ys)) := by
  have hl : (splice src (i + 1) ys).length = src.length := length_splice h
  unfold writeByte
  rw [if_pos (by omega), Int.toNat_natCast, set_splice (by omega)]

theorem writeBytes_eq {src bs : List Byte} {i : Nat} (h : i + bs.length ≤ src.length) :
    writeBytes src i bs = some (splice src i bs) := by
  induction bs generalizing i with
  | nil => simp [writeBytes]
  | cons b bs ih =>
    simp only [List.length_cons] at h
    have ht := ih (i := i + 1) (by omega)
    rw [Int.natCast_add, Int.natCast_one] at ht
    rw [writeBytes, ht]
    exact writeByte_splice (by omega)

theorem writeUInt64_eq {src : List Byte} {i : Nat} (value : UInt64) (h : i + 8 ≤ src.length) :
    writeUInt64 src i value = some (splice src i (leBytes 8 value.toNat), (i : Int) + 8) := by
  rw [writeUInt64, splitUInt64, writeBytes_eq (by rw [length_leBytes]; omega)]
  rfl

theorem writeUInt32_eq {src : List Byte} {i : Nat} (value : UInt32) (h : i + 4 ≤ src.length) :
    writeUInt32 src i value = some (splice src i (leBytes 4 value.toNat), (i : Int) + 4) := by
  rw [writeUInt32, splitUInt32, writeBytes_eq (by rw [length_leBytes]; omega)]
  rfl

theorem writeUInt16_eq {src : List Byte} {i : Nat} (value : UInt16) (h : i + 2 ≤ src.length) :
    writeUInt16 src i value = some (splice src i (leBytes 2 value.toNat), (i : Int) + 2) := by
  rw [writeUInt16, splitUInt16, writeBytes_eq (by rw [length_leBytes]; omega)]
  rfl

theorem readByte_add (src : List Byte) (i k : Nat) :
    readByte src (i + k) = (src.drop i)[k]? := by
  rw [← Int.natCast_add, readByte_natCast, List.getElem?_drop]

theorem readUInt64_eq {src : List Byte} {i : Nat} (next : Int) (h : i + 8 ≤ src.length) :
    readUInt64 src i next = some (UInt64.ofNat (leValue ((src.drop i).take 8)), next + 8) := by
  have hl : 8 ≤ (src.drop i).length := by rw [List.length_drop]; omega
  have h0 : readByte src i = _ := readByte_add src i 0
  have h1 : readByte src (i + 1) = _ := readByte_add src i 1
  have h2 : readByte src (i + 2) = _ := readByte_add src i 2
  have h3 : readByte src (i + 3) = _ := readByte_add src i 3
  have h4 : readByte src (i + 4) = _ := readByte_add src i 4
  have h5 : readByte src (i + 5) = _ := readByte_add src i 5
  have h6 : readByte src (i + 6) = _ := readByte_add src i 6
  have h7 : readByte src (i + 7) = _ := readByte_add src i 7
  match hd : src.drop i, hl with
  | b0 :: b1 :: b2 :: b3 :: b4 :: b5 :: b6 :: b7 :: rest, _ =>
    rw [hd] at h0 h1 h2 h3 h4 h5 h6 h7
    simp only [readUInt64, h0, h1, h2, h3, h4, h5, h6, h7, joinUInt64]
    rfl

theorem readUInt32_eq {src : List Byte} {i : Nat} (next : Int) (h : i + 4 ≤ src.length) :
    readUInt32 src i next = some (UInt32.ofNat (leValue ((src.drop i).take 4)), next + 4) := by
  have hl : 4 ≤ (src.drop i).length := by rw [List.length_drop]; omega
  have h0 : readByte src i = _ := readByte_add src i 0
  have h1 : readByte src (i + 1) = _ := readByte_add src i 1
  have h2 : readByte src (i + 2) = _ := readByte_add src i 2
  have h3 : readByte src (i + 3) = _ := readByte_add src i 3
  match hd : src.drop i, hl with
  | b0 :: b1 :: b2 :: b3 :: rest, _ =>
    rw [hd] at h0 h1 h2 h3
    simp only [readUInt32, h0, h1, h2, h3, joinUInt32]
    rfl

theorem readUInt16_eq {src : List Byte} {i : Nat} (next : Int) (h : i + 2 ≤ src.length) :
    readUInt16 src i next = some (UInt16.ofNat (leValue ((src.drop i).take 2)), next + 2) := by
  have hl : 2 ≤ (src.drop i).length := by rw [List.length_drop]; omega
  have h0 : readByte src i = _ := readByte_add src i 0
  have h1 : readByte src (i + 1) = _ := readByte_add src i 1
  match hd : src.drop i, hl with
  | b0 :: b1 :: rest, _ =>
    rw [hd] at h0 h1
    simp only [readUInt16, h0, h1, joinUInt16]
    rfl

section
variable {src : List Byte} {i : Nat} (next : Int) (hi : i ≤ src.length)
include hi

theorem readUInt64_holds {value : UInt64} (h : Holds src i (leBytes 8 value.toNat)) :
    readUInt64 src i next = some (value, next + 8) := by
  have hle := h.le hi
  rw [Holds, length_leBytes] at h
  rw [length_leBytes] at hle
  rw [readUInt64_eq next hle, h, uint64_leBytes]

theorem readUInt32_holds {value : UInt32} (h : Holds src i (leBytes 4 value.toNat)) :
    readUInt32 src i next = some (value, next + 4) := by
  have hle := h.le hi
  rw [Holds, length_leBytes] at h
  rw [length_leBytes] at hle
  rw [readUInt32_eq next hle, h, uint32_leBytes]

theorem readUInt16_holds {value : UInt16} (h : Holds src i (leBytes 2 value.toNat)) :
    readUInt16 src i next = some (value, next + 2) := by
  have hle := h.le hi
  rw [Holds, length_leBytes] at h
  rw [length_leBytes] at hle
  rw [readUInt16_eq next hle, h, uint16_leBytes]

theorem readImage_holds {n : Nat} {value : Image n} (h : Holds src i value.val) :
    readImage n src i = some value := by
  have hle := h.le hi
  rw [Holds, value.property] at h
  rw [value.property] at hle
  unfold readImage
  rw [dif_pos (by omega)]
  exact congrArg some (Subtype.ext h)

theorem readFloat_holds {value : Image 4} (h : Holds src i value.val) :
    readFloat src i next = some (value, next + 4) := by
  rw [readFloat, readImage_holds hi h]
  rfl

end

theorem writeFloat_eq {src : List Byte} {i : Nat} (value : Image 4) (h : i + 4 ≤ src.length) :
    writeFloat src i value = some (splice src i value.val, (i : Int) + 4) := by
  have hv := value.property
  have hc : memcpy src i value.val (0 : Nat) (4 : Nat) = some _ := memcpy_eq_some h (by omega)
  rw [List.drop_zero, List.take_of_length_le (by omega)] at hc
  unfold writeFloat
  change (memcpy src i value.val (0 : Nat) (4 : Nat)).bind _ = _
  rw [hc]
  rfl

/-- Where `ReadString` looks for the string, and for how much of it. -/
theorem readString_prefixed {src : List Byte} {i : Nat} (h : i + 4 ≤ src.length) :
    readString src i 0 = (strnlen src (i + 4 : Nat) (lengthPrefix src i % 2 ^ 64).toNat).map
      fun k => ((src.drop (i + 4)).take k, wrap32 ((i + 4 : Nat) + lengthPrefix src i)) := by
  have hr : readInt32 src i i = some _ := congrArg _ (readUInt32_eq i h)
  unfold readString
  rw [if_pos rfl, hr]
  change (strnlen src (i + 4 : Nat) (lengthPrefix src i % 2 ^ 64).toNat).bind _ = _
  cases strnlen src (i + 4 : Nat) (lengthPrefix src i % 2 ^ 64).toNat <;> rfl

end DataUtil

end CppTry
