import CppTry.StringFields
import Mathlib.Algebra.GroupWithZero.Nat

namespace CppTry

namespace DataUtil

/-- The kinds of fields a message is made of. -/
inductive Kind
  | uint16
  | int16
  | uint32
  | int32
  | uint64
  | int64
  | float
  | string (n : Nat)
  deriving DecidableEq

def Kind.Value : Kind → Type
  | uint16 => UInt16
  | int16 => Int16
  | uint32 => UInt32
  | int32 => Int32
  | uint64 => UInt64
  | int64 => Int64
  | float => Image 4
  | string _ => List Byte

/-- What `WriteString` asserts of its value. -/
def Kind.Asserted : (kind : Kind) → kind.Value → Prop
  | string _, value => List.length value + 1 ≤ 0x7FFFFFFF
  | _, _ => True

/-- A field to be written. -/
structure Field where
  kind : Kind
  value : kind.Value
  asserted : kind.Asserted value

def Kind.write (src : List Byte) (index : Int) :
    (kind : Kind) → kind.Value → Option (List Byte × Int)
  | uint16, value => writeUInt16 src index value
  | int16, value => writeInt16 src index value
  | uint32, value => writeUInt32 src index value
  | int32, value => writeInt32 src index value
  | uint64, value => writeUInt64 src index value
  | int64, value => writeInt64 src index value
  | float, value => writeFloat src index value
  | string n, value => writeString src index value n

/-- `Read(src, index, &index)`. -/
def Kind.read (src : List Byte) (index : Int) : (kind : Kind) → Option (kind.Value × Int)
  | uint16 => readUInt16 src index index
  | int16 => readInt16 src index index
  | uint32 => readUInt32 src index index
  | int32 => readInt32 src index index
  | uint64 => readUInt64 src index index
  | int64 => readInt64 src index index
  | float => readFloat src index index
  | string n => readString src index n

/-- The value a reader gets: a string only up to its first NUL, and no more than its width. -/
def Kind.restored : (kind : Kind) → kind.Value → kind.Value
  | string n, value => recovered value n
  | uint16, value => value
  | int16, value => value
  | uint32, value => value
  | int32, value => value
  | uint64, value => value
  | int64, value => value
  | float, value => value

def Kind.width : (kind : Kind) → kind.Value → Nat
  | uint16, _ => 2
  | int16, _ => 2
  | uint32, _ => 4
  | int32, _ => 4
  | uint64, _ => 8
  | int64, _ => 8
  | float, _ => 4
  | string n, value => stringWidth value n

/-- The fields one after another, with the position behind each of them. -/
def writeFields (src : List Byte) (index : Int) : List Field → Option (List Byte × List Int)
  | [] => some (src, [])
  | f :: fs => do
    let (src, index) ← f.kind.write src index f.value
    let (src, positions) ← writeFields src index fs
    pure (src, index :: positions)

def readFields (src : List Byte) (index : Int) :
    List Kind → Option (List ((kind : Kind) × kind.Value) × List Int)
  | [] => some ([], [])
  | kind :: kinds => do
    let (value, index) ← kind.read src index
    let (values, positions) ← readFields src index kinds
    pure (⟨kind, value⟩ :: values, index :: positions)

def Field.width (f : Field) : Nat := f.kind.width f.value

def Field.restored (f : Field) : (kind : Kind) × kind.Value := ⟨f.kind, f.kind.restored f.value⟩

/-- The number of bytes a message takes. -/
def messageSize (fs : List Field) : Nat := (fs.map Field.width).sum

section
variable {src : List Byte} {i : Nat}

/-- The writes a value of `kind` goes through, and how it comes back from wherever its bytes are. -/
def Kind.Stored (src : List Byte) (i : Nat) (kind : Kind) (value : kind.Value) : Prop :=
  ∃ block : List Byte, block.length = kind.width value ∧
    kind.write src i value = some (splice src i block, ((i + kind.width value : Nat) : Int)) ∧
    ∀ out : List Byte, i ≤ out.length → Holds out i block →
      kind.read out i = some (kind.restored value, ((i + kind.width value : Nat) : Int))

theorem Kind.stored_uint16 (value : UInt16) (h : i + 2 ≤ src.length) :
    Kind.Stored src i .uint16 value :=
  ⟨leBytes 2 value.toNat, length_leBytes 2 _, writeUInt16_eq value h,
    fun _ hi hb => readUInt16_holds i hi hb⟩

theorem Kind.stored_int16 (value : Int16) (h : i + 2 ≤ src.length) :
    Kind.Stored src i .int16 value := by
  refine ⟨leBytes 2 value.toUInt16.toNat, length_leBytes 2 _, writeUInt16_eq _ h, ?_⟩
  intro out hi hb
  change (readUInt16 out i i).map _ = _
  rw [readUInt16_holds i hi hb, Option.map_some]
  rfl

theorem Kind.stored_uint32 (value : UInt32) (h : i + 4 ≤ src.length) :
    Kind.Stored src i .uint32 value :=
  ⟨leBytes 4 value.toNat, length_leBytes 4 _, writeUInt32_eq value h,
    fun _ hi hb => readUInt32_holds i hi hb⟩

theorem Kind.stored_int32 (value : Int32) (h : i + 4 ≤ src.length) :
    Kind.Stored src i .int32 value := by
  refine ⟨leBytes 4 value.toUInt32.toNat, length_leBytes 4 _, writeUInt32_eq _ h, ?_⟩
  intro out hi hb
  change (readUInt32 out i i).map _ = _
  rw [readUInt32_holds i hi hb, Option.map_some]
  rfl

theorem Kind.stored_uint64 (value : UInt64) (h : i + 8 ≤ src.length) :
    Kind.Stored src i .uint64 value :=
  ⟨leBytes 8 value.toNat, length_leBytes 8 _, writeUInt64_eq value h,
    fun _ hi hb => readUInt64_holds i hi hb⟩

theorem Kind.stored_int64 (value : Int64) (h : i + 8 ≤ src.length) :
    Kind.Stored src i .int64 value := by
  refine ⟨leBytes 8 value.toUInt64.toNat, length_leBytes 8 _, writeUInt64_eq _ h, ?_⟩
  intro out hi hb
  change (readUInt64 out i i).map _ = _
  rw [readUInt64_holds i hi hb, Option.map_some]
  rfl

theorem Kind.stored_float (value : Image 4) (h : i + 4 ≤ src.length) :
    Kind.Stored src i .float value := by
  have hw := writeFloat_eq value h
  exact ⟨value.val, value.property, hw, fun _ hi hb => readFloat_holds i hi hb⟩

theorem Kind.stored_string {value : List Byte} {n : Nat} (hv : value.length + 1 ≤ 0x7FFFFFFF)
    (hs : i + stringWidth value n ≤ src.length) (hb : i + stringWidth value n < 2 ^ 31) :
    Kind.Stored src i (.string n) value := by
  by_cases hn : n = 0
  · subst hn
    have hroom : stringWidth value 0 = 4 + (value.length + 1) := if_pos rfl
    rw [hroom] at hs hb
    have hle := (List.takeWhile_prefix (l := value) (· ≠ 0)).length_le
    have hw : writeString src i value 0 = some _ :=
      writeString_prefixed hv (by omega) (by omega)
    -- the NUL may stand before the end of the room, and what lies behind it is left as it was
    have hext := splice_extend src (leBytes 4 (value.length + 1) ++ (value.takeWhile (· ≠ 0) ++ [0]))
      i (value.length - (value.takeWhile (· ≠ 0)).length)
    rw [← hext, List.append_assoc, List.append_assoc, List.singleton_append] at hw
    have hlen : (value.takeWhile (· ≠ 0) ++ 0 :: (src.drop (i + (leBytes 4 (value.length + 1) ++
        (value.takeWhile (· ≠ 0) ++ [0])).length)).take
          (value.length - (value.takeWhile (· ≠ 0)).length)).length = value.length + 1 := by
      simp only [List.length_append, List.length_cons, List.length_take, List.length_drop,
        length_leBytes, List.length_nil]
      omega
    refine ⟨_, ?_, hw, fun out hi hb' => readString_holds hi hv hlen (by omega) hb'⟩
    rw [List.length_append, hlen, length_leBytes]
    exact hroom.symm
  · have hroom : stringWidth value n = n := if_neg hn
    rw [hroom] at hs hb
    have hw := writeString_fixed (Nat.pos_of_ne_zero hn) hv hs hb
    refine ⟨padded value n, ?_, ?_, fun out hi hb' => ?_⟩
    · change _ = stringWidth value n
      rw [hroom, length_padded]
    · change writeString src i value n = some (_, ((i + stringWidth value n : Nat) : Int))
      rw [hroom, hw]
    · change readString out i n = some (_, ((i + stringWidth value n : Nat) : Int))
      rw [hroom]
      exact readString_fixed (by omega) hi hb hb'

theorem Field.stored (f : Field) (hs : i + f.width ≤ src.length) (hb : i + f.width < 2 ^ 31) :
    f.kind.Stored src i f.value := by
  obtain ⟨kind, value, hv⟩ := f
  cases kind with
  | uint16 => exact Kind.stored_uint16 value hs
  | int16 => exact Kind.stored_int16 value hs
  | uint32 => exact Kind.stored_uint32 value hs
  | int32 => exact Kind.stored_int32 value hs
  | uint64 => exact Kind.stored_uint64 value hs
  | int64 => exact Kind.stored_int64 value hs
  | float => exact Kind.stored_float value hs
  | string n => exact Kind.stored_string hv hs hb

/-- The whole message lands in the buffer, and comes back from wherever its bytes are. -/
theorem writeFields_stored (fs : List Field) (hs : i + messageSize fs ≤ src.length)
    (hb : i + messageSize fs < 2 ^ 31) :
    ∃ (block : List Byte) (positions : List Int), block.length = messageSize fs ∧
      writeFields src i fs = some (splice src i block, positions) ∧
      ((i : Int) :: positions).getLast (by simp) = (i + messageSize fs : Nat) ∧
      ∀ out : List Byte, i ≤ out.length → Holds out i block →
        readFields out i (fs.map Field.kind) = some (fs.map Field.restored, positions) := by
  induction fs generalizing src i with
  | nil => exact ⟨[], [], rfl, by rw [splice_nil]; rfl, rfl, fun _ _ _ => rfl⟩
  | cons f fs ih =>
    have hsize : messageSize (f :: fs) = f.width + messageSize fs := by
      simp [messageSize]
    rw [hsize] at hs hb
    have hf : f.kind.Stored src i f.value := f.stored (by omega) (by omega)
    obtain ⟨block, hl, hw, hr⟩ := hf
    change block.length = f.width at hl
    have hlen : (splice src i block).length = src.length := length_splice (by omega)
    obtain ⟨blocks, positions, hls, hws, hlast, hrs⟩ :=
      @ih (splice src i block) (i + f.width) (by omega) (by omega)
    have hjoin : splice (splice src i block) (i + block.length) blocks = _ :=
      splice_splice (by omega)
    rw [hl] at hjoin
    rw [hjoin] at hws
    refine ⟨block ++ blocks, ((i + f.width : Nat) : Int) :: positions, ?_, ?_, ?_, ?_⟩
    · rw [List.length_append, hl, hls, hsize]
    · rw [writeFields, hw]
      change (writeFields _ ((i + f.width : Nat) : Int) fs).bind _ = _
      rw [hws]
      rfl
    · rw [hsize, ← Nat.add_assoc, ← hlast, List.getLast_cons (by simp)]
    · intro out hi hout
      have hfirst := hr out hi hout.left
      have hrest := hout.right
      have hle := hout.left.le hi
      rw [hl] at hrest hle
      rw [List.map_cons, readFields, hfirst]
      change (readFields out ((i + f.width : Nat) : Int) _).bind _ = _
      rw [hrs out hle hrest]
      rfl

/-- A message written field by field is read back field by field from the same positions, and
nothing outside it changes. -/
theorem message_roundtrip (fs : List Field) (src : List Byte) (start : Nat)
    (hs : start + messageSize fs ≤ src.length) (hb : start + messageSize fs < 2 ^ 31) :
    ∃ (out : List Byte) (positions : List Int),
      writeFields src start fs = some (out, positions) ∧
      readFields out start (fs.map Field.kind) = some (fs.map Field.restored, positions) ∧
      ((start : Int) :: positions).getLast (by simp) = (start + messageSize fs : Nat) ∧
      out.length = src.length ∧
      ∀ j, j < start ∨ start + messageSize fs ≤ j → out[j]? = src[j]? := by
  obtain ⟨block, positions, hl, hw, hlast, hr⟩ := writeFields_stored fs hs hb
  have hlen : (splice src start block).length = src.length := length_splice (by omega)
  refine ⟨_, positions, hw, hr _ (by omega) (splice_holds (by omega)), hlast, hlen, ?_⟩
  intro j hj
  exact getElem?_splice (by omega) (by omega)

end

/-- A number, a string with a NUL in it, a string cut to two bytes, and a `float`. -/
def someFields : List Field :=
  [⟨.int16, (-2 : Int16), trivial⟩, ⟨.string 0, [65, 0, 66], show 3 + 1 ≤ 0x7FFFFFFF by omega⟩,
    ⟨.string 2, [67, 68, 69], show 3 + 1 ≤ 0x7FFFFFFF by omega⟩, ⟨.float, ⟨[0, 0, 128, 63], rfl⟩, trivial⟩]

theorem someFields_roundtrip : ∃ (out : List Byte) (positions : List Int),
    writeFields (zeros 20) 3 someFields = some (out, positions) ∧
    readFields out 3 [.int16, .string 0, .string 2, .float] =
      some ([⟨.int16, (-2 : Int16)⟩, ⟨.string 0, ([65] : List Byte)⟩,
        ⟨.string 2, ([67, 68] : List Byte)⟩,
        ⟨.float, (⟨[0, 0, 128, 63], rfl⟩ : Image 4)⟩], positions) ∧
    ∀ j, j < 3 ∨ 19 ≤ j → out[j]? = (zeros 20)[j]? := by
  obtain ⟨out, positions, hw, hr, _, _, ho⟩ :=
    message_roundtrip someFields (zeros 20) 3 (by decide) (by decide)
  exact ⟨out, positions, hw, hr, ho⟩

end DataUtil

end CppTry
