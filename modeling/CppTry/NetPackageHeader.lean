import CppTry.DataUtil

namespace CppTry

structure NetPackageHeader where
  sign : Byte
  randSeed : Byte
  checkSum : Byte
  node : Byte
  compress : Int32
  index : Int16
  recvIndex : Int16
  command : Int32
  guid : Int64
  bodySize : Int32
deriving DecidableEq

namespace NetPackageHeader

def headerSign : Byte := 0x58

def headerSize : Int := 1 + 1 + 1 + 1 + 4 + 2 + 2 + 4 + 8 + 4

/-- The header after its constructor. -/
def new : NetPackageHeader := ⟨0, 0, 0, 0, 0, 0, 0, 0, 0, 0⟩

def reset (h : NetPackageHeader) : NetPackageHeader :=
  { h with sign := 0, randSeed := 0, checkSum := 0, compress := 0, index := 0, recvIndex := 0,
           command := 0, node := 0, guid := 0, bodySize := 0 }

def setSign (h : NetPackageHeader) : NetPackageHeader := { h with sign := headerSign }

def unpack (src : List Byte) (index : Int) : Option (NetPackageHeader × Int) := do
  let sign ← readByte src index
  let randSeed ← readByte src (index + 1)
  let checkSum ← readByte src (index + 2)
  let node ← readByte src (index + 3)
  let i := index + 4
  let (compress, i) ← DataUtil.readInt32 src i i
  let (idx, i) ← DataUtil.readInt16 src i i
  let (recvIndex, i) ← DataUtil.readInt16 src i i
  let (command, i) ← DataUtil.readInt32 src i i
  let (guid, i) ← DataUtil.readInt64 src i i
  let (bodySize, i) ← DataUtil.readInt32 src i i
  pure (⟨sign, randSeed, checkSum, node, compress, idx, recvIndex, command, guid, bodySize⟩, i)

def pack (h : NetPackageHeader) (src : List Byte) (index : Int) : Option (List Byte × Int) := do
  let src ← writeByte src index h.sign
  let src ← writeByte src (index + 1) h.randSeed
  let src ← writeByte src (index + 2) h.checkSum
  let src ← writeByte src (index + 3) h.node
  let (src, i) ← DataUtil.writeInt32 src (index + 4) h.compress
  let (src, i) ← DataUtil.writeInt16 src i h.index
  let (src, i) ← DataUtil.writeInt16 src i h.recvIndex
  let (src, i) ← DataUtil.writeInt32 src i h.command
  let (src, i) ← DataUtil.writeInt64 src i h.guid
  DataUtil.writeInt32 src i h.bodySize

/-- The 28 bytes of a header on the wire. -/
def encode (h : NetPackageHeader) : List Byte :=
  [h.sign, h.randSeed, h.checkSum, h.node] ++ leBytes 4 h.compress.toUInt32.toNat ++
    leBytes 2 h.index.toUInt16.toNat ++ leBytes 2 h.recvIndex.toUInt16.toNat ++
    leBytes 4 h.command.toUInt32.toNat ++ leBytes 8 h.guid.toUInt64.toNat ++
    leBytes 4 h.bodySize.toUInt32.toNat

def field (bs : List Byte) (i n : Nat) : Nat := leValue ((bs.drop i).take n)

/-- The header that the first 28 bytes of `bs` stand for. -/
def decode (bs : List Byte) : NetPackageHeader where
  sign := bs.getD 0 0
  randSeed := bs.getD 1 0
  checkSum := bs.getD 2 0
  node := bs.getD 3 0
  compress := (UInt32.ofNat (field bs 4 4)).toInt32
  index := (UInt16.ofNat (field bs 8 2)).toInt16
  recvIndex := (UInt16.ofNat (field bs 10 2)).toInt16
  command := (UInt32.ofNat (field bs 12 4)).toInt32
  guid := (UInt64.ofNat (field bs 16 8)).toInt64
  bodySize := (UInt32.ofNat (field bs 24 4)).toInt32

@[simp] theorem length_encode (h : NetPackageHeader) : h.encode.length = 28 := by
  simp [encode]

theorem readByte_at {src : List Byte} {i k : Nat} (h : i + k < src.length) :
    readByte src (i + k) = some ((src.drop i).getD k 0) := by
  rw [DataUtil.readByte_add, List.getD_eq_getElem?_getD,
    List.getElem?_eq_getElem (by rw [List.length_drop]; omega)]
  rfl

theorem readInt64_at {src : List Byte} {i k : Nat} (h : i + k + 8 ≤ src.length) :
    DataUtil.readInt64 src (i + k) (i + k) =
      some ((UInt64.ofNat (field (src.drop i) k 8)).toInt64, (i : Int) + (k + 8 : Nat)) := by
  have hr := DataUtil.readUInt64_eq (i := i + k) (i + k : Nat) h
  rw [DataUtil.readInt64, field, List.drop_drop, ← Int.natCast_add, hr]
  simp only [Option.map_some, Int.natCast_add, Int.add_assoc]
  rfl

theorem readInt32_at {src : List Byte} {i k : Nat} (h : i + k + 4 ≤ src.length) :
    DataUtil.readInt32 src (i + k) (i + k) =
      some ((UInt32.ofNat (field (src.drop i) k 4)).toInt32, (i : Int) + (k + 4 : Nat)) := by
  have hr := DataUtil.readUInt32_eq (i := i + k) (i + k : Nat) h
  rw [DataUtil.readInt32, field, List.drop_drop, ← Int.natCast_add, hr]
  simp only [Option.map_some, Int.natCast_add, Int.add_assoc]
  rfl

theorem readInt16_at {src : List Byte} {i k : Nat} (h : i + k + 2 ≤ src.length) :
    DataUtil.readInt16 src (i + k) (i + k) =
      some ((UInt16.ofNat (field (src.drop i) k 2)).toInt16, (i : Int) + (k + 2 : Nat)) := by
  have hr := DataUtil.readUInt16_eq (i := i + k) (i + k : Nat) h
  rw [DataUtil.readInt16, field, List.drop_drop, ← Int.natCast_add, hr]
  simp only [Option.map_some, Int.natCast_add, Int.add_assoc]
  rfl

theorem unpack_eq {src : List Byte} {i : Nat} (h : i + 28 ≤ src.length) :
    unpack src i = some (decode (src.drop i), (i : Int) + 28) := by
  have h0 : readByte src i = some _ := readByte_at (k := 0) (by omega)
  have h1 : readByte src (i + 1) = some _ := readByte_at (k := 1) (by omega)
  have h2 : readByte src (i + 2) = some _ := readByte_at (k := 2) (by omega)
  have h3 : readByte src (i + 3) = some _ := readByte_at (k := 3) (by omega)
  have hc : DataUtil.readInt32 src (i + 4) (i + 4) = some (_, (i : Int) + 8) :=
    readInt32_at (k := 4) (by omega)
  have hi : DataUtil.readInt16 src (i + 8) (i + 8) = some (_, (i : Int) + 10) :=
    readInt16_at (k := 8) (by omega)
  have hr : DataUtil.readInt16 src (i + 10) (i + 10) = some (_, (i : Int) + 12) :=
    readInt16_at (k := 10) (by omega)
  have hm : DataUtil.readInt32 src (i + 12) (i + 12) = some (_, (i : Int) + 16) :=
    readInt32_at (k := 12) (by omega)
  have hg : DataUtil.readInt64 src (i + 16) (i + 16) = some (_, (i : Int) + 24) :=
    readInt64_at (k := 16) (by omega)
  have hb : DataUtil.readInt32 src (i + 24) (i + 24) = some (_, (i : Int) + 28) :=
    readInt32_at (k := 24) (by omega)
  simp only [unpack, h0, h1, h2, h3, hc, hi, hr, hm, hg, hb, Option.bind_eq_bind, Option.bind_some]
  rfl

/-- One store of `Pack` behind the `k` bytes it has already written. -/
theorem writeByte_at {src ys : List Byte} {i k : Nat} (b : Byte) (hk : ys.length = k)
    (h : i + k < src.length) :
    writeByte (splice src i ys) (i + k) b = some (splice src i (ys ++ [b])) := by
  have hl : (splice src i ys).length = src.length := length_splice (by omega)
  have hw : writeByte (splice (splice src i ys) (i + k + 1) []) (i + k : Nat) b = some _ :=
    DataUtil.writeByte_splice (by simp only [List.length_nil]; omega)
  subst k
  rw [splice_nil, splice_splice (by omega)] at hw
  exact hw

theorem writeInt64_at {src ys : List Byte} {i k : Nat} (v : Int64) (hk : ys.length = k)
    (h : i + k + 8 ≤ src.length) :
    DataUtil.writeInt64 (splice src i ys) (i + k) v =
      some (splice src i (ys ++ leBytes 8 v.toUInt64.toNat), (i : Int) + (k + 8 : Nat)) := by
  have hl : (splice src i ys).length = src.length := length_splice (by omega)
  have hw : DataUtil.writeUInt64 (splice src i ys) (i + k : Nat) v.toUInt64 = some _ :=
    DataUtil.writeUInt64_eq _ (by omega)
  subst k
  rw [splice_splice (by omega), Int.natCast_add, Int.add_assoc] at hw
  exact hw

theorem writeInt32_at {src ys : List Byte} {i k : Nat} (v : Int32) (hk : ys.length = k)
    (h : i + k + 4 ≤ src.length) :
    DataUtil.writeInt32 (splice src i ys) (i + k) v =
      some (splice src i (ys ++ leBytes 4 v.toUInt32.toNat), (i : Int) + (k + 4 : Nat)) := by
  have hl : (splice src i ys).length = src.length := length_splice (by omega)
  have hw : DataUtil.writeUInt32 (splice src i ys) (i + k : Nat) v.toUInt32 = some _ :=
    DataUtil.writeUInt32_eq _ (by omega)
  subst k
  rw [splice_splice (by omega), Int.natCast_add, Int.add_assoc] at hw
  exact hw

theorem writeInt16_at {src ys : List Byte} {i k : Nat} (v : Int16) (hk : ys.length = k)
    (h : i + k + 2 ≤ src.length) :
    DataUtil.writeInt16 (splice src i ys) (i + k) v =
      some (splice src i (ys ++ leBytes 2 v.toUInt16.toNat), (i : Int) + (k + 2 : Nat)) := by
  have hl : (splice src i ys).length = src.length := length_splice (by omega)
  have hw : DataUtil.writeUInt16 (splice src i ys) (i + k : Nat) v.toUInt16 = some _ :=
    DataUtil.writeUInt16_eq _ (by omega)
  subst k
  rw [splice_splice (by omega), Int.natCast_add, Int.add_assoc] at hw
  exact hw

/-- `Pack` writes the encoding at its index and nothing else. -/
theorem pack_eq (hd : NetPackageHeader) {src : List Byte} {i : Nat} (h : i + 28 ≤ src.length) :
    hd.pack src i = some (splice src i hd.encode, (i : Int) + 28) := by
  have h0 : writeByte src i hd.sign = some (splice src i [hd.sign]) := by
    have hw : writeByte (splice src i []) i hd.sign = some _ := writeByte_at (k := 0) _ rfl (by omega)
    rwa [splice_nil] at hw
  have h1 : writeByte (splice src i [hd.sign]) (i + 1) hd.randSeed = some _ :=
    writeByte_at (k := 1) _ rfl (by omega)
  have h2 : writeByte (splice src i [hd.sign, hd.randSeed]) (i + 2) hd.checkSum = some _ :=
    writeByte_at (k := 2) _ rfl (by omega)
  have h3 : writeByte (splice src i [hd.sign, hd.randSeed, hd.checkSum]) (i + 3) hd.node = some _ :=
    writeByte_at (k := 3) _ rfl (by omega)
  let p4 := [hd.sign, hd.randSeed, hd.checkSum, hd.node]
  let p8 := p4 ++ leBytes 4 hd.compress.toUInt32.toNat
  let p10 := p8 ++ leBytes 2 hd.index.toUInt16.toNat
  let p12 := p10 ++ leBytes 2 hd.recvIndex.toUInt16.toNat
  let p16 := p12 ++ leBytes 4 hd.command.toUInt32.toNat
  let p24 := p16 ++ leBytes 8 hd.guid.toUInt64.toNat
  have hc : DataUtil.writeInt32 (splice src i p4) (i + 4) hd.compress = some (_, (i : Int) + 8) :=
    writeInt32_at (k := 4) _ rfl (by omega)
  have hi : DataUtil.writeInt16 (splice src i p8) (i + 8) hd.index = some (_, (i : Int) + 10) :=
    writeInt16_at (k := 8) _ rfl (by omega)
  have hr : DataUtil.writeInt16 (splice src i p10) (i + 10) hd.recvIndex =
      some (_, (i : Int) + 12) := writeInt16_at (k := 10) _ rfl (by omega)
  have hm : DataUtil.writeInt32 (splice src i p12) (i + 12) hd.command =
      some (_, (i : Int) + 16) := writeInt32_at (k := 12) _ rfl (by omega)
  have hg : DataUtil.writeInt64 (splice src i p16) (i + 16) hd.guid = some (_, (i : Int) + 24) :=
    writeInt64_at (k := 16) _ rfl (by omega)
  have hb : DataUtil.writeInt32 (splice src i p24) (i + 24) hd.bodySize =
      some (_, (i : Int) + 28) := writeInt32_at (k := 24) _ rfl (by omega)
  simp only [pack, h0, h1, h2, h3, Option.bind_eq_bind, Option.bind_some, List.cons_append,
    List.nil_append]
  rw [hc]
  simp only [Option.bind_some]
  rw [hi]
  simp only [Option.bind_some]
  rw [hr]
  simp only [Option.bind_some]
  rw [hm]
  simp only [Option.bind_some]
  rw [hg]
  exact hb

theorem decode_encode (h : NetPackageHeader) (rest : List Byte) : decode (h.encode ++ rest) = h := by
  have hc : field (h.encode ++ rest) 4 4 = leValue (leBytes 4 h.compress.toUInt32.toNat) := rfl
  have hi : field (h.encode ++ rest) 8 2 = leValue (leBytes 2 h.index.toUInt16.toNat) := rfl
  have hr : field (h.encode ++ rest) 10 2 = leValue (leBytes 2 h.recvIndex.toUInt16.toNat) := rfl
  have hm : field (h.encode ++ rest) 12 4 = leValue (leBytes 4 h.command.toUInt32.toNat) := rfl
  have hg : field (h.encode ++ rest) 16 8 = leValue (leBytes 8 h.guid.toUInt64.toNat) := rfl
  have hb : field (h.encode ++ rest) 24 4 = leValue (leBytes 4 h.bodySize.toUInt32.toNat) := rfl
  rw [decode, hc, hi, hr, hm, hg, hb]
  simp only [uint16_leBytes, uint32_leBytes, uint64_leBytes]
  rfl

theorem decode_append {bs : List Byte} (rest : List Byte) (h : 28 ≤ bs.length) :
    decode (bs ++ rest) = decode bs := by
  have hf : ∀ i n, i + n ≤ 28 → field (bs ++ rest) i n = field bs i n := by
    intro i n hn
    rw [field, List.drop_append_of_le_length (by omega),
      List.take_append_of_le_length (by rw [List.length_drop]; omega), field]
  have hb : ∀ i, i < 28 → (bs ++ rest).getD i 0 = bs.getD i 0 := by
    intro i hi
    rw [List.getD_eq_getElem?_getD, List.getElem?_append_left (by omega),
      List.getD_eq_getElem?_getD]
  simp only [decode, hf _ _ (show 4 + 4 ≤ 28 by omega), hf _ _ (show 8 + 2 ≤ 28 by omega),
    hf _ _ (show 10 + 2 ≤ 28 by omega), hf _ _ (show 12 + 4 ≤ 28 by omega),
    hf _ _ (show 16 + 8 ≤ 28 by omega), hf _ _ (show 24 + 4 ≤ 28 by omega),
    hb _ (show 0 < 28 by omega), hb _ (show 1 < 28 by omega), hb _ (show 2 < 28 by omega),
    hb _ (show 3 < 28 by omega)]

theorem length_window {bs : List Byte} {i n : Nat} (h : i + n ≤ bs.length) :
    ((bs.drop i).take n).length = n := by
  rw [List.length_take, List.length_drop]
  omega

theorem encode_decode {bs : List Byte} (h : 28 ≤ bs.length) : (decode bs).encode = bs.take 28 := by
  have hc := leBytes_uint32 (length_window (show 4 + 4 ≤ bs.length by omega))
  have hi := leBytes_uint16 (length_window (show 8 + 2 ≤ bs.length by omega))
  have hr := leBytes_uint16 (length_window (show 10 + 2 ≤ bs.length by omega))
  have hm := leBytes_uint32 (length_window (show 12 + 4 ≤ bs.length by omega))
  have hg := leBytes_uint64 (length_window (show 16 + 8 ≤ bs.length by omega))
  have hb := leBytes_uint32 (length_window (show 24 + 4 ≤ bs.length by omega))
  have h4 : bs.take 4 = [bs.getD 0 0, bs.getD 1 0, bs.getD 2 0, bs.getD 3 0] := by
    match bs, h with
    | b0 :: b1 :: b2 :: b3 :: rest, _ => rfl
  have hjoin : ∀ k n, bs.take (k + n) = bs.take k ++ (bs.drop k).take n := fun k n => List.take_add
  unfold encode decode field
  dsimp only
  simp only [UInt32.toUInt32_toInt32, UInt16.toUInt16_toInt16, UInt64.toUInt64_toInt64]
  rw [hc, hi, hr, hm, hg, hb, ← h4, ← hjoin, ← hjoin, ← hjoin, ← hjoin, ← hjoin, ← hjoin]

end NetPackageHeader

end CppTry
