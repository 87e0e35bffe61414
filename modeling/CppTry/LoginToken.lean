import CppTry.PacketHandling

namespace CppTry

open DataUtil

/-- The token ends within the body: its length is there, and its NUL or all of its bytes are. -/
def EndsInBody (body : List Byte) : Prop :=
  4 ≤ body.length ∧ (0 ∈ body.drop 4 ∨
    0 ≤ lengthPrefix body 0 ∧ lengthPrefix body 0 + 4 ≤ body.length)

theorem lengthPrefix_bounds (src : List Byte) (i : Nat) :
    -2 ^ 31 ≤ lengthPrefix src i ∧ lengthPrefix src i < 2 ^ 31 :=
  ⟨Int32.le_toInt _, Int32.toInt_lt _⟩

theorem lengthPrefix_append {body : List Byte} (rest : List Byte) (h : 4 ≤ body.length) :
    lengthPrefix (body ++ rest) 0 = lengthPrefix body 0 := by
  rw [lengthPrefix, List.drop_zero, List.take_append_of_le_length h]
  rfl

/-- What a body leaves of the bytes that were in the buffer before it. -/
theorem splice_body (old body : List Byte) : splice old 0 body = body ++ old.drop body.length := by
  simp [splice]

theorem loginToken_eq {buffer : List Byte} (h : 4 ≤ buffer.length) :
    loginToken buffer =
      if (lengthPrefix buffer 0 % 2 ^ 64).toNat ≤ (buffer.drop 4).length ∨ 0 ∈ buffer.drop 4
      then some (((buffer.drop 4).take (lengthPrefix buffer 0 % 2 ^ 64).toNat).takeWhile (· ≠ 0))
      else none := by
  have hr := readString_prefixed (i := 0) h
  rw [← strnlen_take buffer h, loginToken]
  change ((readString buffer (0 : Nat) 0).map Prod.fst) = _
  rw [hr, Option.map_map]
  rfl

/-- The scan for the token stays in the buffer, and the position behind it too, for exactly the
lengths from 0 to 1020. -/
theorem readString_inside {buffer : List Byte} (h : buffer.length = 1024) :
    (∃ token next, readString buffer 0 0 = some (token, next) ∧ 4 ≤ next ∧ next ≤ 1024) ↔
      0 ≤ lengthPrefix buffer 0 ∧ lengthPrefix buffer 0 ≤ 1020 := by
  have hb := lengthPrefix_bounds buffer 0
  have hr : readString buffer (0 : Nat) 0 = _ := readString_prefixed (i := 0) (by omega)
  constructor
  · rintro ⟨token, next, he, h4, h1024⟩
    change readString buffer (0 : Nat) 0 = _ at he
    rw [hr] at he
    obtain ⟨k, _, he⟩ := Option.map_eq_some_iff.mp he
    have hn := (Prod.mk.inj he).2
    unfold wrap32 at hn
    omega
  · rintro ⟨h0, h1020⟩
    have hsome : ((strnlen buffer (0 + 4 : Nat) (lengthPrefix buffer 0 % 2 ^ 64).toNat).map
        fun k => (buffer.drop (0 + 4)).take k).isSome := by
      rw [strnlen_take buffer (by omega), if_pos (Or.inl _)]
      · rfl
      · rw [List.length_drop]
        omega
    rw [Option.isSome_map, Option.isSome_iff_exists] at hsome
    obtain ⟨k, hk⟩ := hsome
    rw [hk, Option.map_some] at hr
    refine ⟨_, _, hr, ?_, ?_⟩
    all_goals
      rw [wrap32_eq (by omega) (by omega)]
      omega

/-- `OnRecvData` looks for the token within its buffer exactly when the length before it, which
a short body leaves to what was there before, is from 0 to 1020. -/
theorem loginToken_inside_iff {con : NetConnection} {old : List Byte} {p : NetPackage} {n : Nat}
    (h : con.Receiving) (hold : old.length = 1024)
    (hp : nextPackage con.recvBuffer.contents = .packet p n) :
    (∃ buffer con' token next,
        { con with recvHeader := con.checkHeader }.takeRecvPackage old =
          some (p.header, buffer, con') ∧
        readString buffer 0 0 = some (token, next) ∧ 4 ≤ next ∧ next ≤ 1024) ↔
      0 ≤ lengthPrefix (p.body ++ old.drop p.body.length) 0 ∧
        lengthPrefix (p.body ++ old.drop p.body.length) 0 ≤ 1020 := by
  obtain ⟨b, ht, _, _, _, hbl⟩ := NetConnection.takeRecvPackage_eq h hp hold
  obtain ⟨_, ha, _, _, _, hpe⟩ := nextPackage_packet hp
  have hmax : p.header.bodySize.toInt ≤ 1024 := by rw [hpe]; exact ha.2
  have hlen : (splice old 0 p.body).length = 1024 := by rw [length_splice (by omega), hold]
  rw [← splice_body, ← readString_inside hlen]
  constructor
  · rintro ⟨buffer, con', token, next, he, hr⟩
    rw [ht] at he
    cases he
    exact ⟨token, next, hr⟩
  · rintro ⟨token, next, hr⟩
    exact ⟨_, _, token, next, ht, hr⟩

theorem exists_receiving {p : NetPackage} (ha : p.header.Accepted)
    (hb : p.header.bodySize.toInt = p.body.length) :
    ∃ con : NetConnection, con.Receiving ∧
      nextPackage con.recvBuffer.contents = .packet p p.bytes.length := by
  have hmax : p.header.bodySize.toInt ≤ 1024 := ha.2
  have hlen : p.bytes.length = 28 + p.body.length := by
    rw [NetPackage.bytes, List.length_append, NetPackageHeader.length_encode]
  have hframe := (package_frames ha hb).complete []
  rw [List.append_nil] at hframe
  have hfit : ((NetConnection.new 0).setSocket 5).recvBuffer.length + p.bytes.length ≤
      netBufferSize := by
    change (0 : Int) + p.bytes.length ≤ 8 * 1024
    omega
  obtain ⟨b, _, hopen, hc⟩ := (NetConnection.new_idle 0 5).toOpen.addRecvData hfit
  refine ⟨_, hopen.receiving, ?_⟩
  change nextPackage b.contents = _
  have hnil : ((NetConnection.new 0).setSocket 5).recvBuffer.contents = [] := rfl
  rw [hc, hnil]
  exact hframe

/-- A login request whose body is `body`. -/
def loginRequest (body : List Byte) : NetPackage :=
  sendPackage 7 1001 (Int32.ofNat body.length) body

/-- The length 2, and two bytes. -/
def shortToken : List Byte := [2, 0, 0, 0, 65, 66]

/-- The length 1021, and not a byte of the token. -/
def longToken : List Byte := [0xFD, 3, 0, 0]

theorem shortToken_inside : ∃ (con con' : NetConnection) (buffer token : List Byte) (next : Int),
    con.takeRecvPackage (zeros 1024) = some ((loginRequest shortToken).header, buffer, con') ∧
      readString buffer 0 0 = some (token, next) ∧ 4 ≤ next ∧ next ≤ 1024 := by
  obtain ⟨con, hr, hp⟩ := exists_receiving (p := loginRequest shortToken) (by decide) (by decide)
  obtain ⟨buffer, con', token, next, hh⟩ :=
    (loginToken_inside_iff hr (length_zeros 1024) hp).mpr (by decide)
  exact ⟨_, con', buffer, token, next, hh⟩

/-- A request of four bytes takes the position behind its token out of the buffer. -/
theorem longToken_outside : ∃ con : NetConnection, con.Receiving ∧
    nextPackage con.recvBuffer.contents = .packet (loginRequest longToken) 32 ∧
    (loginRequest longToken).header.command = 1001 ∧
    ¬ ∃ buffer con' token next,
      { con with recvHeader := con.checkHeader }.takeRecvPackage (zeros 1024) =
        some ((loginRequest longToken).header, buffer, con') ∧
      readString buffer 0 0 = some (token, next) ∧ 4 ≤ next ∧ next ≤ 1024 := by
  obtain ⟨con, hr, hp⟩ := exists_receiving (p := loginRequest longToken) (by decide) (by decide)
  refine ⟨con, hr, hp, rfl, ?_⟩
  rintro ⟨buffer, con', token, next, he, hread⟩
  obtain ⟨b, ht, _⟩ := NetConnection.takeRecvPackage_eq hr hp (length_zeros 1024)
  rw [ht] at he
  cases he
  have hlen : (splice (zeros 1024) 0 (loginRequest longToken).body).length = 1024 := by
    rw [length_splice, length_zeros]
    rw [length_zeros]
    change 0 + 4 ≤ 1024
    omega
  have hin := (readString_inside hlen).mp ⟨token, next, hread⟩
  rw [splice_body, lengthPrefix_append _ (by decide)] at hin
  exact absurd hin (by decide)

end CppTry
