import CppTry.PackageFraming

namespace CppTry

namespace NetConnection

/-- What `Send` does to its static `sendbuff` before it hands it to `AddSendData`. -/
def stage (guid : Int64) (cmd : Int32) (buffer : List Byte) (len : Int32) :
    Option (List Byte × Int) := do
  let sendhead := { NetPackageHeader.new.setSign with command := cmd, guid, bodySize := len }
  let (sendbuff, sendsize) ← sendhead.pack (zeros 1024) 0
  let sendbuff ← memcpy sendbuff sendsize buffer 0 len.toInt
  pure (sendbuff, sendsize + len.toInt)

theorem send_eq_stage (build : Build) (host : Host) (con : NetConnection) (guid : Int64) (cmd : Int32)
    (buffer : List Byte) (len : Int32) : con.send build host guid cmd buffer len =
      (stage guid cmd buffer len).bind fun r => con.addSendData build host r.1 r.2 := by
  simp only [send, stage, Option.bind_eq_bind, Option.bind_assoc]
  rfl

section
variable (guid : Int64) (cmd : Int32) {buffer : List Byte} {len : Int32}

/-- The header always fits, so what becomes of the body decides. -/
theorem stage_eq : stage guid cmd buffer len =
    (memcpy (splice (zeros 1024) 0 (sendPackage guid cmd len []).header.encode) (28 : Nat) buffer
      (0 : Nat) len.toInt).map fun out => (out, 28 + len.toInt) := by
  have hp : (sendPackage guid cmd len []).header.pack (zeros 1024) (0 : Nat) = some _ :=
    (sendPackage guid cmd len []).header.pack_eq (by simp)
  rw [stage]
  change ((sendPackage guid cmd len []).header.pack (zeros 1024) (0 : Nat)).bind _ = _
  rw [hp]
  change (memcpy _ (28 : Nat) buffer (0 : Nat) len.toInt).bind _ = _
  cases memcpy (splice (zeros 1024) 0 (sendPackage guid cmd len []).header.encode) (28 : Nat) buffer
    (0 : Nat) len.toInt <;> rfl

/-- All stores are inside the array for the bodies that leave room for the header. -/
theorem stage_isSome_iff (h0 : 0 ≤ len.toInt) (hb : len.toInt ≤ buffer.length) :
    (stage guid cmd buffer len).isSome = true ↔ len.toInt ≤ 996 := by
  have hl : (splice (zeros 1024) 0 (sendPackage guid cmd len []).header.encode).length = 1024 := by
    rw [length_splice (by simp), length_zeros]
  rw [stage_eq, Option.isSome_map, memcpy, hl]
  split
  next hc =>
    simp only [Option.isSome_some, true_iff]
    omega
  next hc =>
    simp only [Option.isSome_none, Bool.false_eq_true, false_iff]
    omega

/-- Of the bodies that a peer accepts, exactly those of at most 996 bytes are staged within the
1024 bytes of `sendbuff` and so can be sent. -/
theorem send_staged_iff (h0 : 0 ≤ len.toInt) (hm : len.toInt ≤ netPackageMaxSize)
    (hb : len.toInt ≤ buffer.length) :
    (sendPackage guid cmd len (buffer.take len.toInt.toNat)).header.Accepted ∧
      ((stage guid cmd buffer len).isSome = true ∧
          (∀ (build : Build) (host : Host) (con : NetConnection), con.SendValid →
            ∃ r, con.send build host guid cmd buffer len = some r) ↔
        len.toInt ≤ 996) := by
  refine ⟨⟨rfl, hm⟩, ?_⟩
  rw [stage_isSome_iff guid cmd h0 hb]
  constructor
  · exact fun h => h.1
  · intro hle
    refine ⟨hle, fun build host con hv => ?_⟩
    obtain ⟨n, hn⟩ := Int.eq_ofNat_of_zero_le h0
    have hbn : n ≤ buffer.length := by omega
    obtain ⟨ok, b, hs, _⟩ := send_spec build host guid cmd hv hn hbn (by omega)
    exact ⟨_, hs⟩

end

theorem send_staged_996 : (stage 0 1401 (zeros 996) 996).isSome = true :=
  ((@send_staged_iff 0 1401 (zeros 996) 996 (by decide) (by decide)
    (by rw [length_zeros]; decide)).2.mpr (by decide)).1

/-- A body of 997 bytes is one a peer accepts, and `Send` writes past its array for it. -/
theorem stage_997 : (0 : Int) ≤ (997 : Int32).toInt ∧ (997 : Int32).toInt ≤ netPackageMaxSize ∧
    (sendPackage 0 1401 997 (zeros 997)).header.Accepted ∧ stage 0 1401 (zeros 997) 997 = none := by
  refine ⟨by decide, by decide, by decide, ?_⟩
  have hs : (stage 0 1401 (zeros 997) 997).isSome = true ↔ _ :=
    stage_isSome_iff 0 1401 (by decide) (by rw [length_zeros]; decide)
  rw [← Option.not_isSome_iff_eq_none, hs]
  decide

end NetConnection

end CppTry
