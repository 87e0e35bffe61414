import CppTry.Framing
import CppTry.SendQueue

namespace CppTry

/-- Why a byte stream cannot be read on: a header the receiver refuses, or one whose
body size is negative. -/
inductive Verdict
  | rejected
  | negative
deriving DecidableEq

open NetPackageHeader in
/-- The packet at the front of a byte stream: 28 header bytes, then the body. -/
def nextPackage (bs : List Byte) : Frame NetPackage Verdict :=
  if bs.length < 28 then .more
  else if (decode bs).sign ≠ headerSign ∨ (decode bs).bodySize.toInt > netPackageMaxSize then
    .stop .rejected
  else if (decode bs).bodySize.toInt < 0 then .stop .negative
  else if bs.length < 28 + (decode bs).bodySize.toInt.toNat then .more
  else
    .packet ⟨decode bs, (bs.drop 28).take (decode bs).bodySize.toInt.toNat⟩
      (28 + (decode bs).bodySize.toInt.toNat)

namespace NetPackageHeader

/-- The two tests of `CheckRecvPackage` on a header it has just read. -/
def Accepted (h : NetPackageHeader) : Prop :=
  h.sign = headerSign ∧ h.bodySize.toInt ≤ netPackageMaxSize

instance (h : NetPackageHeader) : Decidable h.Accepted := instDecidableAnd

theorem Accepted.sign_ne_zero {h : NetPackageHeader} (ha : h.Accepted) : h.sign ≠ 0 := by
  rw [ha.1]
  decide

theorem not_accepted_iff {h : NetPackageHeader} :
    ¬ h.Accepted ↔ h.sign ≠ headerSign ∨ h.bodySize.toInt > netPackageMaxSize := by
  rw [Accepted, not_and_or, Int.not_le]

end NetPackageHeader

open NetPackageHeader

theorem nextPackage_short {bs : List Byte} (h : bs.length < 28) : nextPackage bs = .more := by
  rw [nextPackage, if_pos h]

theorem nextPackage_rejected {bs : List Byte} (hl : 28 ≤ bs.length) (h : ¬ (decode bs).Accepted) :
    nextPackage bs = .stop .rejected := by
  rw [nextPackage, if_neg (by omega), if_pos (not_accepted_iff.mp h)]

theorem nextPackage_negative {bs : List Byte} (hl : 28 ≤ bs.length) (h : (decode bs).Accepted)
    (hn : (decode bs).bodySize.toInt < 0) : nextPackage bs = .stop .negative := by
  rw [nextPackage, if_neg (by omega), if_neg (not_accepted_iff.not.mp (not_not.mpr h)), if_pos hn]

theorem nextPackage_waiting {bs : List Byte} (hl : 28 ≤ bs.length) (h : (decode bs).Accepted)
    (hn : 0 ≤ (decode bs).bodySize.toInt)
    (hw : bs.length < 28 + (decode bs).bodySize.toInt.toNat) : nextPackage bs = .more := by
  rw [nextPackage, if_neg (by omega), if_neg (not_accepted_iff.not.mp (not_not.mpr h)),
    if_neg (by omega), if_pos hw]

theorem nextPackage_complete {bs : List Byte} (hl : 28 ≤ bs.length) (h : (decode bs).Accepted)
    (hn : 0 ≤ (decode bs).bodySize.toInt)
    (hw : 28 + (decode bs).bodySize.toInt.toNat ≤ bs.length) :
    nextPackage bs = .packet ⟨decode bs, (bs.drop 28).take (decode bs).bodySize.toInt.toNat⟩
      (28 + (decode bs).bodySize.toInt.toNat) := by
  rw [nextPackage, if_neg (by omega), if_neg (not_accepted_iff.not.mp (not_not.mpr h)),
    if_neg (by omega), if_neg (by omega)]

theorem nextPackage_cases (bs : List Byte) :
    (bs.length < 28 ∧ nextPackage bs = .more) ∨
    (28 ≤ bs.length ∧ ¬ (decode bs).Accepted ∧ nextPackage bs = .stop .rejected) ∨
    (28 ≤ bs.length ∧ (decode bs).Accepted ∧ (decode bs).bodySize.toInt < 0 ∧
      nextPackage bs = .stop .negative) ∨
    (28 ≤ bs.length ∧ (decode bs).Accepted ∧ 0 ≤ (decode bs).bodySize.toInt ∧
      bs.length < 28 + (decode bs).bodySize.toInt.toNat ∧ nextPackage bs = .more) ∨
    (28 ≤ bs.length ∧ (decode bs).Accepted ∧ 0 ≤ (decode bs).bodySize.toInt ∧
      28 + (decode bs).bodySize.toInt.toNat ≤ bs.length ∧
      nextPackage bs = .packet ⟨decode bs, (bs.drop 28).take (decode bs).bodySize.toInt.toNat⟩
        (28 + (decode bs).bodySize.toInt.toNat)) := by
  by_cases hl : bs.length < 28
  · exact Or.inl ⟨hl, nextPackage_short hl⟩
  have hl : 28 ≤ bs.length := by omega
  by_cases ha : (decode bs).Accepted
  · by_cases hn : (decode bs).bodySize.toInt < 0
    · exact Or.inr (Or.inr (Or.inl ⟨hl, ha, hn, nextPackage_negative hl ha hn⟩))
    have hn : 0 ≤ (decode bs).bodySize.toInt := by omega
    by_cases hw : bs.length < 28 + (decode bs).bodySize.toInt.toNat
    · exact Or.inr (Or.inr (Or.inr (Or.inl ⟨hl, ha, hn, hw, nextPackage_waiting hl ha hn hw⟩)))
    · have hw : 28 + (decode bs).bodySize.toInt.toNat ≤ bs.length := by omega
      exact Or.inr (Or.inr (Or.inr (Or.inr ⟨hl, ha, hn, hw, nextPackage_complete hl ha hn hw⟩)))
  · exact Or.inr (Or.inl ⟨hl, ha, nextPackage_rejected hl ha⟩)

theorem nextPackage_packet {bs : List Byte} {p : NetPackage} {n : Nat}
    (h : nextPackage bs = .packet p n) :
    28 ≤ bs.length ∧ (decode bs).Accepted ∧ 0 ≤ (decode bs).bodySize.toInt ∧ n ≤ bs.length ∧
      n = 28 + (decode bs).bodySize.toInt.toNat ∧
      p = ⟨decode bs, (bs.drop 28).take (decode bs).bodySize.toInt.toNat⟩ := by
  rcases nextPackage_cases bs with ⟨_, he⟩ | ⟨_, _, he⟩ | ⟨_, _, _, he⟩ | ⟨_, _, _, _, he⟩ |
    ⟨hl, ha, hn, hw, he⟩
  all_goals rw [he] at h
  all_goals cases h
  exact ⟨hl, ha, hn, hw, rfl, rfl⟩

theorem nextPackage_negative_iff {bs : List Byte} : nextPackage bs = .stop .negative ↔
    28 ≤ bs.length ∧ (decode bs).Accepted ∧ (decode bs).bodySize.toInt < 0 := by
  constructor
  · intro h
    rcases nextPackage_cases bs with ⟨_, he⟩ | ⟨_, _, he⟩ | ⟨hl, ha, hn, _⟩ | ⟨_, _, _, _, he⟩ |
      ⟨_, _, _, _, he⟩
    · rw [he] at h; cases h
    · rw [he] at h; cases h
    · exact ⟨hl, ha, hn⟩
    · rw [he] at h; cases h
    · rw [he] at h; cases h
  · rintro ⟨hl, ha, hn⟩
    exact nextPackage_negative hl ha hn

/-- The wire format of the repository as a framer. -/
def packageFramer : Framer Byte NetPackage Verdict where
  next := nextPackage
  packet_size h := by
    obtain ⟨_, _, _, hn, he, _⟩ := nextPackage_packet h
    omega
  packet_append {xs p n} ys h := by
    obtain ⟨hl, ha, h0, hn, he, hp⟩ := nextPackage_packet h
    have hd := decode_append ys hl
    have hb : ((xs ++ ys).drop 28).take (decode xs).bodySize.toInt.toNat =
        (xs.drop 28).take (decode xs).bodySize.toInt.toNat := by
      rw [List.drop_append_of_le_length hl,
        List.take_append_of_le_length (by rw [List.length_drop]; omega)]
    rw [nextPackage_complete (by simp; omega) (by rwa [hd]) (by rwa [hd])
      (by rw [hd, List.length_append]; omega), hd, hb, hp, he]
  stop_append {xs v} ys h := by
    rcases nextPackage_cases xs with ⟨_, he⟩ | ⟨hl, ha, he⟩ | ⟨hl, ha, hn, he⟩ | ⟨_, _, _, _, he⟩ |
      ⟨_, _, _, _, he⟩
    all_goals rw [he] at h
    all_goals cases h
    · exact nextPackage_rejected (by simp; omega) (by rwa [decode_append ys hl])
    · exact nextPackage_negative (by simp; omega) (by rwa [decode_append ys hl])
        (by rwa [decode_append ys hl])

theorem nextPackage_size {bs : List Byte} {p : NetPackage} {n : Nat}
    (h : packageFramer.next bs = .packet p n) : 28 ≤ n := by
  obtain ⟨_, _, _, _, he, _⟩ := nextPackage_packet h
  omega

theorem parse_package {bs : List Byte} {p : NetPackage} (hp : p ∈ (packageFramer.parse bs).1) :
    p.header.Accepted ∧ p.header.bodySize.toInt = p.body.length := by
  induction bs using Framer.parse_induction (F := packageFramer) with
  | more bs hm => simp [Framer.parse_more hm] at hp
  | stop bs v hv => simp [Framer.parse_stop hv] at hp
  | packet bs q n hq ih =>
    rw [Framer.parse_packet hq] at hp
    rcases List.mem_cons.mp hp with rfl | hp
    · obtain ⟨hl, ha, h0, hn, he, rfl⟩ := nextPackage_packet hq
      refine ⟨ha, ?_⟩
      simp only [List.length_take, List.length_drop]
      omega
    · exact ih hp

/-- A packet that is complete, incomplete or refused only by its own bytes. -/
theorem package_frames {p : NetPackage} (ha : p.header.Accepted)
    (hb : p.header.bodySize.toInt = p.body.length) : packageFramer.Frames p p.bytes where
  complete ys := by
    have hd : decode (p.bytes ++ ys) = p.header := by
      rw [NetPackage.bytes, List.append_assoc, decode_encode]
    have hl : p.bytes.length = 28 + p.body.length := by
      rw [NetPackage.bytes, List.length_append, length_encode]
    have hc := @nextPackage_complete (p.bytes ++ ys) (by simp; omega) (by rwa [hd])
      (by rw [hd]; omega) (by rw [hd, List.length_append]; omega)
    have hbody : ((p.bytes ++ ys).drop 28).take p.header.bodySize.toInt.toNat = p.body := by
      rw [NetPackage.bytes, List.append_assoc, List.drop_left' (length_encode _), hb,
        Int.toNat_natCast, List.take_left' rfl]
    rw [hd, hbody] at hc
    rw [hl, ← Int.toNat_natCast p.body.length, ← hb]
    exact hc
  partly {xs} hx hne := by
    obtain ⟨ys, hy⟩ := hx
    have hl : p.bytes.length = 28 + p.body.length := by
      rw [NetPackage.bytes, List.length_append, length_encode]
    have hlt : xs.length < p.bytes.length := by
      rw [← hy, List.length_append]
      cases ys with
      | nil => simp [← hy] at hne
      | cons y ys => simp
    by_cases hs : xs.length < 28
    · exact nextPackage_short hs
    · have hd : decode xs = p.header := by
        rw [← decode_append ys (by omega), hy, ← List.append_nil p.bytes, NetPackage.bytes,
          List.append_assoc, decode_encode]
      exact nextPackage_waiting (by omega) (by rwa [hd]) (by rw [hd]; omega) (by rw [hd]; omega)

end CppTry
