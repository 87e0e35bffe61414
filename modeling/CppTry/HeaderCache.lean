import CppTry.ReceiveRuns

namespace CppTry

open NetPackageHeader
open NetConnectionManager (heartbeat)

namespace NetConnection

/-- A call on the receiving half; `int size` of `TakeRecvPackage` is not used. -/
inductive RecvCall
  | addRecvData (buffer : List Byte) (len : Int)
  | checkRecvPackage
  | takeRecvPackage (buffer : List Byte)

/-- A call of `CheckRecvPackage`, with the connection before and after it. -/
structure Look where
  before : NetConnection
  ret : Int
  after : NetConnection

/-- One call. A packet is taken only when the last look, `ready`, has found one. -/
def recvStep (ready : Bool) (con : NetConnection) :
    RecvCall → Option (List Look × Bool × NetConnection)
  | .addRecvData buffer len => (con.addRecvData buffer len).map fun r => ([], ready, r.2)
  | .checkRecvPackage =>
    con.checkRecvPackage.map fun r => ([⟨con, r.1, r.2⟩], decide (r.1 = 1), r.2)
  | .takeRecvPackage buffer =>
    if ready then (con.takeRecvPackage buffer).map fun r => ([], false, r.2.2) else none

/-- A sequence of calls: the looks, and the connection at the end. -/
def recvRun (ready : Bool) (con : NetConnection) : List RecvCall → Option (List Look × NetConnection)
  | [] => some ([], con)
  | c :: cs => do
    let (looks, ready, con) ← recvStep ready con c
    let (more, con) ← recvRun ready con cs
    pure (looks ++ more, con)

/-- A header in the cache is the one at the front of the buffer. -/
def Cached (con : NetConnection) : Prop :=
  con.recvHeader.sign ≠ 0 → 28 ≤ con.recvBuffer.contents.length ∧
    con.recvHeader = decode con.recvBuffer.contents

/-- What holds between calls. -/
structure Looked (ready : Bool) (con : NetConnection) : Prop where
  valid : con.recvBuffer.Valid
  cached : con.Cached
  complete : ready = true → wrap32 (con.recvHeader.bodySize.toInt + headerSize) ≤ con.recvBuffer.length

/-- The cache is empty, or has a header that passed the tests. -/
def Clean (con : NetConnection) : Prop := con.recvHeader.sign = 0 ∨ con.recvHeader.Accepted

section
variable {ready : Bool} {con con' : NetConnection} {ret : Int}

theorem havePackage_eq_one_iff : con.havePackage = 1 ↔ con.recvHeader.sign ≠ 0 ∧
    wrap32 (con.recvHeader.bodySize.toInt + headerSize) ≤ con.recvBuffer.length := by
  unfold havePackage
  split
  next h => simpa using h
  next h => simpa using h

theorem havePackage_ne : con.havePackage ≠ -1 := by
  unfold havePackage
  split
  next => decide
  next => decide

theorem checkRecvPackage_cases (hv : con.recvBuffer.Valid)
    (h : con.checkRecvPackage = some (ret, con')) :
    (con.recvHeader.sign = 0 ∧ con.recvBuffer.contents.length < 28 ∧ ret = 0 ∧ con' = con) ∨
    (con.recvHeader.sign = 0 ∧ 28 ≤ con.recvBuffer.contents.length ∧
      con' = { con with recvHeader := decode con.recvBuffer.contents } ∧
      if (decode con.recvBuffer.contents).Accepted then ret = con'.havePackage else ret = -1) ∨
    (con.recvHeader.sign ≠ 0 ∧ ret = con.havePackage ∧ con' = con) := by
  rw [checkRecvPackage_valid hv] at h
  split_ifs at h with hsign hl ha
  · cases h
    exact Or.inr (Or.inr ⟨hsign, rfl, rfl⟩)
  · cases h
    exact Or.inl ⟨not_not.mp hsign, hl, rfl, rfl⟩
  · cases h
    exact Or.inr (Or.inl ⟨not_not.mp hsign, by omega, rfl, by rw [if_pos ha]⟩)
  · cases h
    exact Or.inr (Or.inl ⟨not_not.mp hsign, by omega, rfl, by rw [if_neg ha]⟩)

/-- The copy into the caller's buffer has a body size that is not negative and lies in the array. -/
theorem takeRecvPackage_some {buffer out : List Byte} {header : NetPackageHeader}
    (hv : con.recvBuffer.Valid)
    (hr : wrap32 (con.recvHeader.bodySize.toInt + headerSize) ≤ con.recvBuffer.length)
    (h : con.takeRecvPackage buffer = some (header, out, con')) :
    con'.recvBuffer.Valid ∧ con'.recvHeader.sign = 0 := by
  have hsize : headerSize = 28 := rfl
  have hdata := hv.data_length
  have hlt := hv.size_lt
  unfold takeRecvPackage at h
  obtain ⟨got, hget, h⟩ := Option.bind_eq_some_iff.mp h
  obtain ⟨rest, hremove, h⟩ := Option.bind_eq_some_iff.mp h
  cases h
  refine ⟨?_, rfl⟩
  unfold ByteBuffer.getData memcpy at hget
  split at hget
  next hbounds =>
    obtain ⟨h0, _, _, _, hroom⟩ := hbounds
    obtain ⟨k, hk⟩ := Int.eq_ofNat_of_zero_le h0
    have hw : wrap32 (con.recvHeader.bodySize.toInt + headerSize) = ((k + 28 : Nat) : Int) := by
      rw [wrap32_eq (by omega) (by omega)]
      omega
    rw [hw] at hr hremove
    obtain ⟨b, hb, hvalid, _⟩ := ByteBuffer.removeData_valid hv (n := k + 28) (by omega)
    rw [hb] at hremove
    cases hremove
    exact hvalid
  next => cases hget

theorem recvStep_cases {looks : List Look} {ready' : Bool} {c : RecvCall} (h : con.Looked ready)
    (hs : recvStep ready con c = some (looks, ready', con')) :
    (looks = [] ∧ ready' = ready ∧ con'.recvHeader = con.recvHeader ∧ con'.recvBuffer.Valid ∧
      ∃ more, con'.recvBuffer.contents = con.recvBuffer.contents ++ more) ∨
    (∃ ret, looks = [⟨con, ret, con'⟩] ∧ ready' = decide (ret = 1) ∧
      con.checkRecvPackage = some (ret, con')) ∨
    (looks = [] ∧ ready = true ∧ ready' = false ∧ con'.recvBuffer.Valid ∧
      con'.recvHeader.sign = 0) := by
  cases c with
  | addRecvData buffer len =>
    obtain ⟨⟨ok, con₁⟩, hadd, he⟩ := Option.map_eq_some_iff.mp hs
    cases he
    obtain ⟨⟨ok', recvBuffer⟩, hdata, he⟩ := Option.bind_eq_some_iff.mp hadd
    cases he
    obtain ⟨hvalid, _, hmore⟩ := ByteBuffer.addData_some h.valid hdata
    exact Or.inl ⟨rfl, rfl, rfl, hvalid, hmore⟩
  | checkRecvPackage =>
    obtain ⟨⟨ret, con₁⟩, hcheck, he⟩ := Option.map_eq_some_iff.mp hs
    cases he
    exact Or.inr (Or.inl ⟨ret, rfl, rfl, hcheck⟩)
  | takeRecvPackage buffer =>
    simp only [recvStep] at hs
    split at hs
    next hready =>
      obtain ⟨⟨header, out, con₁⟩, htake, he⟩ := Option.map_eq_some_iff.mp hs
      cases he
      exact Or.inr (Or.inr ⟨rfl, hready, rfl,
        takeRecvPackage_some h.valid (h.complete hready) htake⟩)
    next => cases hs

theorem Looked.step {looks : List Look} {ready' : Bool} {c : RecvCall} (h : con.Looked ready)
    (hs : recvStep ready con c = some (looks, ready', con')) : con'.Looked ready' := by
  rcases recvStep_cases h hs with ⟨_, rfl, hheader, hvalid, more, hmore⟩ | ⟨ret, _, rfl, hcheck⟩ |
    ⟨_, _, rfl, hvalid, hsign⟩
  · have hlen := h.valid.contents_length
    have hlen' := hvalid.contents_length
    rw [hmore, List.length_append] at hlen'
    refine ⟨hvalid, fun hsign => ?_, fun hready => ?_⟩
    · rw [hheader] at hsign ⊢
      obtain ⟨hl, hd⟩ := h.cached hsign
      rw [hmore, decode_append more hl, List.length_append]
      exact ⟨by omega, hd⟩
    · have hold := h.complete hready
      rw [hheader]
      omega
  · rcases checkRecvPackage_cases h.valid hcheck with ⟨_, _, rfl, rfl⟩ | ⟨_, hl, rfl, hret⟩ |
      ⟨_, rfl, rfl⟩
    · exact ⟨h.valid, h.cached, by simp⟩
    · refine ⟨h.valid, fun _ => ⟨hl, rfl⟩, fun hready => ?_⟩
      rw [decide_eq_true_eq] at hready
      subst hready
      split_ifs at hret
      exact (havePackage_eq_one_iff.mp hret.symm).2
    · refine ⟨h.valid, h.cached, fun hready => ?_⟩
      rw [decide_eq_true_eq] at hready
      exact (havePackage_eq_one_iff.mp hready).2
  · exact ⟨hvalid, fun hne => absurd hsign hne, by simp⟩

/-- The header at the front of the buffer has been refused, and nothing can be taken. -/
structure Stuck (ready : Bool) (con : NetConnection) : Prop where
  looked : con.Looked ready
  waiting : ready = false
  full : 28 ≤ con.recvBuffer.contents.length
  refused : ¬ (decode con.recvBuffer.contents).Accepted

theorem Stuck.step {looks : List Look} {ready' : Bool} {c : RecvCall} (h : con.Stuck ready)
    (hs : recvStep ready con c = some (looks, ready', con')) (hc : ∀ l ∈ looks, l.before.Clean) :
    con'.Stuck ready' ∧ ∀ l ∈ looks, l.ret = -1 := by
  have hlooked := h.looked.step hs
  rcases recvStep_cases h.looked hs with ⟨rfl, rfl, _, _, more, hmore⟩ | ⟨ret, rfl, rfl, hcheck⟩ |
    ⟨_, hready, _⟩
  · refine ⟨⟨hlooked, h.waiting, ?_, ?_⟩, by simp⟩
    · rw [hmore, List.length_append]
      have hfull := h.full
      omega
    · rw [hmore, decode_append more h.full]
      exact h.refused
  · -- the look is at an empty cache: a header that passed would be the refused one
    have hsign : con.recvHeader.sign = 0 := by
      rcases hc _ (List.mem_singleton.mpr rfl) with hz | ha
      · exact hz
      · rw [(h.looked.cached ha.sign_ne_zero).2] at ha
        exact absurd ha h.refused
    rcases checkRecvPackage_cases h.looked.valid hcheck with ⟨_, hshort, _⟩ | ⟨_, hl, rfl, hret⟩ |
      ⟨hne, _⟩
    · exact absurd h.full (by omega)
    · rw [if_neg h.refused] at hret
      subst hret
      exact ⟨⟨hlooked, rfl, hl, h.refused⟩, by simp⟩
    · exact absurd hsign hne
  · rw [h.waiting] at hready
    cases hready

section
variable {looks : List Look} {c : RecvCall} {cs : List RecvCall}

theorem recvRun_cons (h : recvRun ready con (c :: cs) = some (looks, con')) :
    ∃ first ready₁ con₁ rest, recvStep ready con c = some (first, ready₁, con₁) ∧
      recvRun ready₁ con₁ cs = some (rest, con') ∧ looks = first ++ rest := by
  obtain ⟨⟨first, ready₁, con₁⟩, hstep, h⟩ := Option.bind_eq_some_iff.mp h
  obtain ⟨⟨rest, con₂⟩, hrest, he⟩ := Option.bind_eq_some_iff.mp h
  cases he
  exact ⟨first, ready₁, con₁, rest, hstep, hrest, rfl⟩

theorem Looked.run (h : con.Looked ready) (hr : recvRun ready con cs = some (looks, con')) :
    con'.Cached := by
  induction cs generalizing ready con looks with
  | nil =>
    cases hr
    exact h.cached
  | cons c cs ih =>
    obtain ⟨_, _, _, _, hstep, hrest, _⟩ := recvRun_cons hr
    exact ih (h.step hstep) hrest

theorem Stuck.run (h : con.Stuck ready) (hr : recvRun ready con cs = some (looks, con'))
    (hc : ∀ l ∈ looks, l.before.Clean) : ∀ l ∈ looks, l.ret = -1 := by
  induction cs generalizing ready con looks with
  | nil =>
    cases hr
    simp
  | cons c cs ih =>
    obtain ⟨first, _, _, rest, hstep, hrest, rfl⟩ := recvRun_cons hr
    obtain ⟨hstuck, hfirst⟩ := h.step hstep fun l hl => hc l (List.mem_append_left _ hl)
    intro l hl
    rcases List.mem_append.mp hl with hl | hl
    · exact hfirst l hl
    · exact ih hstuck hrest (fun l hl => hc l (List.mem_append_right _ hl)) l hl

theorem look_clean (h : con.Looked ready) (hclean : con.Clean)
    (hcheck : con.checkRecvPackage = some (ret, con')) :
    (ret = 1 → con'.recvHeader.Accepted) ∧ (ret ≠ -1 → con'.Clean) ∧
      (ret = -1 → 28 ≤ con'.recvBuffer.contents.length ∧
        ¬ (decode con'.recvBuffer.contents).Accepted) := by
  rcases checkRecvPackage_cases h.valid hcheck with ⟨hz, _, rfl, rfl⟩ | ⟨_, hl, rfl, hret⟩ |
    ⟨hne, rfl, rfl⟩
  · exact ⟨by simp, fun _ => Or.inl hz, by simp⟩
  · split_ifs at hret with ha
    · exact ⟨fun _ => ha, fun _ => Or.inr ha, fun he => absurd (hret.symm.trans he) havePackage_ne⟩
    · subst hret
      exact ⟨by simp, by simp, fun _ => ⟨hl, ha⟩⟩
  · have ha : con'.recvHeader.Accepted := hclean.resolve_left hne
    exact ⟨fun _ => ha, fun _ => Or.inr ha, fun he => absurd he havePackage_ne⟩

/-- With every look at a clean cache, only accepted headers are reported, and an error stays. -/
theorem run_lawful (h : con.Looked ready) (hr : recvRun ready con cs = some (looks, con'))
    (hc : ∀ l ∈ looks, l.before.Clean) :
    (∀ l ∈ looks, l.ret = 1 → l.after.recvHeader.Accepted) ∧
      looks.Pairwise fun a b => a.ret = -1 → b.ret = -1 := by
  induction cs generalizing ready con looks with
  | nil =>
    cases hr
    simp
  | cons c cs ih =>
    obtain ⟨first, ready₁, con₁, rest, hstep, hrest, rfl⟩ := recvRun_cons hr
    have hcrest : ∀ l ∈ rest, l.before.Clean := fun l hl => hc l (List.mem_append_right _ hl)
    obtain ⟨hone, hpair⟩ := ih (h.step hstep) hrest hcrest
    rcases recvStep_cases h hstep with ⟨rfl, _⟩ | ⟨ret, rfl, rfl, hcheck⟩ | ⟨rfl, _⟩
    · exact ⟨hone, hpair⟩
    · obtain ⟨haccepted, _, hrefused⟩ := look_clean h (hc ⟨con, ret, con₁⟩ (by simp)) hcheck
      refine ⟨?_, List.pairwise_cons.mpr ⟨?_, hpair⟩⟩
      · intro l hl
        rcases List.mem_cons.mp hl with rfl | hl
        · exact haccepted
        · exact hone l hl
      · intro l hl hret
        obtain ⟨hfull, hno⟩ := hrefused hret
        have hret : ret = -1 := hret
        exact Stuck.run ⟨h.step hstep, by simp [hret], hfull, hno⟩ hrest hcrest l hl
    · exact ⟨hone, hpair⟩

/-- An error that stays is never followed by a look at the refused header. -/
theorem run_clean (h : con.Looked ready) (hr : recvRun ready con cs = some (looks, con'))
    (hfailed : ¬ con.Clean → ∀ l ∈ looks, l.ret = -1)
    (hpair : looks.Pairwise fun a b => a.ret = -1 → b.ret = -1) : ∀ l ∈ looks, l.before.Clean := by
  induction cs generalizing ready con looks with
  | nil =>
    cases hr
    simp
  | cons c cs ih =>
    obtain ⟨first, ready₁, con₁, rest, hstep, hrest, rfl⟩ := recvRun_cons hr
    have hnext := ih (h.step hstep) hrest
    rcases recvStep_cases h hstep with ⟨rfl, rfl, hheader, _⟩ | ⟨ret, rfl, rfl, hcheck⟩ |
      ⟨rfl, _, _, _, hsign⟩
    · unfold Clean at hnext hfailed ⊢
      rw [hheader] at hnext
      exact hnext hfailed hpair
    · obtain ⟨hfirst, hrestpair⟩ := List.pairwise_cons.mp hpair
      have hclean : con.Clean := by
        by_contra hno
        have hret : ret = -1 := hfailed hno ⟨con, ret, con₁⟩ (by simp)
        rcases checkRecvPackage_cases h.valid hcheck with ⟨hz, _⟩ | ⟨hz, _⟩ | ⟨_, hhave, _⟩
        · exact hno (Or.inl hz)
        · exact hno (Or.inl hz)
        · exact havePackage_ne (hhave.symm.trans hret)
      have hstay : ¬ con₁.Clean → ∀ l ∈ rest, l.ret = -1 := by
        intro hno l hl
        refine hfirst l hl ?_
        by_contra hret
        exact hno ((look_clean h hclean hcheck).2.1 hret)
      intro l hl
      rcases List.mem_cons.mp hl with rfl | hl
      · exact hclean
      · exact hnext hstay hrestpair l hl
    · exact hnext (fun hno => absurd (Or.inl hsign) hno) hpair

end

end

theorem new_looked (n : Nat) (s : Int) : ((new n).setSocket s).Looked false :=
  ⟨ByteBuffer.new_valid (by decide) (by decide), fun h => absurd rfl h, by simp⟩

/-- The calls on a new connection. `CheckRecvPackage` tests a header only when it fills the cache,
and leaves a refused one there: its sign keeps the next look from testing it again. -/
theorem refused_stays_iff {n : Nat} {s : Int} {cs : List RecvCall} {looks : List Look}
    {con : NetConnection} (h : recvRun false ((new n).setSocket s) cs = some (looks, con)) :
    (con.Cached ∧ (∀ l ∈ looks, l.ret = 1 → l.after.recvHeader.Accepted) ∧
        looks.Pairwise fun a b => a.ret = -1 → b.ret = -1) ↔
      ∀ l ∈ looks, l.before.recvHeader.sign = 0 ∨ l.before.recvHeader.Accepted := by
  have hlooked := new_looked n s
  constructor
  · intro hlaw
    exact run_clean hlooked h (fun hno => absurd (Or.inl rfl) hno) hlaw.2.2
  · intro hclean
    exact ⟨hlooked.run h, run_lawful hlooked h hclean⟩

/-- The header of a packet without a body, looked at twice. -/
def twoLooks (header : NetPackageHeader) : List RecvCall :=
  [.addRecvData header.encode 28, .checkRecvPackage, .checkRecvPackage]

theorem twoLooks_eq (header : NetPackageHeader) (hs : header.sign ≠ 0) : ∃ con con',
    con.recvHeader = NetPackageHeader.new ∧ con'.recvHeader = header ∧ con'.recvBuffer.length = 28 ∧
      recvRun false ((new 0).setSocket 5) (twoLooks header) =
        some ([⟨con, checkCode (nextPackage header.encode), con'⟩, ⟨con', con'.havePackage, con'⟩],
          con') := by
  obtain ⟨b, hadd, hopen, hcontents⟩ := (new_idle 0 5).toOpen.addRecvData
    (show _ + (header.encode.length : Int) ≤ _ by rw [length_encode]; decide)
  have hcontents : b.contents = header.encode := hcontents
  have hlen := hopen.receiving.valid.contents_length
  have hcheck := checkRecvPackage_eq hopen.receiving
  simp only [hcontents, length_encode] at hcheck hlen
  have hheader : { (new 0).setSocket 5 with recvBuffer := b }.checkHeader = header := by
    rw [checkHeader, hcontents, length_encode, if_pos (le_refl _)]
    simpa using decode_encode header []
  rw [hheader] at hcheck
  have hagain : { (new 0).setSocket 5 with recvBuffer := b, recvHeader := header }.checkRecvPackage =
      some (_, _) := if_neg fun hz => hs hz.1
  rw [length_encode] at hadd
  refine ⟨{ (new 0).setSocket 5 with recvBuffer := b },
    { (new 0).setSocket 5 with recvBuffer := b, recvHeader := header }, rfl, rfl, hlen.symm, ?_⟩
  have hadd : ((new 0).setSocket 5).addRecvData header.encode 28 = _ := hadd
  simp only [twoLooks, recvRun, recvStep]
  rw [hadd]
  simp only [Option.map_some, Option.bind_eq_bind, Option.bind_some]
  rw [hcheck]
  simp only [Option.map_some, Option.bind_some]
  rw [hagain]
  rfl

theorem heartbeat_looks : ∃ looks con,
    recvRun false ((new 0).setSocket 5) (twoLooks heartbeat.header) = some (looks, con) ∧
      con.Cached ∧ (∀ l ∈ looks, l.ret = 1 → l.after.recvHeader.Accepted) ∧
      looks.Pairwise fun a b => a.ret = -1 → b.ret = -1 := by
  obtain ⟨con, con', hnew, hheader, _, hrun⟩ := twoLooks_eq heartbeat.header (by decide)
  refine ⟨_, con', hrun, (refused_stays_iff hrun).mpr ?_⟩
  intro l hl
  rcases List.mem_cons.mp hl with rfl | hl
  · left
    rw [hnew]
    rfl
  · right
    rw [List.mem_singleton.mp hl, hheader]
    decide

/-- A header with a wrong sign and an empty body. -/
def wrongSign : NetPackageHeader := { NetPackageHeader.new with sign := 0x57 }

/-- The first look refuses the header, the second one reports a packet. -/
theorem wrongSign_accepted : ∃ a b con,
    recvRun false ((new 0).setSocket 5) (twoLooks wrongSign) = some ([a, b], con) ∧
      a.ret = -1 ∧ b.ret = 1 ∧ b.after.recvHeader.sign = 0x57 := by
  obtain ⟨con, con', _, hheader, hlen, hrun⟩ := twoLooks_eq wrongSign (by decide)
  have hfirst : nextPackage wrongSign.encode = .stop .rejected :=
    nextPackage_rejected (by decide) (by decide)
  refine ⟨_, _, con', hrun, ?_, ?_, ?_⟩
  · rw [hfirst]
    rfl
  · apply havePackage_eq_one_iff.mpr
    rw [hheader, hlen]
    decide
  · rw [hheader]
    rfl

end NetConnection

end CppTry
