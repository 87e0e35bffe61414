import CppTry.NetServer
import CppTry.PackageFraming

namespace CppTry

open NetPackageHeader

/-- The packets that a stretch of trace delivers for the connection object `n`. -/
def deliveries (n : Nat) (es : List NetEvent) : List NetPackage :=
  es.filterMap fun
    | .delivered k p => if k = n then some p else none
    | _ => none

@[simp] theorem deliveries_append (n : Nat) (es fs : List NetEvent) :
    deliveries n (es ++ fs) = deliveries n es ++ deliveries n fs := List.filterMap_append

namespace NetConnection

/-- The incoming half of a connection between two looks at it: the cached header is empty,
or the accepted header at the front of the buffer. -/
structure Receiving (con : NetConnection) : Prop where
  valid : con.recvBuffer.Valid
  size : con.recvBuffer.size = netBufferSize
  cached : con.recvHeader = NetPackageHeader.new ∨
    28 ≤ con.recvBuffer.contents.length ∧ con.recvHeader = decode con.recvBuffer.contents ∧
      con.recvHeader.Accepted

/-- What `CheckRecvPackage` returns for each thing the buffer can hold. -/
def checkCode : Frame NetPackage Verdict → Int
  | .more => 0
  | .stop .rejected => -1
  | .stop .negative => 1
  | .packet _ _ => 1

/-- The header `CheckRecvPackage` leaves in the cache. -/
def checkHeader (con : NetConnection) : NetPackageHeader :=
  if 28 ≤ con.recvBuffer.contents.length then decode con.recvBuffer.contents else con.recvHeader

theorem decode_data {b : ByteBuffer} (h : 28 ≤ b.contents.length) :
    decode b.data = decode b.contents := by
  rw [← decode_append (b.data.drop b.length.toNat) h, ByteBuffer.contents, List.take_append_drop]

theorem havePackage_accepted {con : NetConnection} (hv : con.recvBuffer.Valid)
    (hl : 28 ≤ con.recvBuffer.contents.length)
    (hd : con.recvHeader = decode con.recvBuffer.contents) (ha : con.recvHeader.Accepted) :
    con.havePackage = checkCode (nextPackage con.recvBuffer.contents) := by
  have hlen := hv.contents_length
  have hlo := con.recvHeader.bodySize.le_toInt
  have hhi : con.recvHeader.bodySize.toInt ≤ 1024 := ha.2
  have hw : wrap32 (con.recvHeader.bodySize.toInt + headerSize) =
      con.recvHeader.bodySize.toInt + 28 := wrap32_eq (by change _ ≤ _ + (28 : Int); omega)
    (by change _ + (28 : Int) < _; omega)
  unfold havePackage
  rw [hw]
  have hz := ha.sign_ne_zero
  rw [hd] at ha hlo hhi hz ⊢
  rcases nextPackage_cases con.recvBuffer.contents with ⟨h, _⟩ | ⟨_, h, _⟩ | ⟨_, _, hn, he⟩ |
    ⟨_, _, hn, hw, he⟩ | ⟨_, _, hn, hw, he⟩
  · omega
  · exact absurd ha h
  · rw [he, if_pos ⟨hz, by omega⟩]
    rfl
  · rw [he, if_neg (fun h => by have := h.2; omega)]
    rfl
  · rw [he, if_pos ⟨hz, by omega⟩]
    rfl

theorem checkRecvPackage_valid {con : NetConnection} (hv : con.recvBuffer.Valid) :
    con.checkRecvPackage = some (
      if con.recvHeader.sign ≠ 0 then (con.havePackage, con)
      else if con.recvBuffer.contents.length < 28 then (0, con)
      else if (decode con.recvBuffer.contents).Accepted then
        ({ con with recvHeader := decode con.recvBuffer.contents }.havePackage,
          { con with recvHeader := decode con.recvBuffer.contents })
      else (-1, { con with recvHeader := decode con.recvBuffer.contents })) := by
  have hlen := hv.contents_length
  have hdata := hv.data_length
  have hle := hv.length_le
  have hsize : headerSize = 28 := rfl
  unfold checkRecvPackage
  by_cases hsign : con.recvHeader.sign = 0
  · rw [if_neg (not_not.mpr hsign)]
    by_cases hl : con.recvBuffer.contents.length < 28
    · rw [if_neg (fun hs => by have := hs.2; omega), if_pos hl, havePackage,
        if_neg (fun hs => hs.1 hsign)]
    · have hu := unpack_eq (show 0 + 28 ≤ con.recvBuffer.data.length by omega)
      rw [List.drop_zero, decode_data (by omega), show ((0 : Nat) : Int) = 0 from rfl] at hu
      rw [if_pos ⟨hsign, by omega⟩, if_neg hl, hu]
      simp only [Option.bind_eq_bind, Option.bind_some, ← not_accepted_iff]
      by_cases ha : (decode con.recvBuffer.contents).Accepted
      · rw [if_pos ha, if_neg (not_not.mpr ha)]
        rfl
      · rw [if_neg ha, if_pos ha]
        rfl
  · rw [if_pos hsign, if_neg (fun hs => hsign hs.1)]

/-- One look of `CheckRecvPackage` at the buffer, whether the header is cached or not. -/
theorem checkRecvPackage_eq {con : NetConnection} (h : con.Receiving) :
    con.checkRecvPackage = some (checkCode (nextPackage con.recvBuffer.contents),
      { con with recvHeader := con.checkHeader }) := by
  obtain ⟨hv, _, hc⟩ := h
  rw [checkRecvPackage_valid hv, checkHeader]
  rcases hc with hc | ⟨hl, hd, ha⟩
  · have hsign : con.recvHeader.sign = 0 := by
      rw [hc]
      rfl
    rw [if_neg (not_not.mpr hsign)]
    by_cases hl : con.recvBuffer.contents.length < 28
    · rw [if_pos hl, if_neg (by omega), nextPackage_short hl]
      rfl
    · have hl : 28 ≤ con.recvBuffer.contents.length := by omega
      rw [if_neg (by omega), if_pos hl]
      by_cases ha : (decode con.recvBuffer.contents).Accepted
      · have hp : { con with recvHeader := decode con.recvBuffer.contents }.havePackage = _ :=
          havePackage_accepted hv hl rfl ha
        rw [if_pos ha, hp]
      · rw [if_neg ha, nextPackage_rejected hl ha]
        rfl
  · rw [if_pos ha.sign_ne_zero, if_pos hl, havePackage_accepted hv hl hd ha, ← hd]

/-- A look that finds nothing complete leaves the connection ready for the next one. -/
theorem Receiving.waiting {con : NetConnection} (h : con.Receiving)
    (hm : nextPackage con.recvBuffer.contents = .more) :
    { con with recvHeader := con.checkHeader }.Receiving := by
  refine ⟨h.valid, h.size, ?_⟩
  change con.checkHeader = _ ∨ _ ∧ con.checkHeader = _ ∧ con.checkHeader.Accepted
  by_cases hl : 28 ≤ con.recvBuffer.contents.length
  · refine Or.inr ⟨hl, if_pos hl, ?_⟩
    rw [checkHeader, if_pos hl]
    by_contra ha
    rw [nextPackage_rejected hl ha] at hm
    cases hm
  · rw [checkHeader, if_neg hl]
    exact Or.inl (h.cached.resolve_right fun hc => hl hc.1)

theorem takeRecvPackage_eq {con : NetConnection} {buffer : List Byte} {p : NetPackage} {n : Nat}
    (h : con.Receiving) (hp : nextPackage con.recvBuffer.contents = .packet p n)
    (hb : buffer.length = 1024) :
    ∃ b, { con with recvHeader := con.checkHeader }.takeRecvPackage buffer =
        some (p.header, splice buffer 0 p.body,
          { con with recvBuffer := b, recvHeader := NetPackageHeader.new }) ∧
      b.Valid ∧ b.size = netBufferSize ∧ b.contents = con.recvBuffer.contents.drop n ∧
      p.body.length = p.header.bodySize.toInt.toNat := by
  obtain ⟨hl, ha, h0, hn, he, hpe⟩ := nextPackage_packet hp
  have hlen := h.valid.contents_length
  have hmax : (decode con.recvBuffer.contents).bodySize.toInt ≤ 1024 := ha.2
  obtain ⟨k, hk⟩ := Int.eq_ofNat_of_zero_le h0
  rw [hk, Int.toNat_natCast] at he hpe
  have hw : wrap32 (k + headerSize) = n := by
    rw [wrap32_eq (by change _ ≤ _ + (28 : Int); omega) (by change _ + (28 : Int) < _; omega)]
    change _ + (28 : Int) = _
    omega
  have hg : con.recvBuffer.getData buffer (28 : Nat) k = some _ :=
    ByteBuffer.getData_valid h.valid (by omega) (by omega)
  obtain ⟨b, hr, hbv, hbs, hbc⟩ := ByteBuffer.removeData_valid h.valid (n := n) (by omega)
  refine ⟨b, ?_, hbv, hbs.trans h.size, hbc, ?_⟩
  · rw [takeRecvPackage, checkHeader, if_pos hl]
    simp only [hk, hw, hr, hpe]
    change (con.recvBuffer.getData buffer (28 : Nat) k).bind _ = _
    rw [hg]
    rfl
  · rw [hpe, hk]
    simp only [List.length_take, List.length_drop, Int.toNat_natCast]
    omega

/-- A negative body size makes `TakeRecvPackage` copy a negative number of bytes. -/
theorem takeRecvPackage_negative {con : NetConnection} (buffer : List Byte)
    (h : con.recvHeader.bodySize.toInt < 0) : con.takeRecvPackage buffer = none := by
  rw [takeRecvPackage]
  simp only [ByteBuffer.getData, memcpy_negative h]
  rfl

end NetConnection

/-- What one connection's reads have done so far: deliveries of `ps`, and replies put at the end
of the send queue. -/
structure Drained (host : Host) (con : NetConnection) (host' : Host) (con' : NetConnection)
    (ps : List NetPackage) : Prop where
  serial : con'.serial = con.serial
  socket : con'.socket = con.socket
  sendValid : con'.SendValid
  queued : con.sendBuffer.contents <+: con'.sendBuffer.contents
  silent : (∀ p ∈ ps, p.header.command ≠ 1001) → con'.sendBuffer = con.sendBuffer
  replied : (∃ p ∈ ps, p.header.command = 1001) → con'.sendBuffer.contents ≠ []
  serves : ∃ es, host.Serves host' con.socket con.serial es ∧ deliveries con.serial es = ps

theorem Drained.trans {a b c : Host} {x y z : NetConnection} {ps qs : List NetPackage}
    (h : Drained a x b y ps) (k : Drained b y c z qs) : Drained a x c z (ps ++ qs) := by
  obtain ⟨es, hs, he⟩ := h.serves
  obtain ⟨fs, ks, ke⟩ := k.serves
  rw [h.socket, h.serial] at ks
  rw [h.serial] at ke
  refine ⟨k.serial.trans h.serial, k.socket.trans h.socket, k.sendValid, h.queued.trans k.queued,
    ?_, ?_, es ++ fs, hs.trans ks, by rw [deliveries_append, he, ke]⟩
  · intro hn
    rw [k.silent fun p hp => hn p (List.mem_append_right _ hp),
      h.silent fun p hp => hn p (List.mem_append_left _ hp)]
  · rintro ⟨p, hp, hlogin⟩ hnil
    rcases List.mem_append.mp hp with hp | hp
    · have hq := k.queued
      rw [hnil, List.prefix_nil] at hq
      exact h.replied ⟨p, hp, hlogin⟩ hq
    · exact k.replied ⟨p, hp, hlogin⟩ hnil

theorem loginReply_first :
    DataUtil.writeInt32 (zeros 1024) 0 0 = some (splice (zeros 1024) 0 (leBytes 4 0), 4) := by
  have h : DataUtil.writeInt32 (splice (zeros 1024) 0 []) 0 0 = some (_, 4) :=
    NetPackageHeader.writeInt32_at (i := 0) (k := 0) 0 rfl (by simp)
  rw [splice_nil] at h
  exact h

theorem loginReply_second : DataUtil.writeInt32 (splice (zeros 1024) 0 (leBytes 4 0)) 4 0 =
    some (splice (zeros 1024) 0 (leBytes 4 0 ++ leBytes 4 0), 8) :=
  NetPackageHeader.writeInt32_at (i := 0) (k := 4) 0 rfl (by simp)

/-- The body of the reply to a login, in the buffer it is written to. -/
def loginBuffer : List Byte := splice (zeros 1024) 0 (leBytes 4 0 ++ leBytes 4 0)

theorem length_loginBuffer : 8 ≤ loginBuffer.length := by
  rw [loginBuffer, length_splice (by simp)]
  simp

/-- A packet has been taken and its body is in the static buffer. -/
def Host.deliver (host : Host) (n : Nat) (p : NetPackage) : Host :=
  { host.log (.delivered n p) with buffer := splice host.buffer 0 p.body }

/-- What is printed of a login. -/
def Host.logToken (host : Host) : Host :=
  host.log (.login ((DataUtil.readString host.buffer 0 0).map Prod.fst))

/-- What `OnRecvData` does with a complete packet: only a login is answered. -/
theorem onRecvData_packet (build : Build) {host : Host} {con : NetConnection} {p : NetPackage}
    {n : Nat} (h : con.Receiving) (hb : host.buffer.length = 1024)
    (hp : nextPackage con.recvBuffer.contents = .packet p n) :
    ∃ b : ByteBuffer, b.Valid ∧ b.size = netBufferSize ∧
      b.contents = con.recvBuffer.contents.drop n ∧
      (host.deliver con.serial p).buffer.length = host.buffer.length ∧
      onRecvData build host { con with recvHeader := con.checkHeader } =
        if p.header.command = 1001 then
          ({ con with recvBuffer := b, recvHeader := NetPackageHeader.new }.send build
            (host.deliver con.serial p).logToken 0 1401 loginBuffer (Int32.ofInt 8)).map Prod.snd
        else some (host.deliver con.serial p,
          { con with recvBuffer := b, recvHeader := NetPackageHeader.new }) := by
  obtain ⟨b, ht, hbv, hbs, hbc, hbl⟩ := NetConnection.takeRecvPackage_eq h hp hb
  obtain ⟨_, ha, _, _, _, hpe⟩ := nextPackage_packet hp
  have hmax : p.header.bodySize.toInt ≤ 1024 := by rw [hpe]; exact ha.2
  have hbody : (splice host.buffer 0 p.body).take p.header.bodySize.toInt.toNat = p.body := by
    have ht : (splice host.buffer 0 p.body).take (0 + p.body.length) = _ := take_splice (by omega)
    rw [← hbl]
    simpa using ht
  refine ⟨b, hbv, hbs, hbc, length_splice (by omega), ?_⟩
  simp only [onRecvData, ht, Option.bind_eq_bind, Option.bind_some, hbody, loginReply_first,
    loginReply_second]
  by_cases h3 : p.header.command = 3
  · rw [if_pos h3, if_neg (by rw [h3]; decide)]
    rfl
  · rw [if_neg h3]
    split
    next =>
      rw [← loginBuffer, Option.map_eq_bind (f := Prod.snd)]
      rfl
    next => rfl

/-- Handling one complete packet: it is delivered, taken out of the buffer, and at most a
reply is queued. -/
theorem onRecvData_spec (build : Build) {host : Host} {con : NetConnection} {p : NetPackage} {n : Nat}
    (h : con.Receiving) (hs : con.SendValid) (hb : host.buffer.length = 1024)
    (hp : nextPackage con.recvBuffer.contents = .packet p n) :
    ∃ host' con', onRecvData build host { con with recvHeader := con.checkHeader } =
        some (host', con') ∧
      Drained host con host' con' [p] ∧ con'.Receiving ∧
      con'.recvBuffer.contents = con.recvBuffer.contents.drop n := by
  obtain ⟨b, hbv, hbs, hbc, hlen, hon⟩ := onRecvData_packet build h hb hp
  have hs1 : host.Serves (host.deliver con.serial p) con.socket con.serial
      [.delivered con.serial p] :=
    ⟨rfl, rfl, hlen, rfl, by simp [NetEvent.Traffic], fun _ => Iff.rfl, fun _ => rfl⟩
  have hd : deliveries con.serial [.delivered con.serial p] = [p] := by simp [deliveries]
  rw [hon]
  split
  next hlogin =>
    have hv : { con with recvBuffer := b, recvHeader := NetPackageHeader.new }.SendValid :=
      ⟨hs.valid, hs.size⟩
    obtain ⟨ok, q, hsend, hqv, hq, hne⟩ := NetConnection.send_queues build
      (host.deliver con.serial p).logToken 0 1401 hv
      (show (Int32.ofInt 8).toInt = (8 : Nat) by decide) length_loginBuffer (by omega)
    rw [hsend]
    have hlog : host.Serves (host.deliver con.serial p).logToken con.socket con.serial _ :=
      hs1.trans (Host.Serves.log _ con.socket trivial)
    exact ⟨_, _, rfl, ⟨rfl, rfl, hqv, hq, fun hn => absurd hlogin (hn p (by simp)), fun _ => hne, _,
      hlog.trans (NetConnection.updateConnectionSend_serves build _ _), by simp [deliveries]⟩,
      ⟨hbv, hbs, Or.inl rfl⟩, hbc⟩
  next hlogin =>
    refine ⟨_, _, rfl, ⟨rfl, rfl, ⟨hs.valid, hs.size⟩, List.prefix_rfl, fun _ => rfl, ?_, _, hs1,
      hd⟩, ⟨hbv, hbs, Or.inl rfl⟩, hbc⟩
    rintro ⟨q, hq, he⟩
    rw [List.mem_singleton.mp hq] at he
    exact absurd he hlogin

/-- The states in which the drain loop can start or stop. -/
structure NetConnection.Open (con : NetConnection) : Prop where
  receiving : con.Receiving
  sendValid : con.SendValid

/-- How a read of the buffer may end, given the parse of the buffer. -/
def DrainOutcome (host : Host) (con : NetConnection) (result : Option (Int × Host × NetConnection)) :
    List NetPackage × Tail Byte Verdict → Prop
  | (ps, .rest r) => ∃ host' con', result = some (0, host', con') ∧
      Drained host con host' con' ps ∧ con'.Open ∧ con'.recvBuffer.contents = r
  | (ps, .stop .rejected) => ∃ host' con', result = some (4, host', con') ∧
      Drained host con host' con' ps
  | (_, .stop .negative) => result = none

theorem DrainOutcome.cons {host host' : Host} {con con' : NetConnection} {p : NetPackage}
    {result : Option (Int × Host × NetConnection)} {out : List NetPackage × Tail Byte Verdict}
    (h : Drained host con host' con' [p]) (ho : DrainOutcome host' con' result out) :
    DrainOutcome host con result (p :: out.1, out.2) := by
  obtain ⟨ps, t⟩ := out
  match t with
  | .rest r =>
    obtain ⟨host2, con2, hr, hd, hopen, hc⟩ := ho
    exact ⟨host2, con2, hr, h.trans hd, hopen, hc⟩
  | .stop .rejected =>
    obtain ⟨host2, con2, hr, hd⟩ := ho
    exact ⟨host2, con2, hr, h.trans hd⟩
  | .stop .negative => exact ho

theorem NetConnection.SendValid.drained_nil {con : NetConnection} (h : con.SendValid)
    (host : Host) : Drained host con host con [] :=
  ⟨rfl, rfl, h, List.prefix_rfl, fun _ => rfl, by simp, [], Host.Serves.refl host _ _, rfl⟩

theorem NetConnection.SendValid.checked {con : NetConnection} (h : con.SendValid) (host : Host) :
    Drained host con host { con with recvHeader := con.checkHeader } [] :=
  ⟨rfl, rfl, ⟨h.valid, h.size⟩, List.prefix_rfl, fun _ => rfl, by simp, [],
    Host.Serves.refl host _ _, rfl⟩

theorem onRecvData_negative (build : Build) (host : Host) {con : NetConnection}
    (h : nextPackage con.recvBuffer.contents = .stop .negative) :
    onRecvData build host { con with recvHeader := con.checkHeader } = none := by
  obtain ⟨hl, hn⟩ := nextPackage_negative_iff.mp h
  have ht : { con with recvHeader := con.checkHeader }.takeRecvPackage host.buffer = none :=
    NetConnection.takeRecvPackage_negative _
      (by rw [NetConnection.checkHeader, if_pos hl]; exact hn.2)
  rw [onRecvData, ht]
  rfl

/-- One round of the loop, for each thing the buffer can hold. -/
theorem drain_succ (build : Build) (fuel : Nat) (host : Host) {con : NetConnection}
    (h : con.Receiving) : drain build (fuel + 1) host con =
      match nextPackage con.recvBuffer.contents with
      | .more => some (0, host, { con with recvHeader := con.checkHeader })
      | .stop .rejected => some (4, host, { con with recvHeader := con.checkHeader })
      | .stop .negative => none
      | .packet _ _ => (onRecvData build host { con with recvHeader := con.checkHeader }).bind
          fun r => drain build fuel r.1 r.2 := by
  rw [drain, NetConnection.checkRecvPackage_eq h]
  cases hn : nextPackage con.recvBuffer.contents with
  | more => rfl
  | stop v =>
    cases v with
    | rejected => rfl
    | negative =>
      simp only [Option.bind_eq_bind, Option.bind_some, NetConnection.checkCode,
        onRecvData_negative build host hn]
      rfl
  | packet p n => rfl

/-- The loop delivers the packets of the buffer and stops as the parse of the buffer does; a
budget above the buffer's length is never used up. -/
theorem drain_spec (build : Build) {fuel : Nat} {host : Host} {con : NetConnection} (h : con.Open)
    (hb : host.buffer.length = 1024) (hf : con.recvBuffer.contents.length < fuel) :
    DrainOutcome host con (drain build fuel host con)
      (packageFramer.parse con.recvBuffer.contents) := by
  obtain ⟨bs, hbs⟩ : ∃ bs, bs = con.recvBuffer.contents := ⟨_, rfl⟩
  induction bs using Framer.parse_induction (F := packageFramer) generalizing fuel host con with
  | more bs hm =>
    subst bs
    obtain ⟨fuel, rfl⟩ := Nat.exists_eq_add_one.mpr (Nat.zero_lt_of_lt hf)
    have hm' : nextPackage con.recvBuffer.contents = .more := hm
    rw [Framer.parse_more hm, drain_succ build fuel host h.receiving, hm']
    exact ⟨host, { con with recvHeader := con.checkHeader }, rfl, h.sendValid.checked host,
      ⟨h.receiving.waiting hm, ⟨h.sendValid.valid, h.sendValid.size⟩⟩, rfl⟩
  | stop bs v hv =>
    subst bs
    obtain ⟨fuel, rfl⟩ := Nat.exists_eq_add_one.mpr (Nat.zero_lt_of_lt hf)
    have hv' : nextPackage con.recvBuffer.contents = .stop v := hv
    rw [Framer.parse_stop hv, drain_succ build fuel host h.receiving, hv']
    cases v with
    | rejected =>
      exact ⟨host, { con with recvHeader := con.checkHeader }, rfl, h.sendValid.checked host⟩
    | negative => rfl
  | packet bs p n hp ih =>
    subst bs
    obtain ⟨fuel, rfl⟩ := Nat.exists_eq_add_one.mpr (Nat.zero_lt_of_lt hf)
    have hp' : nextPackage con.recvBuffer.contents = .packet p n := hp
    obtain ⟨host', con', hr, hd, hrecv, hc⟩ :=
      onRecvData_spec build h.receiving h.sendValid hb hp
    obtain ⟨es, hserves, _⟩ := hd.serves
    have hsize := packageFramer.packet_size hp
    have hlt : con'.recvBuffer.contents.length < fuel := by rw [hc, List.length_drop]; omega
    have hout := ih ⟨hrecv, hd.sendValid⟩ (hserves.buffer.trans hb) hlt hc.symm
    rw [hc] at hout
    rw [Framer.parse_packet hp, drain_succ build fuel host h.receiving, hp']
    dsimp only
    rw [hr]
    exact hout.cons hd

end CppTry
