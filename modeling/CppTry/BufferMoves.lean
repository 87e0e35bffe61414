import CppTry.ReceiveRuns

namespace CppTry

/-- A call `RemoveData(len)` on a buffer with `length` bytes in use. -/
structure Removal where
  length : Int
  len : Int

namespace Removal

def rest (r : Removal) : Int := wrap32 (r.length - r.len)

/-- What is left is copied between ranges without a common byte, as `memcpy` requires. -/
def Separate (r : Removal) : Prop :=
  0 < r.rest → ∀ i, r.len ≤ i ∧ i < r.len + r.rest → ¬ (0 ≤ i ∧ i < r.rest)

theorem separate_iff {r : Removal} (h0 : 0 ≤ r.len) (hle : r.len ≤ r.length)
    (hlt : r.length < 2 ^ 31) : r.Separate ↔ r.length ≤ 2 * r.len := by
  have hrest : r.rest = r.length - r.len := wrap32_eq (by omega) (by omega)
  unfold Separate
  rw [hrest]
  constructor
  · intro h
    by_contra hlong
    exact h (by omega) r.len (by omega) (by omega)
  · intro h hpos i hi
    omega

end Removal

namespace NetConnection

/-- The `RemoveData` call that `DoSend` makes, if it makes one. -/
def sendRemovals (con : NetConnection) : SendResult → List Removal
  | .taken room =>
    let ret := min room con.sendBuffer.length.toNat
    if con.sendBuffer.length > 0 ∧ ret > 0 then [⟨con.sendBuffer.length, ret⟩] else []
  | .failed _ => []

/-- The `RemoveData` call that `TakeRecvPackage` makes. -/
def recvRemoval (con : NetConnection) : Removal :=
  ⟨con.recvBuffer.length, wrap32 (con.recvHeader.bodySize.toInt + NetPackageHeader.headerSize)⟩

end NetConnection

/-- `drain` with the `RemoveData` calls that its rounds make. -/
def drainRemovals (build : Build) :
    Nat → Host → NetConnection → Option (List Removal × Int × Host × NetConnection)
  | 0, _, _ => none
  | fuel + 1, host, con => do
    let (ret, con) ← con.checkRecvPackage
    if ret = 0 then pure ([], 0, host, con)
    else if ret = 1 then do
      let removal := con.recvRemoval
      let (host, con) ← onRecvData build host con
      let (removals, out) ← drainRemovals build fuel host con
      pure (removal :: removals, out)
    else pure ([], 4, host, con)

theorem drainRemovals_drain (build : Build) (fuel : Nat) (host : Host) (con : NetConnection) :
    (drainRemovals build fuel host con).map Prod.snd = drain build fuel host con := by
  induction fuel generalizing host con with
  | zero => rfl
  | succ fuel ih =>
    simp only [drainRemovals, drain, Option.bind_eq_bind]
    cases con.checkRecvPackage with
    | none => rfl
    | some r =>
      simp only [Option.bind_some]
      split
      next => rfl
      next =>
        split
        next =>
          cases onRecvData build host r.2 with
          | none => rfl
          | some out =>
            simp only [Option.bind_some, ← ih]
            cases drainRemovals build fuel out.1 out.2 <;> rfl
        next => rfl

/-- The calls on a connection; `read` is `OnSocketRead` with a `recv` that has returned bytes. -/
inductive ConnCall
  | send (guid : Int64) (cmd : Int32) (buffer : List Byte) (len : Int32)
  | doSend (result : SendResult)
  | read (chunk : Chunk)

/-- One call, with the `RemoveData` calls that it makes. -/
def callStep (build : Build) (host : Host) (con : NetConnection) :
    ConnCall → Option (List Removal × Host × NetConnection)
  | .send guid cmd buffer len =>
    (con.send build host guid cmd buffer len).map fun r => ([], r.2)
  | .doSend result =>
    (con.doSend build host result).map fun r => (con.sendRemovals result, r.2)
  | .read chunk => do
    let (ok, con) ← con.addRecvData chunk.data chunk.data.length
    if ok = false then pure ([], host, con)
    else
      (drainRemovals build (con.recvBuffer.length.toNat + 1) host con).map fun r => (r.1, r.2.2)

/-- A sequence of calls: all the `RemoveData` calls, and the state at the end. -/
def callRun (build : Build) :
    Host → NetConnection → List ConnCall → Option (List Removal × Host × NetConnection)
  | host, con, [] => some ([], host, con)
  | host, con, c :: cs => do
    let (removals, host, con) ← callStep build host con c
    let (more, out) ← callRun build host con cs
    pure (removals ++ more, out)

/-- The bytes that a call receives. -/
def ConnCall.data : ConnCall → List Byte
  | .read chunk => chunk.data
  | _ => []

/-- Each packet is at least as long as all that stands behind it: the other packets, and `n` bytes
of one that is not complete. -/
def LongerThanRest (n : Nat) : List NetPackage → Prop
  | [] => True
  | p :: ps => (ps.flatMap NetPackage.bytes).length + n ≤ p.bytes.length ∧ LongerThanRest n ps

/-- The kernel takes nothing or at least half of what is queued; and a packet that a read completes
is at least as long as what was received behind it. -/
def ConnCall.Halves (con : NetConnection) : ConnCall → Prop
  | .send _ _ _ _ => True
  | .doSend (.taken room) => room = 0 ∨ con.sendBuffer.length ≤ 2 * room
  | .doSend (.failed _) => True
  | .read chunk =>
    match packageFramer.parse (con.recvBuffer.contents ++ chunk.data) with
    | (ps, .rest r) => LongerThanRest r.length ps
    | _ => True

def AllHalve (build : Build) : Host → NetConnection → List ConnCall → Prop
  | _, _, [] => True
  | host, con, c :: cs =>
    c.Halves con ∧ ∀ r, callStep build host con c = some r → AllHalve build r.2.1 r.2.2 cs

/-- The stream consists of packets that a receiver accepts, the last of them perhaps cut off. -/
def WellFormedStream (stream : List Byte) : Prop :=
  ∃ ps : List NetPackage,
    (∀ p ∈ ps, p.header.Accepted ∧ p.header.bodySize.toInt = p.body.length) ∧
      stream <+: ps.flatMap NetPackage.bytes

theorem WellFormedStream.parse {stream : List Byte} (h : WellFormedStream stream) :
    ∃ ps r, packageFramer.parse stream = (ps, .rest r) := by
  obtain ⟨ps, hps, hpre⟩ := h
  have hframes : ∀ p ∈ ps, packageFramer.Frames (id p) p.bytes :=
    fun p hp => package_frames (hps p hp).1 (hps p hp).2
  have hnil : nextPackage [] = .more := nextPackage_short (by decide)
  obtain ⟨r, hr⟩ := Framer.parse_take_flatMap stream.length hframes hnil
  rw [← List.prefix_iff_eq_take.mp hpre] at hr
  exact ⟨_, r, hr⟩

/-! ### The receive drain loop -/

theorem nextPackage_bytes {bs : List Byte} {p : NetPackage} {n : Nat}
    (h : nextPackage bs = .packet p n) : p.bytes = bs.take n := by
  obtain ⟨hl, _, _, _, rfl, rfl⟩ := nextPackage_packet h
  rw [NetPackage.bytes, NetPackageHeader.encode_decode hl, ← List.take_add]

/-- The calls that take the packets `ps` out of a buffer with `n` more bytes behind them. -/
def removalsOf : List NetPackage → Nat → List Removal
  | [], _ => []
  | p :: ps, n =>
    ⟨(((p :: ps).flatMap NetPackage.bytes).length + n : Nat), p.bytes.length⟩ :: removalsOf ps n

theorem removalsOf_separate_iff {ps : List NetPackage} {n : Nat}
    (h : (ps.flatMap NetPackage.bytes).length + n < 2 ^ 31) :
    (∀ x ∈ removalsOf ps n, x.Separate) ↔ LongerThanRest n ps := by
  induction ps with
  | nil => simp [removalsOf, LongerThanRest]
  | cons p ps ih =>
    rw [List.flatMap_cons, List.length_append] at h
    have hfirst := @Removal.separate_iff
      ⟨((p.bytes.length + (ps.flatMap NetPackage.bytes).length + n : Nat) : Int), p.bytes.length⟩
    rw [removalsOf, List.forall_mem_cons, LongerThanRest, ih (by omega), List.flatMap_cons,
      List.length_append, hfirst (by simp only; omega) (by simp only; omega) (by simp only; omega)]
    refine and_congr_left fun _ => ?_
    simp only
    omega

theorem flatMap_of_parse {bs r : List Byte} {ps : List NetPackage}
    (h : packageFramer.parse bs = (ps, .rest r)) : bs = ps.flatMap NetPackage.bytes ++ r := by
  induction bs using Framer.parse_induction (F := packageFramer) generalizing ps with
  | more bs hm =>
    rw [Framer.parse_more hm] at h
    cases h
    rfl
  | stop bs v hv =>
    rw [Framer.parse_stop hv] at h
    cases h
  | packet bs p n hp ih =>
    rw [Framer.parse_packet hp] at h
    cases hrest : packageFramer.parse (bs.drop n) with
    | mk qs t =>
    rw [hrest] at h
    cases h
    rw [List.flatMap_cons, List.append_assoc, ← ih hrest, nextPackage_bytes hp, List.take_append_drop]

/-- A complete packet is removed from the front of all that has been received. -/
theorem recvRemoval_eq {con : NetConnection} {p : NetPackage} {n : Nat} (h : con.Receiving)
    (hp : nextPackage con.recvBuffer.contents = .packet p n) :
    { con with recvHeader := con.checkHeader }.recvRemoval =
      ⟨con.recvBuffer.contents.length, p.bytes.length⟩ := by
  obtain ⟨hl, ha, h0, hn, he, _⟩ := nextPackage_packet hp
  have hmax : (NetPackageHeader.decode con.recvBuffer.contents).bodySize.toInt ≤ 1024 := ha.2
  have hlen : ((n : Nat) : Int) = wrap32
      ((NetPackageHeader.decode con.recvBuffer.contents).bodySize.toInt + 28) := by
    rw [wrap32_eq (by omega) (by omega)]
    omega
  rw [nextPackage_bytes hp, List.length_take_of_le hn, NetConnection.recvRemoval,
    h.valid.contents_length, hlen, NetConnection.checkHeader, if_pos hl]
  rfl

/-- A round that finds a complete packet. -/
theorem drainRemovals_packet (build : Build) (fuel : Nat) {host host' : Host}
    {con con' : NetConnection} {p : NetPackage} {n : Nat} (h : con.Receiving)
    (hp : nextPackage con.recvBuffer.contents = .packet p n)
    (hr : onRecvData build host { con with recvHeader := con.checkHeader } = some (host', con')) :
    drainRemovals build (fuel + 1) host con = (drainRemovals build fuel host' con').map
      fun out => (⟨con.recvBuffer.contents.length, p.bytes.length⟩ :: out.1, out.2) := by
  rw [drainRemovals, NetConnection.checkRecvPackage_eq h, hp]
  simp only [Option.bind_eq_bind, Option.bind_some, NetConnection.checkCode, Int.reduceEq, reduceIte]
  rw [hr, recvRemoval_eq h hp]
  simp only [Option.bind_some]
  cases drainRemovals build fuel host' con' <;> rfl

theorem drainRemovals_spec (build : Build) {fuel : Nat} {host : Host} {con : NetConnection}
    {ps : List NetPackage} {r : List Byte} (h : con.Open) (hb : host.buffer.length = 1024)
    (hf : con.recvBuffer.contents.length < fuel)
    (hp : packageFramer.parse con.recvBuffer.contents = (ps, .rest r)) :
    ∃ out, drainRemovals build fuel host con = some (removalsOf ps r.length, out) := by
  obtain ⟨bs, hbs⟩ : ∃ bs, bs = con.recvBuffer.contents := ⟨_, rfl⟩
  induction bs using Framer.parse_induction (F := packageFramer) generalizing fuel host con ps with
  | more bs hm =>
    subst bs
    obtain ⟨fuel, rfl⟩ := Nat.exists_eq_add_one.mpr (Nat.zero_lt_of_lt hf)
    have hm' : nextPackage con.recvBuffer.contents = .more := hm
    rw [Framer.parse_more hm] at hp
    cases hp
    rw [drainRemovals, NetConnection.checkRecvPackage_eq h.receiving, hm']
    exact ⟨_, rfl⟩
  | stop bs v hv =>
    subst bs
    rw [Framer.parse_stop hv] at hp
    cases hp
  | packet bs p n hn ih =>
    subst bs
    obtain ⟨fuel, rfl⟩ := Nat.exists_eq_add_one.mpr (Nat.zero_lt_of_lt hf)
    obtain ⟨host', con', hr, hd, hrecv, hc⟩ :=
      onRecvData_spec build h.receiving h.sendValid hb hn
    obtain ⟨es, hserves, _⟩ := hd.serves
    have hsize := packageFramer.packet_size hn
    have hlt : con'.recvBuffer.contents.length < fuel := by rw [hc, List.length_drop]; omega
    have hflat := flatMap_of_parse hp
    rw [Framer.parse_packet hn] at hp
    cases hrest : packageFramer.parse (con.recvBuffer.contents.drop n) with
    | mk qs t =>
    rw [hrest] at hp
    cases hp
    obtain ⟨out, ho⟩ := ih ⟨hrecv, hd.sendValid⟩ (hserves.buffer.trans hb) hlt
      (by rw [hc]; exact hrest) hc.symm
    refine ⟨out, ?_⟩
    rw [drainRemovals_packet build fuel h.receiving hn hr, ho, hflat, List.length_append]
    rfl

/-! ### One call -/

namespace NetConnection

/-- A connection between two calls, and the static buffer has its size. -/
structure Resting (host : Host) (con : NetConnection) : Prop where
  idle : con.Idle
  buffer : host.buffer.length = 1024

theorem Resting.withSendBuffer {host host' : Host} {con : NetConnection} {b : ByteBuffer}
    (h : con.Resting host) (hv : { con with sendBuffer := b }.SendValid)
    (hb : host'.buffer.length = host.buffer.length) :
    { con with sendBuffer := b }.Resting host' where
  idle := ⟨⟨⟨h.idle.receiving.valid, h.idle.receiving.size, h.idle.receiving.cached⟩, hv⟩,
    h.idle.pending⟩
  buffer := hb.trans h.buffer

theorem addSendData_some {build : Build} {host host' : Host} {con con' : NetConnection}
    {buffer : List Byte} {len : Int} {ok : Bool} (h : con.Resting host)
    (hs : con.addSendData build host buffer len = some (ok, host', con')) :
    con'.Resting host' ∧ con'.recvBuffer = con.recvBuffer := by
  obtain ⟨⟨ok, b⟩, ha, he⟩ := Option.bind_eq_some_iff.mp hs
  cases he
  obtain ⟨hv, hsize, _⟩ := ByteBuffer.addData_some h.idle.sendValid.valid ha
  exact ⟨h.withSendBuffer ⟨hv, hsize.trans h.idle.sendValid.size⟩
    (updateConnectionSend_serves build host _).buffer, rfl⟩

theorem send_some {build : Build} {host host' : Host} {con con' : NetConnection} {guid : Int64}
    {cmd len : Int32} {buffer : List Byte} {ok : Bool} (h : con.Resting host)
    (hs : con.send build host guid cmd buffer len = some (ok, host', con')) :
    con'.Resting host' ∧ con'.recvBuffer = con.recvBuffer := by
  simp only [send, Option.bind_eq_bind, Option.bind_eq_some_iff] at hs
  obtain ⟨_, _, _, _, hs⟩ := hs
  exact addSendData_some h hs

theorem doSend_some {build : Build} {host host' : Host} {con con' : NetConnection}
    {result : SendResult} {ret : Int} (h : con.Resting host)
    (hs : con.doSend build host result = some (ret, host', con')) :
    con'.Resting host' ∧ con'.recvBuffer = con.recvBuffer := by
  obtain ⟨_, _, b, bytes, he, hv, _, _, hhost⟩ := doSend_spec build host result h.idle.sendValid
  rw [he] at hs
  cases hs
  refine ⟨h.withSendBuffer hv ?_, rfl⟩
  rcases hhost with ⟨_, hhost, _⟩ | hhost
  · rw [hhost]
  · rw [hhost]
    exact (updateConnectionSend_serves build _ _).buffer

theorem sendRemovals_separate_iff {host : Host} {con : NetConnection} (result : SendResult)
    (h : con.Resting host) :
    (∀ x ∈ con.sendRemovals result, x.Separate) ↔ (ConnCall.doSend result).Halves con := by
  have hlt := h.idle.sendValid.valid.size_lt
  have hle := h.idle.sendValid.valid.length_le
  have h0 := h.idle.sendValid.valid.length_nonneg
  cases result with
  | failed errno => simp [sendRemovals, ConnCall.Halves]
  | taken room =>
    have hfirst := @Removal.separate_iff
      ⟨con.sendBuffer.length, (min room con.sendBuffer.length.toNat : Nat)⟩
    simp only [sendRemovals, ConnCall.Halves] at hfirst ⊢
    split
    next hpos =>
      rw [List.forall_mem_singleton, hfirst (by omega) (by omega) (by omega)]
      omega
    next hzero =>
      simp only [List.not_mem_nil, false_implies, implies_true, true_iff]
      omega

end NetConnection

variable {build : Build} {host host' : Host} {con con' : NetConnection} {removals : List Removal}

/-- `callStep` reads as `OnSocketRead` does. -/
theorem callStep_read (build : Build) (host : Host) (con : NetConnection) (chunk : Chunk) :
    (callStep build host con (.read chunk)).map Prod.snd =
      (readConnection build host con (.received chunk)).map Prod.snd := by
  simp only [callStep, readConnection, Option.bind_eq_bind]
  cases con.addRecvData chunk.data chunk.data.length with
  | none => rfl
  | some out =>
    simp only [Option.bind_some]
    split
    next => rfl
    next =>
      rw [← drainRemovals_drain]
      simp only [Option.map_map]
      rfl

theorem callStep_read_spec (build : Build) (chunk : Chunk) {ps : List NetPackage} {r : List Byte}
    (h : con.Resting host)
    (hp : packageFramer.parse (con.recvBuffer.contents ++ chunk.data) = (ps, .rest r)) :
    ∃ host' con', callStep build host con (.read chunk) =
        some (removalsOf ps r.length, host', con') ∧
      con'.Resting host' ∧ con'.recvBuffer.contents = r := by
  have hlt := h.idle.length_lt
  have hfits := chunk.fits
  obtain ⟨b, ha, hopen, hc⟩ := h.idle.toOpen.addRecvData
    (show _ + (chunk.data.length : Int) ≤ 8 * 1024 by omega)
  have hlen := hopen.receiving.valid.contents_length
  have hfuel : b.contents.length < b.length.toNat + 1 := by
    change (b.contents.length : Int) = b.length at hlen
    omega
  rw [← hc] at hp
  obtain ⟨out, ho⟩ := drainRemovals_spec build hopen h.buffer hfuel hp
  have hstep : callStep build host con (.read chunk) = some (removalsOf ps r.length, out.2) := by
    simp only [callStep, ha, Option.bind_eq_bind, Option.bind_some, Bool.true_eq_false, if_false, ho,
      Option.map_some]
  have hread := readConnection_spec build h.idle h.buffer chunk
  rw [← hc, hp] at hread
  obtain ⟨host', con', hr, hd, hopen', hrest⟩ := hread
  obtain ⟨es, hserves, _⟩ := hd.serves
  have hout := callStep_read build host con chunk
  rw [hr, hstep] at hout
  rw [hstep, Option.some.inj hout]
  exact ⟨host', con', rfl, ⟨⟨hopen', by rw [hrest]; exact Framer.next_rest hp⟩,
    hserves.buffer.trans h.buffer⟩, hrest⟩

theorem callStep_spec {c : ConnCall} {ps : List NetPackage} {r : List Byte} (h : con.Resting host)
    (hp : packageFramer.parse (con.recvBuffer.contents ++ c.data) = (ps, .rest r))
    (hs : callStep build host con c = some (removals, host', con')) :
    con'.Resting host' ∧ con'.recvBuffer.contents = r ∧
      ((∀ x ∈ removals, x.Separate) ↔ c.Halves con) := by
  have hquiet : c.data = [] → r = con.recvBuffer.contents := by
    intro hnil
    rw [hnil, List.append_nil, Framer.parse_more h.idle.pending] at hp
    cases hp
    rfl
  cases c with
  | send guid cmd buffer len =>
    simp only [callStep, Option.map_eq_some_iff] at hs
    obtain ⟨⟨ok, host₁, con₁⟩, hsend, he⟩ := hs
    cases he
    obtain ⟨hrest, hrecv⟩ := NetConnection.send_some h hsend
    refine ⟨hrest, by rw [hrecv, hquiet rfl], ?_⟩
    simp [ConnCall.Halves]
  | doSend result =>
    obtain ⟨⟨ret, host₁, con₁⟩, hsend, he⟩ := Option.map_eq_some_iff.mp hs
    cases he
    obtain ⟨hrest, hrecv⟩ := NetConnection.doSend_some h hsend
    exact ⟨hrest, by rw [hrecv, hquiet rfl], NetConnection.sendRemovals_separate_iff result h⟩
  | read chunk =>
    obtain ⟨host₁, con₁, he, hrest, hrecv⟩ := callStep_read_spec build chunk h hp
    rw [he] at hs
    cases hs
    refine ⟨hrest, hrecv, ?_⟩
    have hsplit := congrArg List.length (flatMap_of_parse hp)
    have hlen := h.idle.receiving.valid.contents_length
    have hlt := h.idle.length_lt
    have hfits := chunk.fits
    simp only [ConnCall.data, List.length_append] at hsplit hp
    rw [removalsOf_separate_iff (by omega)]
    simp only [ConnCall.Halves, hp]

theorem callRun_cons {c : ConnCall} {cs : List ConnCall}
    (h : callRun build host con (c :: cs) = some (removals, host', con')) :
    ∃ first host₁ con₁ more, callStep build host con c = some (first, host₁, con₁) ∧
      callRun build host₁ con₁ cs = some (more, host', con') ∧ removals = first ++ more := by
  obtain ⟨⟨first, host₁, con₁⟩, hstep, h⟩ := Option.bind_eq_some_iff.mp h
  obtain ⟨⟨more, out⟩, hrest, he⟩ := Option.bind_eq_some_iff.mp h
  cases he
  exact ⟨first, host₁, con₁, more, hstep, hrest, rfl⟩

theorem callRun_spec {cs : List ConnCall} {ps : List NetPackage} {r : List Byte}
    (h : con.Resting host)
    (hp : packageFramer.parse (con.recvBuffer.contents ++ cs.flatMap ConnCall.data) = (ps, .rest r))
    (hr : callRun build host con cs = some (removals, host', con')) :
    (∀ x ∈ removals, x.Separate) ↔ AllHalve build host con cs := by
  induction cs generalizing host con removals ps with
  | nil =>
    cases hr
    simp [AllHalve]
  | cons c cs ih =>
    obtain ⟨first, host₁, con₁, more, hstep, hrun, rfl⟩ := callRun_cons hr
    rw [List.flatMap_cons, ← List.append_assoc] at hp
    cases hfirst : packageFramer.parse (con.recvBuffer.contents ++ c.data) with
    | mk qs t =>
    match t with
    | .stop v =>
      rw [Framer.parse_append_stop _ hfirst] at hp
      cases hp
    | .rest mid =>
      obtain ⟨hrest, hmid, hc⟩ := callStep_spec h hfirst hstep
      rw [Framer.parse_append_rest _ hfirst, ← hmid] at hp
      cases hlast : packageFramer.parse (con₁.recvBuffer.contents ++ cs.flatMap ConnCall.data) with
      | mk ps' t' =>
      rw [hlast] at hp
      cases hp
      rw [List.forall_mem_append, hc, ih hrest hlast hrun]
      simp [AllHalve, hstep]

/-- On a stream of packets, `RemoveData` moves bytes between separate ranges if and only if every
call removes at least half of what is there. -/
theorem removals_separate_iff {n : Nat} {s : Int} {cs : List ConnCall}
    (hb : host.buffer.length = 1024) (hw : WellFormedStream (cs.flatMap ConnCall.data))
    (hr : callRun build host ((NetConnection.new n).setSocket s) cs = some (removals, host', con')) :
    (∀ r ∈ removals, r.Separate) ↔
      AllHalve build host ((NetConnection.new n).setSocket s) cs := by
  obtain ⟨ps, r, hp⟩ := hw.parse
  exact callRun_spec ⟨NetConnection.new_idle n s, hb⟩ hp hr

/-- A heartbeat is queued and the kernel takes `room` bytes of it. -/
def heartbeatSend (room : Nat) : List ConnCall := [.send 0 3 [] 0, .doSend (.taken room)]

def firstConnection : NetConnection := (NetConnection.new 0).setSocket 5

theorem heartbeat_queued : ∃ host con, con.Resting host ∧ con.sendBuffer.length = 28 ∧
    callStep .posix NetConnectionManager.new.host firstConnection (.send 0 3 [] 0) =
      some ([], host, con) := by
  have hrest : firstConnection.Resting NetConnectionManager.new.host :=
    ⟨NetConnection.new_idle 0 5, length_zeros 1024⟩
  have hlen : (0 : Int32).toInt = (0 : Nat) := rfl
  obtain ⟨ok, b, hsend, hbv, hok, hno⟩ := NetConnection.send_spec .posix
    NetConnectionManager.new.host 0 3 hrest.idle.sendValid hlen
    (Nat.zero_le ([] : List Byte).length) (by decide)
  have hempty : firstConnection.sendBuffer.contents = [] := rfl
  rw [hempty] at hok hno
  have htrue : ok = true := by
    cases ok with
    | true => rfl
    | false =>
      have hfull := (hno rfl).2
      simp at hfull
  have hl := hbv.valid.contents_length
  refine ⟨_, _, (NetConnection.send_some hrest hsend).1, ?_, by simp only [callStep, hsend]; rfl⟩
  rw [← hl]
  simp only [hok htrue, NetPackage.bytes, List.length_append, NetPackageHeader.length_encode]
  rfl

theorem callStep_doSend (build : Build) (host : Host) (result : SendResult) (h : con.SendValid) :
    ∃ host' con', callStep build host con (.doSend result) =
      some (con.sendRemovals result, host', con') := by
  obtain ⟨ret, host', b, bytes, hdo, _⟩ := NetConnection.doSend_spec build host result h
  exact ⟨host', _, by simp only [callStep, hdo, Option.map_some]; rfl⟩

theorem heartbeatSend_run {room : Nat} (h0 : 0 < room) (h28 : room ≤ 28) : ∃ host' con',
    callRun .posix NetConnectionManager.new.host firstConnection (heartbeatSend room) =
      some ([⟨28, room⟩], host', con') := by
  obtain ⟨host, con, hrest, hlen, hsend⟩ := heartbeat_queued
  obtain ⟨host', con', hdo⟩ := callStep_doSend .posix host (.taken room) hrest.idle.sendValid
  have hmin : min room con.sendBuffer.length.toNat = room := by omega
  have hremoval : con.sendRemovals (.taken room) = [⟨28, room⟩] := by
    rw [NetConnection.sendRemovals, hmin, hlen]
    exact if_pos ⟨by decide, h0⟩
  refine ⟨host', con', ?_⟩
  rw [heartbeatSend, callRun, hsend]
  simp only [Option.bind_eq_bind, Option.bind_some, callRun, hdo, hremoval]
  rfl

theorem heartbeatSend_wellFormed (room : Nat) :
    WellFormedStream ((heartbeatSend room).flatMap ConnCall.data) :=
  ⟨[], by simp, by simp [heartbeatSend, ConnCall.data]⟩

theorem heartbeatSend_halves : AllHalve .posix NetConnectionManager.new.host firstConnection
    (heartbeatSend 14) := by
  obtain ⟨host', con', h⟩ := heartbeatSend_run (show 0 < 14 by decide) (by decide)
  refine (removals_separate_iff (n := 0) (s := 5) (length_zeros 1024)
    (heartbeatSend_wellFormed 14) h).mp ?_
  rw [List.forall_mem_singleton, Removal.separate_iff (by decide) (by decide) (by decide)]
  decide

/-- Three heartbeats, received at once. -/
def heartbeats : List NetPackage := List.replicate 3 NetConnectionManager.heartbeat

def heartbeatsRead : List ConnCall :=
  [.read ⟨heartbeats.flatMap NetPackage.bytes, by decide, by decide⟩]

theorem heartbeats_accepted {p : NetPackage} (hp : p ∈ heartbeats) :
    p.header.Accepted ∧ p.header.bodySize.toInt = p.body.length := by
  rw [List.eq_of_mem_replicate hp]
  decide

theorem heartbeatsRead_run : ∃ host' con',
    callRun .posix NetConnectionManager.new.host firstConnection heartbeatsRead =
      some ([⟨84, 28⟩, ⟨56, 28⟩, ⟨28, 28⟩], host', con') := by
  have hrest : firstConnection.Resting NetConnectionManager.new.host :=
    ⟨NetConnection.new_idle 0 5, length_zeros 1024⟩
  have hframes : ∀ p ∈ heartbeats, packageFramer.Frames (id p) p.bytes :=
    fun p hp => package_frames (heartbeats_accepted hp).1 (heartbeats_accepted hp).2
  have hnil : nextPackage [] = .more := nextPackage_short (by decide)
  have hp := Framer.parse_flatMap hframes hnil
  rw [List.map_id] at hp
  obtain ⟨host', con', hread, _⟩ := callStep_read_spec .posix
    ⟨heartbeats.flatMap NetPackage.bytes, by decide, by decide⟩ hrest hp
  refine ⟨host', con', ?_⟩
  rw [heartbeatsRead, callRun, hread]
  rfl

/-- The kernel takes ten bytes of a heartbeat, or three heartbeats are received at once: what is
left is longer than what is removed. -/
theorem partial_send_overlaps :
    (∃ removals out, callRun .posix NetConnectionManager.new.host firstConnection
        (heartbeatSend 10) = some (removals, out) ∧
      WellFormedStream ((heartbeatSend 10).flatMap ConnCall.data) ∧
        ¬ ∀ r ∈ removals, r.Separate) ∧
      ∃ removals out, callRun .posix NetConnectionManager.new.host firstConnection
        heartbeatsRead = some (removals, out) ∧
      WellFormedStream (heartbeatsRead.flatMap ConnCall.data) ∧ ¬ ∀ r ∈ removals, r.Separate := by
  constructor
  · obtain ⟨host', con', h⟩ := heartbeatSend_run (show 0 < 10 by decide) (by decide)
    refine ⟨_, _, h, heartbeatSend_wellFormed 10, fun hall => ?_⟩
    have hfirst := hall ⟨28, 10⟩ (by simp)
    rw [Removal.separate_iff (by decide) (by decide) (by decide)] at hfirst
    exact absurd hfirst (by decide)
  · obtain ⟨host', con', h⟩ := heartbeatsRead_run
    refine ⟨_, _, h, ⟨heartbeats, fun p hp => heartbeats_accepted hp, ?_⟩, fun hall => ?_⟩
    · simp [heartbeatsRead, ConnCall.data]
    · have hfirst := hall ⟨84, 28⟩ (by simp)
      rw [Removal.separate_iff (by decide) (by decide) (by decide)] at hfirst
      exact absurd hfirst (by decide)

end CppTry
