import CppTry.ReceiveRuns

namespace CppTry

open NetPackageHeader

namespace NetConnectionManager

/-- The states in which a run of reads over these chunks calls `CheckRecvPackage`, up to the
read of the last chunk. -/
inductive AtCheck (build : Build) (s : Int) (m : NetConnectionManager) :
    List Chunk → Host → NetConnection → Prop
  | read {chunks chunk rets m' con con'} : readRun build s m chunks = some (rets, m') →
      (∀ ret ∈ rets, ret = 0) → m'.connections[s]? = some con →
      con.addRecvData chunk.data chunk.data.length = some (true, con') →
      AtCheck build s m (chunks ++ [chunk]) m'.host con'
  | again {chunks host con con1 host' con'} : AtCheck build s m chunks host con →
      con.checkRecvPackage = some (1, con1) → onRecvData build host con1 = some (host', con') →
      AtCheck build s m chunks host' con'

/-- Packet sizes stay valid and every drain loop ends, throughout a run of reads. -/
structure SafeReceive (build : Build) (s : Int) (m : NetConnectionManager) (chunks : List Chunk) :
    Prop where
  sizes {cs : List Chunk} {host : Host} {con con' : NetConnection} : cs <+: chunks →
    AtCheck build s m cs host con → con.checkRecvPackage = some (1, con') →
    0 ≤ con'.recvHeader.bodySize.toInt ∧ con'.recvHeader.bodySize.toInt ≤ netPackageMaxSize ∧
      headerSize + con'.recvHeader.bodySize.toInt ≤ con'.recvBuffer.length
  removes {cs : List Chunk} {host : Host} {con con' : NetConnection} : cs <+: chunks →
    AtCheck build s m cs host con → con.checkRecvPackage = some (1, con') →
    ∃ header buffer con'', con'.takeRecvPackage host.buffer = some (header, buffer, con'') ∧
      con''.recvBuffer.length + headerSize ≤ con'.recvBuffer.length
  stops : readRun build s m chunks ≠ none
  bounded {cs : List Chunk} {chunk : Chunk} {rets : List Int} {m1 m2 : NetConnectionManager}
    {con : NetConnection} {ret : Int} : cs ++ [chunk] <+: chunks →
    readRun build s m cs = some (rets, m1) → (∀ ret ∈ rets, ret = 0) →
    m1.connections[s]? = some con →
    m1.onSocketRead build s ⟨.failed 0, .received chunk, .failed 0⟩ = some (ret, m2) →
    ∃ es, m2.host.trace = m1.host.trace ++ es ∧
      (deliveries con.serial es).length * headerSize ≤ con.recvBuffer.length + chunk.data.length

section
variable {build : Build} {s : Int} {m : NetConnectionManager} {con0 : NetConnection}

theorem readRun_zero (h : m.Serving s con0) (hi : con0.Idle) (he : con0.recvBuffer.contents = [])
    {chunks : List Chunk} {rets : List Int} {m' : NetConnectionManager} {con : NetConnection}
    (hr : readRun build s m chunks = some (rets, m')) (hz : ∀ ret ∈ rets, ret = 0)
    (hc : m'.connections[s]? = some con) :
    m'.Serving s con ∧ con.Idle ∧
      packageFramer.Leads (chunks.flatMap (·.data)) con.recvBuffer.contents := by
  have hout := readRun_spec build h hi chunks
  rw [he, List.nil_append] at hout
  cases hp : packageFramer.parse (chunks.flatMap (·.data)) with
  | mk ps t =>
    rw [hp] at hout
    match t with
    | .rest r =>
      obtain ⟨rets', m1, con1, hr1, _, _, hserv, hidle, hrest⟩ := hout
      obtain ⟨rfl, rfl⟩ := Prod.mk.inj (Option.some.inj (hr.symm.trans hr1))
      have hcon := Option.some.inj (hc.symm.trans hserv.connection)
      subst hcon
      exact ⟨hserv, hidle, by rw [hrest]; exact Framer.leads_of_parse hp⟩
    | .stop .rejected =>
      obtain ⟨rets', m1, con1, hr1, _, _, _⟩ := hout
      obtain ⟨rfl, rfl⟩ := Prod.mk.inj (Option.some.inj (hr.symm.trans hr1))
      have := hz 4 (by simp)
      omega
    | .stop .negative =>
      change readRun build s m chunks = none at hout
      rw [hr] at hout
      cases hout

theorem atCheck_spec (h : m.Serving s con0) (hi : con0.Idle) (he : con0.recvBuffer.contents = [])
    {chunks : List Chunk} {host : Host} {con : NetConnection}
    (hat : AtCheck build s m chunks host con) :
    con.Open ∧ host.buffer.length = 1024 ∧
      packageFramer.Leads (chunks.flatMap (·.data)) con.recvBuffer.contents := by
  induction hat with
  | @read chunks chunk rets m' con con' hr hz hc ha =>
    obtain ⟨hserv, hidle, hleads⟩ := readRun_zero h hi he hr hz hc
    have hlt := hidle.length_lt
    have hfits := chunk.fits
    obtain ⟨b, hb, hopen, hbc⟩ := hidle.toOpen.addRecvData
      (show _ + (chunk.data.length : Int) ≤ 8 * 1024 by omega)
    obtain ⟨_, rfl⟩ := Prod.mk.inj (Option.some.inj (ha.symm.trans hb))
    refine ⟨hopen, hserv.buffer, ?_⟩
    rw [List.flatMap_append, List.flatMap_singleton, hbc]
    exact hleads.append chunk.data
  | @again chunks host con con1 host' con' _ hcheck hrecv ih =>
    obtain ⟨hopen, hb, hleads⟩ := ih
    rw [NetConnection.checkRecvPackage_eq hopen.receiving] at hcheck
    obtain ⟨hcode, rfl⟩ := Prod.mk.inj (Option.some.inj hcheck)
    cases hn : nextPackage con.recvBuffer.contents with
    | more => rw [hn] at hcode; simp [NetConnection.checkCode] at hcode
    | stop v =>
      cases v with
      | rejected => rw [hn] at hcode; simp [NetConnection.checkCode] at hcode
      | negative =>
        obtain ⟨hl, _, hneg⟩ := nextPackage_negative_iff.mp hn
        have ht : { con with recvHeader := con.checkHeader }.takeRecvPackage host.buffer = none :=
          NetConnection.takeRecvPackage_negative _
            (by rw [NetConnection.checkHeader, if_pos hl]; exact hneg)
        rw [onRecvData, ht] at hrecv
        cases hrecv
    | packet p n =>
      obtain ⟨host2, con2, hr, hd, hrec, hcont⟩ :=
        onRecvData_spec build hopen.receiving hopen.sendValid hb hn
      obtain ⟨rfl, rfl⟩ := Prod.mk.inj (Option.some.inj (hrecv.symm.trans hr))
      obtain ⟨es, hserves, _⟩ := hd.serves
      refine ⟨⟨hrec, hd.sendValid⟩, hserves.buffer.trans hb, ?_⟩
      rw [hcont]
      exact hleads.packet hn

/-- `CheckRecvPackage` says 1 on an open connection only for a whole packet, unless the stream
so far has led to a negative body size. -/
theorem check_packet {xs ys : List Byte} {con con' : NetConnection} (ho : con.Open)
    (hl : packageFramer.Leads xs con.recvBuffer.contents)
    (hneg : (packageFramer.parse (xs ++ ys)).2 ≠ .stop .negative)
    (hcheck : con.checkRecvPackage = some (1, con')) :
    con' = { con with recvHeader := con.checkHeader } ∧
      ∃ p n, nextPackage con.recvBuffer.contents = .packet p n := by
  rw [NetConnection.checkRecvPackage_eq ho.receiving] at hcheck
  obtain ⟨hcode, rfl⟩ := Prod.mk.inj (Option.some.inj hcheck)
  refine ⟨rfl, ?_⟩
  cases hn : nextPackage con.recvBuffer.contents with
  | more => rw [hn] at hcode; simp [NetConnection.checkCode] at hcode
  | packet p n => exact ⟨p, n, rfl⟩
  | stop v =>
    cases v with
    | rejected => rw [hn] at hcode; simp [NetConnection.checkCode] at hcode
    | negative => exact absurd (hl.stop hn ys) hneg

theorem check_sizes {con : NetConnection} {p : NetPackage} {n : Nat} (ho : con.Open)
    (hn : nextPackage con.recvBuffer.contents = .packet p n) :
    0 ≤ con.checkHeader.bodySize.toInt ∧ con.checkHeader.bodySize.toInt ≤ netPackageMaxSize ∧
      headerSize + con.checkHeader.bodySize.toInt ≤ con.recvBuffer.length := by
  obtain ⟨hl, ha, h0, hk, he, _⟩ := nextPackage_packet hn
  have hlen := ho.receiving.valid.contents_length
  rw [NetConnection.checkHeader, if_pos hl]
  refine ⟨h0, ha.2, ?_⟩
  change 28 + _ ≤ con.recvBuffer.length
  omega

theorem take_removes {con : NetConnection} {buffer : List Byte} {p : NetPackage} {n : Nat}
    (ho : con.Open) (hb : buffer.length = 1024)
    (hn : nextPackage con.recvBuffer.contents = .packet p n) :
    ∃ header out con', { con with recvHeader := con.checkHeader }.takeRecvPackage buffer =
        some (header, out, con') ∧ con'.recvBuffer.length + headerSize ≤ con.recvBuffer.length := by
  obtain ⟨b, ht, hbv, _, hbc, _⟩ := NetConnection.takeRecvPackage_eq ho.receiving hn hb
  have hlen := ho.receiving.valid.contents_length
  have hlen' := hbv.contents_length
  have h28 := nextPackage_size hn
  obtain ⟨_, _, _, hk, _, _⟩ := nextPackage_packet hn
  rw [hbc, List.length_drop] at hlen'
  refine ⟨_, _, _, ht, ?_⟩
  change b.length + 28 ≤ con.recvBuffer.length
  omega

theorem drainOutcome_deliveries {host host' : Host} {con con' : NetConnection} {ret : Int}
    {out : List NetPackage × Tail Byte Verdict}
    (h : DrainOutcome host con (some (ret, host', con')) out) :
    ∃ es, host'.trace = host.trace ++ es ∧ deliveries con.serial es = out.1 := by
  obtain ⟨ps, t⟩ := out
  match t with
  | .rest r =>
    obtain ⟨host2, con2, hr, hd, _⟩ := h
    cases hr
    obtain ⟨es, hs, he⟩ := hd.serves
    exact ⟨es, hs.trace, he⟩
  | .stop .rejected =>
    obtain ⟨host2, con2, hr, hd⟩ := h
    cases hr
    obtain ⟨es, hs, he⟩ := hd.serves
    exact ⟨es, hs.trace, he⟩
  | .stop .negative => cases (h : some _ = none)

/-- One read delivers no more packets than there are whole headers in the bytes it looks at. -/
theorem onSocketRead_bounded {con : NetConnection} {chunk : Chunk} {ret : Int}
    {m' : NetConnectionManager} (h : m.Serving s con) (hi : con.Idle)
    (hr : m.onSocketRead build s ⟨.failed 0, .received chunk, .failed 0⟩ = some (ret, m')) :
    ∃ es, m'.host.trace = m.host.trace ++ es ∧
      (deliveries con.serial es).length * headerSize ≤ con.recvBuffer.length + chunk.data.length := by
  have hout := readConnection_spec build hi h.buffer chunk
  rw [onSocketRead_connection build h.not_listener h.connection] at hr
  obtain ⟨⟨ret', host', con'⟩, hread, he⟩ := Option.map_eq_some_iff.mp hr
  obtain ⟨rfl, rfl⟩ := Prod.mk.inj he
  rw [show readConnection build m.host con (.received chunk) = _ from hread] at hout
  obtain ⟨es, ht, hd⟩ := drainOutcome_deliveries hout
  refine ⟨es, ht, ?_⟩
  have hle := Framer.parse_length_mul_le (F := packageFramer) (fun _ _ _ h => nextPackage_size h)
    (con.recvBuffer.contents ++ chunk.data)
  have hlen := hi.receiving.valid.contents_length
  rw [List.length_append, ← hd] at hle
  change _ * (28 : Int) ≤ _
  omega

theorem readRun_ne_none (h : m.Serving s con0) (hi : con0.Idle)
    (he : con0.recvBuffer.contents = []) {chunks : List Chunk} :
    readRun build s m chunks ≠ none ↔
      (packageFramer.parse (chunks.flatMap (·.data))).2 ≠ .stop .negative := by
  have hout := readRun_spec build h hi chunks
  rw [he, List.nil_append] at hout
  cases hp : packageFramer.parse (chunks.flatMap (·.data)) with
  | mk ps t =>
    rw [hp] at hout
    match t with
    | .rest r =>
      obtain ⟨_, _, _, hr, _⟩ := hout
      simp [hr]
    | .stop .rejected =>
      obtain ⟨_, _, _, hr, _⟩ := hout
      simp [hr]
    | .stop .negative =>
      have hr : readRun build s m chunks = none := hout
      simp [hr]

/-- The reads of a run are safe exactly when the stream leads to no accepted header with a
negative body size. -/
theorem safeReceive_iff {n : Nat} (hb : m.host.buffer.length = 1024) (hs : s ≠ m.listener.socket)
    (hc : m.connections[s]? = some ((NetConnection.new n).setSocket s)) (chunks : List Chunk) :
    SafeReceive build s m chunks ↔
      (packageFramer.parse (chunks.flatMap (·.data))).2 ≠ .stop .negative := by
  have hserv : m.Serving s _ := ⟨hs, hc, hb⟩
  have hidle := NetConnection.new_idle n s
  have hnil : ((NetConnection.new n).setSocket s).recvBuffer.contents = [] := rfl
  constructor
  · intro hsafe
    exact (readRun_ne_none hserv hidle hnil).mp hsafe.stops
  · intro hneg
    have apart : ∀ {cs host con con'}, cs <+: chunks → AtCheck build s m cs host con →
        con.checkRecvPackage = some (1, con') → con.Open ∧ host.buffer.length = 1024 ∧
          con' = { con with recvHeader := con.checkHeader } ∧
          ∃ p n, nextPackage con.recvBuffer.contents = .packet p n := by
      intro cs host con con' hp hat hcheck
      obtain ⟨ho, hbuf, hl⟩ := atCheck_spec hserv hidle hnil hat
      obtain ⟨rest, rfl⟩ := hp
      rw [List.flatMap_append] at hneg
      exact ⟨ho, hbuf, check_packet ho hl hneg hcheck⟩
    refine ⟨?_, ?_, (readRun_ne_none hserv hidle hnil).mpr hneg, ?_⟩
    · intro cs host con con' hp hat hcheck
      obtain ⟨ho, _, rfl, p, k, hn⟩ := apart hp hat hcheck
      exact check_sizes ho hn
    · intro cs host con con' hp hat hcheck
      obtain ⟨ho, hbuf, rfl, p, k, hn⟩ := apart hp hat hcheck
      exact take_removes ho hbuf hn
    · intro cs chunk rets m1 m2 con ret hp hr hz hcon hread
      obtain ⟨hserv1, hidle1, _⟩ := readRun_zero hserv hidle hnil hr hz hcon
      exact onSocketRead_bounded hserv1 hidle1 hread

end

theorem safeReceive_heartbeat : SafeReceive .posix 5 firstClient heartbeatChunks :=
  (safeReceive_iff (n := 0) (by simp [firstClient, addConnection, NetConnectionManager.new])
    (by decide) firstClient_connection heartbeatChunks).mpr (by rw [parse_heartbeat]; simp)

/-- A header with the right sign and a body size of -1. -/
def negativeBody : Chunk :=
  ⟨{ NetPackageHeader.new.setSign with bodySize := -1 }.encode, by decide, by decide⟩

theorem next_negativeBody : nextPackage negativeBody.data = .stop .negative :=
  nextPackage_negative_iff.mpr (by decide)

theorem negativeBody_not_safe : ¬ SafeReceive .posix 5 firstClient [negativeBody] ∧
    ∃ host con con', AtCheck .posix 5 firstClient [negativeBody] host con ∧
      con.checkRecvPackage = some (1, con') ∧ con'.recvHeader.bodySize = -1 ∧
      con'.takeRecvPackage host.buffer = none := by
  obtain ⟨b, ha, ho, hc⟩ := (NetConnection.new_idle 0 5).toOpen.addRecvData
    (show _ + (negativeBody.data.length : Int) ≤ _ by decide)
  have hc : b.contents = negativeBody.data := hc
  have hat : AtCheck .posix 5 firstClient ([] ++ [negativeBody]) _ _ :=
    .read rfl (by simp) firstClient_connection ha
  have hcheck := NetConnection.checkRecvPackage_eq ho.receiving
  have hhead : { (NetConnection.new 0).setSocket 5 with recvBuffer := b }.checkHeader =
      decode negativeBody.data := by
    rw [NetConnection.checkHeader, hc, if_pos (by decide)]
  have hbody : (decode negativeBody.data).bodySize = -1 := by decide
  rw [hc, next_negativeBody, hhead] at hcheck
  refine ⟨fun h => ?_, _, _, _, hat, hcheck, hbody,
    NetConnection.takeRecvPackage_negative _ (by rw [hbody]; decide)⟩
  have hsize := (h.sizes (List.prefix_refl _) hat hcheck).1
  rw [hbody] at hsize
  exact absurd hsize (by decide)

end NetConnectionManager

end CppTry
