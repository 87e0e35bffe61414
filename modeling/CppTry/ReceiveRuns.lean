import CppTry.NetConnectionManager
import CppTry.ReceiveLoop

namespace CppTry

open NetPackageHeader

/-- A connection between two reads: nothing complete is left in its buffer. -/
structure NetConnection.Idle (con : NetConnection) : Prop extends con.Open where
  pending : nextPackage con.recvBuffer.contents = .more

/-- Bytes that hold no complete packet are fewer than a full-size packet. -/
theorem length_lt_of_more {bs : List Byte} (h : nextPackage bs = .more) : bs.length < 1052 := by
  rcases nextPackage_cases bs with ⟨_, _⟩ | ⟨_, _, he⟩ | ⟨_, _, _, he⟩ | ⟨_, ha, _, hw, _⟩ |
    ⟨_, _, _, _, he⟩
  · omega
  · rw [he] at h; cases h
  · rw [he] at h; cases h
  · have hmax : (decode bs).bodySize.toInt ≤ 1024 := ha.2
    omega
  · rw [he] at h; cases h

theorem NetConnection.Idle.length_lt {con : NetConnection} (h : con.Idle) :
    con.recvBuffer.length < 1052 := by
  have hl := h.receiving.valid.contents_length
  have hm := length_lt_of_more h.pending
  omega

/-- Between two packets there is always room for a full-size one. -/
theorem NetConnection.Idle.isNeedRead {con : NetConnection} (h : con.Idle) :
    con.isNeedRead = true := by
  have hlt := h.length_lt
  simp only [NetConnection.isNeedRead, netBufferSize, netPackageMaxSize, ge_iff_le,
    decide_eq_true_eq]
  omega

theorem NetConnection.new_idle (n : Nat) (s : Int) : ((NetConnection.new n).setSocket s).Idle where
  receiving := ⟨ByteBuffer.new_valid (by decide) (by decide), rfl, Or.inl rfl⟩
  sendValid := ⟨ByteBuffer.new_valid (by decide) (by decide), rfl⟩
  pending := nextPackage_short (show 0 < 28 by decide)

theorem NetConnection.Open.addRecvData {con : NetConnection} {data : List Byte} (h : con.Open)
    (hf : con.recvBuffer.length + data.length ≤ netBufferSize) :
    ∃ b, con.addRecvData data data.length = some (true, { con with recvBuffer := b }) ∧
      { con with recvBuffer := b }.Open ∧ b.contents = con.recvBuffer.contents ++ data := by
  obtain ⟨⟨hv, hsize, hc⟩, hs⟩ := h
  obtain ⟨b, ha, hbv, hbs, hbc⟩ := ByteBuffer.addData_fits hv (Nat.le_refl _) (by rw [hsize]; exact hf)
  rw [List.take_length] at hbc
  refine ⟨b, by simp [NetConnection.addRecvData, ha], ⟨⟨hbv, hbs.trans hsize, ?_⟩, ⟨hs.valid, hs.size⟩⟩,
    hbc⟩
  rcases hc with hc | ⟨hl, hd, hacc⟩
  · exact Or.inl hc
  · refine Or.inr ⟨?_, ?_, hacc⟩
    · simp only [hbc, List.length_append]
      omega
    · simp only [hbc]
      rw [decode_append _ hl]
      exact hd

theorem DrainOutcome.congr {host : Host} {con con1 : NetConnection}
    {result : Option (Int × Host × NetConnection)} {out : List NetPackage × Tail Byte Verdict}
    (h : DrainOutcome host con1 result out) (hn : con1.serial = con.serial)
    (hs : con1.socket = con.socket) (hq : con1.sendBuffer = con.sendBuffer) :
    DrainOutcome host con result out := by
  have back : ∀ {host' con' ps}, Drained host con1 host' con' ps → Drained host con host' con' ps := by
    intro host' con' ps hd
    obtain ⟨h1, h2, h3, h4, h5, h6, h7⟩ := hd
    rw [hq] at h4 h5
    rw [hn, hs] at h7
    exact ⟨h1.trans hn, h2.trans hs, h3, h4, h5, h6, h7⟩
  obtain ⟨ps, t⟩ := out
  match t with
  | .rest r =>
    obtain ⟨host', con', hr, hd, hopen, hc⟩ := h
    exact ⟨host', con', hr, back hd, hopen, hc⟩
  | .stop .rejected =>
    obtain ⟨host', con', hr, hd⟩ := h
    exact ⟨host', con', hr, back hd⟩
  | .stop .negative => exact h

theorem readConnection_spec (build : Build) {host : Host} {con : NetConnection} (h : con.Idle)
    (hb : host.buffer.length = 1024) (chunk : Chunk) :
    DrainOutcome host con (readConnection build host con (.received chunk))
      (packageFramer.parse (con.recvBuffer.contents ++ chunk.data)) := by
  have hlt := h.length_lt
  have hfits := chunk.fits
  obtain ⟨b, ha, hopen, hc⟩ := h.toOpen.addRecvData
    (show _ + (chunk.data.length : Int) ≤ 8 * 1024 by omega)
  have hlen := hopen.receiving.valid.contents_length
  have hfuel : b.contents.length < b.length.toNat + 1 := by
    change (b.contents.length : Int) = b.length at hlen
    omega
  have hd := drain_spec build hopen hb hfuel
  simp only [readConnection, ha, Option.bind_eq_bind, Option.bind_some, Bool.true_eq_false, if_false]
  rw [← hc]
  exact hd.congr rfl rfl rfl

namespace NetConnectionManager

/-- `OnSocketRead` once per received chunk, up to its first non-zero return. -/
def readRun (build : Build) (s : Int) :
    NetConnectionManager → List Chunk → Option (List Int × NetConnectionManager)
  | m, [] => some ([], m)
  | m, chunk :: chunks => do
    let (ret, m) ← m.onSocketRead build s ⟨.failed 0, .received chunk, .failed 0⟩
    if ret ≠ 0 then pure ([ret], m)
    else do
      let (rets, m) ← readRun build s m chunks
      pure (ret :: rets, m)

/-- The socket `s` belongs to the connection `con`, and the static buffer has its size. -/
structure Serving (m : NetConnectionManager) (s : Int) (con : NetConnection) : Prop where
  not_listener : s ≠ m.listener.socket
  connection : m.connections[s]? = some con
  buffer : m.host.buffer.length = 1024

theorem onSocketRead_connection (build : Build) {m : NetConnectionManager} {s : Int}
    {con : NetConnection} (hs : s ≠ m.listener.socket) (hc : m.connections[s]? = some con)
    (calls : Calls) :
    m.onSocketRead build s calls = (readConnection build m.host con calls.recv).map fun r =>
      (r.1, { m with host := r.2.1, connections := m.connections.insert s r.2.2 }) := by
  rw [onSocketRead, if_neg hs]
  simp only [getConnectionFromSocket, hc]
  cases readConnection build m.host con calls.recv <;> rfl

theorem Serving.update {m : NetConnectionManager} {s : Int} {con : NetConnection} {host : Host}
    {es : List NetEvent} (h : m.Serving s con) (con' : NetConnection)
    (hs : m.host.Serves host con.socket con.serial es) :
    { m with host, connections := m.connections.insert s con' }.Serving s con' :=
  ⟨h.not_listener, by simp, hs.buffer.trans h.buffer⟩

/-- How a run of reads ends, given the parse of the whole stream. -/
def RunOutcome (m : NetConnectionManager) (s : Int) (con : NetConnection)
    (result : Option (List Int × NetConnectionManager)) : List NetPackage × Tail Byte Verdict → Prop
  | (ps, .rest r) => ∃ rets m' con', result = some (rets, m') ∧ (∀ ret ∈ rets, ret = 0) ∧
      Drained m.host con m'.host con' ps ∧ m'.Serving s con' ∧ con'.Idle ∧
      con'.recvBuffer.contents = r
  | (ps, .stop .rejected) => ∃ rets m' con', result = some (rets ++ [4], m') ∧
      (∀ ret ∈ rets, ret = 0) ∧ Drained m.host con m'.host con' ps ∧ m'.Serving s con'
  | (_, .stop .negative) => result = none

theorem RunOutcome.prepend {m m1 : NetConnectionManager} {s : Int} {con con1 : NetConnection}
    {ps : List NetPackage} {result : Option (List Int × NetConnectionManager)}
    {out : List NetPackage × Tail Byte Verdict} (hd : Drained m.host con m1.host con1 ps)
    (h : m1.RunOutcome s con1 result out) :
    m.RunOutcome s con (result.map fun r => (0 :: r.1, r.2)) (ps ++ out.1, out.2) := by
  obtain ⟨qs, t⟩ := out
  match t with
  | .rest r =>
    obtain ⟨rets, m', con', hr, hz, hd', hserv, hidle, hc⟩ := h
    exact ⟨0 :: rets, m', con', by rw [hr]; rfl, by simpa using hz, hd.trans hd', hserv, hidle, hc⟩
  | .stop .rejected =>
    obtain ⟨rets, m', con', hr, hz, hd', hserv⟩ := h
    exact ⟨0 :: rets, m', con', by rw [hr]; rfl, by simpa using hz, hd.trans hd', hserv⟩
  | .stop .negative =>
    change result = none at h
    change result.map _ = none
    rw [h]
    rfl

theorem readRun_cons_zero {build : Build} {m m1 : NetConnectionManager} {s : Int} {chunk : Chunk}
    (chunks : List Chunk)
    (h : m.onSocketRead build s ⟨.failed 0, .received chunk, .failed 0⟩ = some (0, m1)) :
    readRun build s m (chunk :: chunks) =
      (readRun build s m1 chunks).map fun r => (0 :: r.1, r.2) := by
  rw [readRun, h]
  simp only [Option.bind_eq_bind, Option.bind_some, ne_eq, not_true_eq_false, if_false]
  cases readRun build s m1 chunks <;> rfl

/-- Reading chunk by chunk is parsing the whole stream. -/
theorem readRun_spec (build : Build) {m : NetConnectionManager} {s : Int} {con : NetConnection}
    (h : m.Serving s con) (hi : con.Idle) (chunks : List Chunk) :
    m.RunOutcome s con (readRun build s m chunks)
      (packageFramer.parse (con.recvBuffer.contents ++ chunks.flatMap (·.data))) := by
  induction chunks generalizing m con with
  | nil =>
    rw [List.flatMap_nil, List.append_nil, Framer.parse_more hi.pending]
    exact ⟨[], m, con, rfl, by simp, hi.sendValid.drained_nil m.host, h, hi, rfl⟩
  | cons chunk chunks ih =>
    have hout := readConnection_spec build hi h.buffer chunk
    have hread := onSocketRead_connection build h.not_listener h.connection
      ⟨.failed 0, .received chunk, .failed 0⟩
    rw [List.flatMap_cons, ← List.append_assoc]
    cases hp : packageFramer.parse (con.recvBuffer.contents ++ chunk.data) with
    | mk ps t =>
      rw [hp] at hout
      match t with
      | .rest r =>
        obtain ⟨host', con', hr, hd, hopen, hc⟩ := hout
        obtain ⟨es, hserves, _⟩ := hd.serves
        simp only [hr, Option.map_some] at hread
        have hih := ih (h.update con' hserves) ⟨hopen, by rw [hc]; exact Framer.next_rest hp⟩
        rw [hc] at hih
        rw [Framer.parse_append_rest _ hp, readRun_cons_zero chunks hread]
        exact hih.prepend hd
      | .stop .rejected =>
        obtain ⟨host', con', hr, hd⟩ := hout
        obtain ⟨es, hserves, _⟩ := hd.serves
        simp only [hr, Option.map_some] at hread
        rw [Framer.parse_append_stop _ hp]
        refine ⟨[], _, con', ?_, by simp, hd, h.update con' hserves⟩
        rw [readRun, hread]
        rfl
      | .stop .negative =>
        change readConnection build m.host con (.received chunk) = none at hout
        simp only [hout, Option.map_none] at hread
        rw [Framer.parse_append_stop _ hp]
        change readRun build s m (chunk :: chunks) = none
        rw [readRun, hread]
        rfl

/-- However the peer's bytes arrive, the receiver delivers the packets of the whole stream,
refuses exactly the streams the parser refuses, and keeps exactly what the parser leaves. -/
theorem readRun_frames_stream (build : Build) {m : NetConnectionManager} {s : Int} {n : Nat}
    (hb : m.host.buffer.length = 1024) (hs : s ≠ m.listener.socket)
    (hc : m.connections[s]? = some ((NetConnection.new n).setSocket s)) (chunks : List Chunk)
    (hneg : (packageFramer.parse (chunks.flatMap (·.data))).2 ≠ .stop .negative) :
    ∃ rets m' es, readRun build s m chunks = some (rets, m') ∧
      m'.host.trace = m.host.trace ++ es ∧
      deliveries n es = (packageFramer.parse (chunks.flatMap (·.data))).1 ∧
      (∀ ret ∈ rets, ret = 0 ∨ ret = 4) ∧
      (4 ∈ rets ↔ (packageFramer.parse (chunks.flatMap (·.data))).2 = .stop .rejected) ∧
      (∀ r, (packageFramer.parse (chunks.flatMap (·.data))).2 = .rest r →
        ∃ con, m'.connections[s]? = some con ∧ con.recvBuffer.contents = r) := by
  have hout := readRun_spec build ⟨hs, hc, hb⟩ (NetConnection.new_idle n s) chunks
  have hnil : ((NetConnection.new n).setSocket s).recvBuffer.contents = [] := rfl
  rw [hnil, List.nil_append] at hout
  cases hp : packageFramer.parse (chunks.flatMap (·.data)) with
  | mk ps t =>
    rw [hp] at hout hneg
    match t with
    | .rest r =>
      obtain ⟨rets, m', con', hr, hz, hd, hserv, _, hrest⟩ := hout
      obtain ⟨es, hserves, he⟩ := hd.serves
      refine ⟨rets, m', es, hr, hserves.trace, he, fun ret hret => Or.inl (hz ret hret), ?_, ?_⟩
      · constructor
        · intro h4
          have := hz 4 h4
          omega
        · intro h
          cases h
      · intro r' h
        cases h
        exact ⟨con', hserv.connection, hrest⟩
    | .stop .rejected =>
      obtain ⟨rets, m', con', hr, hz, hd, _⟩ := hout
      obtain ⟨es, hserves, he⟩ := hd.serves
      refine ⟨rets ++ [4], m', es, hr, hserves.trace, he, ?_, by simp, by simp⟩
      intro ret hret
      rcases List.mem_append.mp hret with h | h
      · exact Or.inl (hz ret h)
      · exact Or.inr (by simpa using h)
    | .stop .negative => exact absurd rfl hneg

/-- A manager that has just accepted its first client, on descriptor 5. -/
def firstClient : NetConnectionManager := NetConnectionManager.new.addConnection .posix 5

/-- A heartbeat packet, cut after its tenth byte. -/
def heartbeat : NetPackage := sendPackage 0 3 0 []

def heartbeatChunks : List Chunk :=
  [⟨heartbeat.bytes.take 10, by decide, by decide⟩, ⟨heartbeat.bytes.drop 10, by decide, by decide⟩]

theorem firstClient_connection :
    firstClient.connections[(5 : Int)]? = some ((NetConnection.new 0).setSocket 5) := by
  change ((∅ : Std.ExtTreeMap Int NetConnection).insertIfNew 5 _)[(5 : Int)]? = _
  rw [Std.ExtTreeMap.getElem?_insertIfNew, if_pos (by simp)]
  rfl

theorem parse_heartbeat : packageFramer.parse (heartbeatChunks.flatMap (·.data)) =
    ([heartbeat], .rest []) := by
  have hf : packageFramer.Frames heartbeat heartbeat.bytes := package_frames (by decide) (by decide)
  have hb : heartbeatChunks.flatMap (·.data) = heartbeat.bytes ++ [] := by decide
  rw [hb, Framer.parse_packet (hf.complete []), List.drop_left' rfl,
    Framer.parse_more (F := packageFramer) (nextPackage_short (by decide))]

theorem readRun_frames_heartbeat : ∃ rets m' es,
    readRun .posix 5 firstClient heartbeatChunks = some (rets, m') ∧
      m'.host.trace = firstClient.host.trace ++ es ∧ deliveries 0 es = [heartbeat] ∧ 4 ∉ rets := by
  obtain ⟨rets, m', es, hr, ht, hd, _, h4, _⟩ := readRun_frames_stream .posix (m := firstClient)
    (s := 5) (n := 0) (by simp [firstClient, addConnection, NetConnectionManager.new])
    (by decide) firstClient_connection heartbeatChunks (by rw [parse_heartbeat]; simp)
  rw [parse_heartbeat] at hd h4
  exact ⟨rets, m', es, hr, ht, hd, fun h => by simpa using h4.mp h⟩

end NetConnectionManager

end CppTry
