import CppTry.BatchRuns

namespace CppTry

namespace NetConnectionManager

/-- A manager that listens on descriptor 3 and has its bridge on descriptor 4. -/
def listening : NetConnectionManager := new.init .posix ⟨3, 0, 0, 0⟩ ⟨4, 0⟩

/-- The listener is readable and `accept` returns `s`. -/
def acceptEvent (s : Int) : SocketEvent := ⟨3, epollIn, ⟨.accepted s 0 0, .failed 0, .failed 0⟩⟩

/-- The client on descriptor 5 has sent something, or not: `recv` returns `result`. -/
def readEvent (result : RecvResult) : SocketEvent := ⟨5, epollIn, ⟨.failed 0, result, .failed 0⟩⟩

/-- The manager with its first client, on descriptor 5. -/
def oneClient : NetConnectionManager := listening.enroll .posix 5

theorem reachable_listening : Reachable .posix listening := by
  refine .single ⟨.init ⟨3, 0, 0, 0⟩ ⟨4, 0⟩, ⟨rfl, ?_, ?_⟩, rfl⟩
  · exact fun _ => ⟨by decide, by decide, by decide⟩
  · exact fun _ => ⟨by decide, by decide, by decide⟩

theorem reachable_oneClient : Reachable .posix oneClient := by
  refine reachable_listening.tail ⟨.select (some [acceptEvent 5]), ⟨by simp, ?_⟩, rfl⟩
  intro e he
  rw [List.mem_singleton.mp he]
  exact ⟨by decide, by decide, by decide⟩

theorem oneClient_connection :
    oneClient.connections[(5 : Int)]? = some ((NetConnection.new 0).setSocket 5) := by
  have hn : (5 : Int) ∉ listening.connections := by simp [listening, init_connections, new]
  rw [oneClient, enroll_connections, if_pos ⟨rfl, hn⟩]
  rfl

theorem oneClient_size : oneClient.connections.size < 60 := by
  have hz : listening.connections.size = 0 := by simp [listening, init_connections, new]
  have hle : oneClient.connections.size ≤ listening.connections.size + 1 :=
    Std.ExtTreeMap.size_insertIfNew_le
  omega

/-- A read that returns 0 is a batch of its own. -/
theorem step_read {m m' : NetConnectionManager} {chunk : Chunk}
    (hr : m.onSocketRead .posix 5 ⟨.failed 0, .received chunk, .failed 0⟩ = some (0, m')) :
    m.Allowed .posix (.select (some [readEvent (.received chunk)])) ∧
      m.step .posix (.select (some [readEvent (.received chunk)])) = some m' := by
  have hp : pollSocket .posix (m, []) 5 false true false ⟨.failed 0, .received chunk, .failed 0⟩ =
      some (m', []) := by
    simp [pollSocket, handleSocket, hr]
  have he : (readEvent (.received chunk)).poll =
      ⟨5, false, true, false, ⟨.failed 0, .received chunk, .failed 0⟩⟩ := by
    simp only [SocketEvent.poll, readEvent, SocketEvent.isError, SocketEvent.isReadable,
      SocketEvent.isWritable, Poll.mk.injEq, true_and, and_true]
    decide
  refine ⟨⟨by simp, ?_⟩, ?_⟩
  · intro e hm
    rw [List.mem_singleton.mp hm]
    trivial
  · change m.selectSocketLinux [readEvent (.received chunk)] = some m'
    rw [selectSocketLinux_eq, pollAll, List.map_singleton, List.foldlM_cons, he, hp]
    rfl

theorem Reachable.read {m m' : NetConnectionManager} {chunk : Chunk} (h : Reachable .posix m)
    (hr : m.onSocketRead .posix 5 ⟨.failed 0, .received chunk, .failed 0⟩ = some (0, m')) :
    Reachable .posix m' := h.tail ⟨_, step_read hr⟩

/-- Fewer bytes than a full-size packet wait on any connection that is not being dropped, so a
read always finds room for what it receives and leaves room for the next one. -/
theorem receive_buffer_bound {build : Build} {st : NetConnectionManager × List Int}
    (h : PollReachable build st) {s : Int} {con : NetConnection} (hs : s ∉ st.2)
    (hc : st.1.connections[s]? = some con) :
    con.recvBuffer.length < NetPackageHeader.headerSize + netPackageMaxSize ∧
      con.isNeedRead = true ∧
      (∀ chunk : Chunk, ∃ con', con.addRecvData chunk.data chunk.data.length = some (true, con')) ∧
      ∀ calls ret m', st.1.onSocketRead build s calls = some (ret, m') → ret ≠ 3 ∧
        (ret = 0 → ∃ con', m'.connections[s]? = some con' ∧
          con'.recvBuffer.length < NetPackageHeader.headerSize + netPackageMaxSize) := by
  have hinv := h.inv
  have hidle := hinv.idle hc hs
  have hlt := hidle.length_lt
  have hl : s ≠ st.1.listener.socket := by
    rintro rfl
    exact hinv.owned.listener (mem_of_getElem? hc)
  refine ⟨hlt, hidle.isNeedRead, ?_, ?_⟩
  · intro chunk
    have hfits := chunk.fits
    obtain ⟨b, hb, _, _⟩ := hidle.toOpen.addRecvData
      (show _ + (chunk.data.length : Int) ≤ 8 * 1024 by omega)
    exact ⟨_, hb⟩
  · intro calls ret m' hr
    rw [onSocketRead_connection build hl hc] at hr
    obtain ⟨⟨ret', host', con'⟩, hread, he⟩ := Option.map_eq_some_iff.mp hr
    obtain ⟨rfl, rfl⟩ := Prod.mk.inj he
    obtain ⟨_, hz, h3⟩ := readConnection_cases hidle hinv.buffer hread
    exact ⟨h3, fun h0 => ⟨con', by simp, (hz h0).length_lt⟩⟩

/-- A login request in three parts, the first of them without the end of its header. -/
def requestBytes : List Byte := (sendPackage 7 1001 6 [2, 0, 0, 0, 65, 66]).bytes

def firstPart : Chunk := ⟨requestBytes.take 20, by decide, by decide⟩

def secondPart : Chunk := ⟨(requestBytes.drop 20).take 10, by decide, by decide⟩

/-- What waits in the receive buffer of the first client. -/
def waiting (m : NetConnectionManager) : Option Int :=
  (m.connections[(5 : Int)]?).map (·.recvBuffer.length)

theorem oneClient_reads : ∃ m m', oneClient.onSocketRead .posix 5 ⟨.failed 0, .received firstPart, .failed 0⟩ =
      some (0, m) ∧ waiting m = some 20 ∧
    m.onSocketRead .posix 5 ⟨.failed 0, .received secondPart, .failed 0⟩ = some (0, m') ∧
      waiting m' = some 30 := by
  have hruns : (oneClient.onSocketRead .posix 5 ⟨.failed 0, .received firstPart, .failed 0⟩).bind (fun r =>
      (r.2.onSocketRead .posix 5 ⟨.failed 0, .received secondPart, .failed 0⟩).map fun r' =>
        (r.1, waiting r.2, r'.1, waiting r'.2)) = some (0, some 20, 0, some 30) := by decide +kernel
  obtain ⟨⟨ret, m⟩, hfirst, hruns⟩ := Option.bind_eq_some_iff.mp hruns
  obtain ⟨⟨ret', m'⟩, hsecond, he⟩ := Option.map_eq_some_iff.mp hruns
  simp only [Prod.mk.injEq] at he
  obtain ⟨rfl, hm, rfl, hm'⟩ := he
  exact ⟨m, m', hfirst, hm, hsecond, hm'⟩

/-- A part of a packet waits, and another part of it is read. -/
theorem oneClient_receive_bound : ∃ m m' con con', Reachable .posix m ∧
    m.connections[(5 : Int)]? = some con ∧ con.recvBuffer.length = 20 ∧ con.isNeedRead = true ∧
    m.onSocketRead .posix 5 ⟨.failed 0, .received secondPart, .failed 0⟩ = some (0, m') ∧
    m'.connections[(5 : Int)]? = some con' ∧ con'.recvBuffer.length = 30 ∧
    con'.recvBuffer.length < NetPackageHeader.headerSize + netPackageMaxSize := by
  obtain ⟨m, m', hfirst, hm, hsecond, hm'⟩ := oneClient_reads
  obtain ⟨con, hc, hlen⟩ := Option.map_eq_some_iff.mp hm
  have hreach := reachable_oneClient.read hfirst
  obtain ⟨_, hneed, _, hread⟩ := receive_buffer_bound hreach.poll (show (5 : Int) ∉ [] by simp) hc
  obtain ⟨con', hc', hlt⟩ := (hread _ 0 m' hsecond).2 rfl
  have hlen' : con'.recvBuffer.length = 30 := by
    rw [waiting, hc'] at hm'
    exact Option.some.inj hm'
  exact ⟨m, m', con, con', hreach, hc, hlen, hneed, hsecond, hc', hlen', hlt⟩

/-- At every moment between two operations each accepted descriptor has exactly one owner, and
each is closed once when it has none. -/
theorem socket_ownership {m : NetConnectionManager} (h : Reachable .posix m) :
    (∀ s (con : NetConnection), m.connections[s]? = some con → con.socket = s) ∧
      (∀ s, s ∈ m.connections ↔ Live s m.host.trace) ∧
      m.listener.socket ∉ m.connections ∧
      (∀ s, s ∈ m.host.epoll ↔ s ∈ m.connections ∨ s = m.listener.socket ∧ s ≠ socketError) ∧
      (m.listener.socket ≠ socketError → m.listener.socket ∈ m.host.opened) ∧
      ∀ s as bs, m.host.trace = as ++ .accepted s :: bs →
        (s ∉ m.connections → .closed s ∈ bs) ∧
        (.accepted s ∉ bs → .created s ∉ bs → bs.count (.closed s) ≤ 1) := by
  have ho := h.inv.owned
  refine ⟨fun s con => ho.socket, ho.live, ho.listener, ho.epoll rfl, ho.listening, ?_⟩
  intro s as bs ht
  refine ⟨?_, ?_⟩
  · intro hs
    by_contra hn
    exact hs ((ho.live s).mpr ⟨as, bs, ht, hn⟩)
  · intro ha hc
    have hl : leases m.host.trace = leases as ++ .take s :: leases bs := by
      rw [ht]
      simp [leases, NetEvent.lease]
    have hcount := ho.books.used.count_drop hl (take_not_mem_leases ha hc)
    rw [count_leases_drop] at hcount
    rw [hcount]
    split <;> omega

/-- The first client has ended its connection. -/
def clientGone : NetConnectionManager := oneClient.onSocketClose .posix 5

theorem clientGone_step : Step .posix oneClient clientGone := by
  refine ⟨.select (some [readEvent .ended]), ⟨by simp, ?_⟩, rfl⟩
  intro e he
  rw [List.mem_singleton.mp he]
  trivial

/-- The descriptor of a client while the client is there, and behind its end. -/
theorem oneClient_ownership : Live 5 oneClient.host.trace ∧
    (3 : Int) ∈ oneClient.host.epoll ∧ (5 : Int) ∈ oneClient.host.epoll ∧
    Reachable .posix clientGone ∧ (3 : Int) ∈ clientGone.host.epoll ∧ (5 : Int) ∉ clientGone.host.epoll ∧
    ∃ as bs, clientGone.host.trace = as ++ .accepted 5 :: bs ∧ .closed 5 ∈ bs ∧
      bs.count (.closed 5) ≤ 1 := by
  obtain ⟨_, hlive, _, hepoll, _⟩ := socket_ownership reachable_oneClient
  have h5 := mem_of_getElem? oneClient_connection
  have hgone : Reachable .posix clientGone := reachable_oneClient.tail clientGone_step
  obtain ⟨_, _, _, hepoll', _, hclosed⟩ := socket_ownership hgone
  have hno : (5 : Int) ∉ clientGone.connections := by
    intro hmem
    have hsome := Std.ExtTreeMap.mem_iff_isSome_getElem?.mp hmem
    have hnone : clientGone.connections[(5 : Int)]?.isSome = false := by decide +kernel
    rw [hnone] at hsome
    cases hsome
  have htrace : ∃ as bs, clientGone.host.trace = as ++ .accepted 5 :: bs ∧
      NetEvent.accepted 5 ∉ bs ∧ NetEvent.created 5 ∉ bs := by
    refine ⟨[.created 3, .created 4], [.closed 5], by decide +kernel, by decide, by decide⟩
  obtain ⟨as, bs, ht, ha, hc⟩ := htrace
  obtain ⟨hmem, hcount⟩ := hclosed 5 as bs ht
  refine ⟨(hlive 5).mp h5, (hepoll 3).mpr (Or.inr ⟨rfl, by decide⟩), (hepoll 5).mpr (Or.inl h5), hgone,
    (hepoll' 3).mpr (Or.inr ⟨rfl, by decide⟩), fun h => ?_, as, bs, ht, hmem hno, hcount ha hc⟩
  rcases (hepoll' 5).mp h with h | ⟨h, _⟩
  · exact hno h
  · exact absurd h (by decide)

end NetConnectionManager

end CppTry
