import CppTry.NetPolling
import CppTry.ReceiveRuns

namespace CppTry

theorem readConnection_cases {build : Build} {host host' : Host} {con con' : NetConnection}
    {result : RecvResult} {ret : Int} (h : con.Idle) (hb : host.buffer.length = 1024)
    (hr : readConnection build host con result = some (ret, host', con')) :
    (∃ ps, Drained host con host' con' ps) ∧ (ret = 0 → con'.Idle) ∧ ret ≠ 3 := by
  cases result with
  | received chunk =>
    have hout := readConnection_spec build h hb chunk
    rw [hr] at hout
    cases hp : packageFramer.parse (con.recvBuffer.contents ++ chunk.data) with
    | mk ps t =>
      rw [hp] at hout
      match t with
      | .rest r =>
        obtain ⟨host2, con2, he, hd, hopen, hc⟩ := hout
        cases he
        exact ⟨⟨ps, hd⟩, fun _ => ⟨hopen, by rw [hc]; exact Framer.next_rest hp⟩, by decide⟩
      | .stop .rejected =>
        obtain ⟨host2, con2, he, hd⟩ := hout
        cases he
        exact ⟨⟨ps, hd⟩, fun h => absurd h (by decide), by decide⟩
      | .stop .negative => cases (hout : some _ = none)
  | ended =>
    cases hr
    exact ⟨⟨[], h.sendValid.drained_nil host⟩, fun _ => h, by decide⟩
  | failed errno =>
    cases hr
    exact ⟨⟨[], h.sendValid.drained_nil host⟩, fun _ => h, by decide⟩

theorem readConnection_isSome {build : Build} {host : Host} {con : NetConnection} {chunk : Chunk}
    (h : con.Idle) (hb : host.buffer.length = 1024)
    (hf : (packageFramer.parse (con.recvBuffer.contents ++ chunk.data)).2 ≠ .stop .negative) :
    ∃ r, readConnection build host con (.received chunk) = some r := by
  have hout := readConnection_spec build h hb chunk
  cases hp : packageFramer.parse (con.recvBuffer.contents ++ chunk.data) with
  | mk ps t =>
    rw [hp] at hout hf
    match t with
    | .rest r =>
      obtain ⟨host', con', he, _⟩ := hout
      exact ⟨_, he⟩
    | .stop .rejected =>
      obtain ⟨host', con', he, _⟩ := hout
      exact ⟨_, he⟩
    | .stop .negative => exact absurd rfl hf

/-- What polling the socket of a connection may do to it: `remove` says whether it is to go. -/
structure Service (host : Host) (con : NetConnection) (remove : Bool) (host' : Host)
    (con' : NetConnection) : Prop where
  serial : con'.serial = con.serial
  socket : con'.socket = con.socket
  serves : ∃ es, host.Serves host' con.socket con.serial es
  idle : remove = false → con'.Idle

theorem Service.refl (host : Host) {con : NetConnection} (remove : Bool) (h : con.Idle) :
    Service host con remove host con :=
  ⟨rfl, rfl, ⟨[], Host.Serves.refl _ _ _⟩, fun _ => h⟩

theorem Service.trans {a b c : Host} {x y z : NetConnection} {p q : Bool} (h : Service a x p b y)
    (k : Service b y q c z) : Service a x q c z := by
  obtain ⟨es, hs⟩ := h.serves
  obtain ⟨fs, ks⟩ := k.serves
  rw [h.socket, h.serial] at ks
  exact ⟨k.serial.trans h.serial, k.socket.trans h.socket, ⟨es ++ fs, hs.trans ks⟩, k.idle⟩

theorem readConnection_service {build : Build} {host host' : Host} {con con' : NetConnection}
    {result : RecvResult} {ret : Int} (h : con.Idle) (hb : host.buffer.length = 1024)
    (hr : readConnection build host con result = some (ret, host', con')) :
    Service host con (decide (ret ≠ 0)) host' con' := by
  obtain ⟨⟨ps, hd⟩, hz, _⟩ := readConnection_cases h hb hr
  obtain ⟨es, hs, _⟩ := hd.serves
  exact ⟨hd.serial, hd.socket, ⟨es, hs⟩, fun hf => hz (by simpa using hf)⟩

theorem doSend_service {build : Build} {host host' : Host} {con con' : NetConnection}
    {result : SendResult} {ret : Int} (h : con.Idle)
    (hr : con.doSend build host result = some (ret, host', con')) :
    Service host con (decide (ret ≠ 0)) host' con' := by
  obtain ⟨ret2, host2, b, bytes, he, hv, _, _, hhost⟩ :=
    NetConnection.doSend_spec build host result h.sendValid
  obtain ⟨rfl, rfl, rfl⟩ : ret = ret2 ∧ host' = host2 ∧ con' = { con with sendBuffer := b } := by
    simpa using hr.symm.trans he
  have hidle : { con with sendBuffer := b }.Idle :=
    ⟨⟨⟨h.receiving.valid, h.receiving.size, h.receiving.cached⟩, hv⟩, h.pending⟩
  refine ⟨rfl, rfl, ?_, fun _ => hidle⟩
  rcases hhost with ⟨_, rfl, _⟩ | rfl
  · exact ⟨[], Host.Serves.refl _ _ _⟩
  · have hlog : host.Serves _ con.socket con.serial [.sent con.serial bytes] :=
      Host.Serves.log host con.socket rfl
    exact ⟨_, hlog.trans
      (NetConnection.updateConnectionSend_serves build _ { con with sendBuffer := b })⟩

/-- The body of the polling loops, on the connection itself. -/
def serve (build : Build) (host : Host) (con : NetConnection) (error readable writable : Bool)
    (calls : Calls) : Option (Bool × Host × NetConnection) :=
  if error then some (true, host, con)
  else
    (if readable then readConnection build host con calls.recv else some (0, host, con)).bind
      fun (ret, host, con) =>
        if ret ≠ 0 then some (true, host, con)
        else
          (if writable then con.doSend build host calls.send else some (0, host, con)).bind
            fun (ret, host, con) => some (decide (ret ≠ 0), host, con)

theorem serve_service {build : Build} {host host' : Host} {con con' : NetConnection}
    {error readable writable remove : Bool} {calls : Calls} (h : con.Idle)
    (hb : host.buffer.length = 1024)
    (hr : serve build host con error readable writable calls = some (remove, host', con')) :
    Service host con remove host' con' := by
  unfold serve at hr
  split at hr
  next =>
    cases hr
    exact Service.refl host true h
  next =>
    obtain ⟨⟨ret, host1, con1⟩, hread, hr⟩ := Option.bind_eq_some_iff.mp hr
    have h1 : Service host con (decide (ret ≠ 0)) host1 con1 := by
      split at hread
      next => exact readConnection_service h hb hread
      next =>
        cases hread
        exact Service.refl host _ h
    dsimp only at hr
    split at hr
    next hne =>
      cases hr
      simpa [hne] using h1
    next hz =>
      have hi := h1.idle (by simpa using hz)
      obtain ⟨⟨ret2, host2, con2⟩, hsend, hr⟩ := Option.bind_eq_some_iff.mp hr
      cases hr
      refine h1.trans ?_
      split at hsend
      next => exact doSend_service hi hsend
      next =>
        cases hsend
        exact Service.refl host1 _ hi

/-- Service does not fault unless a packet announces a negative size. -/
theorem serve_isSome (build : Build) {host : Host} {con : NetConnection} (h : con.Idle)
    (hb : host.buffer.length = 1024) (error readable writable : Bool) {calls : Calls}
    (hf : ∀ chunk, calls.recv = .received chunk →
      (packageFramer.parse (con.recvBuffer.contents ++ chunk.data)).2 ≠ .stop .negative) :
    ∃ r, serve build host con error readable writable calls = some r := by
  have hread : ∃ r, (if readable then readConnection build host con calls.recv
      else some (0, host, con)) = some r := by
    split
    next =>
      cases hr : calls.recv with
      | received chunk => exact readConnection_isSome h hb (hf chunk hr)
      | ended => exact ⟨_, rfl⟩
      | failed errno => exact ⟨_, rfl⟩
    next => exact ⟨_, rfl⟩
  unfold serve
  split
  next => exact ⟨_, rfl⟩
  next =>
    obtain ⟨⟨ret, host1, con1⟩, hr⟩ := hread
    have hi : ret = 0 → con1.Idle := by
      intro hz
      split at hr
      next => exact (readConnection_cases h hb hr).2.1 hz
      next =>
        cases hr
        exact h
    rw [hr, Option.bind_some]
    dsimp only
    split
    next => exact ⟨_, rfl⟩
    next hz =>
      split
      next =>
        obtain ⟨ret2, host2, b, _, he, _⟩ :=
          NetConnection.doSend_spec build host1 calls.send (hi (not_ne_iff.mp hz)).sendValid
        exact ⟨_, by rw [he, Option.bind_some]⟩
      next => exact ⟨_, rfl⟩

namespace NetConnectionManager

theorem insert_eq_self {α : Type} {t : Std.ExtTreeMap Int α} {s : Int} {a : α}
    (h : t[s]? = some a) : t.insert s a = t := by
  ext1 k
  rw [Std.ExtTreeMap.getElem?_insert]
  split
  next hk =>
    rw [← Std.compare_eq_iff_eq.mp hk, h]
  next => rfl

theorem insert_insert_self {α : Type} {t : Std.ExtTreeMap Int α} {s : Int} {a b : α} :
    (t.insert s a).insert s b = t.insert s b := by
  ext1 k
  simp only [Std.ExtTreeMap.getElem?_insert]
  split <;> rfl

theorem onSocketWrite_eq (build : Build) {m : NetConnectionManager} {s : Int} {con : NetConnection}
    (hc : m.connections[s]? = some con) (calls : Calls) :
    m.onSocketWrite build s calls = (con.doSend build m.host calls.send).map fun r =>
      (r.1, { m with host := r.2.1, connections := m.connections.insert s r.2.2 }) := by
  rw [onSocketWrite]
  simp only [getConnectionFromSocket, hc]
  cases con.doSend build m.host calls.send <;> rfl

theorem handleSocket_connection (build : Build) {m : NetConnectionManager} {s : Int}
    {con : NetConnection} (hs : s ≠ m.listener.socket) (hc : m.connections[s]? = some con)
    (error readable writable : Bool) (calls : Calls) :
    m.handleSocket build s error readable writable calls =
      (serve build m.host con error readable writable calls).map fun r =>
        (r.1, { m with host := r.2.1, connections := m.connections.insert s r.2.2 }) := by
  have hself : { m with connections := m.connections.insert s con } = m := by
    rw [insert_eq_self hc]
  unfold handleSocket serve
  split
  next => simp [hself]
  next =>
    cases readable with
    | false =>
      cases writable with
      | false => simp [hself]
      | true =>
        have hw := onSocketWrite_eq build hc calls
        cases hd : con.doSend build m.host calls.send with
        | none => simp [hw, hd]
        | some r => simp [hw, hd]
    | true =>
      have hr := onSocketRead_connection build hs hc calls
      cases hread : readConnection build m.host con calls.recv with
      | none => simp [hr, hread]
      | some r =>
        obtain ⟨ret, host1, con1⟩ := r
        by_cases hz : ret = 0
        · cases writable with
          | false => simp [hr, hread, hz]
          | true =>
            have hw : onSocketWrite build
                { m with host := host1, connections := m.connections.insert s con1 } s calls = _ :=
              onSocketWrite_eq build (show (m.connections.insert s con1)[s]? = some con1 by simp) calls
            cases hd : con1.doSend build host1 calls.send with
            | none => simp [hr, hread, hz, hw, hd]
            | some q => simp [hr, hread, hz, hw, hd, insert_insert_self]
        · simp [hr, hread, hz]

end NetConnectionManager

end CppTry
