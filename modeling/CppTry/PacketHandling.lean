import CppTry.SocketService

namespace CppTry

/-- The token that `OnRecvData` finds in its static buffer. -/
def loginToken (buffer : List Byte) : Option (List Byte) :=
  (DataUtil.readString buffer 0 0).map Prod.fst

/-- The packet that answers a login request. -/
def loginReply : NetPackage := sendPackage 0 1401 8 (leBytes 4 0 ++ leBytes 4 0)

/-- A login request. -/
def NetPackage.isLogin (p : NetPackage) : Bool := p.header.command == 1001

/-- What handling packets works on: the static buffer, the connection's queue and the trace. -/
structure Ledger where
  buffer : List Byte
  queue : List Byte
  trace : List NetEvent

namespace Ledger

def ofConnection (host : Host) (con : NetConnection) : Ledger :=
  ⟨host.buffer, con.sendBuffer.contents, host.trace⟩

/-- A reply that does not fit into the queue is lost. -/
def answer (queue : List Byte) : List Byte :=
  if queue.length + loginReply.bytes.length ≤ 8192 then queue ++ loginReply.bytes else queue

/-- The handling of one packet of the connection `n`. -/
def handle (n : Nat) (l : Ledger) (p : NetPackage) : Ledger :=
  let buffer := splice l.buffer 0 p.body
  if p.isLogin then
    ⟨buffer, answer l.queue, l.trace ++ [.delivered n p, .login (loginToken buffer)]⟩
  else ⟨buffer, l.queue, l.trace ++ [.delivered n p]⟩

end Ledger

theorem length_loginReply : loginReply.bytes.length = 36 := by decide

namespace NetConnection

@[simp] theorem updateConnectionSend_buffer (build : Build) (host : Host) (con : NetConnection) :
    (updateConnectionSend build host con).buffer = host.buffer := by
  unfold updateConnectionSend Host.epollMod
  split
  next => rfl
  next => split <;> rfl

@[simp] theorem updateConnectionSend_trace (build : Build) (host : Host) (con : NetConnection) :
    (updateConnectionSend build host con).trace = host.trace := by
  simpa using (updateConnectionSend_serves build host con).trace

/-- Whether `Send` queues its packet is a question of room alone. -/
theorem send_contents {build : Build} {host host' : Host} {con con' : NetConnection} {guid : Int64}
    {cmd : Int32} {buffer : List Byte} {len : Int32} {n : Nat} {ok : Bool} (hv : con.SendValid)
    (hn : len.toInt = n) (hb : n ≤ buffer.length) (hm : n ≤ 996)
    (hs : con.send build host guid cmd buffer len = some (ok, host', con')) :
    con'.sendBuffer.contents =
      if con.sendBuffer.contents.length + (28 + n) ≤ 8192 then
        con.sendBuffer.contents ++ (sendPackage guid cmd len (buffer.take n)).bytes
      else con.sendBuffer.contents := by
  obtain ⟨ok', b, he, hbv, htrue, hfalse⟩ := send_spec build host guid cmd hv hn hb hm
  rw [he] at hs
  cases hs
  change b.contents = _
  cases ok with
  | true =>
    have hlen : (b.contents.length : Int) = b.length := hbv.valid.contents_length
    have hsize : b.size = 8 * 1024 := hbv.size
    have hle : b.length ≤ b.size := hbv.valid.length_le
    have hbytes : (sendPackage guid cmd len (buffer.take n)).bytes.length = 28 + n := by
      simp only [NetPackage.bytes, List.length_append, NetPackageHeader.length_encode, sendPackage,
        List.length_take]
      omega
    rw [htrue rfl, List.length_append, hbytes] at hlen
    rw [htrue rfl, if_pos (by omega)]
  | false =>
    obtain ⟨rfl, hfull⟩ := hfalse rfl
    rw [if_neg (by omega)]

end NetConnection

/-- Handling a complete packet is handling it in the ledger. -/
theorem onRecvData_ledger {build : Build} {host host' : Host} {con con' : NetConnection}
    {p : NetPackage} {n : Nat} (h : con.Receiving) (hs : con.SendValid)
    (hb : host.buffer.length = 1024) (hp : nextPackage con.recvBuffer.contents = .packet p n)
    (hr : onRecvData build host { con with recvHeader := con.checkHeader } = some (host', con')) :
    Ledger.ofConnection host' con' = (Ledger.ofConnection host con).handle con.serial p := by
  obtain ⟨b, _, _, _, _, hon⟩ := onRecvData_packet build h hb hp
  rw [hon] at hr
  split at hr
  next hlogin =>
    have hyes : p.isLogin = true := by simp [NetPackage.isLogin, hlogin]
    obtain ⟨⟨ok, host1, con1⟩, hsend, he⟩ := Option.map_eq_some_iff.mp hr
    cases he
    have hv : { con with recvBuffer := b, recvHeader := NetPackageHeader.new }.SendValid :=
      ⟨hs.valid, hs.size⟩
    have hq := NetConnection.send_contents hv (show (Int32.ofInt 8).toInt = (8 : Nat) by decide)
      length_loginBuffer (by omega) hsend
    obtain ⟨_, q, he, _⟩ := NetConnection.send_spec build (host.deliver con.serial p).logToken 0 1401
      hv (show (Int32.ofInt 8).toInt = (8 : Nat) by decide) length_loginBuffer (by omega)
    rw [he] at hsend
    cases hsend
    have htake : loginBuffer.take 8 = leBytes 4 0 ++ leBytes 4 0 :=
      @take_splice _ (zeros 1024) (leBytes 4 0 ++ leBytes 4 0) 0 (by simp)
    rw [htake] at hq
    simp only [Ledger.ofConnection, Ledger.handle, hyes, if_true, Ledger.answer, length_loginReply,
      NetConnection.updateConnectionSend_buffer, NetConnection.updateConnectionSend_trace,
      Host.deliver, Host.logToken, Host.log, List.append_assoc, Ledger.mk.injEq]
    exact ⟨trivial, hq, rfl⟩
  next hlogin =>
    cases hr
    have hno : p.isLogin = false := by simp [NetPackage.isLogin, hlogin]
    simp [Ledger.ofConnection, Ledger.handle, hno, Host.deliver, Host.log]

theorem drain_ledger {build : Build} {fuel : Nat} {host host' : Host} {con con' : NetConnection}
    {ret : Int} (h : con.Open) (hb : host.buffer.length = 1024)
    (hr : drain build fuel host con = some (ret, host', con')) :
    Ledger.ofConnection host' con' = (packageFramer.parse con.recvBuffer.contents).1.foldl
      (Ledger.handle con.serial) (Ledger.ofConnection host con) := by
  induction fuel generalizing host con with
  | zero => cases hr
  | succ fuel ih =>
    rw [drain_succ build fuel host h.receiving] at hr
    cases hn : nextPackage con.recvBuffer.contents with
    | more =>
      rw [Framer.parse_more (F := packageFramer) hn]
      rw [hn] at hr
      cases hr
      rfl
    | stop v =>
      rw [Framer.parse_stop (F := packageFramer) hn]
      rw [hn] at hr
      cases v with
      | rejected =>
        cases hr
        rfl
      | negative => cases hr
    | packet p n =>
      rw [hn] at hr
      obtain ⟨⟨host1, con1⟩, hdata, hr⟩ := Option.bind_eq_some_iff.mp hr
      obtain ⟨host2, con2, he, hd, hrecv, hc⟩ :=
        onRecvData_spec build h.receiving h.sendValid hb hn
      rw [hdata] at he
      cases he
      obtain ⟨es, hserves, _⟩ := hd.serves
      have hih := ih ⟨hrecv, hd.sendValid⟩ (hserves.buffer.trans hb) hr
      rw [hc, hd.serial, onRecvData_ledger h.receiving h.sendValid hb hn hdata] at hih
      rw [Framer.parse_packet (F := packageFramer) hn, hih]
      rfl

theorem readConnection_ledger {build : Build} {host host' : Host} {con con' : NetConnection}
    {ret : Int} {chunk : Chunk} (h : con.Idle) (hb : host.buffer.length = 1024)
    (hr : readConnection build host con (.received chunk) = some (ret, host', con')) :
    Ledger.ofConnection host' con' =
      (packageFramer.parse (con.recvBuffer.contents ++ chunk.data)).1.foldl
        (Ledger.handle con.serial) (Ledger.ofConnection host con) := by
  have hlt := h.length_lt
  have hfits := chunk.fits
  obtain ⟨b, ha, hopen, hc⟩ := h.toOpen.addRecvData
    (show _ + (chunk.data.length : Int) ≤ 8 * 1024 by omega)
  simp only [readConnection, ha, Option.bind_eq_bind, Option.bind_some, Bool.true_eq_false,
    if_false] at hr
  have hd := drain_ledger hopen hb hr
  rw [← hc]
  exact hd

/-- `DoSend` moves bytes from the queue into the trace. -/
theorem doSend_ledger {build : Build} {host host' : Host} {con con' : NetConnection}
    {result : SendResult} {ret : Int} (h : con.SendValid)
    (hr : con.doSend build host result = some (ret, host', con')) :
    ∃ bytes es, con.sendBuffer.contents = bytes ++ con'.sendBuffer.contents ∧
      host'.buffer = host.buffer ∧ host'.trace = host.trace ++ es ∧
      (es = [] ∧ bytes = [] ∨ es = [.sent con.serial bytes]) := by
  obtain ⟨_, _, b, bytes, he, _, hc, _, hhost⟩ := NetConnection.doSend_spec build host result h
  rw [hr] at he
  cases he
  rcases hhost with ⟨rfl, rfl, rfl⟩ | rfl
  · exact ⟨[], [], rfl, rfl, by simp, Or.inl ⟨rfl, rfl⟩⟩
  · exact ⟨bytes, [.sent con.serial bytes], hc, by simp [Host.log], by simp [Host.log], Or.inr rfl⟩

/-- The packets that polling a connection completes. -/
def servedPackets (con : NetConnection) (error readable : Bool) (calls : Calls) : List NetPackage :=
  match error, readable, calls.recv with
  | false, true, .received chunk => (packageFramer.parse (con.recvBuffer.contents ++ chunk.data)).1
  | _, _, _ => []

theorem readTurn_ledger {build : Build} {host host' : Host} {con con' : NetConnection}
    {readable : Bool} {calls : Calls} {ret : Int} (h : con.Idle) (hb : host.buffer.length = 1024)
    (hr : (if readable then readConnection build host con calls.recv else some (0, host, con)) =
      some (ret, host', con')) :
    Ledger.ofConnection host' con' = (servedPackets con false readable calls).foldl
        (Ledger.handle con.serial) (Ledger.ofConnection host con) ∧
      con'.serial = con.serial ∧ (ret = 0 → con'.Idle) := by
  split at hr
  next hon =>
    subst hon
    have hserv := readConnection_service h hb hr
    refine ⟨?_, hserv.serial, fun hz => hserv.idle (by simp [hz])⟩
    cases hrecv : calls.recv with
    | received chunk =>
      rw [hrecv] at hr
      simp only [servedPackets, hrecv]
      exact readConnection_ledger h hb hr
    | ended =>
      rw [hrecv] at hr
      cases hr
      simp [servedPackets, hrecv]
    | failed errno =>
      rw [hrecv] at hr
      cases hr
      simp [servedPackets, hrecv]
  next hoff =>
    cases hr
    have hoff : readable = false := by simpa using hoff
    subst hoff
    exact ⟨rfl, rfl, fun _ => h⟩

/-- Polling a connection handles the packets it completes, and then may send. -/
theorem serve_ledger {build : Build} {host host' : Host} {con con' : NetConnection}
    {error readable writable remove : Bool} {calls : Calls} (h : con.Idle)
    (hb : host.buffer.length = 1024)
    (hr : serve build host con error readable writable calls = some (remove, host', con')) :
    ∃ l bytes es, l = (servedPackets con error readable calls).foldl (Ledger.handle con.serial)
        (Ledger.ofConnection host con) ∧
      l.queue = bytes ++ con'.sendBuffer.contents ∧ host'.buffer = l.buffer ∧
      host'.trace = l.trace ++ es ∧ (es = [] ∧ bytes = [] ∨ es = [.sent con.serial bytes]) := by
  unfold serve at hr
  split at hr
  next he =>
    cases hr
    subst he
    exact ⟨_, [], [], rfl, rfl, rfl, by simp [servedPackets, Ledger.ofConnection], Or.inl ⟨rfl, rfl⟩⟩
  next he =>
    have he : error = false := by simpa using he
    subst he
    obtain ⟨⟨ret, host1, con1⟩, hread, hr⟩ := Option.bind_eq_some_iff.mp hr
    obtain ⟨hl, hserial, hidle⟩ := readTurn_ledger h hb hread
    rw [← hl, ← hserial]
    dsimp only at hr
    split at hr
    next =>
      cases hr
      exact ⟨_, [], [], rfl, rfl, rfl, by simp [Ledger.ofConnection], Or.inl ⟨rfl, rfl⟩⟩
    next hz =>
      obtain ⟨⟨ret2, host2, con2⟩, hsend, hr⟩ := Option.bind_eq_some_iff.mp hr
      cases hr
      split at hsend
      next =>
        obtain ⟨bytes, es, hq, hbuf, ht, hes⟩ := doSend_ledger (hidle (not_ne_iff.mp hz)).sendValid hsend
        exact ⟨_, bytes, es, rfl, hq, hbuf, ht, hes⟩
      next =>
        cases hsend
        exact ⟨_, [], [], rfl, rfl, rfl, by simp [Ledger.ofConnection], Or.inl ⟨rfl, rfl⟩⟩

end CppTry
