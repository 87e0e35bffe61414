import CppTry.ReceiveRuns

namespace CppTry

/-- The arguments of a call `Send(guid, cmd, body)`; header and body fit its staging array. -/
structure Message where
  guid : Int64
  cmd : Int32
  body : List Byte
  fits : body.length ≤ 996

namespace Message

/-- The packet that carries the message. -/
def package (msg : Message) : NetPackage :=
  sendPackage msg.guid msg.cmd (Int32.ofNat msg.body.length) msg.body

def bytes (msg : Message) : List Byte := msg.package.bytes

theorem toInt_length (msg : Message) : (Int32.ofNat msg.body.length).toInt = msg.body.length := by
  have h := msg.fits
  rw [Int32.toInt_ofNat_of_lt (by omega)]

theorem frames (msg : Message) : packageFramer.Frames msg.package msg.bytes := by
  have h := msg.fits
  refine package_frames ⟨rfl, ?_⟩ msg.toInt_length
  change (Int32.ofNat msg.body.length).toInt ≤ 1024
  rw [msg.toInt_length]
  omega

end Message

inductive SendOp
  | send (msg : Message)
  | doSend (result : SendResult)

/-- The bytes that a stretch of trace hands to the kernel for the connection object `n`. -/
def handedOver (n : Nat) (es : List NetEvent) : List Byte :=
  es.flatMap fun
    | .sent k bytes => if k = n then bytes else []
    | _ => []

@[simp] theorem handedOver_append (n : Nat) (es fs : List NetEvent) :
    handedOver n (es ++ fs) = handedOver n es ++ handedOver n fs := List.flatMap_append

namespace NetConnection

/-- One call, with the messages for which `Send` returned true. -/
def sendStep (build : Build) (host : Host) (con : NetConnection) :
    SendOp → Option (List Message × Host × NetConnection)
  | .send msg => do
    let (ok, host, con) ←
      con.send build host msg.guid msg.cmd msg.body (Int32.ofNat msg.body.length)
    pure (if ok then [msg] else [], host, con)
  | .doSend result => do
    let (_, host, con) ← con.doSend build host result
    pure ([], host, con)

def sendRun (build : Build) :
    Host → NetConnection → List SendOp → Option (List Message × Host × NetConnection)
  | host, con, [] => some ([], host, con)
  | host, con, op :: ops => do
    let (msgs, host, con) ← con.sendStep build host op
    let (rest, host, con) ← sendRun build host con ops
    pure (msgs ++ rest, host, con)

/-- What the calls so far have done: what was queued before and what was accepted since is
handed over or still queued, in this order. -/
structure Conserves (host : Host) (con : NetConnection) (msgs : List Message) (host' : Host)
    (con' : NetConnection) (es : List NetEvent) : Prop where
  serial : con'.serial = con.serial
  sendValid : con'.SendValid
  trace : host'.trace = host.trace ++ es
  bytes : con.sendBuffer.contents ++ msgs.flatMap Message.bytes =
    handedOver con.serial es ++ con'.sendBuffer.contents

theorem Conserves.trans {a b c : Host} {x y z : NetConnection} {ms ns : List Message}
    {es fs : List NetEvent} (h : Conserves a x ms b y es) (k : Conserves b y ns c z fs) :
    Conserves a x (ms ++ ns) c z (es ++ fs) := by
  have hb := k.bytes
  rw [h.serial] at hb
  refine ⟨k.serial.trans h.serial, k.sendValid, by rw [k.trace, h.trace, List.append_assoc], ?_⟩
  rw [List.flatMap_append, ← List.append_assoc, h.bytes, List.append_assoc, hb, handedOver_append,
    List.append_assoc]

theorem sendStep_spec (build : Build) (host : Host) {con : NetConnection} (h : con.SendValid)
    (op : SendOp) :
    ∃ msgs host' con' es, con.sendStep build host op = some (msgs, host', con') ∧
      Conserves host con msgs host' con' es := by
  cases op with
  | send msg =>
    obtain ⟨ok, b, hs, hv, htrue, hfalse⟩ := send_spec build host msg.guid msg.cmd h
      msg.toInt_length (Nat.le_refl _) msg.fits
    rw [List.take_length] at htrue
    change _ → _ = _ ++ msg.bytes at htrue
    have hserves := updateConnectionSend_serves build host { con with sendBuffer := b }
    have hstep : con.sendStep build host (.send msg) =
        some (if ok then [msg] else [], updateConnectionSend build host { con with sendBuffer := b },
          { con with sendBuffer := b }) := by
      rw [sendStep, hs]
      rfl
    refine ⟨_, _, _, [], hstep, rfl, hv, hserves.trace, ?_⟩
    cases ok with
    | true => simpa [handedOver] using (htrue rfl).symm
    | false =>
      rw [(hfalse rfl).1]
      simp [handedOver]
  | doSend result =>
    obtain ⟨ret, host', b, bytes, hs, hv, hc, _, hhost⟩ := doSend_spec build host result h
    have hstep : con.sendStep build host (.doSend result) =
        some ([], host', { con with sendBuffer := b }) := by
      rw [sendStep, hs]
      rfl
    rcases hhost with ⟨rfl, rfl, rfl⟩ | rfl
    · exact ⟨[], _, _, [], hstep, rfl, hv, by simp, by simp [handedOver]⟩
    · have hserves := updateConnectionSend_serves build (host.log (.sent con.serial bytes))
        { con with sendBuffer := b }
      have ht := hserves.trace
      rw [List.append_nil] at ht
      exact ⟨[], _, _, [.sent con.serial bytes], hstep, rfl, hv, ht, by simpa [handedOver] using hc⟩

theorem sendRun_spec (build : Build) (host : Host) {con : NetConnection} (h : con.SendValid)
    (ops : List SendOp) :
    ∃ msgs host' con' es, sendRun build host con ops = some (msgs, host', con') ∧
      Conserves host con msgs host' con' es := by
  induction ops generalizing host con with
  | nil => exact ⟨[], host, con, [], rfl, rfl, h, by simp, by simp [handedOver]⟩
  | cons op ops ih =>
    obtain ⟨ms, host1, con1, es, hstep, hc⟩ := sendStep_spec build host h op
    obtain ⟨ns, host2, con2, fs, hrun, hc'⟩ := ih host1 hc.sendValid
    refine ⟨ms ++ ns, host2, con2, es ++ fs, ?_, hc.trans hc'⟩
    rw [sendRun, hstep]
    simp only [Option.bind_eq_bind, Option.bind_some, hrun]
    rfl

/-- What was handed to the kernel and what is still queued are the accepted messages, and a
peer that receives what was handed over gets exactly the messages it holds whole. -/
theorem sendRun_round_trip (build : Build) (host : Host) (n : Nat) (s : Int) (ops : List SendOp) :
    ∃ msgs host' con' es,
      sendRun build host ((NetConnection.new n).setSocket s) ops = some (msgs, host', con') ∧
      host'.trace = host.trace ++ es ∧
      handedOver n es ++ con'.sendBuffer.contents = msgs.flatMap Message.bytes ∧
      ∀ (build' : Build) (m : NetConnectionManager) (s' : Int) (k : Nat) (chunks : List Chunk),
        m.host.buffer.length = 1024 → s' ≠ m.listener.socket →
        m.connections[s']? = some ((NetConnection.new k).setSocket s') →
        chunks.flatMap (·.data) = handedOver n es →
        ∃ rets m' fs, NetConnectionManager.readRun build' s' m chunks = some (rets, m') ∧
          (∀ ret ∈ rets, ret = 0) ∧ m'.host.trace = m.host.trace ++ fs ∧
          deliveries k fs =
            (Framer.within Message.bytes msgs (handedOver n es).length).map Message.package := by
  obtain ⟨msgs, host', con', es, hrun, hc⟩ :=
    sendRun_spec build host (new_idle n s).sendValid ops
  have hbytes : handedOver n es ++ con'.sendBuffer.contents = msgs.flatMap Message.bytes :=
    hc.bytes.symm
  refine ⟨msgs, host', con', es, hrun, hc.trace, hbytes, ?_⟩
  intro build' m s' k chunks hb hs hcon hchunks
  have hout := NetConnectionManager.readRun_spec build' ⟨hs, hcon, hb⟩ (new_idle k s') chunks
  have hnil : ((NetConnection.new k).setSocket s').recvBuffer.contents = [] := rfl
  have htake : handedOver n es = (msgs.flatMap Message.bytes).take (handedOver n es).length := by
    rw [← hbytes, List.take_left' rfl]
  obtain ⟨r, hr⟩ := Framer.parse_take_flatMap (F := packageFramer) (handedOver n es).length
    (fun msg (_ : msg ∈ msgs) => msg.frames) (show nextPackage [] = .more by rfl)
  rw [← htake] at hr
  rw [hnil, List.nil_append, hchunks, hr] at hout
  obtain ⟨rets, m', con2, hread, hz, hd, _, _, _⟩ := hout
  obtain ⟨fs, hserves, he⟩ := hd.serves
  exact ⟨rets, m', fs, hread, hz, hserves.trace, he⟩

end NetConnection

end CppTry
