import CppTry.RunInvariants

namespace CppTry

namespace NetConnection

/-- The mask registered for the connection asks for writability exactly when bytes are queued. -/
def Registered (host : Host) (con : NetConnection) : Prop :=
  ∃ mask, host.epoll[con.socket]? = some mask ∧ (mask &&& epollOut ≠ 0 ↔ 0 < con.sendBuffer.length)

theorem Registered.congr {host host' : Host} {con con' : NetConnection} (h : con.Registered host)
    (hs : con'.socket = con.socket) (hb : con'.sendBuffer = con.sendBuffer)
    (he : host'.epoll[con.socket]? = host.epoll[con.socket]?) : con'.Registered host' := by
  obtain ⟨mask, hm, ho⟩ := h
  exact ⟨mask, by rw [hs, he, hm], by rw [hb]; exact ho⟩

theorem Registered.mem {host : Host} {con : NetConnection} (h : con.Registered host) :
    con.socket ∈ host.epoll := by
  obtain ⟨mask, hm, _⟩ := h
  exact Std.ExtTreeMap.mem_iff_isSome_getElem?.mpr (by rw [hm]; rfl)

/-- `UpdateConnectionSend` puts the mask right, whatever it was. -/
theorem updateConnectionSend_registered {host : Host} {con : NetConnection}
    (h : con.socket ∈ host.epoll) : con.Registered (updateConnectionSend .posix host con) := by
  have hm : (updateConnectionSend .posix host con).epoll[con.socket]? =
      some (if con.isNeedWrite then epollIn ||| epollOut ||| epollErr else epollIn ||| epollErr) := by
    simp only [updateConnectionSend, Host.epollMod, if_pos h, Std.ExtTreeMap.getElem?_insert_self]
  refine ⟨_, hm, ?_⟩
  by_cases hw : con.sendBuffer.length > 0
  · rw [if_pos (by simpa [isNeedWrite] using hw)]
    exact ⟨fun _ => hw, fun _ => by decide⟩
  · rw [if_neg (by simpa [isNeedWrite] using hw)]
    exact ⟨fun hh => absurd hh (by decide), fun hh => absurd hh hw⟩

/-- Whatever traffic on a connection does, it keeps its name and its mask right. -/
structure Keeps (host : Host) (con : NetConnection) (host' : Host) (con' : NetConnection) : Prop where
  serial : con'.serial = con.serial
  socket : con'.socket = con.socket
  serves : ∃ es, host.Serves host' con.socket con.serial es
  registered : con.Registered host → con'.Registered host'

theorem Keeps.trans {a b c : Host} {x y z : NetConnection} (h : Keeps a x b y) (k : Keeps b y c z) :
    Keeps a x c z := by
  obtain ⟨es, hs⟩ := h.serves
  obtain ⟨fs, ks⟩ := k.serves
  rw [h.socket, h.serial] at ks
  exact ⟨k.serial.trans h.serial, k.socket.trans h.socket, ⟨es ++ fs, hs.trans ks⟩,
    fun hr => k.registered (h.registered hr)⟩

theorem keeps_of_same {host host' : Host} {con con' : NetConnection} {es : List NetEvent}
    (hn : con'.serial = con.serial) (hs : con'.socket = con.socket)
    (hb : con'.sendBuffer = con.sendBuffer) (hv : host.Serves host' con.socket con.serial es)
    (he : host'.epoll = host.epoll) : Keeps host con host' con' :=
  ⟨hn, hs, ⟨es, hv⟩, fun hr => hr.congr hs hb (by rw [he])⟩

theorem keeps_update {host host' : Host} {con : NetConnection} (b : ByteBuffer) {es : List NetEvent}
    (hv : host.Serves host' con.socket con.serial es) :
    Keeps host con (updateConnectionSend .posix host' { con with sendBuffer := b })
      { con with sendBuffer := b } := by
  have hu := updateConnectionSend_serves .posix host' { con with sendBuffer := b }
  refine ⟨rfl, rfl, ⟨_, hv.trans hu⟩, fun hr => updateConnectionSend_registered ?_⟩
  exact (hv.epoll_mem con.socket).mpr hr.mem

theorem addSendData_keeps {host host' : Host} {con con' : NetConnection} {buffer : List Byte}
    {len : Int} {ok : Bool}
    (h : con.addSendData .posix host buffer len = some (ok, host', con')) :
    Keeps host con host' con' := by
  obtain ⟨⟨ok1, b⟩, _, he⟩ := Option.bind_eq_some_iff.mp h
  cases he
  exact keeps_update b (Host.Serves.refl host _ _)

theorem send_keeps {host host' : Host} {con con' : NetConnection} {guid : Int64} {cmd len : Int32}
    {buffer : List Byte} {ok : Bool}
    (h : con.send .posix host guid cmd buffer len = some (ok, host', con')) :
    Keeps host con host' con' := by
  simp only [send, Option.bind_eq_bind, Option.bind_eq_some_iff] at h
  obtain ⟨⟨sendbuff, sendsize⟩, _, sendbuff2, _, h⟩ := h
  exact addSendData_keeps h

theorem doSend_keeps {host host' : Host} {con con' : NetConnection} {result : SendResult} {ret : Int}
    (h : con.doSend .posix host result = some (ret, host', con')) : Keeps host con host' con' := by
  have same : Keeps host con host con := keeps_of_same rfl rfl rfl (Host.Serves.refl host _ _) rfl
  unfold doSend at h
  split at h
  next =>
    cases result with
    | taken room =>
      dsimp only at h
      split at h
      next =>
        obtain ⟨b, _, he⟩ := Option.bind_eq_some_iff.mp h
        cases he
        exact keeps_update b (Host.Serves.log host con.socket (n := con.serial) rfl)
      next =>
        cases h
        exact same
    | failed errno =>
      cases h
      exact same
  next =>
    cases h
    exact same

theorem takeRecvPackage_keeps {con con' : NetConnection} {buffer buffer' : List Byte}
    {header : NetPackageHeader} (h : con.takeRecvPackage buffer = some (header, buffer', con')) :
    con'.serial = con.serial ∧ con'.socket = con.socket ∧ con'.sendBuffer = con.sendBuffer ∧
      buffer'.length = buffer.length := by
  obtain ⟨buffer1, hg, h⟩ := Option.bind_eq_some_iff.mp h
  obtain ⟨b, _, he⟩ := Option.bind_eq_some_iff.mp h
  cases he
  exact ⟨rfl, rfl, rfl, memcpy_length hg⟩

theorem checkRecvPackage_keeps (host : Host) {con con' : NetConnection} {ret : Int}
    (h : con.checkRecvPackage = some (ret, con')) : Keeps host con host con' := by
  have same : ∀ header, Keeps host con host { con with recvHeader := header } := fun _ =>
    keeps_of_same rfl rfl rfl (Host.Serves.refl host _ _) rfl
  unfold checkRecvPackage at h
  split at h
  next =>
    obtain ⟨⟨header, next⟩, _, h⟩ := Option.bind_eq_some_iff.mp h
    dsimp only at h
    split at h
    next =>
      cases h
      exact same header
    next =>
      cases h
      exact same header
  next =>
    cases h
    exact same con.recvHeader

end NetConnection

open NetConnection

theorem onRecvData_keeps {host host' : Host} {con con' : NetConnection}
    (h : onRecvData .posix host con = some (host', con')) : Keeps host con host' con' := by
  obtain ⟨⟨header, buffer, con1⟩, ht, h⟩ := Option.bind_eq_some_iff.mp h
  obtain ⟨hn, hs, hb, hl⟩ := takeRecvPackage_keeps ht
  dsimp only at h
  have hserves : host.Serves
      { host.log (.delivered con1.serial ⟨header, buffer.take header.bodySize.toInt.toNat⟩) with buffer }
      con.socket con.serial
      [.delivered con1.serial ⟨header, buffer.take header.bodySize.toInt.toNat⟩] :=
    ⟨rfl, rfl, hl, rfl, by simpa [NetEvent.Traffic] using hn, fun _ => Iff.rfl, fun _ => rfl⟩
  have htake := keeps_of_same hn hs hb hserves rfl
  split at h
  next =>
    cases h
    exact htake
  next =>
    split at h
    next =>
      obtain ⟨⟨res, resIndex⟩, _, h⟩ := Option.bind_eq_some_iff.mp h
      obtain ⟨⟨res, resIndex⟩, _, h⟩ := Option.bind_eq_some_iff.mp h
      obtain ⟨⟨ok, host2, con2⟩, hsend, h⟩ := Option.bind_eq_some_iff.mp h
      cases h
      refine (htake.trans ?_).trans (send_keeps hsend)
      exact keeps_of_same rfl rfl rfl (Host.Serves.log _ _ trivial) rfl
    next =>
      cases h
      exact htake

end CppTry
