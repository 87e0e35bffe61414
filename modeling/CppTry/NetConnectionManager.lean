import CppTry.NetServer

namespace CppTry

structure NetListener where
  socket : Int

/-- `NetConnectionManager`; `awakeBridge` is the socket of `m_AwakeBridge`. -/
structure NetConnectionManager where
  listener : NetListener
  awakeBridge : Int
  connections : Std.ExtTreeMap Int NetConnection
  host : Host

/-- The results of the calls of `CreateListenSocket`. -/
structure ListenCalls where
  socket : Int
  bind : Int
  listen : Int
  nonblocking : Int32

/-- The results of the calls of `NetAwakeBridge::Init`; that of `connect` is not looked at. -/
structure BridgeCalls where
  socket : Int
  nonblocking : Int32

namespace Host

/-- A descriptor that `socket(2)` has returned. -/
def create (host : Host) (s : Int) : Host :=
  { host with opened := insert s host.opened, trace := host.trace ++ [.created s] }

/-- A descriptor that `accept(2)` has returned. -/
def accept (host : Host) (s : Int) : Host :=
  { host with opened := insert s host.opened, trace := host.trace ++ [.accepted s] }

end Host

namespace NetConnectionManager

/-- The manager after its constructor. -/
def new : NetConnectionManager :=
  ⟨⟨socketError⟩, socketError, ∅, ⟨∅, ∅, zeros 1024, 0, []⟩⟩

/-- `NetListener::CreateListenSocket`. -/
def createListenSocket (build : Build) (host : Host) (calls : ListenCalls) : Int × Host :=
  if calls.socket = socketError then (socketError, host)
  else
    let host := host.create calls.socket
    if calls.bind ≠ 0 ∨ calls.listen ≠ 0 ∨ ¬ socketSetNonblocking build calls.nonblocking then
      (socketError, host.safeCloseSocket calls.socket)
    else (calls.socket, host)

/-- `NetAwakeBridge::Init`. -/
def awakeBridgeInit (build : Build) (bridge : Int) (host : Host) (calls : BridgeCalls) : Int × Host :=
  if calls.socket = socketError then (bridge, host)
  else
    let host := host.create calls.socket
    if ¬ socketSetNonblocking build calls.nonblocking then
      (bridge, host.safeCloseSocket calls.socket)
    else (calls.socket, host)

def init (build : Build) (m : NetConnectionManager) (listen : ListenCalls) (bridge : BridgeCalls) :
    NetConnectionManager :=
  let (s, host) := createListenSocket build m.host listen
  let (awakeBridge, host) := awakeBridgeInit build m.awakeBridge host bridge
  { m with listener := ⟨s⟩, awakeBridge, host := host.watch build s (epollIn ||| epollErr) }

/-- `NetListener::Stop` and `NetListener::OnSocketClose`. -/
def listenerClose (m : NetConnectionManager) : NetConnectionManager :=
  { m with listener := ⟨socketError⟩, host := m.host.safeCloseSocket m.listener.socket }

def release (m : NetConnectionManager) : NetConnectionManager :=
  let m := m.listenerClose
  { m with connections := ∅,
           host := m.connections.toList.foldl (fun host entry => entry.2.destroy host) m.host }

def addConnection (build : Build) (m : NetConnectionManager) (s : Int) : NetConnectionManager :=
  if build = .win ∧ m.connections.size ≥ 60 then { m with host := m.host.safeCloseSocket s }
  else
    let con := (NetConnection.new m.host.allocated).setSocket s
    let host := { m.host with allocated := m.host.allocated + 1 }
    { m with connections := m.connections.insertIfNew s con,
             host := host.watch build s (epollIn ||| epollErr ||| epollPri) }

/-- `NetListener::OnSocketRead`. -/
def listenerRead (build : Build) (m : NetConnectionManager) (result : AcceptResult) :
    Int × NetConnectionManager :=
  match result with
  | .failed _ => (1, m)
  | .accepted s nonblocking linger =>
    let m := { m with host := m.host.accept s }
    if ¬ socketSetNonblocking build nonblocking then
      (2, { m with host := m.host.safeCloseSocket s })
    else if linger ≠ 0 then (3, { m with host := m.host.safeCloseSocket s })
    else (0, m.addConnection build s)

def getConnectionFromSocket (m : NetConnectionManager) (s : Int) : Option NetConnection :=
  m.connections[s]?

/-- `GetConnection`: the 64-bit id is cast back to a 32-bit socket. -/
def getConnection (m : NetConnectionManager) (uid : UInt64) : Option NetConnection :=
  m.getConnectionFromSocket (wrap32 uid.toNat)

def onSocketRead (build : Build) (m : NetConnectionManager) (s : Int) (calls : Calls) :
    Option (Int × NetConnectionManager) :=
  if s = m.listener.socket then some (m.listenerRead build calls.accept)
  else
    match m.getConnectionFromSocket s with
    | none => some (0, m)
    | some con => do
      let (ret, host, con) ← readConnection build m.host con calls.recv
      pure (ret, { m with host, connections := m.connections.insert s con })

def onSocketWrite (build : Build) (m : NetConnectionManager) (s : Int) (calls : Calls) :
    Option (Int × NetConnectionManager) :=
  match m.getConnectionFromSocket s with
  | none => some (0, m)
  | some con => do
    let (ret, host, con) ← con.doSend build m.host calls.send
    pure (ret, { m with host, connections := m.connections.insert s con })

def onSocketClose (build : Build) (m : NetConnectionManager) (s : Int) : NetConnectionManager :=
  let m := { m with host := m.host.unwatch build s }
  if s = m.listener.socket then m.listenerClose
  else
    match m.getConnectionFromSocket s with
    | none => m
    | some con =>
      let host := (con.setSocket socketError).destroy m.host
      { m with connections := m.connections.erase s, host := host.safeCloseSocket s }

/-- `RemoveConnection` of the connection stored under `s`. -/
def removeConnection (build : Build) (m : NetConnectionManager) (s : Int) : NetConnectionManager :=
  match m.getConnectionFromSocket s with
  | none => m
  | some con => m.onSocketClose build con.socket

end NetConnectionManager

end CppTry
