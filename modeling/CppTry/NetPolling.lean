import CppTry.NetConnectionManager

namespace CppTry

/-- The readiness of one socket, as epoll bits; `select` reports the same three conditions
through its sets. With it the results of the calls made for this socket. -/
structure SocketEvent where
  socket : Int
  events : UInt32
  calls : Calls

namespace SocketEvent

def isError (e : SocketEvent) : Bool := e.events &&& epollErr != 0

def isReadable (e : SocketEvent) : Bool := e.events &&& epollIn != 0

def isWritable (e : SocketEvent) : Bool := e.events &&& epollOut != 0

end SocketEvent

/-- The three `fd_set`s of `SelectSocketWin`. -/
structure FdSets where
  readfds : List Int
  writefds : List Int
  exceptfds : List Int

namespace FdSets

/-- `select` leaves in each set the sockets that are ready. -/
def select (sets : FdSets) (ready : List SocketEvent) : FdSets where
  readfds := sets.readfds.filter fun s => ready.any fun e => e.socket == s && e.isReadable
  writefds := sets.writefds.filter fun s => ready.any fun e => e.socket == s && e.isWritable
  exceptfds := sets.exceptfds.filter fun s => ready.any fun e => e.socket == s && e.isError

/-- What `select` returns. -/
def count (sets : FdSets) : Nat :=
  sets.readfds.length + sets.writefds.length + sets.exceptfds.length

end FdSets

/-- The call results for `s`; a socket that is not ready makes no calls. -/
def callsOf (ready : List SocketEvent) (s : Int) : Calls :=
  match ready.find? (·.socket == s) with
  | some e => e.calls
  | none => ⟨.failed 0, .failed 0, .failed 0⟩

namespace NetConnectionManager

/-- The body of both polling loops for one socket: does it go on the `needremove` list? -/
def handleSocket (build : Build) (m : NetConnectionManager) (s : Int) (error readable writable : Bool)
    (calls : Calls) : Option (Bool × NetConnectionManager) :=
  if error then some (true, m)
  else
    (if readable then m.onSocketRead build s calls else some (0, m)).bind fun (ret, m) =>
      if ret ≠ 0 then some (true, m)
      else
        (if writable then m.onSocketWrite build s calls else some (0, m)).bind fun (ret, m) =>
          some (decide (ret ≠ 0), m)

/-- One round of a polling loop; the state holds the manager and `needremove`. -/
def pollSocket (build : Build) (state : NetConnectionManager × List Int) (s : Int)
    (error readable writable : Bool) (calls : Calls) : Option (NetConnectionManager × List Int) := do
  let (remove, m) ← state.1.handleSocket build s error readable writable calls
  pure (m, if remove then state.2 ++ [s] else state.2)

/-- `SelectSocketLinux` after a successful `epoll_wait`. -/
def selectSocketLinux (m : NetConnectionManager) (events : List SocketEvent) :
    Option NetConnectionManager := do
  let (m, needremove) ← events.foldlM (fun state e =>
    pollSocket .posix state e.socket e.isError e.isReadable e.isWritable e.calls) (m, [])
  pure (needremove.foldl (onSocketClose .posix) m)

/-- The sets `SelectSocketWin` asks `select` about. -/
def prepareSets (m : NetConnectionManager) : FdSets :=
  let listener := if m.listener.socket ≠ socketError then [m.listener.socket] else []
  let cons := m.connections.toList.map Prod.snd
  { readfds := listener ++ (cons.filter (·.isNeedRead)).map (·.socket)
    writefds := (cons.filter (·.isNeedWrite)).map (·.socket)
    exceptfds := listener ++ cons.map (·.socket) }

/-- The listener's part of `SelectSocketWin`. -/
def pollListener (m : NetConnectionManager) (sets : FdSets) (ready : List SocketEvent) :
    Option (NetConnectionManager × List Int) :=
  let s := m.listener.socket
  if s ≠ socketError then
    pollSocket .win (m, []) s (s ∈ sets.exceptfds) (s ∈ sets.readfds) false (callsOf ready s)
  else some (m, [])

/-- `SelectSocketWin` with a `select` that does not fail. -/
def selectSocketWin (m : NetConnectionManager) (ready : List SocketEvent) :
    Option NetConnectionManager :=
  let sets := m.prepareSets.select ready
  if sets.count > 0 then do
    let state ← m.pollListener sets ready
    let (m, needremove) ← state.1.connections.toList.foldlM (fun state entry =>
      let s := entry.2.socket
      pollSocket .win state s (s ∈ sets.exceptfds) (s ∈ sets.readfds) (s ∈ sets.writefds)
        (callsOf ready s)) state
    pure (needremove.foldl (onSocketClose .win) m)
  else some m

/-- `SelectSocket`; `none` is a poll that fails. -/
def selectSocket (build : Build) (m : NetConnectionManager) (poll : Option (List SocketEvent)) :
    Option NetConnectionManager :=
  match poll with
  | none => some m
  | some events =>
    match build with
    | .win => m.selectSocketWin events
    | .posix => m.selectSocketLinux events

end NetConnectionManager

end CppTry
