import Mathlib.Data.Finset.Basic
import CppTry.NetPackageHeader

namespace CppTry

/-- The two platforms the sources are compiled for: `WIN` defined or not. -/
inductive Build
  | win
  | posix
deriving DecidableEq

def socketError : Int := -1

def netBufferSize : Int := 8 * 1024

def netPackageMaxSize : Int := 1024

def epollIn : UInt32 := 0x001

def epollPri : UInt32 := 0x002

def epollOut : UInt32 := 0x004

def epollErr : UInt32 := 0x008

/-- A packet as `TakeRecvPackage` hands it over. -/
structure NetPackage where
  header : NetPackageHeader
  body : List Byte
deriving DecidableEq

/-- What a run shows to the outside, in order; `created` is a descriptor from `socket(2)`.
A connection object is named by its allocation number, since descriptors are used again. -/
inductive NetEvent
  | created (s : Int)
  | accepted (s : Int)
  | closed (s : Int)
  | delivered (con : Nat) (package : NetPackage)
  | login (token : Option (List Byte))
  | sent (con : Nat) (bytes : List Byte)
deriving DecidableEq

/-- What all connections share: the process's open descriptors, the epoll set with
its masks, `OnRecvData`'s static buffer, the object count and the trace. -/
structure Host where
  opened : Finset Int
  epoll : Std.ExtTreeMap Int UInt32
  buffer : List Byte
  allocated : Nat
  trace : List NetEvent

/-- One successful `recv`: it fills at most the 1024 bytes it was offered. -/
structure Chunk where
  data : List Byte
  nonempty : data ≠ []
  fits : data.length ≤ 1024

inductive RecvResult
  | received (chunk : Chunk)
  | ended
  | failed (errno : Int)

/-- `send` takes as many of the offered bytes as there is room for. -/
inductive SendResult
  | taken (room : Nat)
  | failed (errno : Int)

/-- `accept`, then the first call that makes the socket non-blocking and `setsockopt`. -/
inductive AcceptResult
  | failed (errno : Int)
  | accepted (s : Int) (nonblocking : Int32) (linger : Int32)

/-- The results of the system calls that handling one socket can make. -/
structure Calls where
  accept : AcceptResult
  recv : RecvResult
  send : SendResult

/-- `socket_set_nonblocking(s, true)`: `ret` is what `ioctlsocket` or `fcntl(F_GETFL)`
returned; nobody looks at the result of the `fcntl(F_SETFL)` that follows. -/
def socketSetNonblocking (build : Build) (ret : Int32) : Bool :=
  match build with
  | .win => ret == 0
  | .posix => if ret < 0 then false else decide (0 ≤ ret ||| 0x800)

namespace Host

def log (host : Host) (e : NetEvent) : Host := { host with trace := host.trace ++ [e] }

def epollAdd (host : Host) (s : Int) (mask : UInt32) : Host :=
  if s ∈ host.opened ∧ s ∉ host.epoll then { host with epoll := host.epoll.insert s mask } else host

def epollMod (host : Host) (s : Int) (mask : UInt32) : Host :=
  if s ∈ host.epoll then { host with epoll := host.epoll.insert s mask } else host

def epollDel (host : Host) (s : Int) : Host := { host with epoll := host.epoll.erase s }

/-- `EPOLL_CTL_ADD`, which only the POSIX build makes. -/
def watch (build : Build) (host : Host) (s : Int) (mask : UInt32) : Host :=
  match build with
  | .win => host
  | .posix => host.epollAdd s mask

/-- `EPOLL_CTL_DEL`, which only the POSIX build makes. -/
def unwatch (build : Build) (host : Host) (s : Int) : Host :=
  match build with
  | .win => host
  | .posix => host.epollDel s

/-- `SAFE_CLOSE_SOCKET(s)`; closing a descriptor takes it out of the epoll set. -/
def safeCloseSocket (host : Host) (s : Int) : Host :=
  if s = socketError then host
  else { host with opened := host.opened.erase s, epoll := host.epoll.erase s,
                   trace := host.trace ++ [.closed s] }

@[simp] theorem watch_opened (build : Build) (host : Host) (s : Int) (mask : UInt32) :
    (host.watch build s mask).opened = host.opened := by
  unfold watch epollAdd
  split
  next => rfl
  next => split <;> rfl

@[simp] theorem unwatch_opened (build : Build) (host : Host) (s : Int) :
    (host.unwatch build s).opened = host.opened := by
  cases build <;> rfl

@[simp] theorem watch_buffer (build : Build) (host : Host) (s : Int) (mask : UInt32) :
    (host.watch build s mask).buffer = host.buffer := by
  unfold watch epollAdd
  split
  next => rfl
  next => split <;> rfl

@[simp] theorem unwatch_buffer (build : Build) (host : Host) (s : Int) :
    (host.unwatch build s).buffer = host.buffer := by
  cases build <;> rfl

@[simp] theorem watch_allocated (build : Build) (host : Host) (s : Int) (mask : UInt32) :
    (host.watch build s mask).allocated = host.allocated := by
  unfold watch epollAdd
  split
  next => rfl
  next => split <;> rfl

@[simp] theorem unwatch_allocated (build : Build) (host : Host) (s : Int) :
    (host.unwatch build s).allocated = host.allocated := by
  cases build <;> rfl

@[simp] theorem watch_trace (build : Build) (host : Host) (s : Int) (mask : UInt32) :
    (host.watch build s mask).trace = host.trace := by
  unfold watch epollAdd
  split
  next => rfl
  next => split <;> rfl

@[simp] theorem unwatch_trace (build : Build) (host : Host) (s : Int) :
    (host.unwatch build s).trace = host.trace := by
  cases build <;> rfl

@[simp] theorem safeCloseSocket_buffer (host : Host) (s : Int) :
    (host.safeCloseSocket s).buffer = host.buffer := by
  unfold safeCloseSocket
  split <;> rfl

@[simp] theorem safeCloseSocket_allocated (host : Host) (s : Int) :
    (host.safeCloseSocket s).allocated = host.allocated := by
  unfold safeCloseSocket
  split <;> rfl

@[simp] theorem safeCloseSocket_error (host : Host) : host.safeCloseSocket socketError = host := rfl

end Host

end CppTry
