import CppTry.ByteBuffer
import CppTry.NetDefine

namespace CppTry

/-- `NetConnection`. Its address is modelled by `serial`, the number of its allocation. -/
structure NetConnection where
  serial : Nat
  socket : Int
  sendBuffer : ByteBuffer
  recvBuffer : ByteBuffer
  recvHeader : NetPackageHeader
deriving DecidableEq

namespace NetConnection

def new (serial : Nat) : NetConnection :=
  ⟨serial, socketError, ByteBuffer.new netBufferSize, ByteBuffer.new netBufferSize,
    NetPackageHeader.new⟩

def setSocket (con : NetConnection) (s : Int) : NetConnection := { con with socket := s }

def getUniqueID (con : NetConnection) : Int64 := Int64.ofInt con.socket

def isNeedRead (con : NetConnection) : Bool :=
  decide (netBufferSize - con.recvBuffer.length ≥ netPackageMaxSize)

def isNeedWrite (con : NetConnection) : Bool := decide (con.sendBuffer.length > 0)

/-- `NetConnectionManager::UpdateConnectionSend`. -/
def updateConnectionSend (build : Build) (host : Host) (con : NetConnection) : Host :=
  match build with
  | .win => host
  | .posix =>
    host.epollMod con.socket
      (if con.isNeedWrite then epollIn ||| epollOut ||| epollErr else epollIn ||| epollErr)

def addSendData (build : Build) (host : Host) (con : NetConnection) (buffer : List Byte) (len : Int) :
    Option (Bool × Host × NetConnection) := do
  let (ok, sendBuffer) ← con.sendBuffer.addData buffer len
  let con := { con with sendBuffer }
  pure (ok, updateConnectionSend build host con, con)

/-- `Send`; only the part of the static `sendbuff` that this call has written is read. -/
def send (build : Build) (host : Host) (con : NetConnection) (guid : Int64) (cmd : Int32)
    (buffer : List Byte) (len : Int32) : Option (Bool × Host × NetConnection) := do
  let sendhead := { NetPackageHeader.new.setSign with command := cmd, guid, bodySize := len }
  let (sendbuff, sendsize) ← sendhead.pack (zeros 1024) 0
  let sendbuff ← memcpy sendbuff sendsize buffer 0 len.toInt
  addSendData build host con sendbuff (sendsize + len.toInt)

def addRecvData (con : NetConnection) (buffer : List Byte) (len : Int) :
    Option (Bool × NetConnection) := do
  let (ok, recvBuffer) ← con.recvBuffer.addData buffer len
  pure (ok, { con with recvBuffer })

/-- The last two lines of `CheckRecvPackage`. -/
def havePackage (con : NetConnection) : Int :=
  if con.recvHeader.sign ≠ 0 ∧
      con.recvBuffer.length ≥ wrap32 (con.recvHeader.bodySize.toInt + NetPackageHeader.headerSize)
  then 1 else 0

def checkRecvPackage (con : NetConnection) : Option (Int × NetConnection) :=
  if con.recvHeader.sign = 0 ∧ con.recvBuffer.length ≥ NetPackageHeader.headerSize then do
    let (recvHeader, _) ← NetPackageHeader.unpack con.recvBuffer.data 0
    let con := { con with recvHeader }
    if recvHeader.sign ≠ NetPackageHeader.headerSign ∨ recvHeader.bodySize.toInt > netPackageMaxSize
    then pure (-1, con)
    else pure (con.havePackage, con)
  else some (con.havePackage, con)

def takeRecvPackage (con : NetConnection) (buffer : List Byte) :
    Option (NetPackageHeader × List Byte × NetConnection) := do
  let datasize := wrap32 (con.recvHeader.bodySize.toInt + NetPackageHeader.headerSize)
  let header := con.recvHeader
  let buffer ← con.recvBuffer.getData buffer NetPackageHeader.headerSize header.bodySize.toInt
  let recvBuffer ← con.recvBuffer.removeData datasize
  pure (header, buffer, { con with recvBuffer, recvHeader := con.recvHeader.reset })

def doSend (build : Build) (host : Host) (con : NetConnection) (result : SendResult) :
    Option (Int × Host × NetConnection) :=
  if con.sendBuffer.length > 0 then
    match result with
    | .taken room =>
      let ret := min room con.sendBuffer.length.toNat
      if ret > 0 then do
        let bytes := con.sendBuffer.data.take ret
        let sendBuffer ← con.sendBuffer.removeData ret
        let con := { con with sendBuffer }
        pure (0, updateConnectionSend build (host.log (.sent con.serial bytes)) con, con)
      else some (0, host, con)
    | .failed _ => some (1, host, con)
  else some (0, host, con)

/-- The destructor. -/
def destroy (host : Host) (con : NetConnection) : Host := host.safeCloseSocket con.socket

end NetConnection

end CppTry
