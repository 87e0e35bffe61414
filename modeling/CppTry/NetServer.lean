import CppTry.NetConnection

namespace CppTry

/-- `NetServer::OnRecvData`. The token is only printed, so a scan for it that leaves the
static buffer changes nothing but the printed text. -/
def onRecvData (build : Build) (host : Host) (con : NetConnection) :
    Option (Host × NetConnection) := do
  let (header, buffer, con) ← con.takeRecvPackage host.buffer
  let body := buffer.take header.bodySize.toInt.toNat
  let host := { host.log (.delivered con.serial ⟨header, body⟩) with buffer }
  if header.command = 3 then pure (host, con)
  else if header.command = 1001 then do
    let token := (DataUtil.readString buffer 0 0).map Prod.fst
    let (res, resIndex) ← DataUtil.writeInt32 (zeros 1024) 0 0
    let (res, resIndex) ← DataUtil.writeInt32 res resIndex 0
    let (_, host, con) ← con.send build (host.log (.login token)) 0 1401 res (Int32.ofInt resIndex)
    pure (host, con)
  else pure (host, con)

/-- The `do ... while (true)` loop of `NetConnectionManager::OnSocketRead` with a budget;
`drain_spec` shows that the one it gets is never used up. -/
def drain (build : Build) : Nat → Host → NetConnection → Option (Int × Host × NetConnection)
  | 0, _, _ => none
  | fuel + 1, host, con => do
    let (ret, con) ← con.checkRecvPackage
    if ret = 0 then pure (0, host, con)
    else if ret = 1 then do
      let (host, con) ← onRecvData build host con
      drain build fuel host con
    else pure (4, host, con)

/-- `OnSocketRead` from its `recv` on. -/
def readConnection (build : Build) (host : Host) (con : NetConnection) (result : RecvResult) :
    Option (Int × Host × NetConnection) :=
  match result with
  | .received chunk => do
    let (ok, con) ← con.addRecvData chunk.data chunk.data.length
    if ok = false then pure (3, host, con)
    else drain build (con.recvBuffer.length.toNat + 1) host con
  | .ended => some (1, host, con)
  | .failed _ => some (2, host, con)

end CppTry
