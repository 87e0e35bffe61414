import CppTry.SocketService

namespace CppTry

theorem optionRel_bind {α β γ δ : Type} {r : α → β → Prop} {q : γ → δ → Prop} {x : Option α}
    {y : Option β} {f : α → Option γ} {g : β → Option δ} (h : Option.Rel r x y)
    (k : ∀ a b, r a b → Option.Rel q (f a) (g b)) : Option.Rel q (x.bind f) (y.bind g) := by
  cases h with
  | none => exact .none
  | some hr => exact k _ _ hr

theorem optionRel_eq {α : Type} (x : Option α) : Option.Rel Eq x x := by
  cases x with
  | none => exact .none
  | some a => exact .some rfl

theorem memcpy_same {dst dst' : List Byte} (h : dst.length = dst'.length) (pos : Int)
    (src : List Byte) (start len : Int) :
    Option.Rel (fun a b => a.length = b.length) (memcpy dst pos src start len)
      (memcpy dst' pos src start len) := by
  unfold memcpy
  rw [h]
  split
  next hc =>
    have hl : pos.toNat + ((src.drop start.toNat).take len.toNat).length ≤ dst'.length := by
      simp only [List.length_take, List.length_drop]
      omega
    exact .some (by rw [length_splice hl, length_splice (by rw [h]; exact hl), h])
  next => exact .none

/-- Two results that differ at most in what the host holds. -/
def SameBut {α : Type} (x y : Option (α × Host × NetConnection)) : Prop :=
  Option.Rel (fun a b => a.1 = b.1 ∧ a.2.2 = b.2.2 ∧ a.2.1.buffer.length = b.2.1.buffer.length) x y

section
variable {build build' : Build} {host host' : Host} (hb : host.buffer.length = host'.buffer.length)

namespace NetConnection

include hb in
theorem updateConnectionSend_same (con : NetConnection) :
    (updateConnectionSend build host con).buffer.length =
      (updateConnectionSend build' host' con).buffer.length := by
  rw [(updateConnectionSend_serves build host con).buffer,
    (updateConnectionSend_serves build' host' con).buffer, hb]

include hb in
theorem addSendData_same (con : NetConnection) (buffer : List Byte) (len : Int) :
    SameBut (con.addSendData build host buffer len) (con.addSendData build' host' buffer len) := by
  refine optionRel_bind (optionRel_eq _) ?_
  rintro ⟨ok, b⟩ _ rfl
  exact .some ⟨rfl, rfl, updateConnectionSend_same hb _⟩

include hb in
theorem send_same (con : NetConnection) (guid : Int64) (cmd : Int32) (buffer : List Byte)
    (len : Int32) :
    SameBut (con.send build host guid cmd buffer len) (con.send build' host' guid cmd buffer len) := by
  simp only [send, Option.bind_eq_bind]
  refine optionRel_bind (optionRel_eq _) ?_
  rintro ⟨sendbuff, sendsize⟩ _ rfl
  refine optionRel_bind (optionRel_eq _) ?_
  rintro out _ rfl
  exact addSendData_same hb con _ _

include hb in
theorem doSend_same (con : NetConnection) (result : SendResult) :
    SameBut (con.doSend build host result) (con.doSend build' host' result) := by
  unfold doSend
  split
  next =>
    cases result with
    | taken room =>
      dsimp only
      split
      next =>
        refine optionRel_bind (optionRel_eq _) ?_
        rintro b _ rfl
        have hlog : ∀ e, (host.log e).buffer.length = (host'.log e).buffer.length := fun _ => hb
        exact .some ⟨rfl, rfl, updateConnectionSend_same (hlog _) _⟩
      next => exact .some ⟨rfl, rfl, hb⟩
    | failed errno => exact .some ⟨rfl, rfl, hb⟩
  next => exact .some ⟨rfl, rfl, hb⟩

theorem takeRecvPackage_same (con : NetConnection) {buffer buffer' : List Byte}
    (h : buffer.length = buffer'.length) :
    Option.Rel (fun a b => a.1 = b.1 ∧ a.2.2 = b.2.2 ∧ a.2.1.length = b.2.1.length)
      (con.takeRecvPackage buffer) (con.takeRecvPackage buffer') := by
  refine optionRel_bind (memcpy_same h _ _ _ _) ?_
  intro out out' ho
  refine optionRel_bind (optionRel_eq _) ?_
  rintro b _ rfl
  exact .some ⟨rfl, rfl, ho⟩

end NetConnection

include hb in
theorem onRecvData_same (con : NetConnection) :
    Option.Rel (fun a b => a.2 = b.2 ∧ a.1.buffer.length = b.1.buffer.length)
      (onRecvData build host con) (onRecvData build' host' con) := by
  unfold onRecvData
  refine optionRel_bind (con.takeRecvPackage_same hb) ?_
  rintro ⟨header, buffer, con1⟩ ⟨_, buffer', _⟩ ⟨rfl, rfl, ho⟩
  dsimp only
  split
  next => exact .some ⟨rfl, ho⟩
  next =>
    split
    next =>
      refine optionRel_bind (optionRel_eq _) ?_
      rintro ⟨res, resIndex⟩ _ rfl
      refine optionRel_bind (optionRel_eq _) ?_
      rintro ⟨res, resIndex⟩ _ rfl
      refine optionRel_bind (NetConnection.send_same ho con1 0 1401 res (Int32.ofInt resIndex)) ?_
      rintro ⟨ok, host1, con2⟩ ⟨_, host2, _⟩ ⟨rfl, rfl, hl⟩
      exact .some ⟨rfl, hl⟩
    next => exact .some ⟨rfl, ho⟩

theorem drain_same {host host' : Host} (hb : host.buffer.length = host'.buffer.length) (fuel : Nat)
    (con : NetConnection) : SameBut (drain build fuel host con) (drain build' fuel host' con) := by
  induction fuel generalizing host host' con with
  | zero => exact .none
  | succ fuel ih =>
    refine optionRel_bind (optionRel_eq _) ?_
    rintro ⟨ret, con1⟩ _ rfl
    dsimp only
    split
    next => exact .some ⟨rfl, rfl, hb⟩
    next =>
      split
      next =>
        refine optionRel_bind (onRecvData_same hb con1) ?_
        rintro ⟨host1, con2⟩ ⟨host2, _⟩ ⟨rfl, hl⟩
        exact ih hl con2
      next => exact .some ⟨rfl, rfl, hb⟩

include hb in
theorem readConnection_same (con : NetConnection) (result : RecvResult) :
    SameBut (readConnection build host con result) (readConnection build' host' con result) := by
  cases result with
  | received chunk =>
    refine optionRel_bind (optionRel_eq _) ?_
    rintro ⟨ok, con1⟩ _ rfl
    dsimp only
    split
    next => exact .some ⟨rfl, rfl, hb⟩
    next => exact drain_same hb _ con1
  | ended => exact .some ⟨rfl, rfl, hb⟩
  | failed errno => exact .some ⟨rfl, rfl, hb⟩

include hb in
theorem serve_same (con : NetConnection) (error readable writable : Bool) (calls : Calls) :
    SameBut (serve build host con error readable writable calls)
      (serve build' host' con error readable writable calls) := by
  unfold serve
  split
  next => exact .some ⟨rfl, rfl, hb⟩
  next =>
    have hread : SameBut
        (if readable then readConnection build host con calls.recv else some (0, host, con))
        (if readable then readConnection build' host' con calls.recv else some (0, host', con)) := by
      split
      next => exact readConnection_same hb con calls.recv
      next => exact .some ⟨rfl, rfl, hb⟩
    refine optionRel_bind hread ?_
    rintro ⟨ret, host1, con1⟩ ⟨_, host2, _⟩ ⟨rfl, rfl, hl⟩
    dsimp only
    split
    next => exact .some ⟨rfl, rfl, hl⟩
    next =>
      have hsend : SameBut
          (if writable then con1.doSend build host1 calls.send else some (0, host1, con1))
          (if writable then con1.doSend build' host2 calls.send else some (0, host2, con1)) := by
        split
        next => exact con1.doSend_same hl calls.send
        next => exact .some ⟨rfl, rfl, hl⟩
      refine optionRel_bind hsend ?_
      rintro ⟨ret2, host3, con2⟩ ⟨_, host4, _⟩ ⟨rfl, rfl, hl2⟩
      exact .some ⟨rfl, rfl, hl2⟩

end

/-- What polling makes of a connection: neither the build nor the rest of the server counts. -/
def serveLocal (con : NetConnection) (error readable writable : Bool) (calls : Calls) :
    Option (Bool × NetConnection) :=
  (serve .win NetConnectionManager.new.host con error readable writable calls).map fun r => (r.1, r.2.2)

theorem serve_eq_local (build : Build) {host : Host} (hb : host.buffer.length = 1024)
    (con : NetConnection) (error readable writable : Bool) (calls : Calls) :
    (serve build host con error readable writable calls).map (fun r => (r.1, r.2.2)) =
      serveLocal con error readable writable calls := by
  have hn : NetConnectionManager.new.host.buffer.length = 1024 := by simp [NetConnectionManager.new]
  have hs : SameBut (serve build host con error readable writable calls)
      (serve .win NetConnectionManager.new.host con error readable writable calls) :=
    serve_same (hb.trans hn.symm) con error readable writable calls
  unfold serveLocal
  generalize serve build host con error readable writable calls = x at hs ⊢
  generalize serve .win NetConnectionManager.new.host con error readable writable calls = y at hs ⊢
  cases hs with
  | none => rfl
  | some h => exact congrArg some (Prod.ext h.1 h.2.1)

end CppTry
