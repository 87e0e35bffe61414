import CppTry.BatchOutcome
import CppTry.RunInvariants

namespace CppTry

/-- `EAGAIN` (which is `EWOULDBLOCK`) and `EINTR`, or what Windows has for them. -/
def transient (build : Build) (errno : Int) : Bool :=
  match build with
  | .win => errno == 10035 || errno == 10004
  | .posix => errno == 11 || errno == 4

namespace Poll

/-- The read that is due, if there is one, finds no fault with the stream. -/
def ReadsOn (p : Poll) (con : NetConnection) : Prop :=
  p.readable = true → ∃ chunk rest, p.calls.recv = .received chunk ∧
    (packageFramer.parse (con.recvBuffer.contents ++ chunk.data)).2 = .rest rest

/-- After that read there are bytes to send: there were some before, or a login is answered. -/
def Queues (p : Poll) (con : NetConnection) : Prop :=
  con.isNeedWrite = true ∨ p.readable = true ∧ ∃ chunk, p.calls.recv = .received chunk ∧
    ∃ q ∈ (packageFramer.parse (con.recvBuffer.contents ++ chunk.data)).1, q.header.command = 1001

/-- A call that is made for the connection fails with `errno`. -/
inductive CallFails (p : Poll) (con : NetConnection) (errno : Int) : Prop
  | recv : p.error = false → p.readable = true → p.calls.recv = .failed errno →
      CallFails p con errno
  | send : p.error = false → p.ReadsOn con → p.writable = true → p.Queues con →
      p.calls.send = .failed errno → CallFails p con errno

/-- The reasons to remove a connection; `fatal` says which errors are among them. -/
inductive Drops (p : Poll) (con : NetConnection) (fatal : Int → Prop) : Prop
  | error : p.error = true → Drops p con fatal
  | ended : p.error = false → p.readable = true → p.calls.recv = .ended → Drops p con fatal
  | malformed {chunk} : p.error = false → p.readable = true → p.calls.recv = .received chunk →
      (packageFramer.parse (con.recvBuffer.contents ++ chunk.data)).2 = .stop .rejected →
      Drops p con fatal
  | failed {errno} : p.CallFails con errno → fatal errno → Drops p con fatal

end Poll

theorem NetConnection.SendValid.isNeedWrite_iff {con : NetConnection} (h : con.SendValid) :
    con.isNeedWrite = true ↔ con.sendBuffer.contents ≠ [] := by
  have hlen := h.valid.contents_length
  rw [NetConnection.isNeedWrite, decide_eq_true_eq, ← List.length_pos_iff]
  omega

theorem doSend_ret {build : Build} {host host' : Host} {con con' : NetConnection}
    {result : SendResult} {ret : Int}
    (hs : con.doSend build host result = some (ret, host', con')) :
    ret ≠ 0 ↔ con.isNeedWrite = true ∧ ∃ errno, result = .failed errno := by
  rw [NetConnection.isNeedWrite, decide_eq_true_eq]
  unfold NetConnection.doSend at hs
  split at hs
  next hpos =>
    cases result with
    | taken room =>
      have hz : ret = 0 := by
        dsimp only at hs
        split at hs
        next =>
          obtain ⟨b, _, he⟩ := Option.bind_eq_some_iff.mp hs
          cases he
          rfl
        next =>
          cases hs
          rfl
      simp [hz]
    | failed errno =>
      cases hs
      simp [hpos]
  next hpos =>
    cases hs
    simp [hpos]

section
variable {build : Build} {host host1 : Host} {con con1 : NetConnection} {p : Poll} {ret : Int}

theorem readConnection_ret {result : RecvResult} (h : con.Idle) (hb : host.buffer.length = 1024)
    (hr : readConnection build host con result = some (ret, host1, con1)) :
    (ret = 0 ∧ ∃ chunk rest, result = .received chunk ∧
        (packageFramer.parse (con.recvBuffer.contents ++ chunk.data)).2 = .rest rest ∧
        (con1.isNeedWrite = true ↔ con.isNeedWrite = true ∨
          ∃ q ∈ (packageFramer.parse (con.recvBuffer.contents ++ chunk.data)).1,
            q.header.command = 1001)) ∨
      ret ≠ 0 ∧ (result = .ended ∨ (∃ errno, result = .failed errno) ∨
        ∃ chunk, result = .received chunk ∧
          (packageFramer.parse (con.recvBuffer.contents ++ chunk.data)).2 = .stop .rejected) := by
  cases result with
  | received chunk =>
    have hout := readConnection_spec build h hb chunk
    rw [hr] at hout
    cases hp : packageFramer.parse (con.recvBuffer.contents ++ chunk.data) with
    | mk ps t =>
      rw [hp] at hout
      match t with
      | .rest rest =>
        obtain ⟨host2, con2, he, hd, hopen, _⟩ := hout
        cases he
        refine Or.inl ⟨rfl, chunk, rest, rfl, by rw [hp], ?_⟩
        rw [hp, hd.sendValid.isNeedWrite_iff, h.sendValid.isNeedWrite_iff]
        by_cases hlogin : ∃ q ∈ ps, q.header.command = 1001
        · exact iff_of_true (hd.replied hlogin) (Or.inr hlogin)
        · rw [hd.silent fun q hq hc => hlogin ⟨q, hq, hc⟩]
          exact ⟨Or.inl, fun hh => hh.resolve_right hlogin⟩
      | .stop .rejected =>
        obtain ⟨host2, con2, he, _⟩ := hout
        cases he
        exact Or.inr ⟨by decide, Or.inr (Or.inr ⟨chunk, rfl, by rw [hp]⟩)⟩
      | .stop .negative => cases (hout : some _ = none)
  | ended =>
    cases hr
    exact Or.inr ⟨by decide, Or.inl rfl⟩
  | failed errno =>
    cases hr
    exact Or.inr ⟨by decide, Or.inr (Or.inl ⟨errno, rfl⟩)⟩

theorem read_cases (h : con.Idle) (hb : host.buffer.length = 1024) (herr : p.error = false)
    (hr : (if p.readable then readConnection build host con p.calls.recv else some (0, host, con)) =
      some (ret, host1, con1)) :
    (ret = 0 ∧ p.ReadsOn con ∧ (con1.isNeedWrite = true ↔ p.Queues con)) ∨
      ret ≠ 0 ∧ p.Drops con fun _ => True := by
  split at hr
  next hread =>
    rcases readConnection_ret h hb hr with ⟨hz, chunk, rest, hrecv, hrest, hneed⟩ |
      ⟨hne, he | ⟨errno, hf⟩ | ⟨chunk, hrecv, hstop⟩⟩
    · refine Or.inl ⟨hz, fun _ => ⟨chunk, rest, hrecv, hrest⟩, hneed.trans ?_⟩
      rw [Poll.Queues, hrecv]
      simp [hread]
    · exact Or.inr ⟨hne, .ended herr hread he⟩
    · exact Or.inr ⟨hne, .failed (.recv herr hread hf) trivial⟩
    · exact Or.inr ⟨hne, .malformed herr hread hrecv hstop⟩
  next hread =>
    cases hr
    refine Or.inl ⟨rfl, fun hh => absurd hh hread, ?_⟩
    simp [Poll.Queues, hread]

/-- After a read that found no fault only a failed `send` is left. -/
theorem Poll.ReadsOn.drops_iff {fatal : Int → Prop} (h : p.ReadsOn con) (herr : p.error = false) :
    p.Drops con fatal ↔ p.writable = true ∧ p.Queues con ∧
      ∃ errno, p.calls.send = .failed errno ∧ fatal errno := by
  constructor
  · intro hd
    cases hd with
    | error he =>
      rw [herr] at he
      cases he
    | ended _ hread hrecv =>
      obtain ⟨chunk, rest, hc, _⟩ := h hread
      rw [hrecv] at hc
      cases hc
    | malformed _ hread hrecv hstop =>
      obtain ⟨chunk, rest, hc, hrest⟩ := h hread
      rw [hrecv] at hc
      cases hc
      rw [hstop] at hrest
      cases hrest
    | failed hf hfatal =>
      cases hf with
      | recv _ hread hrecv =>
        obtain ⟨chunk, rest, hc, _⟩ := h hread
        rw [hrecv] at hc
        cases hc
      | send _ _ hw hq hs => exact ⟨hw, hq, _, hs, hfatal⟩
  · rintro ⟨hw, hq, errno, hs, hfatal⟩
    exact .failed (.send herr h hw hq hs) hfatal

/-- A connection is put on the `needremove` list for one of the reasons and for no other. -/
theorem serve_removed_iff {remove : Bool} (h : con.Idle) (hb : host.buffer.length = 1024)
    (hs : serve build host con p.error p.readable p.writable p.calls = some (remove, host1, con1)) :
    remove = true ↔ p.Drops con fun _ => True := by
  unfold serve at hs
  split at hs
  next herr =>
    cases hs
    exact iff_of_true rfl (.error herr)
  next herr =>
    rw [Bool.not_eq_true] at herr
    obtain ⟨⟨ret, host2, con2⟩, hread, hs⟩ := Option.bind_eq_some_iff.mp hs
    dsimp only at hs
    rcases read_cases h hb herr hread with ⟨rfl, hon, hneed⟩ | ⟨hne, hd⟩
    · rw [if_neg (by simp)] at hs
      obtain ⟨⟨ret2, host3, con3⟩, hsend, he⟩ := Option.bind_eq_some_iff.mp hs
      cases he
      rw [hon.drops_iff herr, decide_eq_true_eq]
      split at hsend
      next hw => simp [doSend_ret hsend, hneed, hw]
      next hw =>
        cases hsend
        simp [hw]
    · rw [if_pos hne] at hs
      cases hs
      exact iff_of_true rfl hd

theorem serveLocal_removed_iff {remove : Bool} (h : con.Idle)
    (hs : serveLocal con p.error p.readable p.writable p.calls = some (remove, con1)) :
    remove = true ↔ p.Drops con fun _ => True := by
  obtain ⟨⟨remove', host', con'⟩, hserve, he⟩ := Option.map_eq_some_iff.mp hs
  cases he
  exact serve_removed_iff h (by simp [NetConnectionManager.new]) hserve

end

namespace NetConnectionManager

section
variable {build : Build} {m m' : NetConnectionManager} {events : List SocketEvent} {s : Int}
  {con : NetConnection}

theorem selectSocket_removed_iff (h : Inv build (m, []))
    (ha : m.Allowed build (.select (some events)))
    (hr : m.selectSocket build (some events) = some m') (hc : m.connections[s]? = some con) :
    s ∉ m'.connections ↔ (m.told build events s).Drops con fun _ => True := by
  obtain ⟨remove, con', hserve, hget⟩ := (selectSocket_outcome h ha hr).2 s con hc
  rw [← serveLocal_removed_iff (h.idle hc (by simp)) hserve,
    Std.ExtTreeMap.mem_iff_isSome_getElem?, hget]
  cases remove <;> simp

/-- The batch treats every failed call alike, so it keeps what it should only where no call that
it makes for the connection fails with a transient error. -/
theorem transient_errors_iff (h : Reachable build m) (ha : m.Allowed build (.select (some events)))
    (hr : m.selectSocket build (some events) = some m') (hc : m.connections[s]? = some con) :
    (∀ errno, transient build errno = true → (m.told build events s).CallFails con errno →
        ∃ con', m'.connections[s]? = some con' ∧ con'.recvBuffer = con.recvBuffer ∧
          con'.recvHeader = con.recvHeader ∧ con'.sendBuffer = con.sendBuffer) ∧
      (s ∉ m'.connections →
        (m.told build events s).Drops con fun errno => transient build errno = false) ↔
    ∀ errno, (m.told build events s).CallFails con errno → transient build errno = false := by
  have hiff := selectSocket_removed_iff h.inv ha hr hc
  constructor
  · rintro ⟨hkeep, _⟩ errno hf
    rw [Bool.eq_false_iff]
    intro ht
    obtain ⟨con', hc', _⟩ := hkeep errno ht hf
    exact hiff.mpr (.failed hf trivial) (mem_of_getElem? hc')
  · intro hno
    refine ⟨?_, ?_⟩
    · intro errno ht hf
      rw [hno errno hf] at ht
      cases ht
    · intro hs
      cases hiff.mp hs with
      | error he => exact .error he
      | ended he hread hrecv => exact .ended he hread hrecv
      | malformed he hread hrecv hstop => exact .malformed he hread hrecv hstop
      | failed hf _ => exact .failed hf (hno _ hf)

end

theorem allowed_readEvent (result : RecvResult) :
    oneClient.Allowed .posix (.select (some [readEvent result])) := by
  refine ⟨by simp, ?_⟩
  intro e he
  rw [List.mem_singleton.mp he]
  trivial

theorem oneClient_closed : (5 : Int) ∉ (oneClient.onSocketClose .posix 5).connections := by
  rw [mem_onSocketClose reachable_oneClient.inv.owned.listener]
  exact fun hh => hh.2 rfl

/-- `EAGAIN` from `recv` costs the client its connection. -/
theorem oneClient_again : Reachable .posix oneClient ∧
    oneClient.Allowed .posix (.select (some [readEvent (.failed 11)])) ∧
    oneClient.selectSocket .posix (some [readEvent (.failed 11)]) =
      some (oneClient.onSocketClose .posix 5) ∧
    (oneClient.told .posix [readEvent (.failed 11)] 5).CallFails
      ((NetConnection.new 0).setSocket 5) 11 ∧
    transient .posix 11 = true ∧ (5 : Int) ∈ oneClient.connections ∧
    (5 : Int) ∉ (oneClient.onSocketClose .posix 5).connections :=
  ⟨reachable_oneClient, allowed_readEvent _, rfl, .recv rfl rfl rfl, rfl,
    mem_of_getElem? oneClient_connection, oneClient_closed⟩

theorem oneClient_ended : (5 : Int) ∉ (oneClient.onSocketClose .posix 5).connections ∧
    (oneClient.told .posix [readEvent .ended] 5).Drops ((NetConnection.new 0).setSocket 5)
      fun errno => transient .posix errno = false := by
  have hr : oneClient.selectSocket .posix (some [readEvent .ended]) =
      some (oneClient.onSocketClose .posix 5) := rfl
  refine ⟨oneClient_closed, ((transient_errors_iff reachable_oneClient (allowed_readEvent _) hr
    oneClient_connection).mpr ?_).2 oneClient_closed⟩
  intro errno hf
  cases hf with
  | recv _ _ hrecv => cases hrecv
  | send _ _ hw _ _ => exact absurd hw (by decide)

end NetConnectionManager

end CppTry
