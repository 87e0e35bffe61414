import CppTry.SendMask

namespace CppTry

namespace NetConnectionManager

open NetConnection

/-- The single acts on the server's sockets in the POSIX build, in any order: those of one read
are apart here, and `send` may come from anywhere. -/
inductive WireStep : NetConnectionManager → NetConnectionManager → Prop
  | init {m listen bridge} : m.listener.socket = socketError →
      (listen.socket ≠ socketError → m.host.Fresh listen.socket) →
      (bridge.socket ≠ socketError → (createListenSocket .posix m.host listen).2.Fresh bridge.socket) →
      WireStep m (m.init .posix listen bridge)
  | accept {m ret m'} (result : AcceptResult) : result.Fresh m.host →
      m.listenerRead .posix result = (ret, m') → WireStep m m'
  | receive {m s con ok con'} (chunk : Chunk) : m.connections[s]? = some con →
      con.addRecvData chunk.data chunk.data.length = some (ok, con') →
      WireStep m { m with connections := m.connections.insert s con' }
  | check {m s con ret con'} : m.connections[s]? = some con →
      con.checkRecvPackage = some (ret, con') →
      WireStep m { m with connections := m.connections.insert s con' }
  | deliver {m s con con1 host con'} : m.connections[s]? = some con →
      con.checkRecvPackage = some (1, con1) → onRecvData .posix m.host con1 = some (host, con') →
      WireStep m { m with host, connections := m.connections.insert s con' }
  | send {m s con ok host con'} (guid : Int64) (cmd : Int32) (buffer : List Byte) (len : Int32) :
      m.connections[s]? = some con → con.send .posix m.host guid cmd buffer len = some (ok, host, con') →
      WireStep m { m with host, connections := m.connections.insert s con' }
  | doSend {m s con ret host con'} (result : SendResult) : m.connections[s]? = some con →
      con.doSend .posix m.host result = some (ret, host, con') →
      WireStep m { m with host, connections := m.connections.insert s con' }
  | close {m} (s : Int) : WireStep m (m.onSocketClose .posix s)
  | release {m} : WireStep m m.release

def WireReachable (m : NetConnectionManager) : Prop := Relation.ReflTransGen WireStep new m

/-- Every connection's mask is right. -/
structure Wakes (m : NetConnectionManager) : Prop where
  owned : m.Owned .posix
  registered {s : Int} {con : NetConnection} : m.connections[s]? = some con → con.Registered m.host

variable {m : NetConnectionManager}

theorem Wakes.new : Wakes NetConnectionManager.new :=
  ⟨Owned.new, by simp [NetConnectionManager.new]⟩

theorem Wakes.keeps (h : m.Wakes) {s : Int} {con con' : NetConnection} {host' : Host}
    (hc : m.connections[s]? = some con) (hk : Keeps m.host con host' con') :
    Wakes { m with host := host', connections := m.connections.insert s con' } := by
  have hserv : Service m.host con true host' con' :=
    ⟨hk.serial, hk.socket, hk.serves, fun hf => by cases hf⟩
  refine ⟨h.owned.serve hc hserv, ?_⟩
  intro t c ht
  rcases insert_cases ht with ⟨rfl, rfl⟩ | ⟨hne, hold⟩
  · exact hk.registered (h.registered hc)
  · obtain ⟨es, hes⟩ := hk.serves
    refine (h.registered hold).congr rfl rfl (hes.epoll_other ?_)
    rw [h.owned.socket hold, h.owned.socket hc]
    exact hne

theorem Wakes.frame (h : m.Wakes) {m' : NetConnectionManager} (ho : m'.Owned .posix)
    (hc : ∀ (s : Int) con, m'.connections[s]? = some con → m.connections[s]? = some con)
    (he : ∀ (s : Int) con, m'.connections[s]? = some con → m'.host.epoll[s]? = m.host.epoll[s]?) :
    m'.Wakes := by
  refine ⟨ho, ?_⟩
  intro s con hs
  refine (h.registered (hc s con hs)).congr rfl rfl ?_
  rw [ho.socket hs]
  exact he s con hs

theorem epoll_close_other {host : Host} {s t : Int} (hst : t ≠ s) :
    (host.safeCloseSocket s).epoll[t]? = host.epoll[t]? := by
  by_cases hs : s = socketError
  · rw [hs, Host.safeCloseSocket_error]
  · rw [Host.safeCloseSocket_epoll hs, Std.ExtTreeMap.getElem?_erase, if_neg]
    rw [Std.compare_eq_iff_eq]
    exact Ne.symm hst

theorem epoll_watch_other {host : Host} {s t : Int} {mask : UInt32} (hst : t ≠ s) :
    (host.watch .posix s mask).epoll[t]? = host.epoll[t]? := by
  simp only [Host.watch, Host.epollAdd]
  split
  next =>
    simp only [Std.ExtTreeMap.getElem?_insert, Std.compare_eq_iff_eq]
    rw [if_neg (Ne.symm hst)]
  next => rfl

theorem epoll_unwatch_other {host : Host} {s t : Int} (hst : t ≠ s) :
    (host.unwatch .posix s).epoll[t]? = host.epoll[t]? := by
  change (host.epoll.erase s)[t]? = _
  rw [Std.ExtTreeMap.getElem?_erase, if_neg]
  rw [Std.compare_eq_iff_eq]
  exact Ne.symm hst

theorem Wakes.accept (h : m.Wakes) {result : AcceptResult} {ret : Int} {m' : NetConnectionManager}
    (hf : result.Fresh m.host) (hr : m.listenerRead .posix result = (ret, m')) : m'.Wakes := by
  obtain ⟨_, ⟨_, _, rfl⟩ | ⟨s, _, _, rfl, ⟨rfl, _⟩ | ⟨rfl, _⟩⟩⟩ := listenerRead_cases hr
  · exact h
  · refine h.frame (h.owned.refuse hf) (fun _ _ hc => hc) ?_
    intro t con ht
    refine epoll_close_other ?_
    rintro rfl
    exact h.owned.fresh_not_mem hf (mem_of_getElem? ht)
  · have hs := h.owned.fresh_not_mem hf
    refine ⟨h.owned.enroll hf, ?_⟩
    intro t con ht
    rcases enroll_cases ht with ⟨rfl, _, rfl⟩ | ⟨hne, hold⟩
    · refine ⟨epollIn ||| epollErr ||| epollPri, ?_, fun hh => absurd hh (by decide),
        fun hh => absurd hh (show ¬ (0 : Int) < 0 by decide)⟩
      have hw : (m.enroll .posix t).host.epoll = m.host.epoll.insert t _ :=
        Host.watch_epoll (Finset.mem_insert_self t m.host.opened) (h.owned.fresh_not_epoll hf)
      rw [hw]
      exact Std.ExtTreeMap.getElem?_insert_self
    · refine (h.registered hold).congr rfl rfl (epoll_watch_other ?_)
      rw [h.owned.socket hold]
      exact hne.resolve_right hs

theorem Wakes.close (h : m.Wakes) (s : Int) : (m.onSocketClose .posix s).Wakes := by
  refine h.frame (h.owned.onSocketClose s) ?_ ?_
  · intro t con ht
    rw [onSocketClose_connections h.owned.listener] at ht
    split at ht
    next => cases ht
    next => exact ht
  · intro t con ht
    rw [onSocketClose_connections h.owned.listener] at ht
    split at ht
    next => cases ht
    next hst =>
      by_cases hs : s ∈ m.connections ∨ s = m.listener.socket ∧ s ≠ socketError
      · rw [onSocketClose_owned h.owned.listener hs]
        exact (epoll_close_other hst).trans (epoll_unwatch_other hst)
      · simp only [not_or, not_and, not_not] at hs
        rw [onSocketClose_unowned hs.1 hs.2]
        exact epoll_unwatch_other hst

theorem createListenSocket_epoll_other {host : Host} {listen : ListenCalls} {t : Int}
    (ht : t ≠ listen.socket) :
    (createListenSocket .posix host listen).2.epoll[t]? = host.epoll[t]? := by
  rcases createListenSocket_cases (Eq.refl (createListenSocket .posix host listen)) with
    ⟨_, h | ⟨_, h⟩⟩ | ⟨_, _, h⟩
  · rw [h]
  · rw [h, epoll_close_other ht]
    rfl
  · rw [h]
    rfl

theorem createListenSocket_opened {host : Host} {listen : ListenCalls} {t : Int}
    (ho : t ∈ host.opened) (ht : t ≠ listen.socket) :
    t ∈ (createListenSocket .posix host listen).2.opened := by
  rcases createListenSocket_cases (Eq.refl (createListenSocket .posix host listen)) with
    ⟨_, h | ⟨hn, h⟩⟩ | ⟨_, _, h⟩
  · rw [h]
    exact ho
  · rw [h, Host.safeCloseSocket_opened hn]
    exact Finset.mem_erase_of_ne_of_mem ht (Finset.mem_insert_of_mem ho)
  · rw [h]
    exact Finset.mem_insert_of_mem ho

theorem awakeBridgeInit_epoll_other {bridge : Int} {host : Host} {calls : BridgeCalls} {t : Int}
    (ht : t ≠ calls.socket) :
    (awakeBridgeInit .posix bridge host calls).2.epoll[t]? = host.epoll[t]? := by
  unfold awakeBridgeInit
  split
  next => rfl
  next =>
    dsimp only
    split
    next =>
      rw [epoll_close_other ht]
      rfl
    next => rfl

theorem Wakes.init (h : m.Wakes) (hl : m.listener.socket = socketError) {listen : ListenCalls}
    {bridge : BridgeCalls} (hf : listen.socket ≠ socketError → m.host.Fresh listen.socket)
    (hb : bridge.socket ≠ socketError →
      (createListenSocket .posix m.host listen).2.Fresh bridge.socket) :
    (m.init .posix listen bridge).Wakes := by
  refine h.frame (h.owned.init hl hf hb) (fun _ _ hc => hc) ?_
  intro t con ht
  have ht : t ∈ m.connections := mem_of_getElem? ht
  have hlisten : t ≠ listen.socket := by
    rintro rfl
    exact h.owned.fresh_not_mem (hf (h.owned.ne_error ht)) ht
  have hbridge : t ≠ bridge.socket := by
    rintro rfl
    exact (hb (h.owned.ne_error ht)).unused
      (createListenSocket_opened (h.owned.mem_opened ht) hlisten)
  have hs : t ≠ (createListenSocket .posix m.host listen).1 := by
    rcases createListenSocket_cases (Eq.refl (createListenSocket .posix m.host listen)) with
      ⟨hr, _⟩ | ⟨hr, _⟩
    · rw [hr]
      exact h.owned.ne_error ht
    · rw [hr]
      exact hlisten
  exact (epoll_watch_other hs).trans
    ((awakeBridgeInit_epoll_other hbridge).trans (createListenSocket_epoll_other hlisten))

theorem Wakes.step (h : m.Wakes) {m' : NetConnectionManager} (hs : WireStep m m') : m'.Wakes := by
  cases hs with
  | init hl hf hb => exact h.init hl hf hb
  | accept result hf hr => exact h.accept hf hr
  | @receive s con ok con' chunk hc ha =>
    obtain ⟨⟨ok1, b⟩, _, he⟩ := Option.bind_eq_some_iff.mp ha
    cases he
    exact h.keeps hc (keeps_of_same rfl rfl rfl (Host.Serves.refl m.host _ _) rfl)
  | check hc hk => exact h.keeps hc (checkRecvPackage_keeps m.host hk)
  | deliver hc hk hd => exact h.keeps hc ((checkRecvPackage_keeps m.host hk).trans (onRecvData_keeps hd))
  | send guid cmd buffer len hc hs => exact h.keeps hc (send_keeps hs)
  | doSend result hc hs => exact h.keeps hc (doSend_keeps hs)
  | close s => exact h.close s
  | release => exact ⟨h.owned.release, by simp [NetConnectionManager.release]⟩

theorem WireReachable.wakes (h : WireReachable m) : m.Wakes := by
  induction h with
  | refl => exact Wakes.new
  | tail _ hs ih => exact ih.step hs

/-- In every state the server can get into, a connection's registered mask holds `EPOLLOUT`
exactly when its send buffer holds bytes. -/
theorem write_wakeup (h : WireReachable m) {s : Int} {con : NetConnection}
    (hc : m.connections[s]? = some con) :
    ∃ mask, m.host.epoll[s]? = some mask ∧ (mask &&& epollOut ≠ 0 ↔ 0 < con.sendBuffer.length) := by
  have hw := h.wakes
  obtain ⟨mask, hm, ho⟩ := hw.registered hc
  rw [hw.owned.socket hc] at hm
  exact ⟨mask, hm, ho⟩

theorem drain_wire {s : Int} {con con' : NetConnection} {fuel : Nat} {ret : Int} {host' : Host}
    (hc : m.connections[s]? = some con) (h : drain .posix fuel m.host con = some (ret, host', con')) :
    Relation.ReflTransGen WireStep m
      { m with host := host', connections := m.connections.insert s con' } := by
  induction fuel generalizing m con with
  | zero => cases h
  | succ fuel ih =>
    obtain ⟨⟨ret1, con1⟩, hk, h⟩ := Option.bind_eq_some_iff.mp h
    dsimp only at h
    split at h
    next =>
      cases h
      exact .single (.check hc hk)
    next =>
      split at h
      next h1 =>
        subst h1
        obtain ⟨⟨host2, con2⟩, hd, h⟩ := Option.bind_eq_some_iff.mp h
        have hi : ({ m with host := host2, connections := m.connections.insert s con2 } :
            NetConnectionManager).connections[s]? = some con2 := by simp
        have hrest := ih hi h
        simp only [insert_insert_self] at hrest
        exact .head (.deliver hc hk hd) hrest
      next =>
        cases h
        exact .single (.check hc hk)

theorem readConnection_wire {s : Int} {con con' : NetConnection} {result : RecvResult} {ret : Int}
    {host' : Host} (hc : m.connections[s]? = some con)
    (h : readConnection .posix m.host con result = some (ret, host', con')) :
    Relation.ReflTransGen WireStep m
      { m with host := host', connections := m.connections.insert s con' } := by
  have hself : { m with connections := m.connections.insert s con } = m := by rw [insert_eq_self hc]
  cases result with
  | received chunk =>
    obtain ⟨⟨ok, con1⟩, ha, h⟩ := Option.bind_eq_some_iff.mp h
    dsimp only at h
    split at h
    next =>
      cases h
      exact .single (.receive chunk hc ha)
    next =>
      have hi : ({ m with connections := m.connections.insert s con1 } :
          NetConnectionManager).connections[s]? = some con1 := by simp
      have hrest := drain_wire hi h
      simp only [insert_insert_self] at hrest
      exact .head (.receive chunk hc ha) hrest
  | ended =>
    cases h
    rw [hself]
  | failed errno =>
    cases h
    rw [hself]

theorem serve_wire {s : Int} {con con' : NetConnection} {error readable writable remove : Bool}
    {calls : Calls} {host' : Host} (hc : m.connections[s]? = some con)
    (h : serve .posix m.host con error readable writable calls = some (remove, host', con')) :
    Relation.ReflTransGen WireStep m
      { m with host := host', connections := m.connections.insert s con' } := by
  have hself : { m with connections := m.connections.insert s con } = m := by rw [insert_eq_self hc]
  unfold serve at h
  split at h
  next =>
    cases h
    rw [hself]
  next =>
    obtain ⟨⟨ret1, host1, con1⟩, hread, h⟩ := Option.bind_eq_some_iff.mp h
    have h1 : Relation.ReflTransGen WireStep m
        { m with host := host1, connections := m.connections.insert s con1 } := by
      split at hread
      next => exact readConnection_wire hc hread
      next =>
        cases hread
        rw [hself]
    dsimp only at h
    split at h
    next =>
      cases h
      exact h1
    next =>
      obtain ⟨⟨ret2, host2, con2⟩, hsend, h⟩ := Option.bind_eq_some_iff.mp h
      cases h
      split at hsend
      next =>
        have hi : ({ m with host := host1, connections := m.connections.insert s con1 } :
            NetConnectionManager).connections[s]? = some con1 := by simp
        have h2 := WireStep.doSend calls.send hi hsend
        simp only [insert_insert_self] at h2
        exact h1.tail h2
      next =>
        cases hsend
        exact h1

theorem foldl_close_wire (needremove : List Int) :
    Relation.ReflTransGen WireStep m (needremove.foldl (onSocketClose .posix) m) := by
  induction needremove generalizing m with
  | nil => exact .refl
  | cons s needremove ih => exact .head (.close s) ih

theorem PollStep.wire {st st' : NetConnectionManager × List Int} (h : Inv .posix st)
    (hs : PollStep .posix st st') : Relation.ReflTransGen WireStep st.1 st'.1 := by
  cases hs with
  | init hl hf hb => exact .single (.init hl hf hb)
  | poll hs hf hp =>
    obtain ⟨⟨remove, m'⟩, hh, he⟩ := Option.bind_eq_some_iff.mp hp
    cases he
    rcases h.handle_cases hs hf hh with rfl | ⟨hl, ret, hr⟩ | ⟨_, con, host', con', hc, hserve, _, rfl⟩
    · exact .refl
    · exact .single (.accept _ (hf hl) hr)
    · exact serve_wire hc hserve
  | sweep => exact foldl_close_wire _
  | @removeConnection m s =>
    change Relation.ReflTransGen WireStep m (m.removeConnection .posix s)
    unfold NetConnectionManager.removeConnection
    split
    next => exact .refl
    next con _ => exact .single (.close con.socket)
  | release => exact .single .release

/-- What the server's batches reach, the single acts reach. -/
theorem PollReachable.wire {st : NetConnectionManager × List Int} (h : PollReachable .posix st) :
    WireReachable st.1 := by
  induction h with
  | refl => exact .refl
  | tail hr hs ih => exact ih.trans (hs.wire (PollReachable.inv hr))

/-- The whole request. -/
def request : Chunk := ⟨requestBytes, by decide, by decide⟩

/-- What is queued for the first client. -/
def queued (m : NetConnectionManager) : Option Int :=
  (m.connections[(5 : Int)]?).map (·.sendBuffer.length)

/-- The request has been answered, and the reply waits for the kernel. -/
theorem oneClient_wakeup : ∃ m con mask, Reachable .posix m ∧ m.connections[(5 : Int)]? = some con ∧
    con.sendBuffer.length = 36 ∧ m.host.epoll[(5 : Int)]? = some mask ∧ mask &&& epollOut ≠ 0 := by
  have hruns : (oneClient.onSocketRead .posix 5 ⟨.failed 0, .received request, .failed 0⟩).map
      (fun r => (r.1, queued r.2)) = some (0, some 36) := by decide +kernel
  obtain ⟨⟨ret, m⟩, hread, he⟩ := Option.map_eq_some_iff.mp hruns
  simp only [Prod.mk.injEq] at he
  obtain ⟨rfl, hq⟩ := he
  obtain ⟨con, hc, hlen⟩ := Option.map_eq_some_iff.mp hq
  have hreach := reachable_oneClient.read hread
  obtain ⟨mask, hm, ho⟩ := write_wakeup hreach.poll.wire hc
  exact ⟨m, con, mask, hreach, hc, hlen, hm, ho.mpr (by omega)⟩

end NetConnectionManager

end CppTry
