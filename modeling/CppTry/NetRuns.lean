import Mathlib.Logic.Relation
import CppTry.SocketService

namespace CppTry

/-- A descriptor the kernel may hand out: a non-negative `int` that is not open. -/
structure Host.Fresh (host : Host) (s : Int) : Prop where
  nonneg : 0 ≤ s
  bound : s < 2 ^ 31
  unused : s ∉ host.opened

theorem Host.Fresh.ne_error {host : Host} {s : Int} (h : host.Fresh s) : s ≠ socketError := by
  have h0 := h.nonneg
  unfold socketError
  omega

namespace AcceptResult

/-- The kernel's promise about `accept`. -/
def Fresh (host : Host) : AcceptResult → Prop
  | failed _ => True
  | accepted s _ _ => host.Fresh s

theorem Fresh.congr {host host' : Host} {result : AcceptResult} (h : result.Fresh host)
    (ho : host'.opened = host.opened) : result.Fresh host' := by
  cases result with
  | failed errno => trivial
  | accepted s nonblocking linger =>
    have h : host.Fresh s := h
    exact ⟨h.nonneg, h.bound, by rw [ho]; exact h.unused⟩

/-- The client was accepted and its socket set up. -/
def succeeds (build : Build) : AcceptResult → Bool
  | failed _ => false
  | accepted _ nonblocking linger => socketSetNonblocking build nonblocking && linger == 0

end AcceptResult

namespace NetConnectionManager

/-- A client socket that is closed again at once. -/
def refuse (m : NetConnectionManager) (s : Int) : NetConnectionManager :=
  { m with host := (m.host.accept s).safeCloseSocket s }

/-- A client socket that gets its connection. -/
def enroll (build : Build) (m : NetConnectionManager) (s : Int) : NetConnectionManager :=
  let host := { m.host.accept s with allocated := m.host.allocated + 1 }
  { m with connections := m.connections.insertIfNew s ((NetConnection.new m.host.allocated).setSocket s)
           host := host.watch build s (epollIn ||| epollErr ||| epollPri) }

/-- All that `NetListener::OnSocketRead` can do. -/
theorem listenerRead_cases {build : Build} {m m' : NetConnectionManager} {result : AcceptResult}
    {ret : Int} (h : m.listenerRead build result = (ret, m')) :
    (ret = 0 ↔ result.succeeds build) ∧
      ((∃ errno, result = .failed errno ∧ m' = m) ∨
        ∃ s nonblocking linger, result = .accepted s nonblocking linger ∧
          (m' = m.refuse s ∧ (result.succeeds build → build = .win ∧ 60 ≤ m.connections.size) ∨
            m' = m.enroll build s ∧ result.succeeds build ∧
              ¬ (build = .win ∧ 60 ≤ m.connections.size))) := by
  cases result with
  | failed errno =>
    cases h
    exact ⟨by simp [AcceptResult.succeeds], Or.inl ⟨errno, rfl, rfl⟩⟩
  | accepted s nonblocking linger =>
    simp only [listenerRead] at h
    split at h
    next hn =>
      cases h
      have hf : (AcceptResult.accepted s nonblocking linger).succeeds build = false := by
        simp [AcceptResult.succeeds, hn]
      exact ⟨by simp [hf], Or.inr ⟨s, nonblocking, linger, rfl, Or.inl ⟨rfl, by simp [hf]⟩⟩⟩
    next hn =>
      split at h
      next hl =>
        cases h
        have hf : (AcceptResult.accepted s nonblocking linger).succeeds build = false := by
          simp [AcceptResult.succeeds, hl]
        exact ⟨by simp [hf], Or.inr ⟨s, nonblocking, linger, rfl, Or.inl ⟨rfl, by simp [hf]⟩⟩⟩
      next hl =>
        have ht : (AcceptResult.accepted s nonblocking linger).succeeds build = true := by
          simpa [AcceptResult.succeeds, not_ne_iff.mp hl] using hn
        obtain ⟨rfl, rfl⟩ := Prod.mk.inj h
        refine ⟨by simp [ht], Or.inr ⟨s, nonblocking, linger, rfl, ?_⟩⟩
        by_cases hc : build = .win ∧ 60 ≤ m.connections.size
        · exact Or.inl ⟨by rw [addConnection, if_pos hc]; rfl, fun _ => hc⟩
        · exact Or.inr ⟨by rw [addConnection, if_neg hc]; rfl, ht, hc⟩

theorem enroll_connections (build : Build) (m : NetConnectionManager) (s t : Int) :
    (m.enroll build s).connections[t]? = if s = t ∧ s ∉ m.connections
      then some ((NetConnection.new m.host.allocated).setSocket s) else m.connections[t]? := by
  simp only [enroll, Std.ExtTreeMap.getElem?_insertIfNew, Std.compare_eq_iff_eq]

theorem enroll_cases {build : Build} {m : NetConnectionManager} {s t : Int} {con : NetConnection}
    (h : (m.enroll build s).connections[t]? = some con) :
    (t = s ∧ s ∉ m.connections ∧ con = (NetConnection.new m.host.allocated).setSocket s) ∨
      (t ≠ s ∨ s ∈ m.connections) ∧ m.connections[t]? = some con := by
  rw [enroll_connections] at h
  split at h
  next he =>
    cases h
    exact Or.inl ⟨he.1.symm, he.2, rfl⟩
  next he =>
    rw [not_and_or, not_not] at he
    exact Or.inr ⟨he.imp_left Ne.symm, h⟩

theorem insert_cases {connections : Std.ExtTreeMap Int NetConnection} {s t : Int}
    {con con' : NetConnection} (h : (connections.insert s con')[t]? = some con) :
    (t = s ∧ con = con') ∨ t ≠ s ∧ connections[t]? = some con := by
  simp only [Std.ExtTreeMap.getElem?_insert, Std.compare_eq_iff_eq] at h
  split at h
  next he =>
    cases h
    exact Or.inl ⟨he.symm, rfl⟩
  next he => exact Or.inr ⟨Ne.symm he, h⟩

/-- The listening socket is no connection's, before an accept and after it. -/
theorem listenerRead_not_mem {build : Build} {m m' : NetConnectionManager} {result : AcceptResult}
    {ret s : Int} (hl : s ∉ m.connections) (hf : result.Fresh m.host)
    (ho : s ∈ m.host.opened ∨ s = socketError) (h : m.listenerRead build result = (ret, m')) :
    m'.connections[s]? = none := by
  have hnone := Std.ExtTreeMap.getElem?_eq_none hl
  obtain ⟨_, ⟨_, _, rfl⟩ | ⟨t, _, _, rfl, ⟨rfl, _⟩ | ⟨rfl, _⟩⟩⟩ := listenerRead_cases h
  · exact hnone
  · exact hnone
  · have hf : m.host.Fresh t := hf
    have ht : t ≠ s := by
      rintro rfl
      rcases ho with ho | ho
      · exact hf.unused ho
      · exact hf.ne_error ho
    rw [enroll_connections, if_neg (fun hh => ht hh.1), hnone]

theorem handleSocket_listener (build : Build) {m : NetConnectionManager} {s : Int}
    (error readable writable : Bool) {calls : Calls} (hs : s = m.listener.socket)
    (hl : s ∉ m.connections) (hf : calls.accept.Fresh m.host)
    (ho : s ∈ m.host.opened ∨ s = socketError) :
    m.handleSocket build s error readable writable calls =
      if error then some (true, m)
      else if readable then
        some (decide ((m.listenerRead build calls.accept).1 ≠ 0),
          (m.listenerRead build calls.accept).2)
      else some (false, m) := by
  have hnone := Std.ExtTreeMap.getElem?_eq_none hl
  unfold handleSocket
  split
  next => rfl
  next =>
    cases readable with
    | false =>
      cases writable with
      | false => rfl
      | true => simp [onSocketWrite, getConnectionFromSocket, hnone]
    | true =>
      cases hr : m.listenerRead build calls.accept with
      | mk ret m1 =>
        have h1 := listenerRead_not_mem hl hf ho hr
        by_cases hz : ret = 0
        · cases writable with
          | false => simp [onSocketRead, hs, hr, hz]
          | true =>
            rw [hs] at h1
            simp [onSocketRead, onSocketWrite, getConnectionFromSocket, hs, hr, hz, h1]
        · simp [onSocketRead, hs, hr, hz]

theorem handleSocket_unknown (build : Build) {m : NetConnectionManager} {s : Int}
    (error readable writable : Bool) (calls : Calls) (hs : s ≠ m.listener.socket)
    (hl : s ∉ m.connections) :
    m.handleSocket build s error readable writable calls = some (error, m) := by
  have hnone := Std.ExtTreeMap.getElem?_eq_none hl
  unfold handleSocket
  cases error <;> cases readable <;> cases writable <;>
    simp [onSocketRead, onSocketWrite, getConnectionFromSocket, hs, hnone]

/-- One thing the server does with its sockets. A state is a manager and, within a batch, the
sockets to be removed after it; `poll` is the body of both polling loops. -/
inductive PollStep (build : Build) :
    NetConnectionManager × List Int → NetConnectionManager × List Int → Prop
  | init {m listen bridge} : m.listener.socket = socketError →
      (listen.socket ≠ socketError → m.host.Fresh listen.socket) →
      (bridge.socket ≠ socketError → (createListenSocket build m.host listen).2.Fresh bridge.socket) →
      PollStep build (m, []) (m.init build listen bridge, [])
  | poll {st st' s error readable writable calls} : s ∉ st.2 →
      (s = st.1.listener.socket → calls.accept.Fresh st.1.host) →
      pollSocket build st s error readable writable calls = some st' → PollStep build st st'
  | sweep {m needremove} :
      PollStep build (m, needremove) (needremove.foldl (onSocketClose build) m, [])
  | removeConnection {m} (s : Int) : PollStep build (m, []) (m.removeConnection build s, [])
  | release {m} : PollStep build (m, []) (m.release, [])

def PollReachable (build : Build) (st : NetConnectionManager × List Int) : Prop :=
  Relation.ReflTransGen (PollStep build) (new, []) st

/-- What the owner of a manager does with it. -/
inductive Op
  | init (listen : ListenCalls) (bridge : BridgeCalls)
  | select (poll : Option (List SocketEvent))
  | removeConnection (s : Int)
  | release

def step (build : Build) (m : NetConnectionManager) : Op → Option NetConnectionManager
  | .init listen bridge => some (m.init build listen bridge)
  | .select poll => m.selectSocket build poll
  | .removeConnection s => some (m.removeConnection build s)
  | .release => some m.release

/-- What the code asserts and the kernel promises: no second listener, descriptors that are not
open, and at most one event for a socket. -/
def Allowed (build : Build) (m : NetConnectionManager) : Op → Prop
  | .init listen bridge => m.listener.socket = socketError ∧
      (listen.socket ≠ socketError → m.host.Fresh listen.socket) ∧
      (bridge.socket ≠ socketError → (createListenSocket build m.host listen).2.Fresh bridge.socket)
  | .select (some events) => (events.map SocketEvent.socket).Nodup ∧
      ∀ e ∈ events, e.calls.accept.Fresh m.host
  | _ => True

def Step (build : Build) (m m' : NetConnectionManager) : Prop :=
  ∃ op, m.Allowed build op ∧ m.step build op = some m'

def Reachable (build : Build) (m : NetConnectionManager) : Prop :=
  Relation.ReflTransGen (Step build) new m

end NetConnectionManager

end CppTry
