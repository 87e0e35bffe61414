import CppTry.BatchOrder
import CppTry.KeyedFold
import CppTry.LocalService

namespace CppTry

/-- What a batch has made so far of one of the sockets it was started with; through the
listener one sees the clients that came since and the descriptors closed since. -/
inductive Seen
  | connection (con : Option NetConnection) (remove : Bool)
  | listener (newcomers : Int → Option NetConnection) (closed : Int → Prop) (remove : Bool)
  | other (remove : Bool)

namespace NetConnectionManager

def ClosedSince (m m' : NetConnectionManager) (s : Int) : Prop :=
  .closed s ∈ m'.host.trace.drop m.host.trace.length

def seen (m : NetConnectionManager) (t : Int) (st : NetConnectionManager × List Int) : Seen :=
  if t ∈ m.connections then .connection st.1.connections[t]? (decide (t ∈ st.2))
  else if t = m.listener.socket then
    .listener (fun u => if u ∈ m.connections then none else st.1.connections[u]?)
      (ClosedSince m st.1) (decide (t ∈ st.2))
  else .other (decide (t ∈ st.2))

/-- One round of a polling loop, in terms of what is seen through its socket. -/
def update (m : NetConnectionManager) (want : Int → Poll) (t : Int) : Seen → Option Seen
  | .connection con remove => con.bind fun con =>
    (serveLocal con (want t).error (want t).readable (want t).writable (want t).calls).map fun r =>
      .connection (some r.2) (remove || r.1)
  | .listener newcomers closed remove =>
    if (want t).error then some (.listener newcomers closed true)
    else if (want t).readable then
      match (want t).calls.accept with
      | .failed _ => some (.listener newcomers closed true)
      | .accepted s nonblocking linger =>
        if (AcceptResult.accepted s nonblocking linger).succeeds .posix then
          some (.listener (fun u => if s = u then
            some ((NetConnection.new m.host.allocated).setSocket s) else newcomers u) closed remove)
        else some (.listener newcomers (fun u => closed u ∨ u = s) true)
    else some (.listener newcomers closed remove)
  | .other remove => some (.other remove)

/-- A batch that started in `m`, after the turns of the sockets `ks`. -/
structure Turn (m : NetConnectionManager) (ks : List Int) (st : NetConnectionManager × List Int) :
    Prop where
  listener : st.1.listener = m.listener
  apart : m.listener.socket ∉ st.1.connections
  error : socketError ∉ st.1.connections
  buffer : st.1.host.buffer.length = 1024
  trace : ∃ es, st.1.host.trace = m.host.trace ++ es
  idle {t : Int} {con : NetConnection} : t ∉ ks → st.1.connections[t]? = some con → con.Idle
  member {t : Int} : t ∈ m.connections → t ∈ st.1.connections
  before : m.listener.socket ∉ ks → st.1.host.opened = m.host.opened ∧
    st.1.host.allocated = m.host.allocated ∧ st.1.connections.size < 60 ∧
    ∀ t, t ∈ st.1.connections ↔ t ∈ m.connections

/-- What both loops are given: readiness and call results for the listener and the connections. -/
structure Plan (m : NetConnectionManager) (want : Int → Poll) : Prop where
  quiet {t : Int} : t ∉ m.connections → t ≠ m.listener.socket → (want t).Quiet
  fresh : (want m.listener.socket).calls.accept.Fresh m.host
  same : (want m.listener.socket).calls.accept.succeeds .win =
    (want m.listener.socket).calls.accept.succeeds .posix

/-- The listener's turn, written out. -/
def listenerTurn (build : Build) (p : Poll) (s : Int) (st : NetConnectionManager × List Int) :
    NetConnectionManager × List Int :=
  if p.error then (st.1, st.2 ++ [s])
  else if p.readable then
    match p.calls.accept with
    | .failed _ => (st.1, st.2 ++ [s])
    | .accepted t nonblocking linger =>
      if (AcceptResult.accepted t nonblocking linger).succeeds .posix then (st.1.enroll build t, st.2)
      else (st.1.refuse t, st.2 ++ [s])
  else st

section
variable {build b : Build} {m : NetConnectionManager} {want : Int → Poll}
  {st st' : NetConnectionManager × List Int} {ks : List Int}

theorem Turn.new (h : Inv b (m, [])) (hsize : m.connections.size < 60) : Turn m [] (m, []) :=
  ⟨rfl, h.owned.listener, fun hs => h.owned.ne_error hs rfl, h.buffer, ⟨[], by simp⟩,
    fun _ hc => h.idle hc (by simp), id, fun _ => ⟨rfl, rfl, hsize, fun _ => Iff.rfl⟩⟩

theorem Turn.poll_listener (ht : Turn m ks st) (h : Inv b (m, [])) (hp : Plan m want)
    (hk : m.listener.socket ∉ ks) :
    pollOne build want st m.listener.socket =
      some (listenerTurn build (want m.listener.socket) m.listener.socket st) := by
  obtain ⟨ho, _, hsize, _⟩ := ht.before hk
  have hf := hp.fresh.congr ho
  have hopen : m.listener.socket ∈ st.1.host.opened ∨ m.listener.socket = socketError := by
    rw [ho]
    by_cases he : m.listener.socket = socketError
    · exact Or.inr he
    · exact Or.inl (h.owned.listening he)
  have hs : (want m.listener.socket).calls.accept.succeeds build =
      (want m.listener.socket).calls.accept.succeeds .posix := by
    cases build with
    | win => exact hp.same
    | posix => rfl
  have hl : m.listener.socket = st.1.listener.socket := by rw [ht.listener]
  rw [pollOne, pollSocket, handleSocket_listener build _ _ _ hl ht.apart hf hopen, listenerTurn]
  split
  next => rfl
  next =>
    split
    next =>
      cases hr : st.1.listenerRead build (want m.listener.socket).calls.accept with
      | mk ret m' =>
        obtain ⟨hz, hcase⟩ := listenerRead_cases hr
        rw [hs] at hz
        obtain ⟨errno, he, rfl⟩ | ⟨s, nonblocking, linger, he, ⟨rfl, hcap⟩ | ⟨rfl, hok, _⟩⟩ := hcase
        · rw [he] at hz
          have hne : ret ≠ 0 := fun hh => by simpa [AcceptResult.succeeds] using hz.mp hh
          simp [he, hne]
        · rw [hs] at hcap
          have hno : ¬ (AcceptResult.accepted s nonblocking linger).succeeds .posix = true := by
            intro hh
            rw [he] at hcap
            have := (hcap hh).2
            omega
          have hne : ret ≠ 0 := fun hh => hno (by rw [he] at hz; exact hz.mp hh)
          simp [he, hne, hno]
        · rw [hs, he] at hok
          have hz0 : ret = 0 := hz.mpr (by rw [he]; exact hok)
          simp [he, hz0, hok]
    next => rfl

theorem Turn.poll_connection (ht : Turn m ks st) (h : Inv b (m, [])) {t : Int} (hk : t ∉ ks)
    (hc : t ∈ m.connections) :
    ∃ con, st.1.connections[t]? = some con ∧ con.Idle ∧
      pollOne build want st t = (serve build st.1.host con (want t).error (want t).readable
        (want t).writable (want t).calls).map fun r =>
          ({ st.1 with host := r.2.1, connections := st.1.connections.insert t r.2.2 },
            if r.1 then st.2 ++ [t] else st.2) := by
  obtain ⟨con, hcon⟩ := exists_of_mem (ht.member hc)
  have hl : t ≠ st.1.listener.socket := by
    rw [ht.listener]
    rintro rfl
    exact h.owned.listener hc
  refine ⟨con, hcon, ht.idle hk hcon, ?_⟩
  rw [pollOne, pollSocket, handleSocket_connection build hl hcon]
  cases serve build st.1.host con (want t).error (want t).readable (want t).writable (want t).calls <;>
    rfl

theorem Plan.poll_quiet (hp : Plan m want) {t : Int} (hc : t ∉ m.connections)
    (hl : t ≠ m.listener.socket) : pollOne build want st t = some st := by
  obtain ⟨he, hr, hw⟩ := hp.quiet hc hl
  simp [pollOne, pollSocket, handleSocket, he, hr, hw]

end

end NetConnectionManager

end CppTry
