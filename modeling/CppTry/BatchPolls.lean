import CppTry.PollInvariant

namespace CppTry

/-- One round of a polling loop: a socket with its readiness and call results. -/
structure Poll where
  socket : Int
  error : Bool
  readable : Bool
  writable : Bool
  calls : Calls

def SocketEvent.poll (e : SocketEvent) : Poll :=
  ⟨e.socket, e.isError, e.isReadable, e.isWritable, e.calls⟩

namespace NetConnectionManager

def pollAll (build : Build) (st : NetConnectionManager × List Int) (polls : List Poll) :
    Option (NetConnectionManager × List Int) :=
  polls.foldlM (fun st p => pollSocket build st p.socket p.error p.readable p.writable p.calls) st

/-- The end of a batch. -/
def sweep (build : Build) (st : NetConnectionManager × List Int) : NetConnectionManager :=
  st.2.foldl (onSocketClose build) st.1

theorem selectSocketLinux_eq (m : NetConnectionManager) (events : List SocketEvent) :
    m.selectSocketLinux events =
      (pollAll .posix (m, []) (events.map SocketEvent.poll)).map (sweep .posix) := by
  have hf : pollAll .posix (m, []) (events.map SocketEvent.poll) = events.foldlM (fun state e =>
      pollSocket .posix state e.socket e.isError e.isReadable e.isWritable e.calls) (m, []) := by
    rw [pollAll, List.foldlM_map]
    rfl
  rw [selectSocketLinux, ← hf]
  cases pollAll .posix (m, []) (events.map SocketEvent.poll) <;> rfl

/-- What `SelectSocketWin` asks of the socket `s`. -/
def FdSets.poll (sets : FdSets) (ready : List SocketEvent) (s : Int) : Poll :=
  ⟨s, s ∈ sets.exceptfds, s ∈ sets.readfds, s ∈ sets.writefds, callsOf ready s⟩

def listenerPolls (m : NetConnectionManager) (sets : FdSets) (ready : List SocketEvent) : List Poll :=
  if m.listener.socket ≠ socketError then
    [{ FdSets.poll sets ready m.listener.socket with writable := false }]
  else []

def connectionPolls (m : NetConnectionManager) (sets : FdSets) (ready : List SocketEvent) : List Poll :=
  m.connections.toList.map fun entry => FdSets.poll sets ready entry.2.socket

theorem selectSocketWin_eq (m : NetConnectionManager) (ready : List SocketEvent) :
    m.selectSocketWin ready = if (m.prepareSets.select ready).count > 0 then
        ((pollAll .win (m, []) (m.listenerPolls (m.prepareSets.select ready) ready)).bind fun st =>
          pollAll .win st (st.1.connectionPolls (m.prepareSets.select ready) ready)).map (sweep .win)
      else some m := by
  have hl : m.pollListener (m.prepareSets.select ready) ready =
      pollAll .win (m, []) (m.listenerPolls (m.prepareSets.select ready) ready) := by
    unfold pollListener listenerPolls pollAll
    dsimp only
    split
    next =>
      rw [List.foldlM_cons]
      exact (bind_pure _).symm
    next => rfl
  have hc : ∀ st : NetConnectionManager × List Int,
      pollAll .win st (st.1.connectionPolls (m.prepareSets.select ready) ready) =
        st.1.connections.toList.foldlM (fun state entry =>
          pollSocket .win state entry.2.socket (entry.2.socket ∈ (m.prepareSets.select ready).exceptfds)
            (entry.2.socket ∈ (m.prepareSets.select ready).readfds)
            (entry.2.socket ∈ (m.prepareSets.select ready).writefds)
            (callsOf ready entry.2.socket)) st := by
    intro st
    rw [pollAll, connectionPolls, List.foldlM_map]
    rfl
  unfold selectSocketWin
  simp only [hl, ← hc]
  split
  next =>
    cases pollAll .win (m, []) (m.listenerPolls (m.prepareSets.select ready) ready) with
    | none => rfl
    | some st =>
      simp only [Option.bind_eq_bind, Option.bind_some]
      cases pollAll .win st (st.1.connectionPolls (m.prepareSets.select ready) ready) <;> rfl
  next => rfl

section
variable {build : Build} {st st' : NetConnectionManager × List Int}

/-- Polling leaves the listener alone, and only an accept opens a descriptor. -/
theorem Inv.poll_frame (h : Inv build st) {s : Int} {error readable writable : Bool} {calls : Calls}
    (hs : s ∉ st.2) (hf : s = st.1.listener.socket → calls.accept.Fresh st.1.host)
    (hp : pollSocket build st s error readable writable calls = some st') :
    st'.1.listener = st.1.listener ∧ (∀ t ∈ st'.2, t ∈ st.2 ∨ t = s) ∧
      (s ≠ st.1.listener.socket → st'.1.host.opened = st.1.host.opened) := by
  obtain ⟨⟨remove, m'⟩, hh, he⟩ := Option.bind_eq_some_iff.mp hp
  cases he
  have hmem : ∀ t ∈ (if remove then st.2 ++ [s] else st.2), t ∈ st.2 ∨ t = s := by
    intro t ht
    split at ht
    next => simpa using ht
    next => exact Or.inl ht
  rcases h.handle_cases hs hf hh with rfl | ⟨hl, ret, hr⟩ | ⟨_, con, host', con', hc, _, hserv, rfl⟩
  · exact ⟨rfl, hmem, fun _ => rfl⟩
  · exact ⟨listenerRead_listener hr, hmem, fun hn => absurd hl hn⟩
  · obtain ⟨es, hes⟩ := hserv.serves
    exact ⟨rfl, hmem, fun _ => hes.opened⟩

/-- Polling a socket removes no connection yet, and leaves the others as they are. -/
theorem Inv.poll_other (h : Inv build st) {s : Int} {error readable writable : Bool} {calls : Calls}
    (hs : s ∉ st.2) (hf : s = st.1.listener.socket → calls.accept.Fresh st.1.host)
    (hp : pollSocket build st s error readable writable calls = some st') {t : Int}
    (ht : t ∈ st.1.connections) :
    t ∈ st'.1.connections ∧ (t ≠ s → st'.1.connections[t]? = st.1.connections[t]?) := by
  obtain ⟨⟨remove, m'⟩, hh, he⟩ := Option.bind_eq_some_iff.mp hp
  cases he
  rcases h.handle_cases hs hf hh with rfl | ⟨hl, ret, hr⟩ | ⟨_, con, host', con', hc, _, hserv, rfl⟩
  · exact ⟨ht, fun _ => rfl⟩
  · have hf := hf hl
    obtain ⟨_, ⟨_, _, rfl⟩ | ⟨u, _, _, he, ⟨rfl, _⟩ | ⟨rfl, _⟩⟩⟩ := listenerRead_cases hr
    · exact ⟨ht, fun _ => rfl⟩
    · exact ⟨ht, fun _ => rfl⟩
    · rw [he] at hf
      refine ⟨mem_enroll.mpr (Or.inr ht), fun _ => ?_⟩
      have hne : u ≠ t := by
        rintro rfl
        exact h.owned.fresh_not_mem hf ht
      rw [enroll_connections, if_neg fun hh => hne hh.1]
  · refine ⟨Std.ExtTreeMap.mem_insert.mpr (Or.inr ht), fun hne => ?_⟩
    simp only [Std.ExtTreeMap.getElem?_insert, Std.compare_eq_iff_eq]
    rw [if_neg (Ne.symm hne)]

end

theorem callsOf_fresh {host : Host} {ready : List SocketEvent} (s : Int)
    (hf : ∀ e ∈ ready, e.calls.accept.Fresh host) : (callsOf ready s).accept.Fresh host := by
  unfold callsOf
  split
  next e he => exact hf e (List.mem_of_find?_eq_some he)
  next => trivial

theorem mem_keys_toList {m : NetConnectionManager} {s : Int} :
    s ∈ m.connections.toList.map Prod.fst ↔ s ∈ m.connections := by
  rw [Std.ExtTreeMap.map_fst_toList_eq_keys, Std.ExtTreeMap.mem_keys]

theorem nodup_keys_toList (m : NetConnectionManager) : (m.connections.toList.map Prod.fst).Nodup :=
  List.pairwise_map.mpr
    (Std.ExtTreeMap.distinct_keys_toList.imp fun hne he => hne (Std.compare_eq_iff_eq.mpr he))

end NetConnectionManager

end CppTry
