import CppTry.BatchLocal

namespace CppTry

namespace NetConnectionManager

/-- Events as both systems can report them: each socket once, writability only where bytes
wait to be sent, and a client set-up that succeeds on both or on none (their calls report
success in different ways). -/
structure Ready (m : NetConnectionManager) (events : List SocketEvent) : Prop where
  nodup : (events.map SocketEvent.socket).Nodup
  known {e : SocketEvent} : e ∈ events →
    e.socket = m.listener.socket ∧ m.listener.socket ≠ socketError ∧ e.isWritable = false ∨
      ∃ con, m.connections[e.socket]? = some con ∧ (e.isWritable = true → con.isNeedWrite = true)
  fresh {e : SocketEvent} : e ∈ events → e.calls.accept.Fresh m.host
  same {e : SocketEvent} : e ∈ events →
    e.calls.accept.succeeds .win = e.calls.accept.succeeds .posix
  framed {e : SocketEvent} {con : NetConnection} {chunk : Chunk} : e ∈ events →
    m.connections[e.socket]? = some con → e.calls.recv = .received chunk →
    (packageFramer.parse (con.recvBuffer.contents ++ chunk.data)).2 ≠ .stop .negative

section
variable {b : Build} {m : NetConnectionManager} {events : List SocketEvent}

theorem Ready.plan (h : m.Ready events) : Plan m (pollOf events) where
  quiet {t} hc hl := by
    have hs : t ∉ events.map SocketEvent.socket := by
      intro hs
      obtain ⟨e, he, rfl⟩ := List.mem_map.mp hs
      rcases h.known he with hh | ⟨con, hcon, _⟩
      · exact hl hh.1
      · exact hc (mem_of_getElem? hcon)
    exact pollOf_quiet hs
  fresh := callsOf_fresh _ fun _ he => h.fresh he
  same := by
    by_cases hs : m.listener.socket ∈ events.map SocketEvent.socket
    · obtain ⟨e, he, hse⟩ := List.mem_map.mp hs
      rw [← hse, pollOf_event h.nodup he]
      exact h.same he
    · rw [pollOf_none hs]
      rfl

theorem Ready.told_win (h : m.Ready events) (hi : Inv b (m, [])) (s : Int) :
    m.told .win events s = pollOf events s := by
  refine told_win_eq ?_ ?_ ?_
  · intro hh
    obtain ⟨e, he, rfl, _⟩ := mem_of_any hh
    rcases h.known he with ⟨hs, hne, _⟩ | ⟨con, hcon, _⟩
    · rw [hs]
      exact (prepareSets_listener hne).1
    · exact (hi.prepareSets_connection hcon).1
  · intro hh
    obtain ⟨e, he, rfl, _⟩ := mem_of_any hh
    rcases h.known he with ⟨hs, hne, _⟩ | ⟨con, hcon, _⟩
    · rw [hs]
      exact (prepareSets_listener hne).2
    · exact (hi.prepareSets_connection hcon).2.1
  · intro hh
    obtain ⟨e, he, rfl, hw⟩ := mem_of_any hh
    rcases h.known he with ⟨_, _, hn⟩ | ⟨con, hcon, hneed⟩
    · rw [hn] at hw
      cases hw
    · exact (hi.prepareSets_connection hcon).2.2 (hneed hw)

end

end NetConnectionManager

end CppTry
