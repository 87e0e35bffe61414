import CppTry.BatchOutcome
import CppTry.RunInvariants

namespace CppTry

/-- The listener `s` is readable and the client's set-up fails. -/
def FailedAccept (build : Build) (s : Int) (events : List SocketEvent) : Prop :=
  ∃ e ∈ events, e.socket = s ∧ e.isReadable = true ∧ e.calls.accept.succeeds build = false

namespace NetConnectionManager

/-- A run of `SelectSocket` calls without error events on the listening socket. -/
inductive SelectRun (build : Build) :
    NetConnectionManager → List (Option (List SocketEvent)) → NetConnectionManager → Prop
  | nil {m} : SelectRun build m [] m
  | cons {m m1 m' poll polls} : m.Allowed build (.select poll) →
      (∀ events, poll = some events →
        ∀ e ∈ events, e.socket = m.listener.socket → e.isError = false) →
      m.selectSocket build poll = some m1 → SelectRun build m1 polls m' →
      SelectRun build m (poll :: polls) m'

section
variable {build : Build} {m m' : NetConnectionManager}

/-- Without error events only a failed set-up drops the listener. -/
theorem dropsListener_iff (build : Build) {events : List SocketEvent}
    (hn : (events.map SocketEvent.socket).Nodup) (hl : m.listener.socket ≠ socketError)
    (he : ∀ e ∈ events, e.socket = m.listener.socket → e.isError = false) :
    (m.told build events m.listener.socket).dropsListener build = true ↔
      FailedAccept build m.listener.socket events := by
  obtain ⟨herr, hread, hcalls⟩ := told_listener build events hl
  have hno : (pollOf events m.listener.socket).error = false := by
    rw [Bool.eq_false_iff]
    intro hh
    obtain ⟨e, hmem, hs, hf⟩ := mem_of_any hh
    rw [he e hmem hs] at hf
    cases hf
  rw [Poll.dropsListener, herr, hread, hcalls, hno, Bool.false_or, Bool.and_eq_true,
    Bool.not_eq_true']
  constructor
  · rintro ⟨hr, hf⟩
    obtain ⟨e, hmem, hs, hr⟩ := mem_of_any hr
    rw [← hs, callsOf_event hn hmem] at hf
    exact ⟨e, hmem, hs, hr, hf⟩
  · rintro ⟨e, hmem, hs, hr, hf⟩
    rw [← hs, callsOf_event hn hmem]
    refine ⟨?_, hf⟩
    rw [pollOf_event hn hmem]
    exact hr

theorem selectSocket_listener {poll : Option (List SocketEvent)} (h : Inv build (m, []))
    (ha : m.Allowed build (.select poll)) (hl : m.listener.socket ≠ socketError)
    (he : ∀ events, poll = some events →
      ∀ e ∈ events, e.socket = m.listener.socket → e.isError = false)
    (hr : m.selectSocket build poll = some m') :
    (m'.listener = m.listener ∧ ∀ events, poll = some events →
        ¬ FailedAccept build m.listener.socket events) ∨
      m'.listener.socket = socketError ∧ ∃ events, poll = some events ∧
        FailedAccept build m.listener.socket events := by
  cases poll with
  | none =>
    cases hr
    exact Or.inl ⟨rfl, by simp⟩
  | some events =>
    have hiff := dropsListener_iff build ha.1 hl (he events rfl)
    have hlist := (selectSocket_outcome h ha hr).1
    by_cases hf : FailedAccept build m.listener.socket events
    · rw [if_pos (hiff.mpr hf)] at hlist
      exact Or.inr ⟨by rw [hlist], events, rfl, hf⟩
    · rw [if_neg fun hd => hf (hiff.mp hd)] at hlist
      refine Or.inl ⟨hlist, ?_⟩
      intro events' hs
      cases hs
      exact hf

theorem selectSocket_closed {poll : Option (List SocketEvent)} (h : Inv build (m, []))
    (ha : m.Allowed build (.select poll)) (hl : m.listener.socket = socketError)
    (hr : m.selectSocket build poll = some m') : m'.listener.socket = socketError := by
  cases poll with
  | none =>
    cases hr
    exact hl
  | some events =>
    rw [(selectSocket_outcome h ha hr).1]
    split
    next => rfl
    next => exact hl

theorem selectSocket_inv {poll : Option (List SocketEvent)} (h : Inv build (m, []))
    (ha : m.Allowed build (.select poll)) (hr : m.selectSocket build poll = some m') :
    Inv build (m', []) := h.run (Step.run h ⟨.select poll, ha, hr⟩)

theorem SelectRun.inv {polls : List (Option (List SocketEvent))} (hr : SelectRun build m polls m')
    (h : Inv build (m, [])) : Inv build (m', []) := by
  induction hr with
  | nil => exact h
  | cons ha _ hs _ ih => exact ih (selectSocket_inv h ha hs)

theorem SelectRun.closed {polls : List (Option (List SocketEvent))}
    (hr : SelectRun build m polls m') (h : Inv build (m, []))
    (hl : m.listener.socket = socketError) : m'.listener.socket = socketError := by
  induction hr with
  | nil => exact hl
  | cons ha _ hs _ ih => exact ih (selectSocket_inv h ha hs) (selectSocket_closed h ha hl hs)

/-- The listener is the same after a run if no set-up has failed in it, and closed otherwise. -/
theorem SelectRun.listener_iff {polls : List (Option (List SocketEvent))}
    (hr : SelectRun build m polls m') (h : Inv build (m, []))
    (hl : m.listener.socket ≠ socketError) :
    m'.listener = m.listener ↔
      ∀ events, some events ∈ polls → ¬ FailedAccept build m.listener.socket events := by
  induction hr with
  | nil => simp
  | cons ha he hs hrun ih =>
    have h1 := selectSocket_inv h ha hs
    rcases selectSocket_listener h ha hl he hs with ⟨hlist, hno⟩ | ⟨hclosed, events, rfl, hf⟩
    · rw [← hlist] at hl
      rw [← hlist, ih h1 hl]
      constructor
      · intro hall events hm
        rcases List.mem_cons.mp hm with hp | hm
        · rw [hlist]
          exact hno events hp.symm
        · exact hall events hm
      · exact fun hall events hm => hall events (List.mem_cons_of_mem _ hm)
    · refine iff_of_false ?_ fun hall => hall events (by simp) hf
      intro hh
      have hend := hrun.closed h1 hclosed
      rw [hh] at hend
      exact hl hend

theorem onSocketRead_failed {calls : Calls} {ret : Int}
    (hr : m.onSocketRead build m.listener.socket calls = some (ret, m'))
    (hf : calls.accept.succeeds build = false) : m'.connections = m.connections := by
  rw [onSocketRead, if_pos rfl] at hr
  obtain ⟨_, ⟨_, _, rfl⟩ | ⟨_, _, _, _, ⟨rfl, _⟩ | ⟨_, hok, _⟩⟩⟩ :=
    listenerRead_cases (Option.some.inj hr)
  · rfl
  · rfl
  · rw [hf] at hok
    cases hok

/-- The server goes on listening through a run of `SelectSocket` calls exactly when no client's
set-up fails in it; the connections that there are never notice such a failure. -/
theorem listener_survives_iff {polls : List (Option (List SocketEvent))} (h : Reachable build m)
    (hl : m.listener.socket ≠ socketError) (hr : SelectRun build m polls m') :
    (m'.listener = m.listener ∧ m.listener.socket ∈ m'.host.opened) ∧
        (∀ (n n' : NetConnectionManager) (calls : Calls) (ret : Int),
          n.onSocketRead build n.listener.socket calls = some (ret, n') →
          calls.accept.succeeds build = false → n'.connections = n.connections) ↔
      ∀ events, some events ∈ polls → ¬ FailedAccept build m.listener.socket events := by
  have hinv : Inv build (m, []) := h.inv
  rw [← hr.listener_iff hinv hl]
  constructor
  · exact fun hh => hh.1.1
  · intro hsame
    refine ⟨⟨hsame, ?_⟩, fun n n' calls ret hread hf => onSocketRead_failed hread hf⟩
    rw [← hsame] at hl ⊢
    exact (hr.inv hinv).owned.listening hl

end

/-- `accept` has failed, as it does for a client that has given up. -/
def abortedAccept : SocketEvent := ⟨3, epollIn, ⟨.failed 103, .failed 0, .failed 0⟩⟩

/-- One client that gives up takes the listener with it. -/
theorem listening_abortedAccept : Reachable .posix listening ∧
    listening.listener.socket ≠ socketError ∧
    SelectRun .posix listening [some [abortedAccept]] (listening.onSocketClose .posix 3) ∧
    (listening.onSocketClose .posix 3).listener.socket = socketError ∧
    (3 : Int) ∉ (listening.onSocketClose .posix 3).host.opened := by
  refine ⟨reachable_listening, by decide, .cons ⟨by simp, ?_⟩ ?_ rfl .nil, rfl, by decide⟩
  · intro e he
    rw [List.mem_singleton.mp he]
    trivial
  · intro events hs e he _
    cases hs
    rw [List.mem_singleton.mp he]
    rfl

theorem oneClient_listens : oneClient.listener = listening.listener ∧
    (3 : Int) ∈ oneClient.host.opened := by
  have hrun : SelectRun .posix listening [some [acceptEvent 5]] oneClient := by
    refine .cons ⟨by simp, ?_⟩ ?_ rfl .nil
    · intro e he
      rw [List.mem_singleton.mp he]
      exact ⟨by decide, by decide, by decide⟩
    · intro events hs e he _
      cases hs
      rw [List.mem_singleton.mp he]
      rfl
  refine ((listener_survives_iff reachable_listening (by decide) hrun).mpr ?_).1
  intro events hm
  cases Option.some.inj (List.mem_singleton.mp hm)
  rintro ⟨e, he, _, _, hf⟩
  rw [List.mem_singleton.mp he] at hf
  exact absurd hf (by decide)

end NetConnectionManager

end CppTry
