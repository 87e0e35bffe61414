import CppTry.BatchSweep
import CppTry.Housekeeping

namespace CppTry

namespace NetConnectionManager

/-- What holds at every moment: the descriptors have their owners, and a connection that is not
about to be removed waits for its next packet. -/
structure Inv (build : Build) (st : NetConnectionManager × List Int) : Prop where
  owned : st.1.Owned build
  buffer : st.1.host.buffer.length = 1024
  idle {s : Int} {con : NetConnection} : st.1.connections[s]? = some con → s ∉ st.2 → con.Idle

section
variable {build : Build}

theorem Inv.sweep {st : NetConnectionManager × List Int} (h : Inv build st) :
    Inv build (st.2.foldl (NetConnectionManager.onSocketClose build) st.1, []) where
  owned := h.owned.foldl_close st.2
  buffer := by
    rw [(housekeeping_sweep st.1 st.2).buffer]
    exact h.buffer
  idle {s con} hc _ := by
    rw [(h.owned.apart.swept st.2).connections] at hc
    split at hc
    next => cases hc
    next hs => exact h.idle hc hs

theorem refuse_buffer (m : NetConnectionManager) (s : Int) :
    (m.refuse s).host.buffer = m.host.buffer := by
  simp [refuse, Host.accept]

theorem enroll_buffer (m : NetConnectionManager) (s : Int) :
    (m.enroll build s).host.buffer = m.host.buffer := by
  simp [enroll, Host.accept]

theorem listenerRead_listener {m m' : NetConnectionManager} {result : AcceptResult} {ret : Int}
    (h : m.listenerRead build result = (ret, m')) : m'.listener = m.listener := by
  obtain ⟨_, ⟨_, _, rfl⟩ | ⟨_, _, _, _, ⟨rfl, _⟩ | ⟨rfl, _⟩⟩⟩ := listenerRead_cases h
  all_goals rfl

/-- All that polling one socket can do. -/
theorem Inv.handle_cases {st : NetConnectionManager × List Int} {m' : NetConnectionManager} {s : Int}
    {error readable writable remove : Bool} {calls : Calls} (h : Inv build st) (hs : s ∉ st.2)
    (hf : s = st.1.listener.socket → calls.accept.Fresh st.1.host)
    (hh : st.1.handleSocket build s error readable writable calls = some (remove, m')) :
    m' = st.1 ∨
      s = st.1.listener.socket ∧ (∃ ret, st.1.listenerRead build calls.accept = (ret, m')) ∨
      s ≠ st.1.listener.socket ∧ ∃ con host' con', st.1.connections[s]? = some con ∧
        serve build st.1.host con error readable writable calls = some (remove, host', con') ∧
        Service st.1.host con remove host' con' ∧
        m' = { st.1 with host := host', connections := st.1.connections.insert s con' } := by
  by_cases hl : s = st.1.listener.socket
  · rw [h.owned.handleSocket_listener error readable writable hl (hf hl)] at hh
    split at hh
    next =>
      cases hh
      exact Or.inl rfl
    next =>
      split at hh
      next =>
        obtain ⟨_, rfl⟩ := Prod.mk.inj (Option.some.inj hh)
        exact Or.inr (Or.inl ⟨hl, _, rfl⟩)
      next =>
        cases hh
        exact Or.inl rfl
  · by_cases hc : s ∈ st.1.connections
    · obtain ⟨con, hcon⟩ := exists_of_mem hc
      rw [handleSocket_connection build hl hcon] at hh
      obtain ⟨⟨remove', host', con'⟩, hserve, he⟩ := Option.map_eq_some_iff.mp hh
      obtain ⟨rfl, rfl⟩ := Prod.mk.inj he
      exact Or.inr (Or.inr ⟨hl, con, host', con', hcon, hserve,
        serve_service (h.idle hcon hs) h.buffer hserve, rfl⟩)
    · rw [handleSocket_unknown build error readable writable calls hl hc] at hh
      cases hh
      exact Or.inl rfl

theorem Inv.grow {m : NetConnectionManager} {needremove : List Int} (h : Inv build (m, needremove))
    {list : List Int} (hl : ∀ s ∈ needremove, s ∈ list) : Inv build (m, list) :=
  ⟨h.owned, h.buffer, fun hc hs => h.idle hc fun hh => hs (hl _ hh)⟩

theorem Inv.listenerRead {m m' : NetConnectionManager} {needremove : List Int}
    (h : Inv build (m, needremove)) {result : AcceptResult} {ret : Int} (hf : result.Fresh m.host)
    (hr : m.listenerRead build result = (ret, m')) : Inv build (m', needremove) := by
  obtain ⟨_, ⟨_, _, rfl⟩ | ⟨s, _, _, rfl, ⟨rfl, _⟩ | ⟨rfl, _⟩⟩⟩ := listenerRead_cases hr
  · exact h
  · exact ⟨h.owned.refuse hf, (congrArg List.length (refuse_buffer m s)).trans h.buffer, h.idle⟩
  · refine ⟨h.owned.enroll hf, (congrArg List.length (enroll_buffer m s)).trans h.buffer, ?_⟩
    intro t con hc ht
    rcases enroll_cases hc with ⟨_, _, rfl⟩ | ⟨_, hold⟩
    · exact NetConnection.new_idle _ _
    · exact h.idle hold ht

theorem Inv.poll {st st' : NetConnectionManager × List Int} {s : Int}
    {error readable writable : Bool} {calls : Calls} (h : Inv build st) (hs : s ∉ st.2)
    (hf : s = st.1.listener.socket → calls.accept.Fresh st.1.host)
    (hp : pollSocket build st s error readable writable calls = some st') : Inv build st' := by
  obtain ⟨⟨remove, m'⟩, hh, he⟩ := Option.bind_eq_some_iff.mp hp
  cases he
  have hsub : ∀ t ∈ st.2, t ∈ if remove then st.2 ++ [s] else st.2 := by
    intro t ht
    split
    next => exact List.mem_append_left _ ht
    next => exact ht
  rcases h.handle_cases hs hf hh with rfl | ⟨hl, ret, hr⟩ | ⟨_, con, host', con', hc, _, hserv, rfl⟩
  · exact h.grow hsub
  · exact (h.listenerRead (hf hl) hr).grow hsub
  · obtain ⟨es, hes⟩ := hserv.serves
    refine ⟨h.owned.serve hc hserv, hes.buffer.trans h.buffer, ?_⟩
    intro t c ht hn
    rcases insert_cases ht with ⟨rfl, rfl⟩ | ⟨_, hold⟩
    · refine hserv.idle ?_
      cases remove with
      | false => rfl
      | true => simp at hn
    · exact h.idle hold fun hh => hn (hsub t hh)

theorem Inv.new : Inv build (NetConnectionManager.new, []) :=
  ⟨Owned.new, by simp [NetConnectionManager.new], by simp [NetConnectionManager.new]⟩

theorem init_connections (m : NetConnectionManager) (listen : ListenCalls) (bridge : BridgeCalls) :
    (m.init build listen bridge).connections = m.connections := rfl

theorem Inv.removeConnection {m : NetConnectionManager} (h : Inv build (m, [])) (s : Int) :
    Inv build (m.removeConnection build s, []) := by
  unfold NetConnectionManager.removeConnection
  split
  next => exact h
  next con _ =>
    have hg : Inv build (m, [con.socket]) := h.grow (by simp)
    exact hg.sweep

theorem Inv.step {st st' : NetConnectionManager × List Int} (h : Inv build st)
    (hs : PollStep build st st') : Inv build st' := by
  cases hs with
  | init hl hf hb =>
    exact ⟨h.owned.init hl hf hb, by rw [(housekeeping_init _ _ _).buffer]; exact h.buffer, h.idle⟩
  | poll hs hf hp => exact h.poll hs hf hp
  | sweep => exact h.sweep
  | removeConnection s => exact h.removeConnection s
  | release =>
    exact ⟨h.owned.release, by rw [(housekeeping_release _).buffer]; exact h.buffer,
      by simp [NetConnectionManager.release]⟩

theorem Inv.run {st st' : NetConnectionManager × List Int} (h : Inv build st)
    (hr : Relation.ReflTransGen (PollStep build) st st') : Inv build st' := by
  induction hr with
  | refl => exact h
  | tail _ hs ih => exact ih.step hs

theorem PollReachable.inv {st : NetConnectionManager × List Int} (h : PollReachable build st) :
    Inv build st := Inv.new.run h

end

end NetConnectionManager

end CppTry
