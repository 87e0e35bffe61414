import CppTry.SocketRuns

namespace CppTry

namespace Host

/-- From `host` to `host'` sockets were created or closed, and nothing else has happened. -/
structure Housekeeping (host host' : Host) : Prop where
  allocated : host'.allocated = host.allocated
  buffer : host'.buffer = host.buffer
  trace : ∃ es, host'.trace = host.trace ++ es ∧ ∀ e ∈ es, ∃ s, e = .created s ∨ e = .closed s

theorem Housekeeping.refl (host : Host) : host.Housekeeping host := ⟨rfl, rfl, [], by simp, by simp⟩

theorem Housekeeping.trans {a b c : Host} (h : a.Housekeeping b) (k : b.Housekeeping c) :
    a.Housekeeping c := by
  obtain ⟨es, he, hes⟩ := h.trace
  obtain ⟨fs, hf, hfs⟩ := k.trace
  refine ⟨k.allocated.trans h.allocated, k.buffer.trans h.buffer, es ++ fs,
    by rw [hf, he, List.append_assoc], ?_⟩
  intro e hm
  rcases List.mem_append.mp hm with hm | hm
  · exact hes e hm
  · exact hfs e hm

theorem housekeeping_close (host : Host) (s : Int) : host.Housekeeping (host.safeCloseSocket s) := by
  by_cases hs : s = socketError
  · rw [hs, safeCloseSocket_error]
    exact .refl host
  · exact ⟨safeCloseSocket_allocated host s, safeCloseSocket_buffer host s, [.closed s],
      safeCloseSocket_trace hs, by simp⟩

theorem housekeeping_create (host : Host) (s : Int) : host.Housekeeping (host.create s) :=
  ⟨rfl, rfl, [.created s], rfl, by simp⟩

theorem housekeeping_watch (build : Build) (host : Host) (s : Int) (mask : UInt32) :
    host.Housekeeping (host.watch build s mask) :=
  ⟨watch_allocated build host s mask, watch_buffer build host s mask, [], by simp, by simp⟩

theorem housekeeping_unwatch (build : Build) (host : Host) (s : Int) :
    host.Housekeeping (host.unwatch build s) :=
  ⟨unwatch_allocated build host s, unwatch_buffer build host s, [], by simp, by simp⟩

end Host

namespace NetConnectionManager

section
variable {build : Build}

theorem housekeeping_init (m : NetConnectionManager) (listen : ListenCalls) (bridge : BridgeCalls) :
    m.host.Housekeeping (m.init build listen bridge).host := by
  have hl : m.host.Housekeeping (createListenSocket build m.host listen).2 := by
    obtain ⟨_, h | ⟨_, h⟩⟩ | ⟨_, _, h⟩ :=
      createListenSocket_cases (Eq.refl (createListenSocket build m.host listen))
    · rw [h]
      exact .refl _
    · rw [h]
      exact (m.host.housekeeping_create _).trans (Host.housekeeping_close _ _)
    · rw [h]
      exact m.host.housekeeping_create _
  have hb : ∀ host : Host, host.Housekeeping (awakeBridgeInit build m.awakeBridge host bridge).2 := by
    intro host
    unfold awakeBridgeInit
    split
    next => exact .refl host
    next =>
      dsimp only
      split
      next => exact (host.housekeeping_create _).trans (Host.housekeeping_close _ _)
      next => exact host.housekeeping_create _
  exact (hl.trans (hb _)).trans (Host.housekeeping_watch build _ _ _)

theorem housekeeping_onSocketClose (m : NetConnectionManager) (s : Int) :
    m.host.Housekeeping (m.onSocketClose build s).host := by
  have hu := m.host.housekeeping_unwatch build s
  unfold onSocketClose
  dsimp only
  split
  next => exact hu.trans (Host.housekeeping_close _ _)
  next =>
    split
    next => exact hu
    next con _ =>
      exact (hu.trans (Host.housekeeping_close _ _)).trans (Host.housekeeping_close _ s)

theorem housekeeping_sweep (m : NetConnectionManager) (needremove : List Int) :
    m.host.Housekeeping (needremove.foldl (onSocketClose build) m).host := by
  induction needremove generalizing m with
  | nil => exact .refl _
  | cons s needremove ih => exact (m.housekeeping_onSocketClose s).trans (ih _)

theorem housekeeping_removeConnection (m : NetConnectionManager) (s : Int) :
    m.host.Housekeeping (m.removeConnection build s).host := by
  unfold removeConnection
  split
  next => exact .refl _
  next con _ => exact m.housekeeping_onSocketClose con.socket

theorem housekeeping_release (m : NetConnectionManager) : m.host.Housekeeping m.release.host := by
  have hd : ∀ (entries : List (Int × NetConnection)) (host : Host),
      host.Housekeeping (entries.foldl (fun host entry => entry.2.destroy host) host) := by
    intro entries
    induction entries with
    | nil => exact fun host => .refl host
    | cons e entries ih => exact fun host => (host.housekeeping_close _).trans (ih _)
  exact (m.host.housekeeping_close _).trans (hd _ _)

end

end NetConnectionManager

end CppTry
