import CppTry.SocketRuns

namespace CppTry

namespace NetConnectionManager

/-- No descriptor of the map is the listener's, and none is the error value. -/
structure Apart (m : NetConnectionManager) : Prop where
  listener : m.listener.socket ∉ m.connections
  error : socketError ∉ m.connections

section
variable {build : Build} {m : NetConnectionManager}

theorem Owned.apart (h : m.Owned build) : m.Apart :=
  ⟨h.listener, fun hs => h.ne_error hs rfl⟩

theorem onSocketClose_connections (h : m.listener.socket ∉ m.connections) (s t : Int) :
    (m.onSocketClose build s).connections[t]? = if t = s then none else m.connections[t]? := by
  by_cases hs : s ∈ m.connections ∨ s = m.listener.socket ∧ s ≠ socketError
  · rw [onSocketClose_owned h hs]
    change (m.connections.erase s)[t]? = _
    simp only [Std.ExtTreeMap.getElem?_erase, Std.compare_eq_iff_eq, @eq_comm _ s t]
  · simp only [not_or, not_and, not_not] at hs
    rw [onSocketClose_unowned hs.1 hs.2]
    split
    next ht =>
      rw [ht]
      exact Std.ExtTreeMap.getElem?_eq_none hs.1
    next => rfl

theorem removeConnection_connections (hl : m.listener.socket ∉ m.connections) {s t : Int}
    {con : NetConnection} (hc : (m.removeConnection build s).connections[t]? = some con) :
    m.connections[t]? = some con := by
  unfold removeConnection at hc
  split at hc
  next => exact hc
  next =>
    rw [onSocketClose_connections hl] at hc
    split at hc
    next => cases hc
    next => exact hc

theorem onSocketClose_listener (m : NetConnectionManager) (s : Int) :
    (m.onSocketClose build s).listener =
      if s = m.listener.socket then ⟨socketError⟩ else m.listener := by
  unfold onSocketClose
  dsimp only
  split
  next => rfl
  next => split <;> rfl

theorem mem_onSocketClose (h : m.listener.socket ∉ m.connections) {s t : Int} :
    t ∈ (m.onSocketClose build s).connections ↔ t ∈ m.connections ∧ t ≠ s := by
  rw [Std.ExtTreeMap.mem_iff_isSome_getElem?, onSocketClose_connections h,
    Std.ExtTreeMap.mem_iff_isSome_getElem?]
  split
  next ht => simp [ht]
  next ht => simp [ht]

theorem Apart.onSocketClose (h : m.Apart) (s : Int) : (m.onSocketClose build s).Apart where
  listener := by
    rw [onSocketClose_listener, mem_onSocketClose h.listener]
    split
    next => exact fun hh => h.error hh.1
    next => exact fun hh => h.listener hh.1
  error := by
    rw [mem_onSocketClose h.listener]
    exact fun hh => h.error hh.1

theorem Apart.close_trace (h : m.Apart) (build : Build) (s : Int) :
    ∃ es, (m.onSocketClose build s).host.trace = m.host.trace ++ es ∧
      ∀ t, .closed t ∈ es ↔ t = s ∧ (t ∈ m.connections ∨ t = m.listener.socket ∧ t ≠ socketError) := by
  by_cases hs : s ∈ m.connections ∨ s = m.listener.socket ∧ s ≠ socketError
  · have hne : s ≠ socketError := by
      rcases hs with hs | hs
      · rintro rfl
        exact h.error hs
      · exact hs.2
    refine ⟨[.closed s], ?_, ?_⟩
    · rw [onSocketClose_owned h.listener hs]
      change ((m.host.unwatch build s).safeCloseSocket s).trace = _
      rw [Host.safeCloseSocket_trace hne, Host.unwatch_trace]
    · intro t
      simp only [List.mem_singleton, NetEvent.closed.injEq]
      constructor
      · rintro rfl
        exact ⟨rfl, hs⟩
      · exact fun hh => hh.1
  · refine ⟨[], ?_, ?_⟩
    · have hs := hs
      simp only [not_or, not_and, not_not] at hs
      rw [onSocketClose_unowned hs.1 hs.2]
      simp
    · intro t
      simp only [List.not_mem_nil, false_iff]
      rintro ⟨rfl, hh⟩
      exact hs hh

/-- The end of a batch: the listed sockets are gone and closed, and nothing else has changed. -/
structure Swept (m : NetConnectionManager) (needremove : List Int) (m' : NetConnectionManager) :
    Prop where
  connections (t : Int) : m'.connections[t]? = if t ∈ needremove then none else m.connections[t]?
  listener : m'.listener = if m.listener.socket ∈ needremove then ⟨socketError⟩ else m.listener
  trace : ∃ es, m'.host.trace = m.host.trace ++ es ∧ ∀ t, .closed t ∈ es ↔
    t ∈ needremove ∧ (t ∈ m.connections ∨ t = m.listener.socket ∧ t ≠ socketError)

theorem Apart.swept (h : m.Apart) (needremove : List Int) :
    m.Swept needremove (needremove.foldl (NetConnectionManager.onSocketClose build) m) := by
  induction needremove generalizing m with
  | nil => exact ⟨by simp, by simp, [], by simp, by simp⟩
  | cons s needremove ih =>
    obtain ⟨hc, hl, es, he, hes⟩ := ih (h.onSocketClose s)
    obtain ⟨fs, hf, hfs⟩ := h.close_trace build s
    refine ⟨?_, ?_, fs ++ es, ?_, ?_⟩
    · intro t
      rw [List.foldl_cons, hc, onSocketClose_connections h.listener]
      simp only [List.mem_cons]
      split
      next ht => simp [ht]
      next ht => simp [ht]
    · rw [List.foldl_cons, hl, onSocketClose_listener]
      by_cases hs : s = m.listener.socket
      · simp [hs]
      · simp [hs, Ne.symm hs]
    · rw [List.foldl_cons, he, hf, List.append_assoc]
    · intro t
      rw [List.mem_append, hes, hfs, mem_onSocketClose h.listener, onSocketClose_listener, List.mem_cons]
      by_cases hts : t = s
      · subst hts
        by_cases hl : t = m.listener.socket
        · simp only [hl, if_true]
          tauto
        · simp only [hl, if_false]
          tauto
      · by_cases hl : s = m.listener.socket
        · simp only [hl, if_true]
          rw [hl] at hts
          constructor
          · rintro (⟨ht, _⟩ | ⟨ht, ⟨hc, _⟩ | ⟨he, hn⟩⟩)
            · exact absurd ht hts
            · exact ⟨Or.inr ht, Or.inl hc⟩
            · exact absurd he hn
          · rintro ⟨ht, hc | ⟨he, _⟩⟩
            · exact Or.inr ⟨ht.resolve_left hts, Or.inl ⟨hc, hts⟩⟩
            · exact absurd he hts
        · simp only [hl, if_false]
          tauto

end

end NetConnectionManager

end CppTry
