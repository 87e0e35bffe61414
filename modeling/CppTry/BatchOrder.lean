import CppTry.BatchPolls

namespace CppTry

/-- Nothing is reported of the socket. -/
structure Poll.Quiet (p : Poll) : Prop where
  error : p.error = false
  readable : p.readable = false
  writable : p.writable = false

/-- What a list of events says about the socket `s`. -/
def pollOf (events : List SocketEvent) (s : Int) : Poll where
  socket := s
  error := events.any fun e => e.socket == s && e.isError
  readable := events.any fun e => e.socket == s && e.isReadable
  writable := events.any fun e => e.socket == s && e.isWritable
  calls := callsOf events s

section
variable {events events' : List SocketEvent}

theorem eq_of_socket_eq (hn : (events.map SocketEvent.socket).Nodup) {e f : SocketEvent}
    (he : e ∈ events) (hf : f ∈ events) (h : e.socket = f.socket) : e = f :=
  List.inj_on_of_nodup_map hn he hf h

theorem any_socket (hn : (events.map SocketEvent.socket).Nodup) {e : SocketEvent} (he : e ∈ events)
    (f : SocketEvent → Bool) : (events.any fun x => x.socket == e.socket && f x) = f e := by
  rw [Bool.eq_iff_iff, List.any_eq_true]
  constructor
  · rintro ⟨x, hx, hh⟩
    simp only [Bool.and_eq_true, beq_iff_eq] at hh
    rw [← eq_of_socket_eq hn hx he hh.1]
    exact hh.2
  · intro hh
    exact ⟨e, he, by simp [hh]⟩

theorem find?_socket (hn : (events.map SocketEvent.socket).Nodup) {e : SocketEvent}
    (he : e ∈ events) : events.find? (·.socket == e.socket) = some e := by
  cases hf : events.find? (·.socket == e.socket) with
  | none =>
    have := List.find?_eq_none.mp hf e he
    simp at this
  | some x =>
    have hx := List.find?_some hf
    rw [eq_of_socket_eq hn (List.mem_of_find?_eq_some hf) he (by simpa using hx)]

theorem callsOf_event (hn : (events.map SocketEvent.socket).Nodup) {e : SocketEvent}
    (he : e ∈ events) : callsOf events e.socket = e.calls := by
  rw [callsOf, find?_socket hn he]

/-- Where there is one event for a socket, it is what is said of it. -/
theorem pollOf_event (hn : (events.map SocketEvent.socket).Nodup) {e : SocketEvent}
    (he : e ∈ events) : pollOf events e.socket = e.poll := by
  simp only [pollOf, SocketEvent.poll, any_socket hn he, callsOf_event hn he]

theorem pollOf_none {s : Int} (hs : s ∉ events.map SocketEvent.socket) :
    pollOf events s = ⟨s, false, false, false, ⟨.failed 0, .failed 0, .failed 0⟩⟩ := by
  have hne : ∀ e ∈ events, (e.socket == s) = false := by
    intro e he
    rw [beq_eq_false_iff_ne]
    rintro rfl
    exact hs (List.mem_map_of_mem he)
  have hany : ∀ f : SocketEvent → Bool, (events.any fun e => e.socket == s && f e) = false := by
    intro f
    rw [List.any_eq_false]
    intro e he
    simp [hne e he]
  have hfind : events.find? (·.socket == s) = none := by
    rw [List.find?_eq_none]
    intro e he
    simp [hne e he]
  simp only [pollOf, hany, callsOf, hfind]

theorem pollOf_quiet {s : Int} (hs : s ∉ events.map SocketEvent.socket) :
    (pollOf events s).Quiet := by
  rw [pollOf_none hs]
  exact ⟨rfl, rfl, rfl⟩

theorem pollOf_perm (hp : events'.Perm events) (hn : (events.map SocketEvent.socket).Nodup) :
    pollOf events' = pollOf events := by
  funext s
  have hn' : (events'.map SocketEvent.socket).Nodup := (hp.map _).nodup_iff.mpr hn
  by_cases hs : s ∈ events.map SocketEvent.socket
  · obtain ⟨e, he, rfl⟩ := List.mem_map.mp hs
    rw [pollOf_event hn he, pollOf_event hn' (hp.mem_iff.mpr he)]
  · rw [pollOf_none hs, pollOf_none fun hh => hs ((hp.map _).mem_iff.mp hh)]

end

namespace NetConnectionManager

def pollOne (build : Build) (want : Int → Poll) (st : NetConnectionManager × List Int) (s : Int) :
    Option (NetConnectionManager × List Int) :=
  pollSocket build st s (want s).error (want s).readable (want s).writable (want s).calls

theorem pollAll_map {build : Build} {want : Int → Poll} (h : ∀ s, (want s).socket = s)
    (st : NetConnectionManager × List Int) (ks : List Int) :
    pollAll build st (ks.map want) = ks.foldlM (pollOne build want) st := by
  rw [pollAll, List.foldlM_map]
  congr 1
  funext st s
  rw [pollOne, h]

theorem selectSocketLinux_polls (m : NetConnectionManager) {events : List SocketEvent}
    (hn : (events.map SocketEvent.socket).Nodup) :
    m.selectSocketLinux events =
      ((events.map SocketEvent.socket).foldlM (pollOne .posix (pollOf events)) (m, [])).map
        (sweep .posix) := by
  have hpolls : events.map SocketEvent.poll =
      (events.map SocketEvent.socket).map (pollOf events) := by
    rw [List.map_map]
    exact List.map_congr_left fun e he => (pollOf_event hn he).symm
  rw [selectSocketLinux_eq, hpolls, pollAll_map fun _ => rfl]

theorem mem_needremove {remove : Bool} {list : List Int} {s t : Int} (h : t ≠ s) :
    t ∈ (if remove then list ++ [s] else list) ↔ t ∈ list := by
  split
  next => simp [h]
  next => exact Iff.rfl

/-- What the polling loop is told about each socket. -/
def told (build : Build) (m : NetConnectionManager) (events : List SocketEvent) : Int → Poll :=
  match build with
  | .win => FdSets.poll (m.prepareSets.select events) events
  | .posix => pollOf events

section
variable {build : Build} {m : NetConnectionManager} {events : List SocketEvent}

theorem Inv.poll_listener (h : Inv build (m, [])) {want : Int → Poll}
    (hf : (want m.listener.socket).calls.accept.Fresh m.host) :
    ∃ st, pollOne build want (m, []) m.listener.socket = some st := by
  rw [pollOne, pollSocket, h.owned.handleSocket_listener _ _ _ rfl hf]
  split
  next => exact ⟨_, rfl⟩
  next => split <;> exact ⟨_, rfl⟩

theorem Owned.not_mem_sockets (h : m.Owned build) {s : Int} (hc : s ∉ m.connections)
    (p : NetConnection → Bool) :
    s ∉ ((m.connections.toList.map Prod.snd).filter p).map (·.socket) := by
  intro hs
  obtain ⟨con, hcon, hsock⟩ := List.mem_map.mp hs
  obtain ⟨e, he, rfl⟩ := List.mem_map.mp (List.mem_filter.mp hcon).1
  have hget := Std.ExtTreeMap.mem_toList_iff_getElem?_eq_some.mp he
  rw [h.socket hget] at hsock
  exact hc (hsock ▸ mem_of_getElem? hget)

/-- `select` reports only sockets it was asked about. -/
theorem Owned.told_win (h : m.Owned .win) {s : Int} (hc : s ∉ m.connections)
    (hl : s = m.listener.socket → s = socketError) : (m.told .win events s).Quiet := by
  have hcons := h.not_mem_sockets hc
  have hlist : s ∉ if m.listener.socket ≠ socketError then [m.listener.socket] else [] := by
    split
    next hne =>
      rw [List.mem_singleton]
      rintro rfl
      exact hne (hl rfl)
    next => simp
  have hall := hcons fun _ => true
  rw [List.filter_true] at hall
  refine ⟨decide_eq_false fun hs => ?_, decide_eq_false fun hs => ?_, decide_eq_false fun hs => ?_⟩
  · rcases List.mem_append.mp (List.mem_filter.mp hs).1 with hs | hs
    · exact hlist hs
    · exact hall hs
  · rcases List.mem_append.mp (List.mem_filter.mp hs).1 with hs | hs
    · exact hlist hs
    · exact hcons _ hs
  · exact hcons _ (List.mem_filter.mp hs).1

theorem mem_filter_any {l : List Int} {s : Int} {f : SocketEvent → Bool}
    (h : (events.any fun e => e.socket == s && f e) = true → s ∈ l) :
    decide (s ∈ l.filter fun s => events.any fun e => e.socket == s && f e) =
      events.any fun e => e.socket == s && f e := by
  by_cases hs : (events.any fun e => e.socket == s && f e) = true
  · simp only [hs, List.mem_filter, h hs, and_self, decide_true]
  · simp only [List.mem_filter, hs, Bool.false_eq_true, and_false, decide_false]

theorem mem_of_any {s : Int} {f : SocketEvent → Bool}
    (h : (events.any fun e => e.socket == s && f e) = true) :
    ∃ e ∈ events, e.socket = s ∧ f e = true := by
  obtain ⟨e, he, hh⟩ := List.any_eq_true.mp h
  simp only [Bool.and_eq_true, beq_iff_eq] at hh
  exact ⟨e, he, hh⟩

theorem told_win_eq {s : Int}
    (he : (pollOf events s).error = true → s ∈ m.prepareSets.exceptfds)
    (hr : (pollOf events s).readable = true → s ∈ m.prepareSets.readfds)
    (hw : (pollOf events s).writable = true → s ∈ m.prepareSets.writefds) :
    m.told .win events s = pollOf events s := by
  unfold told FdSets.poll pollOf FdSets.select
  dsimp only
  rw [mem_filter_any he, mem_filter_any hr, mem_filter_any hw]

theorem prepareSets_listener (hl : m.listener.socket ≠ socketError) :
    m.listener.socket ∈ m.prepareSets.exceptfds ∧ m.listener.socket ∈ m.prepareSets.readfds := by
  simp [prepareSets, hl]

theorem Inv.prepareSets_connection (h : Inv build (m, [])) {s : Int} {con : NetConnection}
    (hc : m.connections[s]? = some con) :
    s ∈ m.prepareSets.exceptfds ∧ s ∈ m.prepareSets.readfds ∧
      (con.isNeedWrite = true → s ∈ m.prepareSets.writefds) := by
  have hm : con ∈ m.connections.toList.map Prod.snd :=
    List.mem_map.mpr ⟨(s, con), Std.ExtTreeMap.mem_toList_iff_getElem?_eq_some.mpr hc, rfl⟩
  have hs := h.owned.socket hc
  have hread := (h.idle hc (by simp)).isNeedRead
  refine ⟨List.mem_append_right _ (List.mem_map.mpr ⟨con, hm, hs⟩), ?_, fun hw => ?_⟩
  · exact List.mem_append_right _ (List.mem_map.mpr ⟨con, List.mem_filter.mpr ⟨hm, hread⟩, hs⟩)
  · exact List.mem_map.mpr ⟨con, List.mem_filter.mpr ⟨hm, hw⟩, hs⟩

theorem told_listener (build : Build) (events : List SocketEvent)
    (hl : m.listener.socket ≠ socketError) :
    (m.told build events m.listener.socket).error = (pollOf events m.listener.socket).error ∧
      (m.told build events m.listener.socket).readable = (pollOf events m.listener.socket).readable ∧
      (m.told build events m.listener.socket).calls = callsOf events m.listener.socket := by
  cases build with
  | posix => exact ⟨rfl, rfl, rfl⟩
  | win =>
    obtain ⟨he, hr⟩ := prepareSets_listener hl
    exact ⟨mem_filter_any fun _ => he, mem_filter_any fun _ => hr, rfl⟩

theorem FdSets.count_eq_zero {sets : FdSets} (h : ¬ sets.count > 0) (ready : List SocketEvent)
    (s : Int) : (FdSets.poll sets ready s).Quiet := by
  obtain ⟨⟨hr, hw⟩, he⟩ : (sets.readfds = [] ∧ sets.writefds = []) ∧ sets.exceptfds = [] := by
    simpa [FdSets.count] using h
  exact ⟨by simp [FdSets.poll, he], by simp [FdSets.poll, hr], by simp [FdSets.poll, hw]⟩

theorem listenerPolls_turn (h : Inv .win (m, [])) (hf : ∀ e ∈ events, e.calls.accept.Fresh m.host) :
    ∃ (ls : List Int) (st : NetConnectionManager × List Int),
      (∀ s, s ∈ ls ↔ s = m.listener.socket ∧ s ≠ socketError) ∧ ls.Nodup ∧
      pollAll .win (m, []) (m.listenerPolls (m.prepareSets.select events) events) = some st ∧
      ls.foldlM (pollOne .win (m.told .win events)) (m, []) = some st ∧ Inv .win st ∧
      st.1.listener = m.listener ∧ ∀ t ∈ m.connections, t ∈ st.1.connections := by
  by_cases hl : m.listener.socket = socketError
  · refine ⟨[], (m, []), ?_, by simp, ?_, rfl, h, rfl, fun _ => id⟩
    · intro s
      simp only [List.not_mem_nil, false_iff, not_and, not_not]
      rintro rfl
      exact hl
    · rw [listenerPolls, if_neg (not_not.mpr hl)]
      rfl
  · have hw : m.listener.socket ∉ (m.prepareSets.select events).writefds := fun hs =>
      h.owned.not_mem_sockets h.owned.listener _ (List.mem_filter.mp hs).1
    have hfl : (m.told .win events m.listener.socket).calls.accept.Fresh m.host := callsOf_fresh _ hf
    obtain ⟨st, hpoll⟩ := h.poll_listener hfl
    have hfold : [m.listener.socket].foldlM (pollOne .win (m.told .win events)) (m, []) = some st := by
      simp [hpoll]
    refine ⟨[m.listener.socket], st, ?_, by simp, ?_, hfold, ?_, ?_, ?_⟩
    · intro s
      rw [List.mem_singleton]
      constructor
      · rintro rfl
        exact ⟨rfl, hl⟩
      · exact And.left
    · have hp : { FdSets.poll (m.prepareSets.select events) events m.listener.socket with
          writable := false } = m.told .win events m.listener.socket := by
        simp [told, FdSets.poll, hw]
      rw [listenerPolls, if_pos hl, hp, ← hfold]
      exact pollAll_map (fun _ => rfl) (m, []) [m.listener.socket]
    · exact h.poll (by simp) (fun _ => hfl) hpoll
    · exact (h.poll_frame (by simp) (fun _ => hfl) hpoll).1
    · exact fun t ht => (h.poll_other (by simp) (fun _ => hfl) hpoll ht).1

/-- `SelectSocketWin` is a loop over different sockets, the listener's first. -/
theorem selectSocketWin_polls (h : Inv .win (m, []))
    (hf : ∀ e ∈ events, e.calls.accept.Fresh m.host) :
    ∃ ks : List Int, ks.Nodup ∧ (∀ s ∉ ks, (m.told .win events s).Quiet) ∧
      m.selectSocketWin events =
        (ks.foldlM (pollOne .win (m.told .win events)) (m, [])).map (sweep .win) := by
  rw [selectSocketWin_eq]
  split
  next =>
    obtain ⟨ls, st, hls, hn, hpolls, hfold, hist, hlist, hkeep⟩ := listenerPolls_turn h hf
    have hcons : st.1.connectionPolls (m.prepareSets.select events) events =
        (st.1.connections.toList.map Prod.fst).map (m.told .win events) := by
      rw [connectionPolls, List.map_map]
      refine List.map_congr_left fun e he => ?_
      rw [hist.owned.socket (Std.ExtTreeMap.mem_toList_iff_getElem?_eq_some.mp he)]
      rfl
    refine ⟨ls ++ st.1.connections.toList.map Prod.fst, ?_, ?_, ?_⟩
    · refine List.nodup_append'.mpr ⟨hn, nodup_keys_toList _, ?_⟩
      intro s hs hk
      obtain ⟨rfl, _⟩ := (hls s).mp hs
      rw [← hlist] at hk
      exact hist.owned.listener (mem_keys_toList.mp hk)
    · intro s hs
      rw [List.mem_append, not_or, mem_keys_toList, hls] at hs
      refine h.owned.told_win (fun hc => hs.2 (hkeep s hc)) fun hl => ?_
      by_contra hne
      exact hs.1 ⟨hl, hne⟩
    · rw [hpolls, Option.bind_some, hcons, pollAll_map fun _ => rfl, List.foldlM_append, hfold]
      rfl
  next hcount => exact ⟨[], by simp, fun s _ => FdSets.count_eq_zero hcount events s, rfl⟩

/-- Both loops go over different sockets and pass over none of which something is reported. -/
theorem selectSocket_polls (h : Inv build (m, [])) (ha : m.Allowed build (.select (some events))) :
    ∃ ks : List Int, ks.Nodup ∧ (∀ s ∉ ks, (m.told build events s).Quiet) ∧
      m.selectSocket build (some events) =
        (ks.foldlM (pollOne build (m.told build events)) (m, [])).map (sweep build) := by
  cases build with
  | win => exact selectSocketWin_polls h ha.2
  | posix => exact ⟨_, ha.1, fun s hs => pollOf_quiet hs, selectSocketLinux_polls m ha.1⟩

end

end NetConnectionManager

end CppTry
