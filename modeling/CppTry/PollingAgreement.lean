import CppTry.PollPlan
import CppTry.RunInvariants

namespace CppTry

namespace NetConnectionManager

section
variable {b : Build} {m : NetConnectionManager} {events events' : List SocketEvent}

theorem Inv.win (h : Inv b (m, [])) : Inv .win (m, []) :=
  ⟨⟨h.owned.books, h.owned.live, h.owned.socket, h.owned.listener, h.owned.listening, by simp⟩,
    h.buffer, h.idle⟩

theorem update_quiet {want : Int → Poll} {t : Int} (hq : (want t).Quiet) (v : Seen)
    (hv : ∀ remove, v ≠ .connection none remove) : update m want t v = some v := by
  obtain ⟨he, hr, hw⟩ := hq
  cases v with
  | connection con remove =>
    cases con with
    | none => exact absurd rfl (hv remove)
    | some con => simp [update, he, hr, hw, serveLocal, serve]
  | listener newcomers closed remove => simp [update, he, hr]
  | other remove => rfl

theorem seen_ne_none (t : Int) (remove : Bool) : m.seen t (m, []) ≠ .connection none remove := by
  unfold seen
  split
  next hc =>
    obtain ⟨con, hcon⟩ := exists_of_mem hc
    simp [hcon]
  next => split <;> simp

theorem Ready.update_ne_none (h : m.Ready events) (hi : Inv b (m, [])) (t : Int) :
    update m (pollOf events) t (m.seen t (m, [])) ≠ none := by
  unfold seen
  split
  next hc =>
    obtain ⟨con, hcon⟩ := exists_of_mem hc
    have hf : ∀ chunk, (pollOf events t).calls.recv = .received chunk →
        (packageFramer.parse (con.recvBuffer.contents ++ chunk.data)).2 ≠ .stop .negative := by
      intro chunk hr
      by_cases ht : t ∈ events.map SocketEvent.socket
      · obtain ⟨e, he, rfl⟩ := List.mem_map.mp ht
        rw [pollOf_event h.nodup he] at hr
        exact h.framed he hcon hr
      · rw [pollOf_none ht] at hr
        cases hr
    have hn : new.host.buffer.length = 1024 := by simp [new]
    obtain ⟨r, hr⟩ := serve_isSome .win (hi.idle hcon (by simp)) hn (pollOf events t).error
      (pollOf events t).readable (pollOf events t).writable hf
    simp [update, hcon, serveLocal, hr]
  next =>
    split
    next =>
      unfold update
      dsimp only
      split
      next => simp
      next =>
        split
        next =>
          split
          next => simp
          next => split <;> simp
        next => simp
    next => simp [update]

theorem Ready.selectSocketWin_polls (h : m.Ready events) (hi : Inv .win (m, [])) :
    ∃ ks : List Int, ks.Nodup ∧ (∀ s ∉ ks, (pollOf events s).Quiet) ∧
      m.selectSocketWin events =
        (ks.foldlM (pollOne .win (pollOf events)) (m, [])).map (sweep .win) := by
  have ht : m.told .win events = pollOf events := funext fun s => h.told_win hi s
  rw [← ht]
  exact NetConnectionManager.selectSocketWin_polls hi fun _ => h.fresh

theorem Turn.apart_turn {ks : List Int} {st : NetConnectionManager × List Int} (h : Turn m ks st) :
    st.1.Apart := ⟨by rw [h.listener]; exact h.apart, h.error⟩

section
variable {st st' : NetConnectionManager × List Int}

/-- All that a batch has done is seen through its sockets. -/
theorem agree_of_seen (hl : m.listener.socket ∉ m.connections)
    (h : ∀ t, m.seen t st = m.seen t st') :
    st.1.connections = st'.1.connections ∧ (∀ t, t ∈ st.2 ↔ t ∈ st'.2) ∧
      ∀ t, ClosedSince m st.1 t ↔ ClosedSince m st'.1 t := by
  have hlist := h m.listener.socket
  rw [seen_listener hl, seen_listener hl, Seen.listener.injEq, decide_eq_decide] at hlist
  obtain ⟨hnew, hclosed, hrem⟩ := hlist
  refine ⟨?_, ?_, fun t => by rw [hclosed]⟩
  · ext1 t
    by_cases ht : t ∈ m.connections
    · have hc := h t
      rw [seen_connection ht, seen_connection ht, Seen.connection.injEq] at hc
      exact hc.1
    · simpa only [if_neg ht] using congrFun hnew t
  · intro t
    have hc := h t
    by_cases ht : t ∈ m.connections
    · rw [seen_connection ht, seen_connection ht, Seen.connection.injEq, decide_eq_decide] at hc
      exact hc.2
    · by_cases he : t = m.listener.socket
      · rw [he]
        exact hrem
      · rw [seen_other ht he, seen_other ht he, Seen.other.injEq, decide_eq_decide] at hc
        exact hc

theorem sweep_agree {build build' : Build} {ks ks' : List Int} (ht : Turn m ks st)
    (ht' : Turn m ks' st') (hc : st.1.connections = st'.1.connections)
    (hr : ∀ t, t ∈ st.2 ↔ t ∈ st'.2) (hs : ∀ t, ClosedSince m st.1 t ↔ ClosedSince m st'.1 t) :
    (sweep build st).connections = (sweep build' st').connections ∧
      (sweep build st).listener = (sweep build' st').listener ∧
      ∀ t, ClosedSince m (sweep build st) t ↔ ClosedSince m (sweep build' st') t := by
  have hl : st.1.listener = st'.1.listener := ht.listener.trans ht'.listener.symm
  have hsw : st.1.Swept st.2 (sweep build st) := ht.apart_turn.swept st.2
  have hsw' : st'.1.Swept st'.2 (sweep build' st') := ht'.apart_turn.swept st'.2
  refine ⟨?_, ?_, ?_⟩
  · ext1 t
    rw [hsw.connections, hsw'.connections, hc]
    simp only [hr]
  · rw [hsw.listener, hsw'.listener, hl]
    simp only [hr]
  · intro t
    obtain ⟨es, he, hes⟩ := hsw.trace
    obtain ⟨es', he', hes'⟩ := hsw'.trace
    rw [closedSince_append ht.trace he, closedSince_append ht'.trace he', hs, hes, hes', hc, hl, hr]

end

/-- Both polling loops make the same of the same readiness, in whatever order `epoll_wait`
reports it. -/
theorem selectSocket_agree (h : Reachable b m) (hsize : m.connections.size < 60)
    (hr : m.Ready events) (hp : events'.Perm events) :
    ∃ m1 m2, m.selectSocketLinux events' = some m1 ∧ m.selectSocketWin events = some m2 ∧
      m1.connections = m2.connections ∧ m1.listener = m2.listener ∧
      ∀ s, ClosedSince m m1 s ↔ ClosedSince m m2 s := by
  have hi := h.inv
  have hn' : (events'.map SocketEvent.socket).Nodup := (hp.map _).nodup_iff.mpr hr.nodup
  obtain ⟨ks, hnk, hquiet, hwin⟩ := hr.selectSocketWin_polls hi.win
  have hposix := m.selectSocketLinux_polls hn'
  rw [pollOf_perm hp hr.nodup] at hposix
  have hkl : KeyLocal (pollOne .posix (pollOf events)) m.seen (update m (pollOf events)) (Turn m) :=
    pollOne_local hi hr.plan
  have hkw : KeyLocal (pollOne .win (pollOf events)) m.seen (update m (pollOf events)) (Turn m) :=
    pollOne_local hi hr.plan
  have ht := Turn.new hi hsize
  obtain ⟨st1, h1⟩ := hkl.foldlM_isSome (fun ht hk hu => ht.poll_isSome hi hr.plan hk hu) hn'
    (by simp) ht fun t _ => hr.update_ne_none hi t
  obtain ⟨st2, h2⟩ := hkw.foldlM_isSome (fun ht hk hu => ht.poll_isSome hi hr.plan hk hu) hnk
    (by simp) ht fun t _ => hr.update_ne_none hi t
  have hseen : ∀ t, m.seen t st1 = m.seen t st2 := by
    refine hkl.foldlM_agree hkw hn' hnk ht ht ?_ h1 h2
    intro t hne
    have hq : (pollOf events t).Quiet := by
      by_cases hk : t ∈ ks
      · exact pollOf_quiet fun hh => hne ⟨fun _ => hk, fun _ => (hp.map _).mem_iff.mpr hh⟩
      · exact hquiet t hk
    exact update_quiet hq _ (seen_ne_none t)
  obtain ⟨hc, hrem, hclosed⟩ := agree_of_seen hi.owned.listener hseen
  have ht1 := (hkl.foldlM_spec hn' (by simp) ht h1).1
  have ht2 := (hkw.foldlM_spec hnk (by simp) ht h2).1
  refine ⟨sweep .posix st1, sweep .win st2, ?_, ?_, sweep_agree ht1 ht2 hc hrem hclosed⟩
  · rw [hposix, h1]
    rfl
  · rw [hwin, h2]
    rfl

end

/-- The client on 5 hangs up while another one comes on 6. -/
theorem oneClient_agree :
    ∃ m1 m2, oneClient.selectSocketLinux [acceptEvent 6, readEvent .ended] = some m1 ∧
      oneClient.selectSocketWin [readEvent .ended, acceptEvent 6] = some m2 ∧
      m1.connections = m2.connections ∧ m1.listener = m2.listener ∧
      ∀ s, ClosedSince oneClient m1 s ↔ ClosedSince oneClient m2 s := by
  refine selectSocket_agree reachable_oneClient oneClient_size ⟨?_, ?_, ?_, ?_, ?_⟩ (.swap _ _ [])
  · decide
  · intro e he
    rw [List.mem_pair] at he
    rcases he with rfl | rfl
    · exact Or.inr ⟨_, oneClient_connection, by decide⟩
    · exact Or.inl ⟨rfl, by decide, by decide⟩
  · intro e he
    rw [List.mem_pair] at he
    rcases he with rfl | rfl
    · trivial
    · exact ⟨by decide, by decide, by decide⟩
  · intro e he
    rw [List.mem_pair] at he
    rcases he with rfl | rfl <;> rfl
  · intro e con chunk he _ hr
    rw [List.mem_pair] at he
    rcases he with rfl | rfl <;> cases hr

end NetConnectionManager

end CppTry
