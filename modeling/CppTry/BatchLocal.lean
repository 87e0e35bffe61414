import CppTry.BatchView

namespace CppTry

namespace NetConnectionManager

section
variable {build b : Build} {m : NetConnectionManager} {want : Int → Poll}
  {st st' : NetConnectionManager × List Int} {ks : List Int}

theorem seen_connection {t : Int} (hc : t ∈ m.connections) :
    m.seen t st = .connection st.1.connections[t]? (decide (t ∈ st.2)) := if_pos hc

theorem seen_listener (h : m.listener.socket ∉ m.connections) :
    m.seen m.listener.socket st =
      .listener (fun u => if u ∈ m.connections then none else st.1.connections[u]?)
        (ClosedSince m st.1) (decide (m.listener.socket ∈ st.2)) := by
  rw [seen, if_neg h, if_pos rfl]

theorem seen_other {t : Int} (hc : t ∉ m.connections) (hl : t ≠ m.listener.socket) :
    m.seen t st = .other (decide (t ∈ st.2)) := by
  rw [seen, if_neg hc, if_neg hl]

theorem Turn.mono (ht : Turn m ks st) (k : Int) (list : List Int) : Turn m (k :: ks) (st.1, list) :=
  ⟨ht.listener, ht.apart, ht.error, ht.buffer, ht.trace,
    fun hn hc => ht.idle (fun hh => hn (by simp [hh])) hc, ht.member,
    fun hn => ht.before fun hh => hn (by simp [hh])⟩

theorem closedSince_append {m' m'' : NetConnectionManager} {es : List NetEvent}
    (ht : ∃ fs, m'.host.trace = m.host.trace ++ fs) (he : m''.host.trace = m'.host.trace ++ es)
    (s : Int) : ClosedSince m m'' s ↔ ClosedSince m m' s ∨ .closed s ∈ es := by
  obtain ⟨fs, hf⟩ := ht
  unfold ClosedSince
  rw [he, hf, List.append_assoc, List.drop_left' rfl, List.drop_left' rfl, List.mem_append]

theorem Turn.keep_serve (ht : Turn m ks st) {t : Int} {con con' : NetConnection} {host' : Host}
    {remove : Bool} (hc : st.1.connections[t]? = some con)
    (hs : Service st.1.host con remove host' con') (list : List Int) :
    Turn m (t :: ks)
      ({ st.1 with host := host', connections := st.1.connections.insert t con' }, list) := by
  obtain ⟨es, hes⟩ := hs.serves
  have hmem : ∀ u, u ∈ st.1.connections.insert t con' ↔ u ∈ st.1.connections :=
    fun u => mem_insert_of_getElem? hc
  refine ⟨ht.listener, ?_, ?_, hes.buffer.trans ht.buffer, ?_, ?_, ?_, ?_⟩
  · simp only [hmem]
    exact ht.apart
  · simp only [hmem]
    exact ht.error
  · obtain ⟨fs, hf⟩ := ht.trace
    exact ⟨fs ++ es, by rw [← List.append_assoc, ← hf]; exact hes.trace⟩
  · intro u c hu huc
    simp only [List.mem_cons, not_or] at hu
    rcases insert_cases huc with ⟨he, _⟩ | ⟨_, hold⟩
    · exact absurd he hu.1
    · exact ht.idle hu.2 hold
  · intro u hu
    exact (hmem u).mpr (ht.member hu)
  · intro hn
    simp only [List.mem_cons, not_or] at hn
    obtain ⟨ho, ha, hsize, hkeys⟩ := ht.before hn.2
    refine ⟨hes.opened.trans ho, hes.allocated.trans ha, ?_, fun u => (hmem u).trans (hkeys u)⟩
    simp only [Std.ExtTreeMap.size_insert, Std.ExtTreeMap.contains_iff_mem]
    rw [if_pos (mem_of_getElem? hc)]
    exact hsize

theorem Turn.keep_enroll (ht : Turn m ks st) (h : Inv b (m, [])) {s : Int} (hf : m.host.Fresh s)
    (list : List Int) : Turn m (m.listener.socket :: ks) (st.1.enroll build s, list) := by
  have hne : m.listener.socket ≠ s := (h.owned.fresh_ne_listener hf).symm
  obtain ⟨fs, hfs⟩ := ht.trace
  refine ⟨ht.listener, ?_, ?_, ?_, ⟨fs ++ [.accepted s], ?_⟩, ?_, ?_, fun hn => absurd (by simp) hn⟩
  · rw [mem_enroll]
    rintro (hh | hh)
    · exact hne hh
    · exact ht.apart hh
  · rw [mem_enroll]
    rintro (hh | hh)
    · exact hf.ne_error hh.symm
    · exact ht.error hh
  · exact (congrArg List.length (enroll_buffer st.1 s)).trans ht.buffer
  · rw [← List.append_assoc, ← hfs]
    exact enroll_trace
  · intro t con htk hc
    rcases enroll_cases hc with ⟨_, _, rfl⟩ | ⟨_, hold⟩
    · exact NetConnection.new_idle _ _
    · exact ht.idle (fun hh => htk (by simp [hh])) hold
  · intro t htc
    exact mem_enroll.mpr (Or.inr (ht.member htc))

theorem Turn.keep_refuse (ht : Turn m ks st) {s : Int} (hf : m.host.Fresh s) (list : List Int) :
    Turn m (m.listener.socket :: ks) (st.1.refuse s, list) := by
  obtain ⟨fs, hfs⟩ := ht.trace
  refine ⟨ht.listener, ht.apart, ht.error, ?_, ⟨fs ++ [.accepted s, .closed s], ?_⟩, ?_, ht.member,
    fun hn => absurd (by simp) hn⟩
  · exact (congrArg List.length (refuse_buffer st.1 s)).trans ht.buffer
  · rw [← List.append_assoc, ← hfs]
    exact refuse_trace hf.ne_error
  · exact fun htk hc => ht.idle (fun hh => htk (by simp [hh])) hc

theorem Turn.keep_listener (ht : Turn m ks st) (h : Inv b (m, [])) (hp : Plan m want) :
    Turn m (m.listener.socket :: ks)
      (listenerTurn build (want m.listener.socket) m.listener.socket st) := by
  have hf := hp.fresh
  unfold listenerTurn
  split
  next => exact ht.mono _ _
  next =>
    split
    next =>
      split
      next => exact ht.mono _ _
      next s nonblocking linger he =>
        rw [he] at hf
        split
        next => exact ht.keep_enroll h hf _
        next => exact ht.keep_refuse hf _
    next => exact ht.mono _ _

/-- A connection's turn is seen through its own socket only. -/
theorem Turn.frame_serve (ht : Turn m ks st) {t j : Int} {con con' : NetConnection} {host' : Host}
    {remove : Bool} (htc : t ∈ m.connections)
    (hs : Service st.1.host con remove host' con') (hj : j ≠ t) :
    m.seen j ({ st.1 with host := host', connections := st.1.connections.insert t con' },
      if remove then st.2 ++ [t] else st.2) = m.seen j st := by
  obtain ⟨es, hes⟩ := hs.serves
  have hlook : ∀ u, u ≠ t → (st.1.connections.insert t con')[u]? = st.1.connections[u]? := by
    intro u hu
    simp only [Std.ExtTreeMap.getElem?_insert, Std.compare_eq_iff_eq]
    rw [if_neg (Ne.symm hu)]
  simp only [seen, mem_needremove hj, hlook j hj]
  split
  next => rfl
  next =>
    split
    next =>
      congr 1
      · funext u
        split
        next => rfl
        next hu => exact hlook u fun hh => hu (hh ▸ htc)
      · funext u
        refine propext ((closedSince_append ht.trace hes.trace u).trans ?_)
        simp only [or_iff_left_iff_imp]
        exact fun hh => absurd rfl ((hes.traffic _ hh).ne_closed u)
    next => rfl

theorem Turn.frame_listener (ht : Turn m ks st) (h : Inv b (m, [])) (hp : Plan m want)
    (hk : m.listener.socket ∉ ks) {j : Int} (hj : j ≠ m.listener.socket) :
    m.seen j (listenerTurn build (want m.listener.socket) m.listener.socket st) = m.seen j st := by
  obtain ⟨_, _, _, hkeys⟩ := ht.before hk
  have hf := hp.fresh
  have hadd : ∀ m', (j ∈ m.connections → m'.connections[j]? = st.1.connections[j]?) →
      m.seen j (m', st.2 ++ [m.listener.socket]) = m.seen j st := by
    intro m' hm'
    simp only [seen, List.mem_append, List.mem_singleton, hj, or_false, if_false]
    split
    next hc => rw [hm' hc]
    next => rfl
  unfold listenerTurn
  split
  next => exact hadd _ fun _ => rfl
  next =>
    split
    next =>
      split
      next => exact hadd _ fun _ => rfl
      next s nonblocking linger he =>
        rw [he] at hf
        have hf : m.host.Fresh s := hf
        split
        next =>
          simp only [seen, hj, if_false]
          split
          next hc =>
            rw [enroll_connections, if_neg]
            rintro ⟨rfl, _⟩
            exact h.owned.fresh_not_mem hf hc
          next => rfl
        next => exact hadd _ fun _ => rfl
    next => rfl

theorem Turn.newcomers_enroll (ht : Turn m ks st) (hk : m.listener.socket ∉ ks) {s : Int}
    (hs : s ∉ m.connections) (u : Int) :
    (if u ∈ m.connections then none else (st.1.enroll build s).connections[u]?) =
      if s = u then some ((NetConnection.new m.host.allocated).setSocket s)
      else if u ∈ m.connections then none else st.1.connections[u]? := by
  obtain ⟨_, ha, _, hkeys⟩ := ht.before hk
  rw [enroll_connections, ha]
  by_cases hsu : s = u
  · subst hsu
    rw [if_neg hs, if_pos ⟨rfl, fun hh => hs ((hkeys s).mp hh)⟩, if_pos rfl]
  · rw [if_neg (fun hh => hsu hh.1 : ¬ (s = u ∧ s ∉ st.1.connections)), if_neg hsu]

theorem Turn.own_listener (ht : Turn m ks st) (h : Inv b (m, [])) (hp : Plan m want)
    (hk : m.listener.socket ∉ ks) :
    some (m.seen m.listener.socket
      (listenerTurn build (want m.listener.socket) m.listener.socket st)) =
      update m want m.listener.socket (m.seen m.listener.socket st) := by
  have hf := hp.fresh
  have hl : m.listener.socket ∉ m.connections := h.owned.listener
  rw [seen_listener hl, seen_listener hl]
  unfold listenerTurn update
  split
  next => simp
  next =>
    split
    next =>
      split
      next => simp
      next s nonblocking linger he =>
        rw [he] at hf
        have hf : m.host.Fresh s := hf
        have hs : s ∉ m.connections := h.owned.fresh_not_mem hf
        split
        next =>
          congr 2
          · funext u
            exact ht.newcomers_enroll hk hs u
          · funext u
            have htr : (st.1.enroll build s).host.trace = st.1.host.trace ++ [.accepted s] :=
              enroll_trace
            refine propext ((closedSince_append ht.trace htr u).trans ?_)
            simp
        next =>
          simp only [List.mem_append, List.mem_singleton, or_true, decide_true]
          congr 2
          funext u
          refine propext ((closedSince_append ht.trace (refuse_trace hf.ne_error) u).trans ?_)
          simp
    next => rfl

theorem Turn.own_connection (ht : Turn m ks st) (h : Inv b (m, [])) {t : Int} (hk : t ∉ ks)
    (hc : t ∈ m.connections) :
    (pollOne build want st t).map (m.seen t) = update m want t (m.seen t st) := by
  obtain ⟨con, hcon, _, hpoll⟩ := ht.poll_connection h hk hc
  have hlocal := serve_eq_local build ht.buffer con (want t).error (want t).readable
    (want t).writable (want t).calls
  rw [hpoll, seen_connection hc, hcon, update, Option.bind_some, ← hlocal, Option.map_map,
    Option.map_map]
  congr 1
  funext r
  simp only [Function.comp, seen_connection hc, Std.ExtTreeMap.getElem?_insert_self]
  congr 1
  cases r.1 <;> simp

theorem Turn.own_poll (ht : Turn m ks st) (h : Inv b (m, [])) (hp : Plan m want) {k : Int}
    (hk : k ∉ ks) : (pollOne build want st k).map (m.seen k) = update m want k (m.seen k st) := by
  by_cases hl : k = m.listener.socket
  · subst hl
    rw [ht.poll_listener h hp hk, Option.map_some]
    exact ht.own_listener h hp hk
  · by_cases hc : k ∈ m.connections
    · exact ht.own_connection h hk hc
    · rw [hp.poll_quiet hc hl, Option.map_some, seen_other hc hl]
      rfl

theorem Turn.poll_isSome (ht : Turn m ks st) (h : Inv b (m, [])) (hp : Plan m want) {k : Int}
    (hk : k ∉ ks) (hu : update m want k (m.seen k st) ≠ none) :
    ∃ st', pollOne build want st k = some st' := by
  rw [← ht.own_poll h hp hk] at hu
  exact Option.ne_none_iff_exists'.mp fun hn => hu (by rw [hn, Option.map_none])

theorem pollOne_local (h : Inv b (m, [])) (hp : Plan m want) :
    KeyLocal (pollOne build want) m.seen (update m want) (Turn m) where
  keep {ks st st' k} ht hk hs := by
    by_cases hl : k = m.listener.socket
    · subst hl
      rw [ht.poll_listener h hp hk] at hs
      cases hs
      exact ht.keep_listener h hp
    · by_cases hc : k ∈ m.connections
      · obtain ⟨con, hcon, hidle, hpoll⟩ := ht.poll_connection h hk hc
        rw [hpoll] at hs
        obtain ⟨⟨remove, host', con'⟩, hserve, rfl⟩ := Option.map_eq_some_iff.mp hs
        exact ht.keep_serve hcon (serve_service hidle ht.buffer hserve) _
      · rw [hp.poll_quiet hc hl] at hs
        cases hs
        exact ht.mono k st.2
  own {ks st st' k} ht hk hs := by
    rw [← ht.own_poll h hp hk, hs, Option.map_some]
  frame {ks st st' j k} ht hk hs hj := by
    by_cases hl : k = m.listener.socket
    · subst hl
      rw [ht.poll_listener h hp hk] at hs
      cases hs
      exact ht.frame_listener h hp hk hj
    · by_cases hc : k ∈ m.connections
      · obtain ⟨con, hcon, hidle, hpoll⟩ := ht.poll_connection h hk hc
        rw [hpoll] at hs
        obtain ⟨⟨remove, host', con'⟩, hserve, rfl⟩ := Option.map_eq_some_iff.mp hs
        exact ht.frame_serve hc (serve_service hidle ht.buffer hserve) hj
      · rw [hp.poll_quiet hc hl] at hs
        cases hs
        rfl

end

end NetConnectionManager

end CppTry
