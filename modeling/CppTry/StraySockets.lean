import CppTry.BatchRuns

namespace CppTry

namespace NetConnectionManager

/-- An open descriptor that neither a connection nor the listener has. -/
structure Stray (m : NetConnectionManager) (s : Int) : Prop where
  opened : s ∈ m.host.opened
  connection : s ∉ m.connections
  listener : s ≠ m.listener.socket

section
variable {build : Build} {m m' : NetConnectionManager}

theorem stray_congr (ho : m'.host.opened = m.host.opened)
    (hc : ∀ t, t ∈ m'.connections ↔ t ∈ m.connections)
    (hl : m'.listener.socket = m.listener.socket) (t : Int) : m'.Stray t ↔ m.Stray t := by
  constructor
  · rintro ⟨h, h', h''⟩
    exact ⟨ho ▸ h, fun hh => h' ((hc t).mpr hh), hl ▸ h''⟩
  · rintro ⟨h, h', h''⟩
    exact ⟨ho ▸ h, fun hh => h' ((hc t).mp hh), hl ▸ h''⟩

/-- What has an owner leaves no stray behind when it is closed. -/
theorem Owned.stray_without (h : m.Owned build) {s : Int}
    (hs : s ∈ m.connections ∨ s = m.listener.socket ∧ s ≠ socketError) {host : Host}
    (ho : host.opened = m.host.opened.erase s) (t : Int) : (m.without s host).Stray t ↔ m.Stray t := by
  have hopened {t : Int} : t ∈ (m.without s host).host.opened ↔ t ≠ s ∧ t ∈ m.host.opened := by
    change t ∈ host.opened ↔ _
    rw [ho, Finset.mem_erase]
  have hmem {t : Int} : t ∈ (m.without s host).connections ↔ t ∈ m.connections ∧ t ≠ s :=
    mem_erase_iff
  have hlist : (m.without s host).listener.socket =
      if s = m.listener.socket then socketError else m.listener.socket := by
    simp only [NetConnectionManager.without]
    split <;> rfl
  constructor
  · rintro ⟨ht, hc, hl⟩
    obtain ⟨hne, ht⟩ := hopened.mp ht
    refine ⟨ht, fun hh => hc (hmem.mpr ⟨hh, hne⟩), ?_⟩
    rw [hlist] at hl
    split at hl
    next he => exact he ▸ hne
    next => exact hl
  · rintro ⟨ht, hc, hl⟩
    have hne : t ≠ s := by
      rintro rfl
      rcases hs with hs | ⟨hs, _⟩
      · exact hc hs
      · exact hl hs
    refine ⟨hopened.mpr ⟨hne, ht⟩, fun hh => hc (hmem.mp hh).1, ?_⟩
    rw [hlist]
    split
    next => exact h.books.ne_error ht
    next => exact hl

theorem Owned.stray_close (h : m.Owned build) (s t : Int) :
    (m.onSocketClose build s).Stray t ↔ m.Stray t := by
  by_cases hs : s ∈ m.connections ∨ s = m.listener.socket ∧ s ≠ socketError
  · have hne : s ≠ socketError := by
      rcases hs with hs | hs
      · exact h.ne_error hs
      · exact hs.2
    rw [onSocketClose_owned h.listener hs]
    refine h.stray_without hs ?_ t
    rw [Host.safeCloseSocket_opened hne, Host.unwatch_opened]
  · simp only [not_or, not_and, not_not] at hs
    rw [onSocketClose_unowned hs.1 hs.2]
    refine stray_congr ?_ ?_ ?_ t
    · exact Host.unwatch_opened build m.host s
    · exact fun _ => Iff.rfl
    · rfl

theorem Owned.stray_foldl_close (h : m.Owned build) (needremove : List Int) (t : Int) :
    (needremove.foldl (NetConnectionManager.onSocketClose build) m).Stray t ↔ m.Stray t := by
  induction needremove generalizing m with
  | nil => rfl
  | cons s needremove ih => exact (ih (h.onSocketClose s)).trans (h.stray_close s t)

theorem Owned.stray_listenerClose (h : m.Owned build) (t : Int) :
    m.listenerClose.Stray t ↔ m.Stray t := by
  by_cases hl : m.listener.socket = socketError
  · have ho : m.listenerClose.host.opened = m.host.opened := by
      change (m.host.safeCloseSocket m.listener.socket).opened = _
      rw [hl, Host.safeCloseSocket_error]
    exact stray_congr ho (fun _ => Iff.rfl) hl.symm t
  · have he : m.listenerClose =
        m.without m.listener.socket (m.host.safeCloseSocket m.listener.socket) := by
      simp only [NetConnectionManager.listenerClose, NetConnectionManager.without, if_true,
        erase_eq_self h.listener]
    rw [he]
    exact h.stray_without (Or.inr ⟨rfl, hl⟩) (Host.safeCloseSocket_opened hl) t

theorem Owned.stray_destroy_all (h : m.Owned build) {entries : List (Int × NetConnection)}
    (hm : ∀ e ∈ entries, m.connections[e.1]? = some e.2)
    (hd : entries.Pairwise fun a b => a.1 ≠ b.1) (t : Int) :
    Stray { m with
      connections := entries.foldl (fun c e => c.erase e.1) m.connections
      host := entries.foldl (fun host e => e.2.destroy host) m.host } t ↔ m.Stray t := by
  induction entries generalizing m with
  | nil => rfl
  | cons e entries ih =>
    have he := hm e (by simp)
    have hs := mem_of_getElem? he
    have hne := h.ne_error hs
    obtain ⟨hd1, hd2⟩ := List.pairwise_cons.mp hd
    have ho : (e.2.destroy m.host).opened = m.host.opened.erase e.1 := by
      rw [NetConnection.destroy, h.socket he]
      exact Host.safeCloseSocket_opened hne
    have hw : Owned build (m.without e.1 (e.2.destroy m.host)) := by
      rw [NetConnection.destroy, h.socket he]
      exact h.without (h.mem_opened hs) (Host.safeCloseSocket_opened hne)
        (Host.safeCloseSocket_trace hne) fun _ t => Host.mem_close_epoll hne
    have hstray := h.stray_without (Or.inl hs) ho t
    have hl : e.1 ≠ m.listener.socket := fun hh => h.listener (hh ▸ hs)
    simp only [NetConnectionManager.without, if_neg hl] at hw hstray
    refine (ih hw ?_ hd2).trans hstray
    intro f hf
    simp only [Std.ExtTreeMap.getElem?_erase, Std.compare_eq_iff_eq]
    rw [if_neg (hd1 f hf)]
    exact hm f (by simp [hf])

theorem Owned.stray_release (h : m.Owned build) (t : Int) : m.release.Stray t ↔ m.Stray t := by
  have hd := h.listenerClose.stray_destroy_all
    (fun e (he : e ∈ m.listenerClose.connections.toList) =>
      Std.ExtTreeMap.mem_toList_iff_getElem?_eq_some.mp he)
    (Std.ExtTreeMap.distinct_keys_toList.imp fun hne he => hne (Std.compare_eq_iff_eq.mpr he)) t
  rw [foldl_erase_toList] at hd
  exact hd.trans (h.stray_listenerClose t)

theorem stray_refuse {s : Int} (hf : m.host.Fresh s) (t : Int) :
    (m.refuse s).Stray t ↔ m.Stray t := by
  have ho : (m.refuse s).host.opened = m.host.opened := by
    change ((m.host.accept s).safeCloseSocket s).opened = _
    rw [Host.safeCloseSocket_opened hf.ne_error]
    exact Finset.erase_insert hf.unused
  exact stray_congr ho (fun _ => Iff.rfl) rfl t

theorem stray_enroll {s : Int} (hf : m.host.Fresh s) (t : Int) :
    (m.enroll build s).Stray t ↔ m.Stray t := by
  constructor
  · rintro ⟨ho, hc, hl⟩
    rw [enroll_opened, Finset.mem_insert] at ho
    rw [mem_enroll, not_or] at hc
    exact ⟨ho.resolve_left hc.1, hc.2, hl⟩
  · rintro ⟨ho, hc, hl⟩
    refine ⟨?_, ?_, hl⟩
    · rw [enroll_opened]
      exact Finset.mem_insert_of_mem ho
    · rw [mem_enroll, not_or]
      refine ⟨?_, hc⟩
      rintro rfl
      exact hf.unused ho

/-- Polling a socket neither leaves a stray nor takes one. -/
theorem Inv.stray_poll {st st' : NetConnectionManager × List Int} {s : Int}
    {error readable writable : Bool} {calls : Calls} (h : Inv build st) (hs : s ∉ st.2)
    (hf : s = st.1.listener.socket → calls.accept.Fresh st.1.host)
    (hp : pollSocket build st s error readable writable calls = some st') (t : Int) :
    st'.1.Stray t ↔ st.1.Stray t := by
  obtain ⟨⟨remove, m'⟩, hh, he⟩ := Option.bind_eq_some_iff.mp hp
  cases he
  rcases h.handle_cases hs hf hh with rfl | ⟨hl, ret, hr⟩ | ⟨_, con, host', con', hc, _, hserv, rfl⟩
  · rfl
  · have hfresh := hf hl
    obtain ⟨_, ⟨_, _, rfl⟩ | ⟨s, _, _, hacc, ⟨rfl, _⟩ | ⟨rfl, _⟩⟩⟩ := listenerRead_cases hr
    · rfl
    · rw [hacc] at hfresh
      exact stray_refuse hfresh t
    · rw [hacc] at hfresh
      exact stray_enroll hfresh t
  · obtain ⟨es, hes⟩ := hserv.serves
    refine stray_congr hes.opened ?_ ?_ t
    · exact fun _ => mem_insert_of_getElem? hc
    · rfl

/-- The socket of the bridge, where `NetAwakeBridge::Init` comes to its end. -/
def bridged (build : Build) (calls : BridgeCalls) : List Int :=
  if calls.socket ≠ socketError ∧ socketSetNonblocking build calls.nonblocking then [calls.socket]
  else []

theorem createListenSocket_opened_iff {host : Host} {listen : ListenCalls}
    (hf : listen.socket ≠ socketError → host.Fresh listen.socket) (t : Int) :
    t ∈ (createListenSocket build host listen).2.opened ↔ t ∈ host.opened ∨
      t = (createListenSocket build host listen).1 ∧ t ≠ socketError := by
  rcases createListenSocket_cases (rfl : createListenSocket build host listen = _) with
    ⟨hr, he | ⟨hn, he⟩⟩ | ⟨hr, hn, he⟩
  · rw [hr, he]
    exact (or_iff_left fun hh => hh.2 hh.1).symm
  · have ho : ((host.create listen.socket).safeCloseSocket listen.socket).opened = host.opened := by
      rw [Host.safeCloseSocket_opened hn]
      exact Finset.erase_insert (hf hn).unused
    rw [hr, he, ho]
    exact (or_iff_left fun hh => hh.2 hh.1).symm
  · rw [hr, he]
    change t ∈ insert listen.socket host.opened ↔ _
    rw [Finset.mem_insert, or_comm]
    refine or_congr_right (and_iff_left_of_imp ?_).symm
    rintro rfl
    exact hn

theorem awakeBridgeInit_opened_iff {bridge : Int} {host : Host} {calls : BridgeCalls}
    (hf : calls.socket ≠ socketError → host.Fresh calls.socket) (t : Int) :
    t ∈ (awakeBridgeInit build bridge host calls).2.opened ↔
      t ∈ host.opened ∨ t ∈ bridged build calls := by
  unfold awakeBridgeInit bridged
  split
  next hs => simp [hs]
  next hs =>
    dsimp only
    split
    next hb =>
      rw [Host.safeCloseSocket_opened hs, if_neg fun hh => hb hh.2]
      change t ∈ (insert calls.socket host.opened).erase calls.socket ↔ _
      rw [Finset.erase_insert (hf hs).unused]
      simp
    next hb =>
      rw [if_pos ⟨hs, not_not.mp hb⟩, List.mem_singleton]
      exact Finset.mem_insert.trans or_comm

/-- An `Init` leaves the socket of the bridge before it behind. -/
theorem Owned.stray_init (h : m.Owned build) (hl : m.listener.socket = socketError)
    {listen : ListenCalls} {bridge : BridgeCalls}
    (hf : listen.socket ≠ socketError → m.host.Fresh listen.socket)
    (hb : bridge.socket ≠ socketError →
      (createListenSocket build m.host listen).2.Fresh bridge.socket) (t : Int) :
    (m.init build listen bridge).Stray t ↔ m.Stray t ∨ t ∈ bridged build bridge := by
  have hlisten (t : Int) : t ∈ (createListenSocket build m.host listen).2.opened ↔ _ :=
    createListenSocket_opened_iff hf t
  have hopened : t ∈ (m.init build listen bridge).host.opened ↔
      (t ∈ m.host.opened ∨ t = (createListenSocket build m.host listen).1 ∧ t ≠ socketError) ∨
        t ∈ bridged build bridge := by
    have hinit : t ∈ (NetConnectionManager.awakeBridgeInit build m.awakeBridge _ bridge).2.opened ↔ _ :=
      awakeBridgeInit_opened_iff hb t
    rw [← hlisten, ← hinit]
    unfold NetConnectionManager.init
    dsimp only
    rw [Host.watch_opened]
  have hbridge : t ∈ bridged build bridge → t ∉ m.connections ∧
      t ≠ (createListenSocket build m.host listen).1 := by
    intro ht
    unfold bridged at ht
    split at ht
    next hs =>
      obtain rfl := List.mem_singleton.mp ht
      have hun := (hb hs.1).unused
      rw [hlisten, not_or] at hun
      exact ⟨fun hh => hun.1 (h.mem_opened hh), fun hh => hun.2 ⟨hh, hs.1⟩⟩
    next => cases ht
  constructor
  · rintro ⟨ho, hc, hls⟩
    rcases hopened.mp ho with (ho | ⟨he, _⟩) | ho
    · refine Or.inl ⟨ho, hc, ?_⟩
      rw [hl]
      exact h.books.ne_error ho
    · exact absurd he hls
    · exact Or.inr ho
  · rintro (⟨ho, hc, hls⟩ | ht)
    · refine ⟨hopened.mpr (Or.inl (Or.inl ho)), hc, ?_⟩
      change t ≠ (createListenSocket build m.host listen).1
      rcases createListenSocket_cases (rfl : createListenSocket build m.host listen = _) with
        ⟨hr, _⟩ | ⟨hr, hn, _⟩
      · rw [hr]
        exact h.books.ne_error ho
      · rw [hr]
        rintro rfl
        exact (hf hn).unused ho
    · obtain ⟨hc, hne⟩ := hbridge ht
      exact ⟨hopened.mpr (Or.inr ht), hc, hne⟩

theorem Underway.stray_run {want : Int → Poll} {ks js : List Int}
    {st st' : NetConnectionManager × List Int} (h : Underway build m want ks st) (hn : js.Nodup)
    (hd : js.Disjoint ks) (hr : js.foldlM (pollOne build want) st = some st') (t : Int) :
    st'.1.Stray t ↔ st.1.Stray t := by
  induction js generalizing st ks with
  | nil =>
    cases hr
    rfl
  | cons j js ih =>
    obtain ⟨hj, hn⟩ := List.nodup_cons.mp hn
    rw [List.foldlM_cons] at hr
    obtain ⟨st1, hp, hr⟩ := Option.bind_eq_some_iff.mp hr
    obtain ⟨hjk, hd⟩ := List.disjoint_cons_left.mp hd
    have hrest := ih (h.keep hjk hp) hn (List.disjoint_cons_right.mpr ⟨hj, hd⟩) hr
    exact hrest.trans (h.inv.stray_poll (fun hh => hjk (h.waiting hh)) (h.fresh_turn hjk) hp t)

/-- A batch changes none of the strays. -/
theorem Inv.stray_selectSocket (h : Inv build (m, [])) {poll : Option (List SocketEvent)}
    (ha : m.Allowed build (.select poll)) (hr : m.selectSocket build poll = some m') (t : Int) :
    m'.Stray t ↔ m.Stray t := by
  cases poll with
  | none =>
    cases hr
    rfl
  | some events =>
    obtain ⟨ks, hn, _, hpolls⟩ := selectSocket_polls h ha
    rw [hpolls] at hr
    obtain ⟨st, hst, rfl⟩ := Option.map_eq_some_iff.mp hr
    have hu : Underway build m (m.told build events) [] (m, []) := h.underway (told_fresh ha.2 _)
    have hinv : Inv build st := h.run (hu.run hn (by simp) hst)
    exact (hinv.owned.stray_foldl_close st.2 t).trans (hu.stray_run hn (by simp) hst t)

end

end NetConnectionManager

end CppTry
