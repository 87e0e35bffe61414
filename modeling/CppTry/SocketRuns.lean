import CppTry.SocketOwnership

namespace CppTry

namespace NetConnectionManager

section
variable {build : Build} {m : NetConnectionManager}

theorem Owned.create (h : m.Owned build) {s : Int} (hf : m.host.Fresh s) (bridge : Int) :
    Owned build { m with awakeBridge := bridge, host := m.host.create s } where
  books := h.books.create hf
  live t := by rw [Host.live_create]; exact h.live t
  socket := h.socket
  listener := h.listener
  listening hl := Finset.mem_insert_of_mem (h.listening hl)
  epoll := h.epoll

theorem Owned.create_close (h : m.Owned build) {s : Int} (hf : m.host.Fresh s) :
    Owned build { m with host := (m.host.create s).safeCloseSocket s } := by
  have hne := hf.ne_error
  have ho : ((m.host.create s).safeCloseSocket s).opened = m.host.opened := by
    rw [Host.safeCloseSocket_opened hne]
    exact Finset.erase_insert hf.unused
  refine ⟨(h.books.create hf).close (Finset.mem_insert_self _ _), ?_, h.socket, h.listener, ?_, ?_⟩
  · intro t
    rw [Host.live_close hne, Host.live_create, ← h.live]
    constructor
    · intro ht
      refine ⟨ht, ?_⟩
      rintro rfl
      exact h.fresh_not_mem hf ht
    · exact fun hh => hh.1
  · intro hl
    rw [ho]
    exact h.listening hl
  · rintro rfl t
    rw [Host.mem_close_epoll hne]
    refine Iff.trans ?_ (h.epoll rfl t)
    constructor
    · exact fun hh => hh.1
    · intro ht
      refine ⟨ht, ?_⟩
      rintro rfl
      exact h.fresh_not_epoll hf ht

theorem createListenSocket_cases {host : Host} {listen : ListenCalls} {r : Int × Host}
    (h : createListenSocket build host listen = r) :
    r.1 = socketError ∧ (r.2 = host ∨ listen.socket ≠ socketError ∧
        r.2 = (host.create listen.socket).safeCloseSocket listen.socket) ∨
      r.1 = listen.socket ∧ listen.socket ≠ socketError ∧ r.2 = host.create listen.socket := by
  subst h
  unfold createListenSocket
  split
  next => exact Or.inl ⟨rfl, Or.inl rfl⟩
  next hs =>
    dsimp only
    split
    next => exact Or.inl ⟨rfl, Or.inr ⟨hs, rfl⟩⟩
    next => exact Or.inr ⟨rfl, hs, rfl⟩

theorem Owned.awakeBridgeInit (h : m.Owned build) {bridge : BridgeCalls}
    (hf : bridge.socket ≠ socketError → m.host.Fresh bridge.socket) :
    Owned build { m with
      awakeBridge := (NetConnectionManager.awakeBridgeInit build m.awakeBridge m.host bridge).1
      host := (NetConnectionManager.awakeBridgeInit build m.awakeBridge m.host bridge).2 } := by
  unfold NetConnectionManager.awakeBridgeInit
  split
  next => exact h
  next hs =>
    dsimp only
    split
    next => exact h.create_close (hf hs)
    next => exact h.create (hf hs) bridge.socket

theorem awakeBridgeInit_opened {bridge : Int} {host : Host} {calls : BridgeCalls} {s : Int}
    (hs : s ∈ host.opened) (hf : calls.socket ≠ socketError → host.Fresh calls.socket) :
    s ∈ (awakeBridgeInit build bridge host calls).2.opened := by
  unfold awakeBridgeInit
  split
  next => exact hs
  next hne =>
    dsimp only
    split
    next =>
      rw [Host.safeCloseSocket_opened hne]
      refine Finset.mem_erase_of_ne_of_mem ?_ (Finset.mem_insert_of_mem hs)
      rintro rfl
      exact (hf hne).unused hs
    next => exact Finset.mem_insert_of_mem hs

theorem Owned.listen (h : m.Owned build) (hl : m.listener.socket = socketError) {s : Int}
    (ho : s ∈ m.host.opened) (hc : s ∉ m.connections) (mask : UInt32) :
    Owned build { m with listener := ⟨s⟩, host := m.host.watch build s mask } := by
  have hne := h.books.ne_error ho
  cases build with
  | win =>
    exact ⟨h.books, h.live, h.socket, hc, fun _ => ho, fun hp => by cases hp⟩
  | posix =>
    have he : s ∉ m.host.epoll := by
      rw [h.epoll rfl]
      rintro (hh | ⟨hh, hn⟩)
      · exact hc hh
      · exact hn (hh.trans hl)
    refine ⟨h.books.congr (by simp) (by simp), ?_, h.socket, hc, fun _ => by simpa using ho, ?_⟩
    · intro t
      simpa using h.live t
    · intro _ t
      simp only [Host.watch_epoll ho he, Std.ExtTreeMap.mem_insert, Std.compare_eq_iff_eq,
        h.epoll rfl, hl]
      constructor
      · rintro (rfl | ht | ht)
        · exact Or.inr ⟨rfl, hne⟩
        · exact Or.inl ht
        · exact absurd ht.1 ht.2
      · rintro (ht | ⟨rfl, _⟩)
        · exact Or.inr (Or.inl ht)
        · exact Or.inl rfl

theorem Owned.init (h : m.Owned build) (hl : m.listener.socket = socketError) {listen : ListenCalls}
    {bridge : BridgeCalls} (hf : listen.socket ≠ socketError → m.host.Fresh listen.socket)
    (hb : bridge.socket ≠ socketError →
      (createListenSocket build m.host listen).2.Fresh bridge.socket) :
    (m.init build listen bridge).Owned build := by
  cases hr : createListenSocket build m.host listen with
  | mk s host1 =>
    rw [hr] at hb
    have h1 : Owned build { m with host := host1 } := by
      rcases createListenSocket_cases hr with ⟨_, he | ⟨hn, he⟩⟩ | ⟨_, hn, he⟩
      · rw [show host1 = m.host from he]
        exact h
      · rw [show host1 = _ from he]
        exact h.create_close (hf hn)
      · rw [show host1 = _ from he]
        exact h.create (hf hn) m.awakeBridge
    have h2 := h1.awakeBridgeInit hb
    have hinit : m.init build listen bridge =
        { m with
          listener := ⟨s⟩
          awakeBridge := (NetConnectionManager.awakeBridgeInit build m.awakeBridge host1 bridge).1
          host := (NetConnectionManager.awakeBridgeInit build m.awakeBridge host1 bridge).2.watch build s
            (epollIn ||| epollErr) } := by
      unfold NetConnectionManager.init
      rw [hr]
    rw [hinit]
    rcases createListenSocket_cases hr with ⟨hs, _⟩ | ⟨hs, hn, he⟩
    · rw [Host.Books.watch_error h2.books hs]
      have hlist : (⟨s⟩ : NetListener) = m.listener := congrArg NetListener.mk (hs.trans hl.symm)
      rw [hlist]
      exact h2
    · have ho : s ∈ host1.opened := by
        rw [show host1 = _ from he, show s = listen.socket from hs]
        exact Finset.mem_insert_self _ _
      have hc : s ∉ m.connections := by
        rw [show s = listen.socket from hs]
        exact h.fresh_not_mem (hf hn)
      exact h2.listen hl (awakeBridgeInit_opened ho hb) hc _

theorem Owned.listenerClose (h : m.Owned build) : m.listenerClose.Owned build := by
  by_cases hl : m.listener.socket = socketError
  · have he : m.listenerClose = m := by
      cases hm : m.listener with
      | mk s =>
        rw [hm] at hl
        simp only at hl
        subst hl
        simp only [NetConnectionManager.listenerClose, hm, Host.safeCloseSocket_error]
        rw [← hm]
    rw [he]
    exact h
  · have ho := h.listening hl
    have he : m.listenerClose =
        m.without m.listener.socket (m.host.safeCloseSocket m.listener.socket) := by
      simp only [NetConnectionManager.listenerClose, NetConnectionManager.without, if_true,
        erase_eq_self h.listener]
    rw [he]
    refine h.without ho (Host.safeCloseSocket_opened hl) (Host.safeCloseSocket_trace hl) ?_
    exact fun _ t => Host.mem_close_epoll hl

theorem Owned.destroy_all (h : m.Owned build) {entries : List (Int × NetConnection)}
    (hm : ∀ e ∈ entries, m.connections[e.1]? = some e.2)
    (hd : entries.Pairwise fun a b => a.1 ≠ b.1) :
    Owned build { m with
      connections := entries.foldl (fun c e => c.erase e.1) m.connections
      host := entries.foldl (fun host e => e.2.destroy host) m.host } := by
  induction entries generalizing m with
  | nil => exact h
  | cons e entries ih =>
    have he := hm e (by simp)
    have hs := mem_of_getElem? he
    have hne := h.ne_error hs
    obtain ⟨hd1, hd2⟩ := List.pairwise_cons.mp hd
    have hw : Owned build (m.without e.1 (e.2.destroy m.host)) := by
      rw [NetConnection.destroy, h.socket he]
      exact h.without (h.mem_opened hs) (Host.safeCloseSocket_opened hne)
        (Host.safeCloseSocket_trace hne) fun _ t => Host.mem_close_epoll hne
    have hl : e.1 ≠ m.listener.socket := fun hh => h.listener (hh ▸ hs)
    simp only [NetConnectionManager.without, if_neg hl] at hw
    refine ih hw ?_ hd2
    intro f hf
    simp only [Std.ExtTreeMap.getElem?_erase, Std.compare_eq_iff_eq]
    rw [if_neg (hd1 f hf)]
    exact hm f (by simp [hf])

theorem getElem?_foldl_erase {α : Type} (entries : List (Int × α)) (u : Std.ExtTreeMap Int α)
    (t : Int) : (entries.foldl (fun u e => u.erase e.1) u)[t]? =
      if t ∈ entries.map Prod.fst then none else u[t]? := by
  induction entries generalizing u with
  | nil => simp
  | cons e entries ih =>
    rw [List.foldl_cons, ih, Std.ExtTreeMap.getElem?_erase, List.map_cons]
    simp only [List.mem_cons, Std.compare_eq_iff_eq, @eq_comm _ e.1 t]
    split
    next hm => simp [hm]
    next hm => simp [hm]

theorem foldl_erase_toList {α : Type} (u : Std.ExtTreeMap Int α) :
    u.toList.foldl (fun u e => u.erase e.1) u = ∅ := by
  ext1 t
  rw [getElem?_foldl_erase]
  simp only [Std.ExtTreeMap.getElem?_empty, ite_eq_left_iff]
  intro hn
  by_contra hc
  obtain ⟨a, ha⟩ := Option.ne_none_iff_exists'.mp hc
  exact hn (List.mem_map.mpr ⟨(t, a), Std.ExtTreeMap.mem_toList_iff_getElem?_eq_some.mpr ha, rfl⟩)

theorem Owned.release (h : m.Owned build) : m.release.Owned build := by
  have hl := h.listenerClose
  have hd := hl.destroy_all
    (fun e (he : e ∈ m.listenerClose.connections.toList) =>
      Std.ExtTreeMap.mem_toList_iff_getElem?_eq_some.mp he)
    (Std.ExtTreeMap.distinct_keys_toList.imp fun hne he => hne (Std.compare_eq_iff_eq.mpr he))
  rw [foldl_erase_toList] at hd
  exact hd

theorem Owned.removeConnection (h : m.Owned build) (s : Int) :
    (m.removeConnection build s).Owned build := by
  unfold NetConnectionManager.removeConnection
  split
  next => exact h
  next con _ => exact h.onSocketClose con.socket

theorem Owned.foldl_close (h : m.Owned build) (needremove : List Int) :
    (needremove.foldl (NetConnectionManager.onSocketClose build) m).Owned build := by
  induction needremove generalizing m with
  | nil => exact h
  | cons s needremove ih => exact ih (h.onSocketClose s)

end

end NetConnectionManager

end CppTry
