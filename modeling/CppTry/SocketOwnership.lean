import CppTry.DescriptorBooks

namespace CppTry

namespace NetConnectionManager

/-- Who owns which descriptor: the map the accepted ones, the listener its own, and nobody
twice. -/
structure Owned (build : Build) (m : NetConnectionManager) : Prop where
  books : m.host.Books
  live (s : Int) : s ∈ m.connections ↔ Live s m.host.trace
  socket {s : Int} {con : NetConnection} : m.connections[s]? = some con → con.socket = s
  listener : m.listener.socket ∉ m.connections
  listening : m.listener.socket ≠ socketError → m.listener.socket ∈ m.host.opened
  epoll : build = .posix → ∀ s, s ∈ m.host.epoll ↔
    s ∈ m.connections ∨ s = m.listener.socket ∧ s ≠ socketError

section
variable {build : Build} {m : NetConnectionManager}

theorem mem_of_getElem? {s : Int} {con : NetConnection} (h : m.connections[s]? = some con) :
    s ∈ m.connections := Std.ExtTreeMap.mem_iff_isSome_getElem?.mpr (by rw [h]; rfl)

theorem exists_of_mem {s : Int} (h : s ∈ m.connections) :
    ∃ con, m.connections[s]? = some con :=
  Option.isSome_iff_exists.mp (Std.ExtTreeMap.mem_iff_isSome_getElem?.mp h)

theorem mem_insert_of_getElem? {s t : Int} {con con' : NetConnection}
    (h : m.connections[s]? = some con) : t ∈ m.connections.insert s con' ↔ t ∈ m.connections := by
  simp only [Std.ExtTreeMap.mem_insert, Std.compare_eq_iff_eq]
  constructor
  · intro ht
    rcases ht with rfl | ht
    · exact mem_of_getElem? h
    · exact ht
  · exact Or.inr

theorem Owned.mem_opened (h : m.Owned build) {s : Int} (hs : s ∈ m.connections) :
    s ∈ m.host.opened := h.books.mem_of_live ((h.live s).mp hs)

theorem Owned.ne_error (h : m.Owned build) {s : Int} (hs : s ∈ m.connections) : s ≠ socketError :=
  h.books.ne_error (h.mem_opened hs)

theorem Owned.fresh_not_mem (h : m.Owned build) {s : Int} (hf : m.host.Fresh s) :
    s ∉ m.connections := fun hs => hf.unused (h.mem_opened hs)

theorem Owned.fresh_ne_listener (h : m.Owned build) {s : Int} (hf : m.host.Fresh s) :
    s ≠ m.listener.socket := by
  intro he
  have hne := hf.ne_error
  rw [he] at hne
  exact hf.unused (he ▸ h.listening hne)

theorem Owned.fresh_not_epoll (h : m.Owned .posix) {s : Int} (hf : m.host.Fresh s) :
    s ∉ m.host.epoll := by
  rw [h.epoll rfl]
  rintro (hs | ⟨hs, _⟩)
  · exact h.fresh_not_mem hf hs
  · exact h.fresh_ne_listener hf hs

theorem Owned.handleSocket_listener (h : m.Owned build) {s : Int} (error readable writable : Bool)
    {calls : Calls} (hs : s = m.listener.socket) (hf : calls.accept.Fresh m.host) :
    m.handleSocket build s error readable writable calls =
      if error then some (true, m)
      else if readable then
        some (decide ((m.listenerRead build calls.accept).1 ≠ 0),
          (m.listenerRead build calls.accept).2)
      else some (false, m) := by
  refine NetConnectionManager.handleSocket_listener build error readable writable hs ?_ hf ?_
  · rw [hs]
    exact h.listener
  · by_cases he : s = socketError
    · exact Or.inr he
    · rw [hs] at he ⊢
      exact Or.inl (h.listening he)

theorem Owned.new : NetConnectionManager.new.Owned build where
  books := ⟨rfl, Lease.WellUsed.nil, by simp [NetConnectionManager.new]⟩
  live s := by
    have hn := not_live_nil s
    simp [NetConnectionManager.new, hn]
  socket := by simp [NetConnectionManager.new]
  listener := by simp [NetConnectionManager.new]
  listening h := absurd rfl h
  epoll := by simp [NetConnectionManager.new]

theorem Owned.serve (h : m.Owned build) {s : Int} {con con' : NetConnection} {host' : Host}
    {remove : Bool} (hc : m.connections[s]? = some con)
    (hs : Service m.host con remove host' con') :
    Owned build { m with host := host', connections := m.connections.insert s con' } := by
  obtain ⟨es, hes⟩ := hs.serves
  have hmem : ∀ t, t ∈ m.connections.insert s con' ↔ t ∈ m.connections :=
    fun t => mem_insert_of_getElem? hc
  refine ⟨hes.books h.books, ?_, ?_, ?_, ?_, ?_⟩
  · intro t
    simp only [hmem, hes.trace, live_traffic hes.traffic]
    exact h.live t
  · intro t c ht
    rcases insert_cases ht with ⟨rfl, rfl⟩ | ⟨_, hold⟩
    · rw [hs.socket, h.socket hc]
    · exact h.socket hold
  · simp only [hmem]
    exact h.listener
  · intro hne
    simp only [hes.opened]
    exact h.listening hne
  · intro hp t
    simp only [hmem, hes.epoll_mem]
    exact h.epoll hp t

theorem Owned.refuse (h : m.Owned build) {s : Int} (hf : m.host.Fresh s) :
    (m.refuse s).Owned build := by
  have hne := hf.ne_error
  have ho : ((m.host.accept s).safeCloseSocket s).opened = m.host.opened := by
    rw [Host.safeCloseSocket_opened hne]
    exact Finset.erase_insert hf.unused
  refine ⟨(h.books.accept hf).close (Finset.mem_insert_self _ _), ?_, h.socket, h.listener, ?_, ?_⟩
  · intro t
    change t ∈ m.connections ↔ Live t ((m.host.accept s).safeCloseSocket s).trace
    rw [Host.live_close hne, Host.live_accept, h.live]
    constructor
    · intro ht
      refine ⟨Or.inr ht, ?_⟩
      rintro rfl
      exact hf.unused (h.books.mem_of_live ht)
    · rintro ⟨ht | ht, hn⟩
      · exact absurd ht hn
      · exact ht
  · intro hl
    change m.listener.socket ∈ ((m.host.accept s).safeCloseSocket s).opened
    rw [ho]
    exact h.listening hl
  · intro hp t
    subst hp
    have hs := h.fresh_not_epoll hf
    change t ∈ ((m.host.accept s).safeCloseSocket s).epoll ↔ _
    rw [Host.mem_close_epoll hne]
    refine Iff.trans ?_ (h.epoll rfl t)
    constructor
    · exact fun hh => hh.1
    · intro ht
      refine ⟨ht, ?_⟩
      rintro rfl
      exact hs ht

theorem mem_enroll {s t : Int} : t ∈ (m.enroll build s).connections ↔ t = s ∨ t ∈ m.connections := by
  change t ∈ m.connections.insertIfNew s _ ↔ _
  rw [Std.ExtTreeMap.mem_insertIfNew, Std.compare_eq_iff_eq, @eq_comm _ s t]

theorem refuse_trace {s : Int} (h : s ≠ socketError) :
    (m.refuse s).host.trace = m.host.trace ++ [.accepted s, .closed s] := by
  rw [← List.singleton_append, ← List.append_assoc]
  exact Host.safeCloseSocket_trace h

theorem enroll_trace {s : Int} : (m.enroll build s).host.trace = (m.host.accept s).trace := by
  simp [enroll]

theorem enroll_opened {s : Int} : (m.enroll build s).host.opened = insert s m.host.opened := by
  simp [enroll, Host.accept]

theorem enroll_epoll {s t : Int} (h : m.Owned .posix) (hf : m.host.Fresh s) :
    t ∈ (m.enroll .posix s).host.epoll ↔ t = s ∨ t ∈ m.host.epoll := by
  have hs := h.fresh_not_epoll hf
  have he : (m.enroll .posix s).host.epoll = m.host.epoll.insert s _ :=
    Host.watch_epoll (Finset.mem_insert_self s m.host.opened) hs
  rw [he, Std.ExtTreeMap.mem_insert, Std.compare_eq_iff_eq, @eq_comm _ s t]

theorem Owned.enroll (h : m.Owned build) {s : Int} (hf : m.host.Fresh s) :
    (m.enroll build s).Owned build := by
  have hs := h.fresh_not_mem hf
  refine ⟨?_, ?_, ?_, ?_, ?_, ?_⟩
  · exact (h.books.accept hf).congr enroll_opened (by rw [enroll_trace])
  · intro t
    rw [mem_enroll, enroll_trace, Host.live_accept, h.live]
  · intro t c ht
    rcases enroll_cases ht with ⟨rfl, _, rfl⟩ | ⟨_, hold⟩
    · rfl
    · exact h.socket hold
  · rw [mem_enroll]
    rintro (he | he)
    · exact h.fresh_ne_listener hf he.symm
    · exact h.listener he
  · intro hl
    rw [enroll_opened]
    exact Finset.mem_insert_of_mem (h.listening hl)
  · rintro rfl t
    rw [enroll_epoll h hf, mem_enroll, h.epoll rfl, or_assoc]
    rfl

/-- The manager without the descriptor `s`, whoever owned it. -/
def without (m : NetConnectionManager) (s : Int) (host : Host) : NetConnectionManager :=
  { m with listener := if s = m.listener.socket then ⟨socketError⟩ else m.listener
           connections := m.connections.erase s
           host }

theorem Owned.without (h : m.Owned build) {s : Int} (hs : s ∈ m.host.opened) {host : Host}
    (ho : host.opened = m.host.opened.erase s) (ht : host.trace = m.host.trace ++ [.closed s])
    (he : build = .posix → ∀ t, t ∈ host.epoll ↔ t ∈ m.host.epoll ∧ t ≠ s) :
    (m.without s host).Owned build := by
  have hne := h.books.ne_error hs
  have hlist : (m.without s host).listener.socket =
      if s = m.listener.socket then socketError else m.listener.socket := by
    simp only [NetConnectionManager.without]
    split <;> rfl
  refine ⟨?_, ?_, ?_, ?_, ?_, ?_⟩
  · refine (h.books.close hs).congr ?_ ?_
    · rw [Host.safeCloseSocket_opened hne]
      exact ho
    · rw [Host.safeCloseSocket_trace hne]
      exact congrArg leases ht
  · intro t
    change t ∈ m.connections.erase s ↔ Live t host.trace
    rw [mem_erase_iff, ht, ← Host.safeCloseSocket_trace hne, Host.live_close hne, h.live]
  · intro t c hc
    change (m.connections.erase s)[t]? = some c at hc
    rw [Std.ExtTreeMap.getElem?_erase] at hc
    split at hc
    next => cases hc
    next => exact h.socket hc
  · rw [hlist]
    change _ ∉ m.connections.erase s
    rw [mem_erase_iff]
    split
    next => exact fun hh => h.ne_error hh.1 rfl
    next => exact fun hh => h.listener hh.1
  · rw [hlist]
    split
    next => exact fun hh => absurd rfl hh
    next hl =>
      intro hn
      change _ ∈ host.opened
      rw [ho]
      exact Finset.mem_erase_of_ne_of_mem (Ne.symm hl) (h.listening hn)
  · intro hp t
    rw [hlist]
    change t ∈ host.epoll ↔ t ∈ m.connections.erase s ∨ _
    rw [he hp, h.epoll hp, mem_erase_iff, or_and_right]
    refine or_congr_right ?_
    -- the listening socket goes with the descriptor when it is the one
    split
    next hl =>
      rw [← hl]
      exact iff_of_false (fun ht => ht.2 ht.1.1) fun ht => ht.2 ht.1
    next hl =>
      refine and_iff_left_of_imp ?_
      intro ht
      rw [ht.1]
      exact Ne.symm hl

theorem erase_eq_self {α : Type} {c : Std.ExtTreeMap Int α} {s : Int} (h : s ∉ c) :
    c.erase s = c := by
  ext1 k
  rw [Std.ExtTreeMap.getElem?_erase]
  split
  next hk =>
    rw [← Std.compare_eq_iff_eq.mp hk, Std.ExtTreeMap.getElem?_eq_none h]
  next => rfl

/-- `OnSocketClose` takes a descriptor from whoever owns it, and closes it. -/
theorem onSocketClose_owned (h : m.listener.socket ∉ m.connections) {s : Int}
    (hs : s ∈ m.connections ∨ s = m.listener.socket ∧ s ≠ socketError) :
    m.onSocketClose build s = m.without s ((m.host.unwatch build s).safeCloseSocket s) := by
  by_cases hl : s = m.listener.socket
  · subst hl
    simp only [NetConnectionManager.onSocketClose, without, if_true, erase_eq_self h, listenerClose]
  · obtain ⟨con, hc⟩ := exists_of_mem (hs.resolve_right fun hh => hl hh.1)
    simp only [NetConnectionManager.onSocketClose, getConnectionFromSocket, hc, without, if_neg hl]
    rfl

theorem onSocketClose_unowned {s : Int} (hc : s ∉ m.connections)
    (hl : s = m.listener.socket → s = socketError) :
    m.onSocketClose build s = { m with host := m.host.unwatch build s } := by
  have hnone := Std.ExtTreeMap.getElem?_eq_none hc
  by_cases hs : s = m.listener.socket
  · have hsock := hl hs
    have hself : m.listener = ⟨socketError⟩ := by
      have hsock' : m.listener.socket = socketError := by rw [← hs, hsock]
      cases hm : m.listener with
      | mk socket => rw [hm] at hsock'; exact congrArg NetListener.mk hsock'
    simp [NetConnectionManager.onSocketClose, hs, listenerClose, hself]
  · simp [NetConnectionManager.onSocketClose, hs, getConnectionFromSocket, hnone]

theorem Owned.onSocketClose (h : m.Owned build) (s : Int) : (m.onSocketClose build s).Owned build := by
  by_cases hs : s ∈ m.connections ∨ s = m.listener.socket ∧ s ≠ socketError
  · have ho : s ∈ m.host.opened := by
      rcases hs with hs | ⟨hs, hn⟩
      · exact h.mem_opened hs
      · rw [hs] at hn ⊢
        exact h.listening hn
    have hne := h.books.ne_error ho
    rw [onSocketClose_owned h.listener hs]
    refine h.without ho ?_ ?_ ?_
    · rw [Host.safeCloseSocket_opened hne, Host.unwatch_opened]
    · rw [Host.safeCloseSocket_trace hne, Host.unwatch_trace]
    · rintro rfl t
      rw [Host.mem_close_epoll hne, Host.mem_unwatch_epoll, and_assoc, and_self]
  · simp only [not_or, not_and, not_not] at hs
    rw [onSocketClose_unowned hs.1 hs.2]
    refine ⟨h.books.congr (by simp) (by simp), ?_, h.socket, h.listener, ?_, ?_⟩
    · intro t
      simp only [Host.unwatch_trace]
      exact h.live t
    · simp only [Host.unwatch_opened]
      exact h.listening
    · rintro rfl t
      simp only [Host.mem_unwatch_epoll, h.epoll rfl]
      constructor
      · exact fun hh => hh.1
      · intro ht
        refine ⟨ht, ?_⟩
        rintro rfl
        rcases ht with ht | ht
        · exact hs.1 ht
        · exact ht.2 (hs.2 ht.1)

end

end NetConnectionManager

end CppTry
