import CppTry.LeaseLog
import CppTry.NetRuns

namespace CppTry

/-- What an event does with a descriptor. -/
def NetEvent.lease : NetEvent → Option (Lease Int)
  | .created s => some (.take s)
  | .accepted s => some (.take s)
  | .closed s => some (.drop s)
  | _ => none

def leases (trace : List NetEvent) : List (Lease Int) := trace.filterMap NetEvent.lease

/-- The descriptor `s` was accepted and has not been closed since. -/
def Live (s : Int) (trace : List NetEvent) : Prop :=
  ∃ as bs, trace = as ++ .accepted s :: bs ∧ .closed s ∉ bs

theorem live_concat {s : Int} {trace : List NetEvent} {e : NetEvent} :
    Live s (trace ++ [e]) ↔ e = .accepted s ∨ Live s trace ∧ e ≠ .closed s := by
  constructor
  · rintro ⟨as, bs, ht, hn⟩
    rcases List.eq_nil_or_concat bs with rfl | ⟨cs, e', rfl⟩
    · obtain ⟨_, he⟩ := List.append_inj' ht rfl
      exact Or.inl (List.singleton_inj.mp he)
    · rw [List.concat_eq_append] at ht hn
      rw [← List.cons_append, ← List.append_assoc] at ht
      obtain ⟨hl, he⟩ := List.append_inj' ht rfl
      obtain rfl := List.singleton_inj.mp he
      simp only [List.mem_append, List.mem_singleton, not_or] at hn
      exact Or.inr ⟨⟨as, cs, hl, hn.1⟩, fun hh => hn.2 hh.symm⟩
  · rintro (rfl | ⟨⟨as, bs, rfl, hn⟩, he⟩)
    · exact ⟨trace, [], rfl, by simp⟩
    · exact ⟨as, bs ++ [e], by simp, by simpa [hn] using Ne.symm he⟩

theorem not_live_nil (s : Int) : ¬ Live s [] := by
  rintro ⟨as, bs, h, _⟩
  simp at h

theorem NetEvent.Traffic.lease_eq {n : Nat} {e : NetEvent} (h : e.Traffic n) : e.lease = none := by
  cases e <;> first | rfl | exact h.elim

theorem NetEvent.Traffic.ne_accepted {n : Nat} {e : NetEvent} (h : e.Traffic n) (s : Int) :
    e ≠ .accepted s := by
  rintro rfl
  exact h

theorem NetEvent.Traffic.ne_closed {n : Nat} {e : NetEvent} (h : e.Traffic n) (s : Int) :
    e ≠ .closed s := by
  rintro rfl
  exact h

theorem live_traffic {s : Int} {n : Nat} {trace es : List NetEvent} (h : ∀ e ∈ es, e.Traffic n) :
    Live s (trace ++ es) ↔ Live s trace := by
  induction es using List.reverseRecOn with
  | nil => simp
  | append_singleton es e ih =>
    have he := h e (by simp)
    rw [← List.append_assoc, live_concat, ih fun x hx => h x (by simp [hx])]
    simp [he.ne_accepted s, he.ne_closed s]

theorem leases_traffic {n : Nat} {trace es : List NetEvent} (h : ∀ e ∈ es, e.Traffic n) :
    leases (trace ++ es) = leases trace := by
  have hnil : es.filterMap NetEvent.lease = [] :=
    List.filterMap_eq_nil_iff.mpr fun e he => (h e he).lease_eq
  rw [leases, List.filterMap_append, hnil, List.append_nil, leases]

theorem mem_held_of_live {s : Int} {trace : List NetEvent} (h : Live s trace) :
    s ∈ Lease.held (leases trace) := by
  obtain ⟨as, bs, rfl, hn⟩ := h
  have hl : leases (as ++ .accepted s :: bs) = leases as ++ .take s :: leases bs := by
    simp [leases, NetEvent.lease]
  rw [hl]
  refine Lease.mem_held_of_take _ ?_
  intro hm
  obtain ⟨e, he, hd⟩ := List.mem_filterMap.mp hm
  cases e with
  | closed t =>
    cases hd
    exact hn he
  | _ => cases hd

theorem take_not_mem_leases {s : Int} {trace : List NetEvent} (ha : .accepted s ∉ trace)
    (hc : .created s ∉ trace) : .take s ∉ leases trace := by
  intro hm
  obtain ⟨e, he, hd⟩ := List.mem_filterMap.mp hm
  cases e with
  | accepted t =>
    cases hd
    exact ha he
  | created t =>
    cases hd
    exact hc he
  | _ => cases hd

theorem count_leases_drop (s : Int) (trace : List NetEvent) :
    (leases trace).count (.drop s) = trace.count (.closed s) := by
  induction trace with
  | nil => rfl
  | cons e trace ih =>
    rw [leases] at ih ⊢
    cases e <;> simp [NetEvent.lease, List.filterMap_cons, List.count_cons, ih]

theorem mem_erase_iff {α : Type} {c : Std.ExtTreeMap Int α} {s t : Int} :
    t ∈ c.erase s ↔ t ∈ c ∧ t ≠ s := by
  rw [Std.ExtTreeMap.mem_erase, ne_eq, Std.compare_eq_iff_eq, and_comm, @eq_comm _ s t]

namespace Host

/-- The open descriptors are those the trace says, and none was closed that was not open. -/
structure Books (host : Host) : Prop where
  opened : host.opened = Lease.held (leases host.trace)
  used : Lease.WellUsed (leases host.trace)
  range {s : Int} : s ∈ host.opened → 0 ≤ s ∧ s < 2 ^ 31

theorem Books.congr {host host' : Host} (h : host.Books) (ho : host'.opened = host.opened)
    (ht : leases host'.trace = leases host.trace) : host'.Books := by
  obtain ⟨h1, h2, h3⟩ := h
  refine ⟨by rw [ho, ht, h1], by rwa [ht], ?_⟩
  rw [ho]
  exact h3

theorem Books.mem_of_live {host : Host} (h : host.Books) {s : Int} (hs : Live s host.trace) :
    s ∈ host.opened := by
  rw [h.opened]
  exact mem_held_of_live hs

theorem Books.ne_error {host : Host} (h : host.Books) {s : Int} (hs : s ∈ host.opened) :
    s ≠ socketError := by
  have h0 := (h.range hs).1
  unfold socketError
  omega

theorem Books.watch_error {host : Host} (h : host.Books) {build : Build} {s : Int}
    (hs : s = socketError) (mask : UInt32) : host.watch build s mask = host := by
  cases build with
  | win => rfl
  | posix => rw [watch, epollAdd, if_neg fun hh => h.ne_error hh.1 hs]

theorem Books.take {host : Host} (h : host.Books) {s : Int} (hf : host.Fresh s) {e : NetEvent}
    (he : e.lease = some (.take s)) :
    Books { host with opened := insert s host.opened, trace := host.trace ++ [e] } := by
  have hl : leases (host.trace ++ [e]) = leases host.trace ++ [.take s] := by
    simp [leases, he]
  refine ⟨?_, ?_, ?_⟩
  · simp only [hl, Lease.held_concat, Lease.apply, h.opened]
  · simp only [hl]
    exact h.used.take (by rw [← h.opened]; exact hf.unused)
  · intro t ht
    rcases Finset.mem_insert.mp ht with rfl | ht
    · exact ⟨hf.nonneg, hf.bound⟩
    · exact h.range ht

theorem Books.create {host : Host} (h : host.Books) {s : Int} (hf : host.Fresh s) :
    (host.create s).Books := h.take hf rfl

theorem Books.accept {host : Host} (h : host.Books) {s : Int} (hf : host.Fresh s) :
    (host.accept s).Books := h.take hf rfl

theorem safeCloseSocket_opened {host : Host} {s : Int} (h : s ≠ socketError) :
    (host.safeCloseSocket s).opened = host.opened.erase s := by
  rw [safeCloseSocket, if_neg h]

theorem safeCloseSocket_epoll {host : Host} {s : Int} (h : s ≠ socketError) :
    (host.safeCloseSocket s).epoll = host.epoll.erase s := by
  rw [safeCloseSocket, if_neg h]

theorem mem_close_epoll {host : Host} {s t : Int} (h : s ≠ socketError) :
    t ∈ (host.safeCloseSocket s).epoll ↔ t ∈ host.epoll ∧ t ≠ s := by
  rw [safeCloseSocket_epoll h, mem_erase_iff]

theorem safeCloseSocket_trace {host : Host} {s : Int} (h : s ≠ socketError) :
    (host.safeCloseSocket s).trace = host.trace ++ [.closed s] := by
  rw [safeCloseSocket, if_neg h]

theorem Books.close {host : Host} (h : host.Books) {s : Int} (hs : s ∈ host.opened) :
    (host.safeCloseSocket s).Books := by
  have hne := h.ne_error hs
  have hl : leases (host.trace ++ [.closed s]) = leases host.trace ++ [.drop s] := by
    simp [leases, NetEvent.lease]
  refine ⟨?_, ?_, ?_⟩
  · rw [safeCloseSocket_opened hne, safeCloseSocket_trace hne, hl, Lease.held_concat, Lease.apply,
      h.opened]
  · rw [safeCloseSocket_trace hne, hl]
    exact h.used.drop (by rw [← h.opened]; exact hs)
  · intro t ht
    rw [safeCloseSocket_opened hne] at ht
    exact h.range (Finset.mem_of_mem_erase ht)

theorem watch_epoll {host : Host} {s : Int} {mask : UInt32} (ho : s ∈ host.opened)
    (hs : s ∉ host.epoll) : (host.watch .posix s mask).epoll = host.epoll.insert s mask := by
  rw [watch, epollAdd, if_pos ⟨ho, hs⟩]

theorem mem_unwatch_epoll {host : Host} {s t : Int} :
    t ∈ (host.unwatch .posix s).epoll ↔ t ∈ host.epoll ∧ t ≠ s := mem_erase_iff

theorem live_close {host : Host} {s t : Int} (h : s ≠ socketError) :
    Live t (host.safeCloseSocket s).trace ↔ Live t host.trace ∧ t ≠ s := by
  rw [safeCloseSocket_trace h, live_concat]
  simp [eq_comm]

theorem live_create {host : Host} {s t : Int} : Live t (host.create s).trace ↔ Live t host.trace := by
  change Live t (host.trace ++ [.created s]) ↔ _
  rw [live_concat]
  simp

theorem live_accept {host : Host} {s t : Int} :
    Live t (host.accept s).trace ↔ t = s ∨ Live t host.trace := by
  change Live t (host.trace ++ [.accepted s]) ↔ _
  rw [live_concat]
  simp [eq_comm]

theorem Serves.books {host host' : Host} {s : Int} {n : Nat} {es : List NetEvent}
    (h : host.Serves host' s n es) (hb : host.Books) : host'.Books :=
  hb.congr h.opened (by rw [h.trace, leases_traffic h.traffic])

end Host

end CppTry
