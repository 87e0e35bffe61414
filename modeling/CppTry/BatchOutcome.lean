import CppTry.BatchRuns
import CppTry.KeyedFold
import CppTry.LocalService

namespace CppTry

/-- Why the listener is put on the `needremove` list. -/
def Poll.dropsListener (build : Build) (p : Poll) : Bool :=
  p.error || p.readable && !p.calls.accept.succeeds build

/-- What a batch has made so far of a socket: its connection, and whether it is to go. -/
structure Fate where
  con : Option NetConnection
  remove : Bool

namespace NetConnectionManager

def fate (m : NetConnectionManager) (t : Int) (st : NetConnectionManager × List Int) : Fate where
  con := if t ∈ m.connections then st.1.connections[t]? else none
  remove := decide ((t ∈ m.connections ∨ t = m.listener.socket) ∧ t ∈ st.2)

def nextFate (build : Build) (m : NetConnectionManager) (want : Int → Poll) (t : Int) (f : Fate) :
    Option Fate :=
  if t ∈ m.connections then f.con.bind fun con =>
    (serveLocal con (want t).error (want t).readable (want t).writable (want t).calls).map fun r =>
      ⟨some r.2, f.remove || r.1⟩
  else if t = m.listener.socket then some ⟨none, f.remove || (want t).dropsListener build⟩
  else some ⟨none, false⟩

section
variable {build : Build} {m m' : NetConnectionManager} {want : Int → Poll}
  {st st' : NetConnectionManager × List Int} {ks : List Int} {k : Int}

theorem fate_connection (hc : k ∈ m.connections) :
    m.fate k st = ⟨st.1.connections[k]?, decide (k ∈ st.2)⟩ := by
  simp [fate, hc]

theorem fate_listener (hl : m.listener.socket ∉ m.connections) :
    m.fate m.listener.socket st = ⟨none, decide (m.listener.socket ∈ st.2)⟩ := by
  simp [fate, hl]

theorem fate_other (hc : k ∉ m.connections) (hl : k ≠ m.listener.socket) :
    m.fate k st = ⟨none, false⟩ := by
  simp [fate, hc, hl]

theorem Underway.frame (h : Underway build m want ks st) (hk : k ∉ ks)
    (hs : pollOne build want st k = some st') {j : Int} (hj : j ≠ k) :
    m.fate j st' = m.fate j st := by
  have hn : k ∉ st.2 := fun hh => hk (h.waiting hh)
  have hf := h.fresh_turn hk
  have hrem : j ∈ st'.2 ↔ j ∈ st.2 := by
    obtain ⟨r, _, he⟩ := Option.bind_eq_some_iff.mp hs
    cases he
    exact mem_needremove hj
  by_cases hc : j ∈ m.connections
  · rw [fate_connection hc, fate_connection hc, (h.inv.poll_other hn hf hs (h.member hc)).2 hj]
    simp only [hrem]
  · simp only [fate, hc, hrem, if_false]

theorem Underway.own_connection (h : Underway build m want ks st) (hk : k ∉ ks)
    (hc : k ∈ m.connections) (hs : pollOne build want st k = some st') :
    nextFate build m want k (m.fate k st) = some (m.fate k st') := by
  obtain ⟨con, hcon⟩ := exists_of_mem (h.member hc)
  have hl : k ≠ st.1.listener.socket := by
    rintro rfl
    exact h.inv.owned.listener (h.member hc)
  have hn : k ∉ st.2 := fun hh => hk (h.waiting hh)
  rw [pollOne, pollSocket, handleSocket_connection build hl hcon] at hs
  obtain ⟨⟨remove, m1⟩, hh, he⟩ := Option.bind_eq_some_iff.mp hs
  cases he
  obtain ⟨⟨remove, host', con'⟩, hserve, he⟩ := Option.map_eq_some_iff.mp hh
  cases he
  have hlocal := serve_eq_local build h.inv.buffer con (want k).error (want k).readable
    (want k).writable (want k).calls
  rw [hserve, Option.map_some] at hlocal
  rw [fate_connection hc, fate_connection hc, nextFate, if_pos hc, hcon, Option.bind_some, ← hlocal,
    Option.map_some]
  cases remove <;> simp [hn]

theorem Underway.own_listener (h : Underway build m want ks st) (hk : k ∉ ks)
    (hc : m.listener.socket ∉ m.connections) (hl : k = m.listener.socket)
    (hs : pollOne build want st k = some st') :
    nextFate build m want k (m.fate k st) = some (m.fate k st') := by
  have hn : k ∉ st.2 := fun hh => hk (h.waiting hh)
  have hkl : k = st.1.listener.socket := by rw [h.listener, hl]
  have hret : ((st.1.listenerRead build (want k).calls.accept).1 = 0 ↔
      (want k).calls.accept.succeeds build = true) :=
    (listenerRead_cases (Eq.refl (st.1.listenerRead build (want k).calls.accept))).1
  rw [pollOne, pollSocket,
    h.inv.owned.handleSocket_listener _ _ _ hkl (h.fresh_turn hk hkl)] at hs
  obtain ⟨⟨remove, m1⟩, hh, he⟩ := Option.bind_eq_some_iff.mp hs
  cases he
  have hrem : remove = (want k).dropsListener build := by
    unfold Poll.dropsListener
    split at hh
    next herr =>
      cases hh
      simp [herr]
    next herr =>
      split at hh
      next hread =>
        cases hh
        simp [herr, hread, hret]
      next hread =>
        cases hh
        simp [herr, hread]
  rw [← hl] at hc
  subst hl
  rw [fate_listener hc, fate_listener hc, nextFate, if_neg hc, if_pos rfl, ← hrem]
  cases remove <;> simp [hn]

theorem pollOne_fate (hl : m.listener.socket ∉ m.connections) :
    KeyLocal (pollOne build want) m.fate (nextFate build m want) (Underway build m want) where
  keep h hk hs := h.keep hk hs
  own {ks st st' k} h hk hs := by
    by_cases hc : k ∈ m.connections
    · exact h.own_connection hk hc hs
    · by_cases he : k = m.listener.socket
      · exact h.own_listener hk hl he hs
      · rw [fate_other hc he, fate_other hc he, nextFate, if_neg hc, if_neg he]
  frame h hk hs hj := h.frame hk hs hj

theorem nextFate_quiet (hl : m.listener.socket ∉ m.connections) (hq : (want k).Quiet) :
    nextFate build m want k (m.fate k (m, [])) = some (m.fate k (m, [])) := by
  obtain ⟨he, hr, hw⟩ := hq
  by_cases hc : k ∈ m.connections
  · simp [fate_connection hc, nextFate, hc, he, hr, hw, serveLocal, serve]
  · by_cases hk : k = m.listener.socket
    · subst hk
      simp [fate_listener hl, nextFate, hl, Poll.dropsListener, he, hr]
    · simp [fate_other hc hk, nextFate, hc, hk]

/-- What a batch does to the listener and to each connection that was there before it. -/
theorem selectSocket_outcome {events : List SocketEvent} (h : Inv build (m, []))
    (ha : m.Allowed build (.select (some events)))
    (hr : m.selectSocket build (some events) = some m') :
    m'.listener = (if (m.told build events m.listener.socket).dropsListener build = true
      then ⟨socketError⟩ else m.listener) ∧
    ∀ s con, m.connections[s]? = some con → ∃ remove con',
      serveLocal con (m.told build events s).error (m.told build events s).readable
        (m.told build events s).writable (m.told build events s).calls = some (remove, con') ∧
      m'.connections[s]? = if remove = true then none else some con' := by
  obtain ⟨ks, hn, hquiet, hpolls⟩ := selectSocket_polls h ha
  rw [hpolls] at hr
  obtain ⟨st, hst, rfl⟩ := Option.map_eq_some_iff.mp hr
  obtain ⟨hu, hin, hout⟩ := (pollOne_fate h.owned.listener).foldlM_spec hn (by simp)
    (h.underway (told_fresh ha.2 _)) hst
  have hsw : st.1.Swept st.2 (sweep build st) := hu.inv.owned.apart.swept st.2
  have hall : ∀ t, nextFate build m (m.told build events) t (m.fate t (m, [])) =
      some (m.fate t st) := by
    intro t
    by_cases ht : t ∈ ks
    · exact hin t ht
    · rw [hout t ht]
      exact nextFate_quiet h.owned.listener (hquiet t ht)
  refine ⟨?_, ?_⟩
  · have hlist := hall m.listener.socket
    rw [fate_listener h.owned.listener, fate_listener h.owned.listener, nextFate,
      if_neg h.owned.listener, if_pos rfl] at hlist
    have hdrop : (m.told build events m.listener.socket).dropsListener build =
        decide (m.listener.socket ∈ st.2) := by
      simpa using hlist
    rw [hsw.listener, hu.listener, hdrop]
    simp only [decide_eq_true_eq]
  · intro s con hc
    have hcon := hall s
    have hs := mem_of_getElem? hc
    rw [fate_connection hs, fate_connection hs, nextFate, if_pos hs, hc, Option.bind_some] at hcon
    obtain ⟨⟨remove, con'⟩, hserve, hf⟩ := Option.map_eq_some_iff.mp hcon
    obtain ⟨hget, hrem⟩ := Fate.mk.inj hf
    refine ⟨remove, con', hserve, ?_⟩
    rw [hsw.connections, ← hget]
    have hrem : remove = decide (s ∈ st.2) := by simpa using hrem
    rw [hrem]
    simp only [decide_eq_true_eq]

end

end NetConnectionManager

end CppTry
