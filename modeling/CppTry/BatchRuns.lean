import CppTry.BatchOrder

namespace CppTry

namespace NetConnectionManager

/-- A batch that started in `m`, after the turns of the sockets `ks`. -/
structure Underway (build : Build) (m : NetConnectionManager) (want : Int → Poll) (ks : List Int)
    (st : NetConnectionManager × List Int) : Prop where
  inv : Inv build st
  listener : st.1.listener = m.listener
  waiting {t : Int} : t ∈ st.2 → t ∈ ks
  member {t : Int} : t ∈ m.connections → t ∈ st.1.connections
  fresh : m.listener.socket ∉ ks → (want m.listener.socket).calls.accept.Fresh st.1.host

section
variable {build : Build} {m m' : NetConnectionManager} {want : Int → Poll}
  {st st' : NetConnectionManager × List Int} {ks : List Int} {k : Int}

theorem Underway.fresh_turn (h : Underway build m want ks st) (hk : k ∉ ks)
    (hl : k = st.1.listener.socket) : (want k).calls.accept.Fresh st.1.host := by
  rw [h.listener] at hl
  rw [hl] at hk ⊢
  exact h.fresh hk

theorem Underway.keep (h : Underway build m want ks st) (hk : k ∉ ks)
    (hs : pollOne build want st k = some st') : Underway build m want (k :: ks) st' := by
  have hn : k ∉ st.2 := fun hh => hk (h.waiting hh)
  have hf := h.fresh_turn hk
  obtain ⟨hl, hw, ho⟩ := h.inv.poll_frame hn hf hs
  refine ⟨h.inv.poll hn hf hs, hl.trans h.listener, ?_, ?_, ?_⟩
  · intro t ht
    rcases hw t ht with ht | rfl
    · exact List.mem_cons_of_mem _ (h.waiting ht)
    · exact List.mem_cons_self
  · exact fun ht => (h.inv.poll_other hn hf hs (h.member ht)).1
  · intro hne
    rw [List.mem_cons, not_or] at hne
    refine (h.fresh hne.2).congr (ho ?_)
    rw [h.listener]
    exact fun hh => hne.1 hh.symm

theorem Underway.run (h : Underway build m want ks st) {js : List Int} (hn : js.Nodup)
    (hd : js.Disjoint ks) (hr : js.foldlM (pollOne build want) st = some st') :
    Relation.ReflTransGen (PollStep build) st st' := by
  induction js generalizing st ks with
  | nil =>
    cases hr
    exact .refl
  | cons j js ih =>
    obtain ⟨hj, hn⟩ := List.nodup_cons.mp hn
    rw [List.foldlM_cons] at hr
    obtain ⟨st1, hp, hr⟩ := Option.bind_eq_some_iff.mp hr
    obtain ⟨hjk, hd⟩ := List.disjoint_cons_left.mp hd
    exact .head (.poll (fun hh => hjk (h.waiting hh)) (h.fresh_turn hjk) hp)
      (ih (h.keep hjk hp) hn (List.disjoint_cons_right.mpr ⟨hj, hd⟩) hr)

theorem Inv.underway (h : Inv build (m, []))
    (hf : (want m.listener.socket).calls.accept.Fresh m.host) : Underway build m want [] (m, []) :=
  ⟨h, rfl, by simp, id, fun _ => hf⟩

theorem told_fresh {events : List SocketEvent} (hf : ∀ e ∈ events, e.calls.accept.Fresh m.host)
    (s : Int) : (m.told build events s).calls.accept.Fresh m.host := by
  cases build with
  | win => exact callsOf_fresh s hf
  | posix => exact callsOf_fresh s hf

/-- A batch is a run of polls and a sweep. -/
theorem selectSocket_run {events : List SocketEvent} (h : Inv build (m, []))
    (ha : m.Allowed build (.select (some events)))
    (hr : m.selectSocket build (some events) = some m') :
    Relation.ReflTransGen (PollStep build) (m, []) (m', []) := by
  obtain ⟨ks, hn, _, hpolls⟩ := selectSocket_polls h ha
  rw [hpolls] at hr
  obtain ⟨st, hst, rfl⟩ := Option.map_eq_some_iff.mp hr
  exact ((h.underway (told_fresh ha.2 _)).run hn (by simp) hst).tail .sweep

end

/-- The operations of the source are runs of polls, sweeps and the rest. -/
theorem Step.run {build : Build} {m m' : NetConnectionManager} (h : Inv build (m, []))
    (hs : Step build m m') : Relation.ReflTransGen (PollStep build) (m, []) (m', []) := by
  obtain ⟨op, ha, hr⟩ := hs
  cases op with
  | init listen bridge =>
    cases hr
    exact .single (.init ha.1 ha.2.1 ha.2.2)
  | select poll =>
    cases poll with
    | none =>
      cases hr
      exact .refl
    | some events => exact selectSocket_run h ha hr
  | removeConnection s =>
    cases hr
    exact .single (.removeConnection s)
  | release =>
    cases hr
    exact .single .release

theorem PollReachable.run {build : Build} {m m' : NetConnectionManager}
    (h : PollReachable build (m, [])) (hr : Relation.ReflTransGen (Step build) m m') :
    Relation.ReflTransGen (PollStep build) (m, []) (m', []) := by
  induction hr with
  | refl => exact .refl
  | tail _ hs ih => exact ih.trans (hs.run (PollReachable.inv (Relation.ReflTransGen.trans h ih)))

theorem Reachable.poll {build : Build} {m : NetConnectionManager} (h : Reachable build m) :
    PollReachable build (m, []) := PollReachable.run .refl h

theorem Reachable.inv {build : Build} {m : NetConnectionManager} (h : Reachable build m) :
    Inv build (m, []) := h.poll.inv

end NetConnectionManager

end CppTry
