import CppTry.RunInvariants

namespace CppTry

namespace Host

/-- From `host` to `host'` nothing was accepted and no connection was built. -/
structure NoAccept (host host' : Host) : Prop where
  allocated : host'.allocated = host.allocated
  trace : ∃ es, host'.trace = host.trace ++ es ∧ ∀ s, .accepted s ∉ es

theorem Housekeeping.noAccept {host host' : Host} (h : host.Housekeeping host') :
    host.NoAccept host' := by
  obtain ⟨es, he, hes⟩ := h.trace
  refine ⟨h.allocated, es, he, fun s hs => ?_⟩
  obtain ⟨t, ht | ht⟩ := hes _ hs
  · cases ht
  · cases ht

theorem Serves.noAccept {host host' : Host} {s : Int} {n : Nat} {es : List NetEvent}
    (h : host.Serves host' s n es) : host.NoAccept host' :=
  ⟨h.allocated, es, h.trace, fun t ht => (h.traffic _ ht).ne_accepted t rfl⟩

end Host

namespace NetConnectionManager

section
variable {build : Build} {m m' : NetConnectionManager}

/-- What a run that adds `es` to the trace leaves of the connections: one that is there after it
was there before, or was built on the way on a descriptor that was free then. -/
structure Later (m m' : NetConnectionManager) (es : List NetEvent) : Prop where
  trace : m'.host.trace = m.host.trace ++ es
  allocated : m.host.allocated ≤ m'.host.allocated
  origin {s : Int} {con' : NetConnection} : m'.connections[s]? = some con' →
    (∃ con, m.connections[s]? = some con ∧ con.serial = con'.serial ∧ .accepted s ∉ es) ∨
      m.host.allocated ≤ con'.serial ∧ con'.serial < m'.host.allocated ∧
        (s ∈ m.connections → .closed s ∈ es)
  gone {s : Int} : s ∈ m.connections → s ∉ m'.connections → .closed s ∈ es

theorem Later.refl (m : NetConnectionManager) : m.Later m [] :=
  ⟨by simp, le_refl _, fun hc => Or.inl ⟨_, hc, rfl, by simp⟩, fun h hn => absurd h hn⟩

theorem Later.trans {m'' : NetConnectionManager} {es fs : List NetEvent} (h : m.Later m' es)
    (k : m'.Later m'' fs) : m.Later m'' (es ++ fs) := by
  refine ⟨by rw [k.trace, h.trace, List.append_assoc], h.allocated.trans k.allocated, ?_, ?_⟩
  · intro s con' hc
    rcases k.origin hc with ⟨con1, hc1, hn1, ha1⟩ | ⟨hle, hlt, hcl⟩
    · rcases h.origin hc1 with ⟨con, hc0, hn0, ha0⟩ | ⟨hle, hlt, hcl⟩
      · exact Or.inl ⟨con, hc0, hn0.trans hn1, by simp [ha0, ha1]⟩
      · refine Or.inr ⟨hn1 ▸ hle, hn1 ▸ hlt.trans_le k.allocated, fun hs => ?_⟩
        exact List.mem_append_left _ (hcl hs)
    · refine Or.inr ⟨h.allocated.trans hle, hlt, fun hs => ?_⟩
      by_cases hm : s ∈ m'.connections
      · exact List.mem_append_right _ (hcl hm)
      · exact List.mem_append_left _ (h.gone hs hm)
  · intro s hs hn
    by_cases hm : s ∈ m'.connections
    · exact List.mem_append_right _ (k.gone hm hn)
    · exact List.mem_append_left _ (h.gone hs hm)

theorem Owned.gone (h : m.Owned build) (h' : m'.Owned build) {es : List NetEvent}
    (ht : m'.host.trace = m.host.trace ++ es) {s : Int} (hs : s ∈ m.connections)
    (hn : s ∉ m'.connections) : .closed s ∈ es := by
  by_contra hc
  obtain ⟨as, bs, he, hb⟩ := (h.live s).mp hs
  refine hn ((h'.live s).mpr ⟨as, bs ++ es, by rw [ht, he]; simp, ?_⟩)
  simp [hb, hc]

theorem Owned.later (h : m.Owned build) (h' : m'.Owned build) (hn : m.host.NoAccept m'.host)
    (hc : ∀ (s : Int) (con' : NetConnection), m'.connections[s]? = some con' →
      ∃ con, m.connections[s]? = some con ∧ con.serial = con'.serial) : ∃ es, m.Later m' es := by
  obtain ⟨es, ht, ha⟩ := hn.trace
  refine ⟨es, ht, hn.allocated.ge, fun {s con'} hs => ?_, fun hs hn => h.gone h' ht hs hn⟩
  obtain ⟨con, hcon, he⟩ := hc s con' hs
  exact Or.inl ⟨con, hcon, he, ha s⟩

theorem Owned.later_refuse (h : m.Owned build) {s : Int} (hf : m.host.Fresh s) :
    m.Later (m.refuse s) [.accepted s, .closed s] := by
  refine ⟨refuse_trace hf.ne_error, by simp [NetConnectionManager.refuse, Host.accept], ?_, fun hs hn => absurd hs hn⟩
  intro t con hc
  refine Or.inl ⟨con, hc, rfl, ?_⟩
  have hne : t ≠ s := by
    rintro rfl
    exact h.fresh_not_mem hf (mem_of_getElem? hc)
  simp [hne]

theorem Owned.later_enroll (h : m.Owned build) {s : Int} (hf : m.host.Fresh s) :
    m.Later (m.enroll build s) [.accepted s] := by
  refine ⟨by simp [NetConnectionManager.enroll, Host.accept], ?_, ?_, ?_⟩
  · simp [NetConnectionManager.enroll]
  · intro t con hc
    rcases enroll_cases hc with ⟨rfl, hn, rfl⟩ | ⟨hne, hold⟩
    · refine Or.inr ⟨le_refl m.host.allocated, ?_, fun hs => absurd hs hn⟩
      simp [NetConnectionManager.enroll, NetConnection.setSocket, NetConnection.new]
    · have hne : t ≠ s := hne.resolve_right (h.fresh_not_mem hf)
      exact Or.inl ⟨con, hold, rfl, by simp [hne]⟩
  · intro t ht hn
    exact absurd (mem_enroll.mpr (Or.inr ht)) hn

theorem Inv.later_poll {st st' : NetConnectionManager × List Int} {s : Int}
    {error readable writable : Bool} {calls : Calls} (h : Inv build st) (hs : s ∉ st.2)
    (hf : s = st.1.listener.socket → calls.accept.Fresh st.1.host)
    (hp : pollSocket build st s error readable writable calls = some st') :
    ∃ es, st.1.Later st'.1 es := by
  have ho := h.owned
  have ho' := (h.poll hs hf hp).owned
  obtain ⟨⟨remove, m'⟩, hh, he⟩ := Option.bind_eq_some_iff.mp hp
  cases he
  rcases h.handle_cases hs hf hh with rfl | ⟨hl, ret, hr⟩ | ⟨_, con, host', con', hc, _, hserv, rfl⟩
  · exact ⟨[], .refl _⟩
  · have hf := hf hl
    obtain ⟨_, ⟨_, _, rfl⟩ | ⟨t, _, _, he, ⟨rfl, _⟩ | ⟨rfl, _⟩⟩⟩ := listenerRead_cases hr
    · exact ⟨[], .refl _⟩
    · rw [he] at hf
      exact ⟨_, ho.later_refuse hf⟩
    · rw [he] at hf
      exact ⟨_, ho.later_enroll hf⟩
  · obtain ⟨es, hes⟩ := hserv.serves
    refine ho.later ho' hes.noAccept ?_
    intro t c ht
    rcases insert_cases ht with ⟨rfl, rfl⟩ | ⟨_, hold⟩
    · exact ⟨con, hc, hserv.serial.symm⟩
    · exact ⟨c, hold, rfl⟩

theorem PollStep.later {st st' : NetConnectionManager × List Int} (hs : PollStep build st st')
    (h : Inv build st) : ∃ es, st.1.Later st'.1 es := by
  have ho := h.owned
  have ho' := (h.step hs).owned
  cases hs with
  | init hl hlisten hbridge =>
    refine ho.later ho' (housekeeping_init _ _ _).noAccept ?_
    intro s con hc
    rw [init_connections] at hc
    exact ⟨con, hc, rfl⟩
  | poll hs hf hp => exact h.later_poll hs hf hp
  | @sweep m needremove =>
    refine ho.later ho' (housekeeping_sweep m needremove).noAccept ?_
    intro s con hc
    rw [(ho.apart.swept needremove).connections] at hc
    split at hc
    next => cases hc
    next => exact ⟨con, hc, rfl⟩
  | @removeConnection m s =>
    refine ho.later ho' (housekeeping_removeConnection m s).noAccept ?_
    intro t con hc
    exact ⟨con, removeConnection_connections ho.listener hc, rfl⟩
  | @release m =>
    refine ho.later ho' (housekeeping_release m).noAccept ?_
    intro s con hc
    exact absurd hc (by simp [NetConnectionManager.release])

theorem Inv.later {st st' : NetConnectionManager × List Int} (h : Inv build st)
    (hr : Relation.ReflTransGen (PollStep build) st st') : ∃ es, st.1.Later st'.1 es := by
  induction hr with
  | refl => exact ⟨[], .refl _⟩
  | tail hr hs ih =>
    obtain ⟨es, he⟩ := ih
    obtain ⟨fs, hf⟩ := hs.later (h.run hr)
    exact ⟨es ++ fs, he.trans hf⟩

theorem PollReachable.serial_lt {st : NetConnectionManager × List Int} (h : PollReachable build st)
    {s : Int} {con : NetConnection} (hc : st.1.connections[s]? = some con) :
    con.serial < st.1.host.allocated := by
  have hn : PollReachable build (new, []) := .refl
  obtain ⟨es, he⟩ := hn.inv.later h
  rcases he.origin hc with ⟨con0, hc0, _⟩ | ⟨_, hlt, _⟩
  · exact absurd hc0 (by simp [new])
  · exact hlt

/-- A descriptor that was closed and is live again was accepted after it was closed. -/
theorem live_after_close {s : Int} {trace es : List NetEvent} (h : Live s (trace ++ es))
    (hc : .closed s ∈ es) : ∃ as bs, es = as ++ .closed s :: bs ∧ .accepted s ∈ bs := by
  obtain ⟨as, bs, he, hn⟩ := h
  rcases List.append_eq_append_iff.mp he with ⟨xs, _, rfl⟩ | ⟨xs, _, hx⟩
  · have hx : .closed s ∈ xs := by simpa [hn] using hc
    obtain ⟨us, vs, rfl⟩ := List.append_of_mem hx
    exact ⟨us, vs ++ .accepted s :: bs, by simp, by simp⟩
  · have hm : .closed s ∈ NetEvent.accepted s :: bs := by
      rw [hx]
      exact List.mem_append_right _ hc
    exact absurd (by simpa using hm) hn

theorem Owned.wrap32_uniqueID (h : m.Owned build) {s : Int} {con : NetConnection}
    (hc : m.connections[s]? = some con) : wrap32 con.getUniqueID.toUInt64.toNat = s := by
  obtain ⟨h0, hs⟩ := h.books.range (h.mem_opened (mem_of_getElem? hc))
  have hn : con.getUniqueID.toUInt64.toNat = (s % 2 ^ 64).toNat := by
    rw [NetConnection.getUniqueID, h.socket hc]
    exact BitVec.toNat_ofInt s
  rw [hn, wrap32]
  omega

theorem Owned.getConnection_uniqueID (h : m.Owned build) {s : Int} {con : NetConnection}
    (hc : m.connections[s]? = some con) (m' : NetConnectionManager) :
    m'.getConnection con.getUniqueID.toUInt64 = m'.connections[s]? := by
  rw [getConnection, h.wrap32_uniqueID hc, getConnectionFromSocket]

theorem Later.same_or_reused {es : List NetEvent} (h : m.Later m' es) (ho : m'.Owned build) {s : Int}
    {con con' : NetConnection} (hc : m.connections[s]? = some con)
    (hlt : con.serial < m.host.allocated) (hc' : m'.connections[s]? = some con') :
    .closed s ∉ es ∧ con'.serial = con.serial ∨ .closed s ∈ es ∧ con.serial < con'.serial ∧
      ∃ as bs, es = as ++ .closed s :: bs ∧ .accepted s ∈ bs := by
  have hlive := (ho.live s).mp (mem_of_getElem? hc')
  rw [h.trace] at hlive
  by_cases hcl : .closed s ∈ es
  · obtain ⟨as, bs, hes, hacc⟩ := live_after_close hlive hcl
    refine Or.inr ⟨hcl, ?_, as, bs, hes, hacc⟩
    rcases h.origin hc' with ⟨_, _, _, hno⟩ | ⟨hle, _, _⟩
    · exact absurd (by rw [hes]; simp [hacc]) hno
    · omega
  · refine Or.inl ⟨hcl, ?_⟩
    rcases h.origin hc' with ⟨con0, hc0, hn, _⟩ | ⟨_, _, hgone⟩
    · rw [hc] at hc0
      cases hc0
      exact hn.symm
    · exact absurd (hgone (mem_of_getElem? hc)) hcl

/-- While its descriptor is open, a connection is what its id leads to; after that the id leads
nowhere or to a connection accepted later on the same descriptor, and only such two connections
of a run have one id. -/
theorem uniqueID_while_open {st st' : NetConnectionManager × List Int}
    (h : PollReachable build st) (hr : Relation.ReflTransGen (PollStep build) st st') {s : Int}
    {con : NetConnection} (hc : st.1.connections[s]? = some con) :
    st.1.getConnection con.getUniqueID.toUInt64 = some con ∧
      ∃ es, st'.1.host.trace = st.1.host.trace ++ es ∧
        (.closed s ∉ es → ∃ con', st'.1.getConnection con.getUniqueID.toUInt64 = some con' ∧
          con'.serial = con.serial) ∧
        (.closed s ∈ es → ∀ con', st'.1.getConnection con.getUniqueID.toUInt64 = some con' →
          con.serial < con'.serial ∧ ∃ as bs, es = as ++ .closed s :: bs ∧ .accepted s ∈ bs) ∧
        ∀ (t : Int) (con' : NetConnection), st'.1.connections[t]? = some con' →
          con'.getUniqueID = con.getUniqueID →
          con'.serial = con.serial ∨ ∃ as bs, es = as ++ .closed s :: bs ∧ .accepted s ∈ bs := by
  have hi : Inv build st := h.inv
  have hi' : Inv build st' := hi.run hr
  obtain ⟨es, he⟩ := hi.later hr
  have hid := hi.owned.getConnection_uniqueID hc
  have hstay : ∀ con', st'.1.connections[s]? = some con' → _ := fun con' hc' =>
    he.same_or_reused hi'.owned hc (h.serial_lt hc) hc'
  refine ⟨(hid st.1).trans hc, es, he.trace, ?_, ?_, ?_⟩
  · intro hcl
    have hs : s ∈ st'.1.connections := by
      by_contra hn
      exact hcl (he.gone (mem_of_getElem? hc) hn)
    obtain ⟨con', hc'⟩ := exists_of_mem hs
    rcases hstay con' hc' with ⟨_, hn⟩ | ⟨hh, _⟩
    · exact ⟨con', (hid st'.1).trans hc', hn⟩
    · exact absurd hh hcl
  · intro hcl con' hg
    rcases hstay con' ((hid st'.1).symm.trans hg) with ⟨hh, _⟩ | ⟨_, hh⟩
    · exact absurd hcl hh
    · exact hh
  · intro t con' hc' hu
    have hts : t = s := by
      rw [← hi'.owned.wrap32_uniqueID hc', hu, hi.owned.wrap32_uniqueID hc]
    rw [hts] at hc'
    rcases hstay con' hc' with ⟨_, hn⟩ | ⟨_, _, hh⟩
    · exact Or.inl hn
    · exact Or.inr hh

end

/-- The first client is gone and the next one gets its descriptor. -/
def nextClient : NetConnectionManager := clientGone.enroll .posix 5

theorem nextClient_run : Relation.ReflTransGen (Step .posix) oneClient nextClient := by
  have haccept : Step .posix clientGone nextClient := by
    refine ⟨.select (some [acceptEvent 5]), ⟨by simp, ?_⟩, rfl⟩
    intro e he
    rw [List.mem_singleton.mp he]
    exact ⟨by decide, by decide, by decide⟩
  exact (Relation.ReflTransGen.single clientGone_step).tail haccept

theorem nextClient_connection :
    nextClient.connections[(5 : Int)]? = some ((NetConnection.new 1).setSocket 5) := rfl

/-- The first client's id leads to the second client. -/
theorem nextClient_same_uniqueID : Reachable .posix oneClient ∧
    Relation.ReflTransGen (Step .posix) oneClient nextClient ∧
    ∃ con con', oneClient.connections[(5 : Int)]? = some con ∧
      nextClient.getConnection con.getUniqueID.toUInt64 = some con' ∧
      con'.serial ≠ con.serial ∧ con'.getUniqueID = con.getUniqueID := by
  have hid := reachable_oneClient.inv.owned.getConnection_uniqueID oneClient_connection nextClient
  exact ⟨reachable_oneClient, nextClient_run, _, _, oneClient_connection,
    hid.trans nextClient_connection, by decide, rfl⟩

theorem nextClient_accepted_later :
    ∃ as bs, nextClient.host.trace = oneClient.host.trace ++ as ++ .closed 5 :: bs ∧
      .accepted 5 ∈ bs := by
  obtain ⟨_, es, he, _, _, hid⟩ := uniqueID_while_open reachable_oneClient.poll
    (reachable_oneClient.poll.run nextClient_run) oneClient_connection
  rcases hid 5 _ nextClient_connection rfl with hn | ⟨as, bs, rfl, ha⟩
  · exact absurd hn (by decide)
  · exact ⟨as, bs, by rw [he, List.append_assoc], ha⟩

end NetConnectionManager

end CppTry
