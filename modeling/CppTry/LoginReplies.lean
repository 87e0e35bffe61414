import CppTry.LoginToken
import CppTry.PacketRuns
import CppTry.SendRoundTrip

namespace CppTry

/-- The login requests that a stretch of trace delivers for the connection object `n`. -/
def requests (n : Nat) (es : List NetEvent) : List NetPackage :=
  (deliveries n es).filter NetPackage.isLogin

/-- The login replies that a peer finds in a byte stream. -/
def replies (bytes : List Byte) : List NetPackage :=
  (packageFramer.parse bytes).1.filter fun p => p.header.command == 1401

@[simp] theorem requests_append (n : Nat) (es fs : List NetEvent) :
    requests n (es ++ fs) = requests n es ++ requests n fs := by
  simp [requests]

/-- All that has entered the outgoing byte stream: what the kernel has taken, and the queue. -/
def NetConnection.outgoing (con : NetConnection) (trace : List NetEvent) : List Byte :=
  handedOver con.serial trace ++ con.sendBuffer.contents

/-- Every request so far has its reply in the outgoing stream, in the order of the requests. -/
def NetConnection.Answered (con : NetConnection) (trace : List NetEvent) : Prop :=
  con.outgoing trace = (requests con.serial trace).flatMap fun _ => loginReply.bytes

/-- The replies to the requests that this poll completes fit into the send buffer. -/
def NetConnection.RoomToAnswer (con : NetConnection) (p : Poll) : Prop :=
  con.sendBuffer.length +
      36 * ((servedPackets con p.error p.readable p.calls).countP NetPackage.isLogin : Nat) ≤
    netBufferSize

namespace Ledger

def Settled (n : Nat) (l : Ledger) : Prop :=
  handedOver n l.trace ++ l.queue = (requests n l.trace).flatMap fun _ => loginReply.bytes

theorem Settled.handle {n : Nat} {l : Ledger} (h : l.Settled n) {p : NetPackage}
    (hroom : p.isLogin = true → l.queue.length + 36 ≤ 8192) : (l.handle n p).Settled n := by
  unfold Settled at h ⊢
  unfold Ledger.handle
  dsimp only
  split
  next hp =>
    have hq : answer l.queue = l.queue ++ loginReply.bytes := by
      rw [answer, if_pos]
      rw [length_loginReply]
      exact hroom hp
    have hh : handedOver n [.delivered n p, .login (loginToken (splice l.buffer 0 p.body))] = [] := rfl
    have hr : requests n [.delivered n p, .login (loginToken (splice l.buffer 0 p.body))] = [p] := by
      simp [requests, deliveries, hp]
    rw [hq, handedOver_append, requests_append, hh, hr, List.append_nil, List.flatMap_append,
      ← List.append_assoc, h]
    simp
  next hp =>
    have hh : handedOver n [.delivered n p] = [] := rfl
    have hr : requests n [.delivered n p] = [] := by
      simp [requests, deliveries, hp]
    rw [handedOver_append, requests_append, hh, hr, List.append_nil, List.append_nil, h]

theorem handle_queue (n : Nat) (l : Ledger) (p : NetPackage) :
    (l.handle n p).queue.length ≤ l.queue.length + if p.isLogin then 36 else 0 := by
  unfold Ledger.handle
  dsimp only
  split
  next =>
    unfold answer
    split
    next => rw [List.length_append, length_loginReply]
    next => exact Nat.le_add_right _ _
  next => exact Nat.le_refl _

theorem Settled.handleAll {n : Nat} {l : Ledger} (h : l.Settled n) {ps : List NetPackage}
    (hroom : l.queue.length + 36 * ps.countP NetPackage.isLogin ≤ 8192) :
    (ps.foldl (Ledger.handle n) l).Settled n := by
  induction ps generalizing l with
  | nil => exact h
  | cons p ps ih =>
    have hq := l.handle_queue n p
    rw [List.countP_cons] at hroom
    refine ih (h.handle fun hp => ?_) ?_
    · rw [if_pos hp] at hroom
      omega
    · split at hq
      next hp =>
        rw [if_pos hp] at hroom
        omega
      next hp =>
        rw [if_neg hp] at hroom
        omega

end Ledger

section
variable {n k : Nat} {es : List NetEvent}

theorem unheard_of (h : ∀ e ∈ es, (∀ p, e ≠ .delivered k p) ∧ ∀ bytes, e ≠ .sent k bytes) :
    deliveries k es = [] ∧ handedOver k es = [] := by
  refine ⟨List.filterMap_eq_nil_iff.mpr fun e he => ?_, List.flatMap_eq_nil_iff.mpr fun e he => ?_⟩
  all_goals obtain ⟨hd, hs⟩ := h e he
  · cases e with
    | delivered j p =>
      have hj : j ≠ k := by
        rintro rfl
        exact hd p rfl
      simp [hj]
    | _ => rfl
  · cases e with
    | sent j bytes =>
      have hj : j ≠ k := by
        rintro rfl
        exact hs bytes rfl
      simp [hj]
    | _ => rfl

theorem unheard_traffic (h : ∀ e ∈ es, e.Traffic n) (hk : k ≠ n) :
    deliveries k es = [] ∧ handedOver k es = [] := by
  refine unheard_of fun e he => ⟨?_, ?_⟩
  · rintro p rfl
    exact hk (h _ he)
  · rintro bytes rfl
    exact hk (h _ he)

theorem unheard_housekeeping (h : ∀ e ∈ es, ∃ s, e = .created s ∨ e = .closed s) (k : Nat) :
    deliveries k es = [] ∧ handedOver k es = [] := by
  refine unheard_of fun e he => ?_
  obtain ⟨s, rfl | rfl⟩ := h e he
  · simp
  · simp

theorem unheard_append {trace : List NetEvent}
    (h : deliveries k trace = [] ∧ handedOver k trace = [])
    (hes : deliveries k es = [] ∧ handedOver k es = []) :
    deliveries k (trace ++ es) = [] ∧ handedOver k (trace ++ es) = [] := by
  rw [deliveries_append, handedOver_append, h.1, h.2]
  exact hes

theorem NetConnection.Answered.unheard {con : NetConnection} {trace : List NetEvent}
    (h : con.Answered trace) (hes : deliveries con.serial es = [] ∧ handedOver con.serial es = []) :
    con.Answered (trace ++ es) := by
  have hr : requests con.serial es = [] := by rw [requests, hes.1, List.filter_nil]
  rw [NetConnection.Answered, NetConnection.outgoing, handedOver_append, requests_append, hes.2, hr,
    List.append_nil, List.append_nil]
  exact h

end

namespace NetConnectionManager

/-- The books about requests and replies. -/
structure Accounts (st : NetConnectionManager × List Int) : Prop where
  serial_lt {s : Int} {con : NetConnection} : st.1.connections[s]? = some con →
    con.serial < st.1.host.allocated
  distinct {s t : Int} {con con' : NetConnection} : st.1.connections[s]? = some con →
    st.1.connections[t]? = some con' → con.serial = con'.serial → s = t
  unheard {n : Nat} : st.1.host.allocated ≤ n →
    deliveries n st.1.host.trace = [] ∧ handedOver n st.1.host.trace = []
  answered {s : Int} {con : NetConnection} : st.1.connections[s]? = some con → s ∉ st.2 →
    con.Answered st.1.host.trace

section
variable {build : Build} {st st' : NetConnectionManager × List Int}

theorem Accounts.new : Accounts (NetConnectionManager.new, []) where
  serial_lt hc := by simp [NetConnectionManager.new] at hc
  distinct hc := by simp [NetConnectionManager.new] at hc
  unheard _ := ⟨rfl, rfl⟩
  answered hc := by simp [NetConnectionManager.new] at hc

theorem Accounts.shrink (h : Accounts st) {es : List NetEvent}
    (ha : st'.1.host.allocated = st.1.host.allocated)
    (ht : st'.1.host.trace = st.1.host.trace ++ es)
    (hes : ∀ k, deliveries k es = [] ∧ handedOver k es = [])
    (hc : ∀ (s : Int) (con : NetConnection), st'.1.connections[s]? = some con →
      st.1.connections[s]? = some con ∧ (s ∉ st'.2 → s ∉ st.2)) : Accounts st' := by
  refine ⟨?_, ?_, ?_, ?_⟩
  · intro s con hs
    rw [ha]
    exact h.serial_lt (hc s con hs).1
  · intro s t con con' hs hs' he
    exact h.distinct (hc s con hs).1 (hc t con' hs').1 he
  · intro n hn
    rw [ha] at hn
    rw [ht]
    exact unheard_append (h.unheard hn) (hes n)
  · intro s con hs hn
    rw [ht]
    exact (h.answered (hc s con hs).1 ((hc s con hs).2 hn)).unheard (hes _)

theorem Accounts.housekeeping (h : Accounts st) (hk : st.1.host.Housekeeping st'.1.host)
    (hc : ∀ (s : Int) (con : NetConnection), st'.1.connections[s]? = some con →
      st.1.connections[s]? = some con ∧ (s ∉ st'.2 → s ∉ st.2)) : Accounts st' := by
  obtain ⟨es, ht, hes⟩ := hk.trace
  exact h.shrink hk.allocated ht (unheard_housekeeping hes) hc

theorem Accounts.enroll {m : NetConnectionManager} {needremove : List Int} {s : Int}
    (h : Accounts (m, needremove)) (hs : s ∉ m.connections) :
    Accounts (m.enroll build s, needremove) := by
  have ht : (m.enroll build s).host.trace = m.host.trace ++ [.accepted s] := enroll_trace
  have ha : (m.enroll build s).host.allocated = m.host.allocated + 1 := by
    simp [NetConnectionManager.enroll]
  have hquiet : ∀ k, deliveries k [.accepted s] = [] ∧ handedOver k [.accepted s] = [] :=
    fun k => ⟨rfl, rfl⟩
  refine ⟨?_, ?_, ?_, ?_⟩
  · intro t con hc
    change con.serial < (m.enroll build s).host.allocated
    rw [ha]
    rcases enroll_cases hc with ⟨_, _, rfl⟩ | ⟨_, hold⟩
    · exact Nat.lt_succ_self _
    · exact Nat.lt_succ_of_lt (h.serial_lt hold)
  · intro t u con con' hc hc' he
    rcases enroll_cases hc with ⟨rfl, _, rfl⟩ | ⟨_, hold⟩
    · rcases enroll_cases hc' with ⟨rfl, _⟩ | ⟨_, hold'⟩
      · rfl
      · exact absurd he (h.serial_lt hold').ne'
    · rcases enroll_cases hc' with ⟨rfl, _, rfl⟩ | ⟨_, hold'⟩
      · exact absurd he (h.serial_lt hold).ne
      · exact h.distinct hold hold' he
  · intro n hn
    change (m.enroll build s).host.allocated ≤ n at hn
    change deliveries n (m.enroll build s).host.trace = [] ∧
      handedOver n (m.enroll build s).host.trace = []
    rw [ht]
    exact unheard_append (h.unheard (show m.host.allocated ≤ n by omega)) (hquiet n)
  · intro t con hc hn
    change con.Answered (m.enroll build s).host.trace
    rw [ht]
    rcases enroll_cases hc with ⟨_, _, rfl⟩ | ⟨_, hold⟩
    · obtain ⟨hd, hh⟩ := h.unheard (n := m.host.allocated) (Nat.le_refl _)
      refine NetConnection.Answered.unheard ?_ (hquiet _)
      change handedOver m.host.allocated m.host.trace ++ [] =
        (requests m.host.allocated m.host.trace).flatMap _
      change handedOver m.host.allocated m.host.trace = [] at hh
      change deliveries m.host.allocated m.host.trace = [] at hd
      rw [hh, requests, hd]
      rfl
    · exact (h.answered hold hn).unheard (hquiet _)

/-- A connection that has room for its replies stays settled when it is served. -/
theorem answered_serve {host host' : Host} {con con' : NetConnection} {p : Poll} {remove : Bool}
    (hidle : con.Idle) (hb : host.buffer.length = 1024) (h : con.Answered host.trace)
    (hroom : con.RoomToAnswer p)
    (hserve : CppTry.serve build host con p.error p.readable p.writable p.calls =
      some (remove, host', con')) : con'.Answered host'.trace := by
  have hserv : Service host con remove host' con' := serve_service hidle hb hserve
  obtain ⟨l, bytes, fs, hl, hq, _, htrace, hfs⟩ := serve_ledger hidle hb hserve
  have hlen := hidle.sendValid.valid.contents_length
  have hroom : con.sendBuffer.length + 36 * ((servedPackets con p.error p.readable
      p.calls).countP NetPackage.isLogin : Nat) ≤ 8 * 1024 := hroom
  have hbefore : (Ledger.ofConnection host con).Settled con.serial := h
  have hsettled : l.Settled con.serial := by
    rw [hl]
    refine hbefore.handleAll ?_
    change con.sendBuffer.contents.length + _ ≤ _
    omega
  have hout : handedOver con.serial fs = bytes ∧ requests con.serial fs = [] := by
    rcases hfs with ⟨rfl, rfl⟩ | rfl
    · exact ⟨rfl, rfl⟩
    · simp [handedOver, requests, deliveries]
  change handedOver con'.serial host'.trace ++ con'.sendBuffer.contents =
    (requests con'.serial host'.trace).flatMap _
  rw [hserv.serial, htrace, handedOver_append, requests_append, hout.1, hout.2, List.append_nil,
    List.append_assoc, ← hq]
  exact hsettled

theorem Accounts.serve {m : NetConnectionManager} {needremove list : List Int} {s : Int}
    {con con' : NetConnection} {host' : Host} {p : Poll} {remove : Bool}
    (h : Accounts (m, needremove)) (hinv : Inv build (m, needremove)) (hs : s ∉ needremove)
    (hlist : ∀ t ∈ needremove, t ∈ list) (hc : m.connections[s]? = some con)
    (hroom : con.RoomToAnswer p)
    (hserve : CppTry.serve build m.host con p.error p.readable p.writable p.calls =
      some (remove, host', con')) :
    Accounts ({ m with host := host', connections := m.connections.insert s con' }, list) := by
  have hidle := hinv.idle hc hs
  have hserv : Service m.host con remove host' con' := serve_service hidle hinv.buffer hserve
  obtain ⟨es, hes⟩ := hserv.serves
  refine ⟨?_, ?_, ?_, ?_⟩
  · intro t c ht
    change c.serial < host'.allocated
    rw [hes.allocated]
    rcases insert_cases ht with ⟨_, rfl⟩ | ⟨_, hold⟩
    · rw [hserv.serial]
      exact h.serial_lt hc
    · exact h.serial_lt hold
  · intro t u c c' ht hu he
    rcases insert_cases ht with ⟨rfl, rfl⟩ | ⟨_, hold⟩
    · rcases insert_cases hu with ⟨rfl, _⟩ | ⟨_, hold'⟩
      · rfl
      · exact h.distinct hc hold' (hserv.serial.symm.trans he)
    · rcases insert_cases hu with ⟨rfl, rfl⟩ | ⟨_, hold'⟩
      · exact h.distinct hold hc (he.trans hserv.serial)
      · exact h.distinct hold hold' he
  · intro n hn
    change host'.allocated ≤ n at hn
    rw [hes.allocated] at hn
    have hlt : con.serial < m.host.allocated := h.serial_lt hc
    change deliveries n host'.trace = [] ∧ handedOver n host'.trace = []
    rw [hes.trace]
    exact unheard_append (h.unheard hn) (unheard_traffic hes.traffic (by omega))
  · intro t c ht hn
    rcases insert_cases ht with ⟨_, rfl⟩ | ⟨hne, hold⟩
    · exact answered_serve hidle hinv.buffer (h.answered hc hs) hroom hserve
    · change c.Answered host'.trace
      rw [hes.trace]
      refine (h.answered hold fun hh => hn (hlist t hh)).unheard (unheard_traffic hes.traffic ?_)
      exact fun he => hne (h.distinct hold hc he)

theorem Accounts.poll (h : Accounts st) (hinv : Inv build st) {want : Int → Poll} {s : Int}
    (hs : s ∉ st.2) (hf : s = st.1.listener.socket → (want s).calls.accept.Fresh st.1.host)
    (hroom : ∀ con, st.1.connections[s]? = some con → con.RoomToAnswer (want s))
    (hp : pollOne build want st s = some st') : Accounts st' := by
  obtain ⟨⟨remove, m'⟩, hh, he⟩ := Option.bind_eq_some_iff.mp hp
  cases he
  have hsub : ∀ t ∈ st.2, t ∈ if remove then st.2 ++ [s] else st.2 := by
    intro t ht
    split
    next => exact List.mem_append_left _ ht
    next => exact ht
  have hgrow : ∀ {m : NetConnectionManager}, Accounts (m, st.2) →
      Accounts (m, if remove then st.2 ++ [s] else st.2) := fun ha =>
    ha.shrink rfl (List.append_nil _).symm (fun _ => ⟨rfl, rfl⟩)
      fun t con hc => ⟨hc, fun hn ht => hn (hsub t ht)⟩
  rcases hinv.handle_cases hs hf hh with rfl | ⟨hl, ret, hread⟩ |
    ⟨_, con, host', con', hc, hserve, _, rfl⟩
  · exact hgrow h
  · have hf := hf hl
    refine hgrow ?_
    obtain ⟨_, ⟨_, _, rfl⟩ | ⟨t, _, _, he, ⟨rfl, _⟩ | ⟨rfl, _⟩⟩⟩ := listenerRead_cases hread
    · exact h
    · rw [he] at hf
      exact h.shrink (by simp [NetConnectionManager.refuse, Host.accept]) (refuse_trace hf.ne_error)
        (fun _ => ⟨rfl, rfl⟩) fun t con hc => ⟨hc, id⟩
    · rw [he] at hf
      exact Accounts.enroll h (hinv.owned.fresh_not_mem hf)
  · exact Accounts.serve h hinv hs hsub hc (hroom con hc) hserve

end

/-- Only a read of another socket, or an accept, has happened to the sockets that still wait for
their turn in a batch. -/
def Awaiting (m : NetConnectionManager) (ks : List Int) (st : NetConnectionManager × List Int) :
    Prop :=
  ∀ t ∉ ks, ∀ con, st.1.connections[t]? = some con →
    m.connections[t]? = some con ∨ ∃ n, con = (NetConnection.new n).setSocket t

theorem roomToAnswer_new (n : Nat) (s : Int) (p : Poll) :
    ((NetConnection.new n).setSocket s).RoomToAnswer p := by
  have hcount : (servedPackets ((NetConnection.new n).setSocket s) p.error p.readable p.calls).countP
      NetPackage.isLogin * 28 ≤ 1024 := by
    refine Nat.le_trans (Nat.mul_le_mul_right 28 List.countP_le_length) ?_
    unfold servedPackets
    split
    next chunk _ _ _ =>
      have hle := Framer.parse_length_mul_le (F := packageFramer)
        (fun _ _ _ hp => nextPackage_size hp)
        (((NetConnection.new n).setSocket s).recvBuffer.contents ++ chunk.data)
      have hnil : ((NetConnection.new n).setSocket s).recvBuffer.contents = [] := rfl
      rw [hnil, List.nil_append] at hle ⊢
      exact hle.trans chunk.fits
    next => simp
  change (0 : Int) + _ ≤ 8 * 1024
  omega

section
variable {build : Build} {m m' : NetConnectionManager} {want : Int → Poll}
  {st st' : NetConnectionManager × List Int} {ks : List Int} {k : Int}

theorem Underway.awaiting (h : Underway build m want ks st) (hw : m.Awaiting ks st) (hk : k ∉ ks)
    (hp : pollOne build want st k = some st') : m.Awaiting (k :: ks) st' := by
  intro t ht con hc
  obtain ⟨hne, ht⟩ := not_or.mp (fun hh => ht (List.mem_cons.mpr hh))
  have hn : k ∉ st.2 := fun hh => hk (h.waiting hh)
  obtain ⟨⟨remove, m1⟩, hh, he⟩ := Option.bind_eq_some_iff.mp hp
  cases he
  rcases h.inv.handle_cases hn (h.fresh_turn hk) hh with rfl | ⟨_, ret, hread⟩ |
    ⟨_, con0, host', con', _, _, _, rfl⟩
  · exact hw t ht con hc
  · obtain ⟨_, ⟨_, _, rfl⟩ | ⟨u, _, _, _, ⟨rfl, _⟩ | ⟨rfl, _⟩⟩⟩ := listenerRead_cases hread
    · exact hw t ht con hc
    · exact hw t ht con hc
    · rcases enroll_cases hc with ⟨rfl, _, rfl⟩ | ⟨_, hold⟩
      · exact Or.inr ⟨_, rfl⟩
      · exact hw t ht con hold
  · rcases insert_cases hc with ⟨he, _⟩ | ⟨_, hold⟩
    · exact absurd he hne
    · exact hw t ht con hold

/-- The books stay in order through a batch that gives every reply its room. -/
theorem Underway.accounts {js : List Int} (h : Underway build m want ks st) (ha : Accounts st)
    (hw : m.Awaiting ks st)
    (hroom : ∀ (s : Int) (con : NetConnection), m.connections[s]? = some con →
      con.RoomToAnswer (want s))
    (hn : js.Nodup) (hd : js.Disjoint ks) (hr : js.foldlM (pollOne build want) st = some st') :
    Accounts st' := by
  induction js generalizing st ks with
  | nil =>
    cases hr
    exact ha
  | cons j js ih =>
    obtain ⟨hj, hn⟩ := List.nodup_cons.mp hn
    obtain ⟨hjk, hd⟩ := List.disjoint_cons_left.mp hd
    rw [List.foldlM_cons] at hr
    obtain ⟨st1, hp, hr⟩ := Option.bind_eq_some_iff.mp hr
    have hroomj : ∀ con, st.1.connections[j]? = some con → con.RoomToAnswer (want j) := by
      intro con hc
      rcases hw j hjk con hc with hc | ⟨n, rfl⟩
      · exact hroom j con hc
      · exact roomToAnswer_new n j _
    exact ih (h.keep hjk hp)
      (ha.poll h.inv (fun hh => hjk (h.waiting hh)) (h.fresh_turn hjk) hroomj hp)
      (h.awaiting hw hjk hp) hn (List.disjoint_cons_right.mpr ⟨hj, hd⟩) hr

/-- The replies to all requests that a batch completes find room. -/
def Answerable (build : Build) (m : NetConnectionManager) : Op → Prop
  | .select (some events) => ∀ (s : Int) (con : NetConnection), m.connections[s]? = some con →
      con.RoomToAnswer (m.told build events s)
  | _ => True

theorem Accounts.step (h : Accounts (m, [])) (hinv : Inv build (m, [])) {op : Op}
    (hallow : m.Allowed build op) (hroom : m.Answerable build op) (hr : m.step build op = some m') :
    Accounts (m', []) := by
  cases op with
  | init listen bridge =>
    cases hr
    exact h.housekeeping (housekeeping_init m listen bridge) fun s con hc => ⟨hc, id⟩
  | select poll =>
    cases poll with
    | none =>
      cases hr
      exact h
    | some events =>
      obtain ⟨js, hn, _, hpolls⟩ := selectSocket_polls hinv hallow
      change m.selectSocket build (some events) = some m' at hr
      rw [hpolls] at hr
      obtain ⟨st, hst, rfl⟩ := Option.map_eq_some_iff.mp hr
      have hu : Underway build m (m.told build events) [] (m, []) :=
        hinv.underway (told_fresh hallow.2 m.listener.socket)
      have hacc := hu.accounts h (fun t _ con hc => Or.inl hc) hroom hn (by simp) hst
      have hinv' := hinv.run (hu.run hn (by simp) hst)
      refine hacc.housekeeping (housekeeping_sweep st.1 st.2) fun s con hc => ?_
      change (st.2.foldl (onSocketClose build) st.1).connections[s]? = some con at hc
      rw [(hinv'.owned.apart.swept st.2).connections] at hc
      split at hc
      next => cases hc
      next hs => exact ⟨hc, fun _ => hs⟩
  | removeConnection s =>
    cases hr
    exact h.housekeeping (housekeeping_removeConnection m s) fun t con hc =>
      ⟨removeConnection_connections hinv.owned.listener hc, id⟩
  | release =>
    cases hr
    refine h.housekeeping (housekeeping_release m) fun s con hc => ?_
    simp [NetConnectionManager.release] at hc

/-- A step in which no reply lacks its room. -/
def AnswerableStep (build : Build) (m m' : NetConnectionManager) : Prop :=
  ∃ op, m.Allowed build op ∧ m.Answerable build op ∧ m.step build op = some m'

theorem AnswerableStep.accounts (h : Relation.ReflTransGen (AnswerableStep build) new m) :
    Reachable build m ∧ Accounts (m, []) := by
  induction h with
  | refl => exact ⟨.refl, .new⟩
  | tail _ hs ih =>
    obtain ⟨op, hallow, hroom, hr⟩ := hs
    exact ⟨ih.1.tail ⟨op, hallow, hr⟩, ih.2.step ih.1.inv hallow hroom hr⟩

theorem replies_flatMap (ps : List NetPackage) :
    replies (ps.flatMap fun _ => loginReply.bytes) = ps.map fun _ => loginReply := by
  have hparse : packageFramer.parse (ps.flatMap fun _ => loginReply.bytes) =
      (ps.map fun _ => loginReply, .rest []) :=
    Framer.parse_flatMap (fun _ _ => package_frames (by decide) (by decide))
      (show nextPackage [] = .more from rfl)
  rw [replies, hparse, List.filter_eq_self]
  intro p hp
  obtain ⟨_, _, rfl⟩ := List.mem_map.mp hp
  rfl

/-- In a run in which every reply finds room in the send buffer, each open connection has had one
reply for each login request, in the order of the requests, and nothing else. -/
theorem logins_answered (h : Relation.ReflTransGen (AnswerableStep build) new m) {s : Int}
    {con : NetConnection} (hc : m.connections[s]? = some con) :
    con.outgoing m.host.trace =
        (requests con.serial m.host.trace).flatMap (fun _ => loginReply.bytes) ∧
      replies (con.outgoing m.host.trace) =
        (requests con.serial m.host.trace).map (fun _ => loginReply) ∧
      (replies (con.outgoing m.host.trace)).length = (requests con.serial m.host.trace).length := by
  have hans : con.outgoing m.host.trace = _ :=
    (AnswerableStep.accounts h).2.answered hc (by simp)
  have hrep := replies_flatMap (requests con.serial m.host.trace)
  rw [← hans] at hrep
  exact ⟨hans, hrep, by rw [hrep, List.length_map]⟩

end

theorem handleAll_trace (n : Nat) (l : Ledger) (ps : List NetPackage) :
    requests n (ps.foldl (Ledger.handle n) l).trace =
        requests n l.trace ++ ps.filter NetPackage.isLogin ∧
      handedOver n (ps.foldl (Ledger.handle n) l).trace = handedOver n l.trace := by
  induction ps generalizing l with
  | nil => simp
  | cons p ps ih =>
    obtain ⟨hr, hh⟩ := ih (l.handle n p)
    rw [List.foldl_cons, hr, hh]
    unfold Ledger.handle
    dsimp only
    split
    next hp => simp [requests, deliveries, handedOver, hp]
    next hp => simp [requests, deliveries, handedOver, hp]

/-- The client's first request, received at once. -/
theorem oneClient_answered : ∃ m con,
    Relation.ReflTransGen (AnswerableStep .posix) new m ∧
    m.connections[(5 : Int)]? = some con ∧
    requests con.serial m.host.trace = [loginRequest shortToken] ∧
    replies (con.outgoing m.host.trace) = [loginReply] := by
  let chunk : Chunk := ⟨(loginRequest shortToken).bytes, by decide, by decide⟩
  have hok : ∀ p ∈ [loginRequest shortToken],
      p.header.Accepted ∧ p.header.bodySize.toInt = p.body.length := by
    intro p hp
    rw [List.mem_singleton.mp hp]
    exact ⟨by decide, by decide⟩
  have hdata : [chunk].flatMap (·.data) = [loginRequest shortToken].flatMap NetPackage.bytes := rfl
  obtain ⟨rets, m, con, hrun, hz, hc, hserial, hl⟩ := oneClient_chunks hok hdata
  obtain ⟨m1, rets1, hread, hnil, _⟩ := readRun_cons_inv hrun hz
  cases hnil
  have hlisten : AnswerableStep .posix new listening := by
    refine ⟨.init ⟨3, 0, 0, 0⟩ ⟨4, 0⟩, ⟨rfl, ?_, ?_⟩, trivial, rfl⟩
    · exact fun _ => ⟨by decide, by decide, by decide⟩
    · exact fun _ => ⟨by decide, by decide, by decide⟩
  have haccept : AnswerableStep .posix listening oneClient := by
    refine ⟨.select (some [acceptEvent 5]), ⟨by simp, ?_⟩, ?_, rfl⟩
    · intro e he
      rw [List.mem_singleton.mp he]
      exact ⟨by decide, by decide, by decide⟩
    · intro s con hs
      simp [listening, init_connections, new] at hs
  have hstep : AnswerableStep .posix oneClient m := by
    obtain ⟨hallow, hs⟩ := step_read hread
    refine ⟨_, hallow, ?_, hs⟩
    intro s con hs
    rw [oneClient, enroll_connections] at hs
    split at hs
    next =>
      cases hs
      exact roomToAnswer_new _ _ _
    next => simp [listening, init_connections, new] at hs
  have hpath := ((Relation.ReflTransGen.refl.tail hlisten).tail haccept).tail hstep
  have hreq : requests con.serial m.host.trace = [loginRequest shortToken] := by
    have hh := (handleAll_trace 0
      (Ledger.ofConnection oneClient.host ((NetConnection.new 0).setSocket 5))
      [loginRequest shortToken]).1
    rw [← hl] at hh
    rw [hserial]
    exact hh
  refine ⟨m, con, hpath, hc, hreq, ?_⟩
  rw [(logins_answered hpath hc).2.1, hreq]
  rfl

/-- 293 login requests, and the kernel takes none of the replies: some are lost, for 8192 bytes
cannot hold that many packets. -/
theorem oneClient_unanswered : ∃ m con, Reachable .posix m ∧
    m.connections[(5 : Int)]? = some con ∧
    requests con.serial m.host.trace = List.replicate 293 (loginRequest shortToken) ∧
    (replies (con.outgoing m.host.trace)).length ≠ (requests con.serial m.host.trace).length := by
  have hok : ∀ p ∈ List.replicate 293 (loginRequest shortToken),
      p.header.Accepted ∧ p.header.bodySize.toInt = p.body.length := by
    intro p hp
    rw [List.eq_of_mem_replicate hp]
    exact ⟨by decide, by decide⟩
  obtain ⟨m, con, hreach, hc, hserial, hl⟩ := oneClient_packets hok
  have hh := handleAll_trace 0
    (Ledger.ofConnection oneClient.host ((NetConnection.new 0).setSocket 5))
    (List.replicate 293 (loginRequest shortToken))
  rw [← hl] at hh
  have hold : requests 0 oneClient.host.trace = [] ∧ handedOver 0 oneClient.host.trace = [] := by
    decide
  have hreq : requests con.serial m.host.trace = List.replicate 293 (loginRequest shortToken) := by
    rw [hserial]
    refine hh.1.trans ?_
    rw [List.filter_replicate_of_pos (by decide)]
    exact congrArg (· ++ _) hold.1
  have hout : con.outgoing m.host.trace = con.sendBuffer.contents := by
    have hnone : handedOver 0 m.host.trace = [] := hh.2.trans hold.2
    rw [NetConnection.outgoing, hserial, hnone, List.nil_append]
  refine ⟨m, con, hreach, hc, hreq, ?_⟩
  have hvalid := (hreach.inv.idle hc (by simp)).sendValid
  have hbytes := hvalid.valid.contents_length
  have hfit : con.sendBuffer.length ≤ 8 * 1024 := by
    have hle := hvalid.valid.length_le
    rw [hvalid.size] at hle
    exact hle
  have hparse := Framer.parse_length_mul_le (F := packageFramer)
    (fun _ _ _ hp => nextPackage_size hp) con.sendBuffer.contents
  have hfilter : (replies con.sendBuffer.contents).length ≤
      (packageFramer.parse con.sendBuffer.contents).1.length := List.length_filter_le _ _
  rw [hreq, hout, List.length_replicate]
  omega

end NetConnectionManager

end CppTry
