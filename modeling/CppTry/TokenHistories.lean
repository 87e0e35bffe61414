import Mathlib.Data.List.TakeWhile
import CppTry.LoginToken
import CppTry.PacketRuns

namespace CppTry

open DataUtil

section
variable {body old : List Byte}

theorem drop_splice_body (h : 4 ≤ body.length) :
    (splice old 0 body).drop 4 = body.drop 4 ++ old.drop body.length := by
  rw [splice_body, List.drop_append_of_le_length h]

theorem lengthPrefix_splice (h : 4 ≤ body.length) :
    lengthPrefix (splice old 0 body) 0 = lengthPrefix body 0 := by
  rw [splice_body, lengthPrefix_append _ h]

theorem takeWhile_append_of_mem {bs : List Byte} (rest : List Byte) (h : 0 ∈ bs) :
    (bs ++ rest).takeWhile (· ≠ 0) = bs.takeWhile (· ≠ 0) := by
  rw [List.takeWhile_append, if_neg (length_takeWhile_lt_iff.mpr h).ne]

theorem EndsInBody.loginToken (h : EndsInBody body) (hold : old.length = 1024)
    (hb : body.length ≤ 1024) : loginToken (splice old 0 body) =
      some (((body.drop 4).take (lengthPrefix body 0 % 2 ^ 64).toNat).takeWhile (· ≠ 0)) := by
  obtain ⟨h4, hends⟩ := h
  have hlen : (splice old 0 body).length = 1024 := by rw [length_splice (by omega), hold]
  rw [loginToken_eq (by omega), drop_splice_body h4, lengthPrefix_splice h4]
  rcases hends with hnul | ⟨h0, hle⟩
  · rw [if_pos (Or.inr (List.mem_append_left _ hnul)), ← List.take_takeWhile,
      takeWhile_append_of_mem _ hnul, List.take_takeWhile]
  · have hle : (lengthPrefix body 0 % 2 ^ 64).toNat ≤ (body.drop 4).length := by
      rw [List.length_drop]
      omega
    rw [if_pos (Or.inl (by rw [List.length_append]; omega)), List.take_append_of_le_length hle]

end

/-- Bytes that an earlier packet may have left behind: no NUL among them. -/
def ones : List Byte := List.replicate 1024 1

theorem lengthPrefix_eq_zero {src : List Byte} {i : Nat} (h : lengthPrefix src i = 0) :
    leValue ((src.drop i).take 4) % 2 ^ 32 = 0 := by
  have h32 : (UInt32.ofNat (leValue ((src.drop i).take 4))).toInt32 = 0 :=
    Int32.toInt_inj.mp (h.trans Int32.toInt_zero.symm)
  have hu : UInt32.ofNat (leValue ((src.drop i).take 4)) = 0 := congrArg Int32.toUInt32 h32
  have hn := congrArg UInt32.toNat hu
  simpa using hn

theorem length_splice_zeros {body : List Byte} (h : body.length ≤ 1024) :
    (splice (zeros 1024) 0 body).length = 1024 := by
  rw [length_splice (by rw [length_zeros]; omega), length_zeros]

theorem length_splice_ones {body : List Byte} (h : body.length ≤ 1024) :
    (splice ones 0 body).length = 1024 := by
  rw [length_splice (by rw [ones, List.length_replicate]; omega), ones, List.length_replicate]

theorem drop_ones (n : Nat) : ones.drop n = List.replicate (1024 - n) 1 := by
  rw [ones, List.drop_replicate]

theorem leValue_ones {body : List Byte} (h : body.length < 4) :
    leValue (body ++ List.replicate (4 - body.length) 1) % 2 ^ 32 ≠ 0 := by
  match body, h with
  | [], _ => decide
  | [a], _ =>
    have ha := a.toNat_lt
    simp [leValue, List.replicate]
    omega
  | [a, b], _ =>
    have ha := a.toNat_lt
    have hb := b.toNat_lt
    simp [leValue, List.replicate]
    omega
  | [a, b, c], _ =>
    have ha := a.toNat_lt
    have hb := b.toNat_lt
    have hc := c.toNat_lt
    simp [leValue]
    omega

theorem lengthPrefix_ones {body : List Byte} (h : body.length < 4) :
    lengthPrefix (splice ones 0 body) 0 ≠ 0 := by
  intro hz
  have htake : ((splice ones 0 body).drop 0).take 4 =
      body ++ List.replicate (4 - body.length) 1 := by
    rw [List.drop_zero, splice_body, drop_ones, List.take_append, List.take_of_length_le (by omega),
      List.take_replicate]
    congr 2
    omega
  have hv := lengthPrefix_eq_zero hz
  rw [htake] at hv
  exact leValue_ones h hv

theorem takeWhile_ones (n : Nat) : (List.replicate n (1 : Byte)).takeWhile (· ≠ 0) =
    List.replicate n 1 := by
  rw [List.takeWhile_replicate, if_pos (by decide)]

/-- Behind a body shorter than the length, the token is made of what was in the buffer before. -/
theorem length_body_of_loginToken {body : List Byte} {t : List Byte}
    (hz : loginToken (splice (zeros 1024) 0 body) = some t)
    (ho : loginToken (splice ones 0 body) = some t) : 4 ≤ body.length := by
  by_contra h4
  have hdz : (splice (zeros 1024) 0 body).drop 4 = List.replicate 1020 0 := by
    rw [splice_body, zeros, List.drop_replicate, List.drop_append, List.drop_of_length_le (by omega),
      List.nil_append, List.drop_replicate]
    congr 1
    omega
  have hdo : (splice ones 0 body).drop 4 = List.replicate 1020 1 := by
    rw [splice_body, drop_ones, List.drop_append, List.drop_of_length_le (by omega),
      List.nil_append, List.drop_replicate]
    congr 1
    omega
  rw [loginToken_eq (by rw [length_splice_zeros (by omega)]; omega)] at hz
  rw [loginToken_eq (by rw [length_splice_ones (by omega)]; omega)] at ho
  have hz := Option.some.inj (Option.ite_none_right_eq_some.mp hz).2
  have ho := Option.some.inj (Option.ite_none_right_eq_some.mp ho).2
  have hpos := lengthPrefix_ones (show body.length < 4 by omega)
  have hbound := lengthPrefix_bounds (splice ones 0 body) 0
  rw [hdz, List.take_replicate, List.takeWhile_replicate, if_neg (by decide)] at hz
  rw [hdo, List.take_replicate, takeWhile_ones, ← hz] at ho
  have hlen := congrArg List.length ho
  rw [List.length_replicate, List.length_nil] at hlen
  omega

/-- A token that does not end in its body shows what was in the buffer before. -/
theorem endsInBody_of_loginToken {body : List Byte} (hb : body.length ≤ 1024) {t : List Byte}
    (hz : loginToken (splice (zeros 1024) 0 body) = some t)
    (ho : loginToken (splice ones 0 body) = some t) : EndsInBody body := by
  have h4 : 4 ≤ body.length := length_body_of_loginToken hz ho
  refine ⟨h4, ?_⟩
  by_contra hends
  obtain ⟨hnul, hlen⟩ := not_or.mp hends
  have hbound := lengthPrefix_bounds body 0
  have hl : (body.drop 4).length = body.length - 4 := List.length_drop
  rw [loginToken_eq (by rw [length_splice_zeros hb]; omega), drop_splice_body h4,
    lengthPrefix_splice h4] at hz
  rw [loginToken_eq (by rw [length_splice_ones hb]; omega), drop_splice_body h4,
    lengthPrefix_splice h4, drop_ones] at ho
  have hz := Option.some.inj (Option.ite_none_right_eq_some.mp hz).2
  obtain ⟨hfit, ho⟩ := Option.ite_none_right_eq_some.mp ho
  have ho := Option.some.inj ho
  have hno : 0 ∉ body.drop 4 ++ List.replicate (1024 - body.length) 1 := by
    simp [hnul]
  have hfit := hfit.resolve_right hno
  rw [List.length_append, List.length_replicate] at hfit
  rw [takeWhile_eq_self fun hm => hno (List.mem_of_mem_take hm)] at ho
  have hlo := congrArg List.length ho
  rw [List.length_take, List.length_append, List.length_replicate] at hlo
  -- with zeros behind it, the token ends with the body
  rw [← List.take_takeWhile, List.takeWhile_append_of_pos, zeros, List.drop_replicate,
    List.takeWhile_replicate, if_neg (by decide), List.append_nil] at hz
  · have hlz := congrArg List.length hz
    rw [List.length_take] at hlz
    omega
  · exact all_ne hnul

/-- A trace in which every token was read right behind its packet, from a static buffer that the
packet has overwritten in part. -/
inductive Recorded : List NetEvent → Prop
  | nil : Recorded []
  | plain {trace : List NetEvent} {e : NetEvent} : Recorded trace → (∀ token, e ≠ .login token) →
      Recorded (trace ++ [e])
  | login {trace : List NetEvent} {n : Nat} {p : NetPackage} {old : List Byte} : Recorded trace →
      old.length = 1024 → p.body.length ≤ 1024 →
      Recorded (trace ++ [.delivered n p, .login (loginToken (splice old 0 p.body))])

/-- The token was read from the packet `p`. -/
def Extracted (p : NetPackage) (token : Option (List Byte)) (trace : List NetEvent) : Prop :=
  ∃ as n bs, trace = as ++ .delivered n p :: .login token :: bs

theorem Recorded.append {trace es : List NetEvent} (h : Recorded trace)
    (hes : ∀ e ∈ es, ∀ token, e ≠ .login token) : Recorded (trace ++ es) := by
  induction es generalizing trace with
  | nil => simpa using h
  | cons e es ih =>
    have hh := ih (h.plain (hes e (by simp))) fun e he => hes e (by simp [he])
    simpa using hh

theorem Recorded.origin {trace : List NetEvent} (h : Recorded trace) {p : NetPackage}
    {token : Option (List Byte)} (hx : Extracted p token trace) :
    ∃ old, old.length = 1024 ∧ p.body.length ≤ 1024 ∧ token = loginToken (splice old 0 p.body) := by
  obtain ⟨as, n, bs, he⟩ := hx
  induction h generalizing bs with
  | nil => simp at he
  | @plain trace e _ hno ih =>
    rcases List.eq_nil_or_concat bs with rfl | ⟨cs, c, rfl⟩
    · have hc : trace ++ [e] = (as ++ [.delivered n p]) ++ [.login token] := by simpa using he
      exact absurd (List.append_inj' hc rfl).2 (by simpa using hno token)
    · have hc : trace ++ [e] = (as ++ .delivered n p :: .login token :: cs) ++ [c] := by
        simpa using he
      exact ih cs (List.append_inj' hc rfl).1
  | @login trace k q old _ hold hq ih =>
    rcases List.eq_nil_or_concat bs with rfl | ⟨cs, c, rfl⟩
    · have hl := (List.append_inj' he rfl).2
      simp only [List.cons.injEq, NetEvent.delivered.injEq, NetEvent.login.injEq, and_true] at hl
      obtain ⟨⟨_, rfl⟩, rfl⟩ := hl
      exact ⟨old, hold, hq, rfl⟩
    · rcases List.eq_nil_or_concat cs with rfl | ⟨ds, d, rfl⟩
      · have hc : trace ++ [.delivered k q, .login (loginToken (splice old 0 q.body))] =
            (as ++ [.delivered n p]) ++ [.login token, c] := by simpa using he
        have hl := (List.append_inj' hc rfl).2
        simp at hl
      · have hc : trace ++ [.delivered k q, .login (loginToken (splice old 0 q.body))] =
            (as ++ .delivered n p :: .login token :: ds) ++ [d, c] := by simpa using he
        exact ih ds (List.append_inj' hc rfl).1

theorem Recorded.handle {l : Ledger} (h : Recorded l.trace) (hb : l.buffer.length = 1024) (n : Nat)
    {p : NetPackage} (hp : p.body.length ≤ 1024) :
    Recorded (l.handle n p).trace ∧ (l.handle n p).buffer.length = 1024 := by
  have hlen : (splice l.buffer 0 p.body).length = 1024 := by rw [length_splice (by omega), hb]
  unfold Ledger.handle
  dsimp only
  split
  next => exact ⟨h.login hb hp, hlen⟩
  next => exact ⟨h.plain (by simp), hlen⟩

theorem Recorded.handleAll {l : Ledger} (h : Recorded l.trace) (hb : l.buffer.length = 1024)
    (n : Nat) {ps : List NetPackage} (hp : ∀ p ∈ ps, p.body.length ≤ 1024) :
    Recorded (ps.foldl (Ledger.handle n) l).trace := by
  induction ps generalizing l with
  | nil => exact h
  | cons p ps ih =>
    obtain ⟨h1, hb1⟩ := h.handle hb n (hp p (by simp))
    exact ih h1 hb1 fun q hq => hp q (by simp [hq])

theorem Host.Housekeeping.recorded {host host' : Host} (h : host.Housekeeping host')
    (hr : Recorded host.trace) : Recorded host'.trace := by
  obtain ⟨es, he, hes⟩ := h.trace
  rw [he]
  refine hr.append fun e hm token => ?_
  obtain ⟨s, rfl | rfl⟩ := hes e hm
  · simp
  · simp

theorem servedPackets_length {con : NetConnection} {error readable : Bool} {calls : Calls}
    {p : NetPackage} (hp : p ∈ servedPackets con error readable calls) : p.body.length ≤ 1024 := by
  unfold servedPackets at hp
  split at hp
  next =>
    obtain ⟨ha, hs⟩ := parse_package hp
    have hmax : p.header.bodySize.toInt ≤ 1024 := ha.2
    omega
  next => cases hp

namespace NetConnectionManager

theorem Inv.recorded_poll {build : Build} {st st' : NetConnectionManager × List Int} {s : Int}
    {error readable writable : Bool} {calls : Calls} (h : Inv build st) (hs : s ∉ st.2)
    (hf : s = st.1.listener.socket → calls.accept.Fresh st.1.host)
    (hp : pollSocket build st s error readable writable calls = some st')
    (hr : Recorded st.1.host.trace) : Recorded st'.1.host.trace := by
  obtain ⟨⟨remove, m'⟩, hh, he⟩ := Option.bind_eq_some_iff.mp hp
  cases he
  rcases h.handle_cases hs hf hh with rfl | ⟨hl, ret, hread⟩ | ⟨_, con, host', con', hc, hserve, _, rfl⟩
  · exact hr
  · have hf := hf hl
    obtain ⟨_, ⟨_, _, rfl⟩ | ⟨t, _, _, he, ⟨rfl, _⟩ | ⟨rfl, _⟩⟩⟩ := listenerRead_cases hread
    · exact hr
    · rw [he] at hf
      change Recorded (st.1.refuse t).host.trace
      rw [refuse_trace hf.ne_error]
      exact hr.append (by simp)
    · change Recorded (st.1.enroll build t).host.trace
      rw [enroll_trace]
      exact hr.plain (by simp)
  · obtain ⟨l, bytes, es, hl, _, _, ht, hes⟩ := serve_ledger (h.idle hc hs) h.buffer hserve
    change Recorded host'.trace
    rw [ht]
    refine Recorded.append ?_ ?_
    · rw [hl]
      exact Recorded.handleAll hr h.buffer _ fun p hp => servedPackets_length hp
    · rcases hes with ⟨rfl, _⟩ | rfl
      · simp
      · simp

theorem Inv.recorded_step {build : Build} {st st' : NetConnectionManager × List Int}
    (h : Inv build st) (hs : PollStep build st st') (hr : Recorded st.1.host.trace) :
    Recorded st'.1.host.trace := by
  cases hs with
  | init => exact (housekeeping_init _ _ _).recorded hr
  | poll hn hf hp => exact h.recorded_poll hn hf hp hr
  | sweep => exact (housekeeping_sweep _ _).recorded hr
  | removeConnection s => exact (housekeeping_removeConnection _ s).recorded hr
  | release => exact (housekeeping_release _).recorded hr

theorem PollReachable.recorded {build : Build} {st : NetConnectionManager × List Int}
    (h : PollReachable build st) : Recorded st.1.host.trace := by
  induction h with
  | refl => exact .nil
  | tail hr hs ih => exact (PollReachable.inv hr).recorded_step hs ih

/-- The packet that leaves its body of ones behind. -/
def onesPackage : NetPackage := sendPackage 0 3 1024 ones

theorem splice_ones : splice (zeros 1024) 0 ones = ones := by
  rw [splice_body, List.drop_of_length_le, List.append_nil]
  rw [length_zeros, ones, List.length_replicate]

section
variable {p : NetPackage} (hlogin : p.header.command = 1001) (ha : p.header.Accepted)
  (hb : p.header.bodySize.toInt = p.body.length)

include hlogin ha hb

/-- A login request that is the first packet of all. -/
theorem extracted_first : ∃ m, Reachable .posix m ∧
    Extracted p (loginToken (splice (zeros 1024) 0 p.body)) m.host.trace := by
  have hok : ∀ q ∈ [p], q.header.Accepted ∧ q.header.bodySize.toInt = q.body.length := by
    simpa using ⟨ha, hb⟩
  obtain ⟨m, con, hr, _, _, hl⟩ := oneClient_packets hok
  have hyes : p.isLogin = true := by simp [NetPackage.isLogin, hlogin]
  have ht := congrArg Ledger.trace hl
  simp only [List.foldl_cons, List.foldl_nil, Ledger.handle, hyes, if_true] at ht
  exact ⟨m, hr, _, 0, [], ht⟩

theorem extracted_behind_ones : ∃ m, Reachable .posix m ∧
    Extracted p (loginToken (splice ones 0 p.body)) m.host.trace := by
  have hones : onesPackage.header.Accepted ∧
      onesPackage.header.bodySize.toInt = onesPackage.body.length :=
    ⟨by decide, by decide +kernel⟩
  have hok : ∀ q ∈ [onesPackage, p],
      q.header.Accepted ∧ q.header.bodySize.toInt = q.body.length := by
    intro q hq
    rcases List.mem_pair.mp hq with rfl | rfl
    · exact hones
    · exact ⟨ha, hb⟩
  obtain ⟨m, con, hr, _, _, hl⟩ := oneClient_packets hok
  have hno : onesPackage.isLogin = false := by decide
  have hyes : p.isLogin = true := by simp [NetPackage.isLogin, hlogin]
  have hbuf : splice oneClient.host.buffer 0 onesPackage.body = ones := splice_ones
  have ht := congrArg Ledger.trace hl
  simp only [List.foldl_cons, List.foldl_nil, Ledger.handle, hno, hyes, if_true,
    Ledger.ofConnection, Bool.false_eq_true, if_false, hbuf] at ht
  exact ⟨m, hr, _, 0, [], ht⟩

/-- The token is a function of the packet's own bytes exactly when it ends within the body;
otherwise what earlier packets have left behind shows, or no token is read at all. -/
theorem loginToken_own_iff :
    (∃ t, ∀ (build : Build) (m : NetConnectionManager) (token : Option (List Byte)),
        Reachable build m → Extracted p token m.host.trace → token = some t) ↔
      EndsInBody p.body := by
  have hmax : p.header.bodySize.toInt ≤ 1024 := ha.2
  constructor
  · rintro ⟨t, hall⟩
    obtain ⟨m, hr, hx⟩ := extracted_first hlogin ha hb
    obtain ⟨m', hr', hx'⟩ := extracted_behind_ones hlogin ha hb
    exact endsInBody_of_loginToken (by omega) (hall _ m _ hr hx) (hall _ m' _ hr' hx')
  · intro hends
    refine ⟨((p.body.drop 4).take (lengthPrefix p.body 0 % 2 ^ 64).toNat).takeWhile (· ≠ 0),
      fun build m token hr hx => ?_⟩
    obtain ⟨old, hold, hlen, rfl⟩ := hr.poll.recorded.origin hx
    exact hends.loginToken hold hlen

end

theorem shortToken_own : ∃ t, ∀ (build : Build) (m : NetConnectionManager)
    (token : Option (List Byte)), Reachable build m →
      Extracted (loginRequest shortToken) token m.host.trace → token = some t :=
  (loginToken_own_iff (p := loginRequest shortToken) rfl (by decide) (by decide)).mpr
    ⟨by decide, Or.inr (by decide)⟩

/-- The length 3, and not a byte of the token. -/
def bareLength : List Byte := [3, 0, 0, 0]

/-- One request, two histories, two tokens: the second is what another packet has left. -/
theorem bareLength_leaks : ∃ m m', Reachable .posix m ∧ Reachable .posix m' ∧
    Extracted (loginRequest bareLength) (some []) m.host.trace ∧
    Extracted (loginRequest bareLength) (some [1, 1, 1]) m'.host.trace := by
  obtain ⟨m, hr, hx⟩ := extracted_first (p := loginRequest bareLength) rfl (by decide) (by decide)
  obtain ⟨m', hr', hx'⟩ :=
    extracted_behind_ones (p := loginRequest bareLength) rfl (by decide) (by decide)
  have hz : loginToken (splice (zeros 1024) 0 bareLength) = some [] := by decide +kernel
  have ho : loginToken (splice ones 0 bareLength) = some [1, 1, 1] := by decide +kernel
  exact ⟨m, m', hr, hr', hz ▸ hx, ho ▸ hx'⟩

end NetConnectionManager

end CppTry
