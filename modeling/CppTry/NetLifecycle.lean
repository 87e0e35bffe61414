import CppTry.CommandSync
import CppTry.MySQLResult
import CppTry.StraySockets
import CppTry.Workers

namespace CppTry

/-- `NetServer` with `LuaWrap`. Beside its members, `starts` has the calls of `Start` with the
results of their queries, `listened` the ports that the manager has been initialised with, and
`bridges` the sockets of its awake bridges. -/
structure NetService where
  manager : NetConnectionManager
  mySQL : MySQLWrap ResultSet
  port : Int32
  /-- the `static bool init` of `GetLuaState` -/
  luaInit : Bool
  /-- `LuaState` is not `NULL` -/
  luaState : Bool
  starts : List (Int32 × ResultSet)
  listened : List Int32
  bridges : List Int

namespace NetService
open NetConnectionManager Worker

/-- Behind the constructor and `Init`. -/
def new : NetService := ⟨.new, .init, 0, false, false, [], [], []⟩

def getLuaState (s : NetService) : NetService :=
  if s.luaInit then s else { s with luaInit := true, luaState := true }

def releaseLua (s : NetService) : NetService := { s with luaState := false }

def serverQuery : List Byte := text "select * from tb_server where id = 10001"

/-- `Start` up to the thread; the query leaves one result. `none` is the end of the program, or a
field that is not there. -/
def start (build : Build) (ndebug : Bool) (s : NetService) (port : Int32) (res : ResultSet) :
    Option NetService := do
  let s := s.getLuaState
  let (rows, mySQL) := s.mySQL.query ndebug serverQuery ⟨some res, []⟩
  let result ← MySQLResult.init ndebug (← rows)
  let (found, result) := result.getRecord
  let s := { s with mySQL, starts := s.starts ++ [(port, res)] }
  if found then do
    let _ ← result.getStringNamed (text "ip")
    let pt ← result.getIntNamed build (text "port")
    pure { s with port := pt }
  else pure { s with port }

/-- `ThreadProcess` in front of its loop. -/
def initManager (build : Build) (s : NetService) (listen : ListenCalls) (bridge : BridgeCalls) :
    NetService :=
  { s with
    manager := s.manager.init build listen bridge
    listened := s.listened ++ [s.port]
    bridges := s.bridges ++ bridged build bridge }

/-- The asserts of `NetListener::Start`. -/
def ListenerStarts (build : Build) (s : NetService) (listen : ListenCalls) : Prop :=
  0 < s.port ∧ s.manager.listener.socket = socketError ∧
    (createListenSocket build s.manager.host listen).1 ≠ socketError

/-- `Start`, `ThreadProcess` and `Stop`, with any results of the calls to the system. -/
def worker (build : Build) (ndebug : Bool) : Worker NetService where
  launch s s' := ∃ port res, s.start build ndebug port res = some s'
  setUp s s' := ∃ (listen : ListenCalls) (bridge : BridgeCalls),
    (listen.socket ≠ socketError → s.manager.host.Fresh listen.socket) ∧
    (bridge.socket ≠ socketError →
      (createListenSocket build s.manager.host listen).2.Fresh bridge.socket) ∧
    (ndebug = false → s.ListenerStarts build listen) ∧ s' = s.initManager build listen bridge
  turn s s' := ∃ poll manager, s.manager.Allowed build (.select poll) ∧
    s.manager.selectSocket build poll = some manager ∧ s' = { s with manager }
  tearDown s s' := s' = { s with manager := s.manager.release }
  land s s' := s' = s.releaseLua

/-- The port of the first row, or the one that is passed where there is no row. -/
def configuredPort (build : Build) (call : Int32 × ResultSet) : Int32 :=
  match call.2.rows with
  | [] => call.1
  | row :: _ =>
    ((call.2.names.findIdx? (· == text "port")).bind (row[·]?)).join.elim 0 (atoi build)

/-- What a service keeps, by where its thread is. -/
structure Lives (build : Build) (phase : Phase) (s : NetService) : Prop where
  inv : Inv build (s.manager, [])
  stray (t : Int) : s.manager.Stray t ↔ t ∈ s.bridges
  nodup : s.bridges.Nodup
  closed : phase ≠ .testing → phase ≠ .turning →
    s.manager.listener.socket = socketError ∧ s.manager.connections = ∅
  ready : s.mySQL.mysql.ready = true
  inSync : s.mySQL.InSync
  server : s.mySQL.server = List.replicate s.starts.length serverQuery
  luaInit : s.luaInit = true ↔ s.starts ≠ []
  luaState : s.luaState = true ↔ phase ≠ .idle ∧ s.starts.length = 1
  ports : s.starts.map (configuredPort build) =
    s.listened ++ if phase = .spawned then [s.port] else []

section
variable {build : Build} {ndebug : Bool} {s s' : NetService}

theorem getIntNamed_port {res : ResultSet} {result : MySQLResult} {row : List Cell}
    {rows : List (List Cell)} {pt : Int32} (h : MySQLResult.init ndebug res = some result)
    (hrows : res.rows = row :: rows)
    (hpt : result.getRecord.2.getIntNamed build (text "port") = some pt) (port : Int32) :
    configuredPort build (port, res) = pt := by
  obtain ⟨_, hresult, _, hmap⟩ := MySQLResult.init_eq h
  have hrecord : result.getRecord.2 = { result with result := some rows, curRecord := some row } := by
    unfold MySQLResult.getRecord
    rw [hresult, hrows]
  rw [hrecord] at hpt
  simp only [MySQLResult.getIntNamed, MySQLResult.getInt, MySQLResult.getCell, MySQLResult.valueStr,
    MySQLResult.getIndex, Std.ExtTreeMap.getD_eq_getD_getElem?, hmap] at hpt
  simp only [configuredPort, hrows]
  cases hfound : res.names.findIdx? (· == text "port") with
  | none =>
    rw [hfound] at hpt
    cases hpt
  | some i =>
    rw [hfound] at hpt
    obtain ⟨cell, hcell, rfl⟩ := Option.map_eq_some_iff.mp hpt
    have hget : row[i]? = some cell := by simpa using hcell
    simp [hget]

/-- All that `Start` does. -/
theorem start_cases (hready : s.mySQL.mysql.ready = true) {port : Int32} {res : ResultSet}
    (h : s.start build ndebug port res = some s') :
    s' = { s.getLuaState with
      mySQL := ⟨⟨none, []⟩, s.mySQL.calls ++ [(serverQuery, true)], s.mySQL.server ++ [serverQuery]⟩
      starts := s.starts ++ [(port, res)]
      port := configuredPort build (port, res) } := by
  have hlua : s.getLuaState.mySQL = s.mySQL ∧ s.getLuaState.starts = s.starts := by
    unfold getLuaState
    split
    next => exact ⟨rfl, rfl⟩
    next => exact ⟨rfl, rfl⟩
  have hquery : s.getLuaState.mySQL.query ndebug serverQuery ⟨some res, []⟩ =
      (some res, ⟨⟨none, []⟩, s.mySQL.calls ++ [(serverQuery, true)],
        s.mySQL.server ++ [serverQuery]⟩) := by
    have hclear : s.mySQL.mysql.clearResult = ⟨none, []⟩ := by
      rw [MySQL.clearResult_eq]
      have hunread : s.mySQL.mysql.unread.isSome = false := by
        simp only [MySQL.ready, Bool.and_eq_true, Option.isNone_iff_eq_none] at hready
        rw [hready.1]
        rfl
      rw [hunread]
      rfl
    rw [hlua.1, MySQLWrap.query, MySQLWrap.startMySQLQuery, MySQLWrap.clearResult, hclear]
    rfl
  unfold NetService.start at h
  dsimp only at h
  rw [hquery, hlua.2] at h
  obtain ⟨rows, hres, h⟩ := Option.bind_eq_some_iff.mp h
  cases hres
  obtain ⟨result, hinit, h⟩ := Option.bind_eq_some_iff.mp h
  obtain ⟨_, hresult, _, _⟩ := MySQLResult.init_eq hinit
  cases hrows : res.rows with
  | nil =>
    have hrecord : result.getRecord.1 = false := by
      unfold MySQLResult.getRecord
      rw [hresult, hrows]
    simp only [hrecord] at h
    cases h
    simp [configuredPort, hrows]
  | cons row rows =>
    have hrecord : result.getRecord.1 = true := by
      unfold MySQLResult.getRecord
      rw [hresult, hrows]
    simp only [hrecord, if_true] at h
    obtain ⟨ip, _, h⟩ := Option.bind_eq_some_iff.mp h
    obtain ⟨pt, hpt, h⟩ := Option.bind_eq_some_iff.mp h
    cases h
    rw [getIntNamed_port hinit hrows hpt port]

theorem Lives.start (h : Lives build .idle s) {port : Int32} {res : ResultSet}
    (hs : s.start build ndebug port res = some s') : Lives build .spawned s' := by
  obtain ⟨hinv, hstray, hnodup, hclosed, hready, hsync, hserver, hinit, hstate, hports⟩ := h
  obtain rfl := start_cases hready hs
  have hlua : s.getLuaState.manager = s.manager ∧ s.getLuaState.bridges = s.bridges ∧
      s.getLuaState.listened = s.listened ∧ s.getLuaState.luaInit = true ∧
      (s.getLuaState.luaState = true ↔ s.starts = []) := by
    unfold getLuaState
    split
    next hi =>
      refine ⟨rfl, rfl, rfl, hi, iff_of_false ?_ (hinit.mp hi)⟩
      exact fun hh => (hstate.mp hh).1 rfl
    next hi =>
      refine ⟨rfl, rfl, rfl, rfl, iff_of_true rfl ?_⟩
      by_contra hne
      exact hi (hinit.mpr hne)
  obtain ⟨hmanager, hbridges, hlistened, hi, hl⟩ := hlua
  exact {
    inv := by
      rw [hmanager]
      exact hinv
    stray := by
      simp only [hmanager, hbridges]
      exact hstray
    nodup := by
      rw [hbridges]
      exact hnodup
    closed := by
      rw [hmanager]
      exact fun _ _ => hclosed (by simp) (by simp)
    ready := rfl
    inSync := MySQLWrap.inSync_append_iff.mpr hsync
    server := by
      rw [List.length_append, List.length_singleton, List.replicate_succ', hserver]
    luaInit := iff_of_true hi (by simp)
    luaState := by
      rw [hl, List.length_append, List.length_singleton, Nat.add_eq_right,
        List.length_eq_zero_iff]
      simp
    ports := by
      simp only [List.map_append, hports, hlistened]
      simp }

theorem Lives.initManager (h : Lives build .spawned s) {listen : ListenCalls} {bridge : BridgeCalls}
    (hf : listen.socket ≠ socketError → s.manager.host.Fresh listen.socket)
    (hb : bridge.socket ≠ socketError →
      (createListenSocket build s.manager.host listen).2.Fresh bridge.socket) :
    Lives build .testing (s.initManager build listen bridge) := by
  obtain ⟨hl, _⟩ := h.closed (by simp) (by simp)
  have hstray := h.inv.owned.stray_init hl hf hb
  exact {
    inv := h.inv.step (.init hl hf hb)
    stray := fun t => by
      change (s.manager.init build listen bridge).Stray t ↔ t ∈ s.bridges ++ bridged build bridge
      rw [hstray, h.stray, List.mem_append]
    nodup := by
      refine List.nodup_append'.mpr ⟨h.nodup, ?_, ?_⟩
      · unfold bridged
        split
        next => exact List.nodup_singleton _
        next => exact List.nodup_nil
      · intro t ht hbt
        have hopen := ((h.stray t).mpr ht).opened
        unfold bridged at hbt
        split at hbt
        next hs =>
          obtain rfl := List.mem_singleton.mp hbt
          exact (hb hs.1).unused ((createListenSocket_opened_iff hf _).mpr (Or.inl hopen))
        next => cases hbt
    closed := fun hne => absurd rfl hne
    ready := h.ready
    inSync := h.inSync
    server := h.server
    luaInit := h.luaInit
    luaState := h.luaState.trans (by simp [NetService.initManager])
    ports := by
      rw [if_neg (by simp)]
      have hports := h.ports
      rw [if_pos rfl] at hports
      exact hports.trans (List.append_nil _).symm }

theorem Lives.turn (h : Lives build .turning s) {poll : Option (List SocketEvent)}
    {manager : NetConnectionManager} (ha : s.manager.Allowed build (.select poll))
    (hs : s.manager.selectSocket build poll = some manager) :
    Lives build .testing { s with manager } where
  inv := h.inv.run (Step.run h.inv ⟨.select poll, ha, hs⟩)
  stray t := (h.inv.stray_selectSocket ha hs t).trans (h.stray t)
  nodup := h.nodup
  closed hne := absurd rfl hne
  ready := h.ready
  inSync := h.inSync
  server := h.server
  luaInit := h.luaInit
  luaState := h.luaState.trans (by simp)
  ports := h.ports

theorem Lives.release (h : Lives build .testing s) :
    Lives build .ended { s with manager := s.manager.release } where
  inv := h.inv.step .release
  stray t := (h.inv.owned.stray_release t).trans (h.stray t)
  nodup := h.nodup
  closed _ _ := ⟨rfl, rfl⟩
  ready := h.ready
  inSync := h.inSync
  server := h.server
  luaInit := h.luaInit
  luaState := h.luaState.trans (by simp)
  ports := h.ports

theorem Lives.releaseLua {phase : Phase} (h : Lives build phase s) (hp : phase = .ended ∨ phase = .idle) :
    Lives build .idle s.releaseLua where
  inv := h.inv
  stray := h.stray
  nodup := h.nodup
  closed _ _ := h.closed (by rcases hp with rfl | rfl <;> simp) (by rcases hp with rfl | rfl <;> simp)
  ready := h.ready
  inSync := h.inSync
  server := h.server
  luaInit := h.luaInit
  luaState := by simp [NetService.releaseLua]
  ports := by
    have hports := h.ports
    rcases hp with rfl | rfl
    · exact hports
    · exact hports

theorem lives_new : Lives build .idle new where
  inv := Inv.new
  stray t := ⟨fun h => absurd h.opened (by simp [new, NetConnectionManager.new]), by simp [new]⟩
  nodup := List.nodup_nil
  closed _ _ := ⟨rfl, rfl⟩
  ready := rfl
  inSync := by simp [MySQLWrap.InSync, new, MySQLWrap.init]
  server := rfl
  luaInit := by simp [new]
  luaState := by simp [new]
  ports := rfl

theorem worker_invariant (build : Build) (ndebug : Bool) :
    (worker build ndebug).Invariant (Lives build) where
  launch := by
    rintro s s' h ⟨port, res, hs⟩
    exact h.start hs
  setUp := by
    rintro s s' h ⟨listen, bridge, hf, hb, _, rfl⟩
    exact h.initManager hf hb
  test h :=
    ⟨h.inv, h.stray, h.nodup, fun _ hne => absurd rfl hne, h.ready, h.inSync, h.server, h.luaInit,
      h.luaState.trans (by simp), h.ports⟩
  turn := by
    rintro s s' h ⟨poll, manager, ha, hs, rfl⟩
    exact h.turn ha hs
  tearDown := by
    rintro s s' h rfl
    exact h.release
  land := by
    rintro s s' h rfl
    exact h.releaseLua (Or.inl rfl)
  landIdle := by
    rintro s s' h rfl
    exact h.releaseLua (Or.inr rfl)

/-- Whatever the owner and the thread do, and in whatever order: the open descriptors are those of
the connections, of the listener and of the awake bridges of all starts; only these last ones stay
when the thread is not in its loop. Each thread listens at the port of its start, no query is out of
sync, and the Lua state is there in the first service only. -/
theorem lifecycle {st : State NetService} (h : (worker build ndebug).Reachable new st) :
    (∀ t, t ∈ st.data.manager.host.opened ↔ t ∈ st.data.manager.connections ∨
        t = st.data.manager.listener.socket ∧ t ≠ socketError ∨ t ∈ st.data.bridges) ∧
      st.data.bridges.Nodup ∧
      (st.phase ≠ .testing → st.phase ≠ .turning → st.data.manager.listener.socket = socketError ∧
        st.data.manager.connections = ∅ ∧ st.data.manager.host.opened = st.data.bridges.toFinset) ∧
      st.data.starts.map (configuredPort build) =
        (st.data.listened ++ if st.phase = .spawned then [st.data.port] else []) ∧
      st.data.mySQL.InSync ∧
      st.data.mySQL.server = List.replicate st.data.starts.length serverQuery ∧
      (st.data.luaState = true ↔ st.phase ≠ .idle ∧ st.data.starts.length = 1) := by
  have hlives := (worker_invariant build ndebug).reachable lives_new h
  have hopened : ∀ t, t ∈ st.data.manager.host.opened ↔ t ∈ st.data.manager.connections ∨
      t = st.data.manager.listener.socket ∧ t ≠ socketError ∨ t ∈ st.data.bridges := by
    intro t
    rw [← hlives.stray]
    have ho := hlives.inv.owned
    constructor
    · intro ht
      by_cases hc : t ∈ st.data.manager.connections
      · exact Or.inl hc
      · by_cases hl : t = st.data.manager.listener.socket
        · exact Or.inr (Or.inl ⟨hl, ho.books.ne_error ht⟩)
        · exact Or.inr (Or.inr ⟨ht, hc, hl⟩)
    · rintro (hc | ⟨rfl, hne⟩ | hs)
      · exact ho.mem_opened hc
      · exact ho.listening hne
      · exact hs.opened
  refine ⟨hopened, hlives.nodup, fun ht hu => ?_, hlives.ports, hlives.inSync, hlives.server,
    hlives.luaState⟩
  obtain ⟨hl, hc⟩ := hlives.closed ht hu
  refine ⟨hl, hc, ?_⟩
  ext t
  rw [hopened, hl, hc, List.mem_toFinset]
  constructor
  · rintro (hm | ⟨he, hne⟩ | hb)
    · simp at hm
    · exact absurd he hne
    · exact hb
  · exact fun hb => Or.inr (Or.inr hb)

end

/-- A server with a port. -/
def portRow : ResultSet where
  names := [text "id", text "ip", text "port"]
  rows := [[some (text "10001"), some (text "127.0.0.1"), some (text "8081")]]
  width := by simp

/-- A service that has been started once, by where its thread is. -/
def startedOnce (luaState : Bool) (manager : NetConnectionManager) (listened : List Int32)
    (bridges : List Int) : NetService :=
  ⟨manager, ⟨⟨none, []⟩, [(serverQuery, true)], [serverQuery]⟩, 8081, true, luaState,
    [(30, portRow)], listened, bridges⟩

def startedManager : NetConnectionManager := NetConnectionManager.new.init .posix ⟨3, 0, 0, 0⟩ ⟨4, 0⟩

theorem startedOnce_start : new.start .posix false 30 portRow = some (startedOnce true .new [] []) := by
  obtain ⟨s, hs⟩ : ∃ s, new.start .posix false 30 portRow = some s :=
    Option.isSome_iff_exists.mp (by decide +kernel)
  have hport : configuredPort .posix (30, portRow) = 8081 := by decide +kernel
  rw [hs, start_cases rfl hs, hport]
  rfl

theorem startedOnce_stopping : (worker .posix false).Reachable new
    ⟨false, .testing, true, startedOnce true startedManager [8081] [4]⟩ := by
  have hstart : Step (worker .posix false) (initial new) .start
      ⟨true, .spawned, false, startedOnce true .new [] []⟩ := .start ⟨30, portRow, startedOnce_start⟩
  have hinit : (worker .posix false).setUp (startedOnce true .new [] [])
      (startedOnce true startedManager [8081] [4]) := by
    refine ⟨⟨3, 0, 0, 0⟩, ⟨4, 0⟩, fun _ => ⟨?_, ?_, ?_⟩, fun _ => ⟨?_, ?_, ?_⟩,
      fun _ => ⟨?_, ?_, ?_⟩, rfl⟩
    all_goals decide
  exact ⟨_, .head hstart (.head (.setUp hinit) (.head (.stop (by simp)) .refl))⟩

theorem startedOnce_stopped : (worker .posix false).Reachable new
    ⟨false, .idle, false, startedOnce false startedManager.release [8081] [4]⟩ :=
  (startedOnce_stopping.step (.tearDown rfl)).step (.join rfl)

/-- The awake bridge of the first service stays open. -/
theorem lifecycle_stopped : (worker .posix false).Reachable new
      ⟨false, .idle, false, startedOnce false startedManager.release [8081] [4]⟩ ∧
    startedManager.release.host.opened = {4} :=
  ⟨startedOnce_stopped, ((lifecycle startedOnce_stopped).2.2.1 (by simp) (by simp)).2.2⟩

theorem worker_goes (build : Build) (ndebug : Bool) :
    (worker build ndebug).Goes (Lives build) where
  turn _ := ⟨_, none, _, trivial, rfl, rfl⟩
  tearDown _ := ⟨_, rfl⟩
  land _ := ⟨_, rfl⟩

section
variable {build : Build} {ndebug : Bool} {s : NetService}

/-- Calls that all succeed, and no bridge. -/
theorem setUp_fresh (hl : s.manager.listener.socket = socketError) (hp : 0 < s.port) {t : Int}
    (ht : s.manager.host.Fresh t) : ∃ s', (worker build ndebug).setUp s s' := by
  have hlisten : (createListenSocket build s.manager.host ⟨t, 0, 0, 0⟩).1 = t := by
    rw [createListenSocket, if_neg ht.ne_error]
    cases build <;> simp [socketSetNonblocking]
  refine ⟨_, ⟨t, 0, 0, 0⟩, ⟨socketError, 0⟩, fun _ => ht, fun h => absurd rfl h, fun _ => ?_, rfl⟩
  refine ⟨hp, hl, ?_⟩
  rw [hlisten]
  exact ht.ne_error

/-- Calls that all fail, where nothing asserts that they succeed. -/
theorem setUp_failed : ∃ s', (worker build true).setUp s s' :=
  ⟨_, ⟨socketError, 0, 0, 0⟩, ⟨socketError, 0⟩, fun h => absurd rfl h, fun h => absurd rfl h,
    fun h => absurd h (by simp), rfl⟩

theorem ListenerStarts.fresh {listen : ListenCalls} (h : s.ListenerStarts build listen)
    (hf : listen.socket ≠ socketError → s.manager.host.Fresh listen.socket) :
    s.manager.host.Fresh listen.socket := by
  obtain ⟨_, _, hsocket⟩ := h
  apply hf
  rcases createListenSocket_cases (Eq.refl (createListenSocket build s.manager.host listen)) with
    ⟨he, _⟩ | ⟨_, hne, _⟩
  · exact absurd he hsocket
  · exact hne

end

/-- The thread ends for no other reason than a `Stop`. Once `Stop` waits, the thread does what it
has left and nothing else: a poll only where it was in front of one. `Stop` can then return, but
where an assert in front of the loop ends the program: for a port that is not positive, or without a
descriptor that is free. -/
theorem stop_joins {build : Build} {ndebug : Bool} {st : State NetService}
    (h : (worker build ndebug).Reachable new st) :
    (st.waiting = false → st.phase ≠ .idle → st.run = true ∧ st.phase ≠ .ended) ∧
      (st.waiting = true →
        (∀ ls t, Run (worker build ndebug) st ls t → .join ∉ ls →
          st.phase.left = ls ++ t.phase.left) ∧
        ((∃ ls t u, Run (worker build ndebug) st ls t ∧ Step (worker build ndebug) t .join u) ↔
          (ndebug = false → st.phase = .spawned →
            0 < st.data.port ∧ ∃ t, st.data.manager.host.Fresh t))) := by
  have hsound := h.sound
  have hlives := (worker_invariant build ndebug).reachable lives_new h
  refine ⟨hsound.flag, fun hw => ⟨fun ls t hrun hj => hsound.run_left hw hrun hj, ?_, ?_⟩⟩
  · rintro ⟨ls, t, u, hrun, hjoin⟩ hd hp
    obtain ⟨_, listen, bridge, hf, _, hstarts, _⟩ := hrun.setUp_of_join hjoin hw hp
    exact ⟨(hstarts hd).1, listen.socket, (hstarts hd).fresh hf⟩
  · intro hports
    refine (worker_goes build ndebug).joins (worker_invariant build ndebug) hsound hw (fun hp => ?_)
      hlives
    cases ndebug with
    | true => exact setUp_failed
    | false =>
      obtain ⟨hport, t, ht⟩ := hports rfl hp
      exact setUp_fresh (hlives.closed (by simp [hp]) (by simp [hp])).1 hport ht

theorem stop_joins_started : ∃ ls t u, Run (worker .posix false)
      ⟨false, .testing, true, startedOnce true startedManager [8081] [4]⟩ ls t ∧
    Step (worker .posix false) t .join u :=
  ((stop_joins startedOnce_stopping).2 rfl).2.mpr (by simp)

end NetService

end CppTry
