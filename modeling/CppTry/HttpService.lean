import CppTry.HttpRequests
import CppTry.LuaStrings
import CppTry.Workers

namespace CppTry

/-- What `evhttp_send_reply` is given. -/
structure HttpReply where
  code : Nat
  reason : Option (List Byte)
  body : List Byte

/-- A callback on the state of its class. `ε` is what its calls to the system return; `none` is
something undefined. -/
abbrev HttpServerCallBack (ε σ : Type) : Type :=
  ε → List Byte → HttpParamMap → HttpResponse → σ → Option (HttpResponse × σ)

/-- What `OnRegisterServer` calls; a default callback may be empty. -/
inductive Registration (ε σ : Type)
  | registerServer (path : List Byte) (call : HttpServerCallBack ε σ)
  | registerDefaultServer (call : Option (HttpServerCallBack ε σ))

/-- A class that is derived from `HttpServer`. It registers in `OnRegisterServer` and nowhere else. -/
structure HttpClass (ε σ : Type) where
  onRegisterServer : List (Registration ε σ)
  onInit : σ → σ
  onUpdate : σ → σ
  onRelease : σ → σ

/-- What happens to an object of such a class. -/
inductive HttpEvent (ε : Type)
  | init
  | request (env : ε) (uri : List Byte)
  | update
  | release

/-- An object of such a class; `events` and `replies` have what has happened and what has been
sent. -/
structure HttpService (ε σ : Type) where
  server : HttpServer
  port : Int16
  serverCallBack : Std.ExtTreeMap (List Byte) (HttpServerCallBack ε σ)
  defaultCallBack : Option (HttpServerCallBack ε σ)
  state : σ
  events : List (HttpEvent ε)
  replies : List HttpReply

/-- The text for a URI that nobody serves. -/
def notFoundText (uri : List Byte) : List Byte :=
  text "The requested URL " ++ HttpResponse.cString uri ++ text " was not found on this server."

namespace HttpService
variable {ε σ : Type}

def new (state : σ) : HttpService ε σ := ⟨⟨false, ∅⟩, 0, ∅, none, state, [], []⟩

def register (s : HttpService ε σ) : Registration ε σ → HttpService ε σ
  | .registerServer path call => { s with serverCallBack := s.serverCallBack.insert path call }
  | .registerDefaultServer call => { s with defaultCallBack := call }

/-- `ThreadProcess` in front of its loop. -/
def prepare (c : HttpClass ε σ) (s : HttpService ε σ) : HttpService ε σ :=
  let s := { s with server := { s.server with eventBase := true } }
  let s := c.onRegisterServer.foldl register s
  { s with state := c.onInit s.state, events := s.events ++ [.init] }

/-- `HttpResponse res; call(path, params, res); res.SendReply(req)`. -/
def reply (s : HttpService ε σ) (call : HttpServerCallBack ε σ) (env : ε) (path : List Byte)
    (params : HttpParamMap) : Option (HttpReply × σ) := do
  let (res, state) ← call env path params .new s.state
  pure (⟨200, none, res.resBuff⟩, state)

/-- Who answers a request, and what. -/
def dispatch (s : HttpService ε σ) (env : ε) (path : List Byte) (params : HttpParamMap)
    (uri : List Byte) : Option (HttpReply × σ) :=
  match s.serverCallBack[path]? with
  | some call => s.reply call env path params
  | none =>
    match s.defaultCallBack with
    | some call => s.reply call env path params
    | none => some (⟨404, some (text "Not Found"), notFoundText uri⟩, s.state)

def onHttpRequest (s : HttpService ε σ) (env : ε) (uri : List Byte) : Option (HttpService ε σ) := do
  let (path, params) := HttpServer.getHttpParams uri
  let (answer, state) ← s.dispatch env path params uri
  pure { s with state, events := s.events ++ [.request env uri], replies := s.replies ++ [answer] }

/-- A turn of the loop: the requests that `event_base_loop` finds, and `OnUpdate`. -/
def turn (c : HttpClass ε σ) (s : HttpService ε σ) (requests : List (ε × List Byte)) :
    Option (HttpService ε σ) := do
  let s ← requests.foldlM (fun s r => s.onHttpRequest r.1 r.2) s
  pure { s with state := c.onUpdate s.state, events := s.events ++ [.update] }

def finish (c : HttpClass ε σ) (s : HttpService ε σ) : HttpService ε σ :=
  { s with state := c.onRelease s.state, events := s.events ++ [.release] }

/-- `Start`, `ThreadProcess` and `Stop`. -/
def worker (c : HttpClass ε σ) : Worker (HttpService ε σ) where
  launch s s' := ∃ port, s' = { s with port }
  setUp s s' := s' = s.prepare c
  turn s s' := ∃ requests, s.turn c requests = some s'
  tearDown s s' := s' = s.finish c
  land s s' := s' = s

end HttpService

namespace HttpClass
variable {ε σ : Type}

/-- The callback that is registered last for a path. -/
def pathCallBack (path : List Byte) (call : Option (HttpServerCallBack ε σ)) :
    Registration ε σ → Option (HttpServerCallBack ε σ)
  | .registerServer path' call' => if path' = path then some call' else call
  | .registerDefaultServer _ => call

/-- The callback that is registered last as the default. -/
def defaultCallBack (call : Option (HttpServerCallBack ε σ)) :
    Registration ε σ → Option (HttpServerCallBack ε σ)
  | .registerServer _ _ => call
  | .registerDefaultServer call' => call'

/-- Who serves a path. -/
def callBack (c : HttpClass ε σ) (path : List Byte) : Option (HttpServerCallBack ε σ) :=
  (c.onRegisterServer.foldl (pathCallBack path) none).or (c.onRegisterServer.foldl defaultCallBack none)

/-- What the class answers to a request for a path with parameters. -/
def answer (c : HttpClass ε σ) (env : ε) (path : List Byte) (params : HttpParamMap) (uri : List Byte)
    (state : σ) : Option (HttpReply × σ) :=
  match c.callBack path with
  | none => some (⟨404, some (text "Not Found"), notFoundText uri⟩, state)
  | some call => (call env path params .new state).map fun r => (⟨200, none, r.1.resBuff⟩, r.2)

/-- One thing that happens, without a server: the replies, and the state of the class. -/
def act (c : HttpClass ε σ) (st : List HttpReply × σ) : HttpEvent ε → Option (List HttpReply × σ)
  | .init => some (st.1, c.onInit st.2)
  | .request env uri =>
    (c.answer env (HttpServer.getHttpParams uri).1 (HttpServer.getHttpParams uri).2 uri st.2).map
      fun r => (st.1 ++ [r.1], r.2)
  | .update => some (st.1, c.onUpdate st.2)
  | .release => some (st.1, c.onRelease st.2)

end HttpClass

/-- The order of events: the requests of a service lie between its `OnInit` and its `OnRelease`,
and `OnUpdate` follows each lot of them. The flag tells whether a service is open. -/
inductive Served {ε : Type} : Bool → List (HttpEvent ε) → Prop
  | nil : Served false []
  | init {es : List (HttpEvent ε)} : Served false es → Served true (es ++ [.init])
  | turn {es : List (HttpEvent ε)} (requests : List (ε × List Byte)) : Served true es →
      Served true (es ++ requests.map (fun r => .request r.1 r.2) ++ [.update])
  | release {es : List (HttpEvent ε)} : Served true es → Served false (es ++ [.release])

namespace HttpService
open Worker
variable {ε σ : Type} {c : HttpClass ε σ} {s s' : HttpService ε σ} {state : σ}

theorem register_serverCallBack (regs : List (Registration ε σ)) (s : HttpService ε σ)
    (path : List Byte) : (regs.foldl register s).serverCallBack[path]? =
      regs.foldl (HttpClass.pathCallBack path) s.serverCallBack[path]? := by
  induction regs generalizing s with
  | nil => rfl
  | cons r regs ih =>
    rw [List.foldl_cons, List.foldl_cons, ih]
    congr 1
    cases r with
    | registerServer path' call =>
      simp only [register, HttpClass.pathCallBack, Std.ExtTreeMap.getElem?_insert,
        Std.compare_eq_iff_eq]
    | registerDefaultServer call => rfl

theorem register_defaultCallBack (regs : List (Registration ε σ)) (s : HttpService ε σ) :
    (regs.foldl register s).defaultCallBack =
      regs.foldl HttpClass.defaultCallBack s.defaultCallBack := by
  induction regs generalizing s with
  | nil => rfl
  | cons r regs ih =>
    rw [List.foldl_cons, List.foldl_cons, ih]
    cases r with
    | registerServer path call => rfl
    | registerDefaultServer call => rfl

theorem register_rest (regs : List (Registration ε σ)) (s : HttpService ε σ) :
    (regs.foldl register s).state = s.state ∧ (regs.foldl register s).events = s.events ∧
      (regs.foldl register s).replies = s.replies := by
  induction regs generalizing s with
  | nil => exact ⟨rfl, rfl, rfl⟩
  | cons r regs ih =>
    obtain ⟨hstate, hevents, hreplies⟩ := ih (s.register r)
    cases r with
    | registerServer path call => exact ⟨hstate, hevents, hreplies⟩
    | registerDefaultServer call => exact ⟨hstate, hevents, hreplies⟩

theorem pathCallBack_foldl (path : List Byte) (regs : List (Registration ε σ))
    (call : Option (HttpServerCallBack ε σ)) :
    regs.foldl (HttpClass.pathCallBack path) call =
      (regs.foldl (HttpClass.pathCallBack path) none).or call := by
  induction regs generalizing call with
  | nil => rfl
  | cons r regs ih =>
    rw [List.foldl_cons, List.foldl_cons]
    cases r with
    | registerServer path' call' =>
      by_cases hp : path' = path
      · simp only [HttpClass.pathCallBack, if_pos hp]
        rw [ih (some call')]
        cases regs.foldl (HttpClass.pathCallBack path) none <;> rfl
      · simp only [HttpClass.pathCallBack, if_neg hp]
        exact ih call
    | registerDefaultServer call' => exact ih call

theorem defaultCallBack_foldl (regs : List (Registration ε σ)) :
    regs.foldl HttpClass.defaultCallBack (regs.foldl HttpClass.defaultCallBack none) =
      regs.foldl HttpClass.defaultCallBack none := by
  have hsame : ∀ regs : List (Registration ε σ), (∀ call, regs.foldl HttpClass.defaultCallBack call =
      regs.foldl HttpClass.defaultCallBack none) ∨ ∀ call, regs.foldl HttpClass.defaultCallBack call = call := by
    intro regs
    induction regs with
    | nil => exact Or.inr fun _ => rfl
    | cons r regs ih =>
      cases r with
      | registerServer path call => exact ih
      | registerDefaultServer call' => exact Or.inl fun _ => rfl
  rcases hsame regs with h | h
  · exact h _
  · rw [h, h]

/-- The callbacks that the class registers, and no others. -/
structure Registered (c : HttpClass ε σ) (s : HttpService ε σ) : Prop where
  path (path : List Byte) : s.serverCallBack[path]? =
    c.onRegisterServer.foldl (HttpClass.pathCallBack path) none
  default : s.defaultCallBack = c.onRegisterServer.foldl HttpClass.defaultCallBack none

/-- What a service keeps, by where its thread is. -/
structure Lives (c : HttpClass ε σ) (state : σ) (phase : Phase) (s : HttpService ε σ) : Prop where
  table : (phase = .idle ∨ phase = .spawned) ∧ s.serverCallBack = ∅ ∧ s.defaultCallBack = none ∨
    s.Registered c
  ordered : Served (phase = .testing ∨ phase = .turning) s.events
  replies : s.events.foldlM c.act ([], state) = some (s.replies, s.state)

theorem Registered.prepare {phase : Phase} (h : Lives c state phase s) :
    (s.prepare c).Registered c := by
  have hpath (path : List Byte) := register_serverCallBack c.onRegisterServer
    { s with server := { s.server with eventBase := true } } path
  have hdefault := register_defaultCallBack c.onRegisterServer
    { s with server := { s.server with eventBase := true } }
  rcases h.table with ⟨_, ht, hd⟩ | ht
  · refine ⟨fun path => (hpath path).trans ?_, hdefault.trans ?_⟩
    · simp only [ht, Std.ExtTreeMap.getElem?_empty]
    · simp only [hd]
  · refine ⟨fun path => (hpath path).trans ?_, hdefault.trans ?_⟩
    · simp only [ht.path]
      rw [pathCallBack_foldl]
      cases c.onRegisterServer.foldl (HttpClass.pathCallBack path) none <;> rfl
    · simp only [ht.default]
      exact defaultCallBack_foldl c.onRegisterServer

theorem foldlM_act_concat {es : List (HttpEvent ε)} {e : HttpEvent ε} {st st' st'' : List HttpReply × σ}
    (h : es.foldlM c.act st = some st') (he : c.act st' e = some st'') :
    (es ++ [e]).foldlM c.act st = some st'' := by
  rw [List.foldlM_append, h]
  change (c.act st' e).bind some = _
  rw [he]
  rfl

theorem Lives.prepare (h : Lives c state .spawned s) : Lives c state .testing (s.prepare c) := by
  obtain ⟨hstate, hevents, hreplies⟩ := register_rest c.onRegisterServer
    { s with server := { s.server with eventBase := true } }
  refine ⟨Or.inr (Registered.prepare h), ?_, ?_⟩
  · have hs := h.ordered
    simp only [reduceCtorEq, or_self, decide_false] at hs
    change Served _ (_ ++ [HttpEvent.init])
    rw [hevents]
    exact .init hs
  · change (_ ++ [HttpEvent.init]).foldlM c.act _ = _
    rw [hevents]
    refine foldlM_act_concat h.replies ?_
    simp only [HttpClass.act, HttpService.prepare, hstate, hreplies]

theorem dispatch_eq (h : s.Registered c) (env : ε) (path : List Byte) (params : HttpParamMap)
    (uri : List Byte) : s.dispatch env path params uri = c.answer env path params uri s.state := by
  unfold dispatch HttpClass.answer HttpClass.callBack reply
  rw [← h.path path, ← h.default]
  cases s.serverCallBack[path]? with
  | some call =>
    simp only [Option.some_or]
    cases call env path params .new s.state <;> rfl
  | none =>
    cases s.defaultCallBack with
    | none => rfl
    | some call =>
      simp only [Option.none_or]
      cases call env path params .new s.state <;> rfl

theorem onHttpRequest_eq (h : s.Registered c) (env : ε) (uri : List Byte) :
    s.onHttpRequest env uri =
      (c.act (s.replies, s.state) (.request env uri)).map fun st =>
        { s with state := st.2, events := s.events ++ [.request env uri], replies := st.1 } := by
  unfold onHttpRequest HttpClass.act
  dsimp only
  rw [dispatch_eq h]
  cases c.answer env (HttpServer.getHttpParams uri).1 (HttpServer.getHttpParams uri).2 uri s.state <;>
    rfl

/-- The requests of a turn. -/
theorem requests_spec (h : s.Registered c) {requests : List (ε × List Byte)}
    (hr : requests.foldlM (fun s r => s.onHttpRequest r.1 r.2) s = some s')
    (hreplies : s.events.foldlM c.act ([], state) = some (s.replies, s.state)) :
    s'.Registered c ∧ s'.events = s.events ++ requests.map (fun r => .request r.1 r.2) ∧
      s'.events.foldlM c.act ([], state) = some (s'.replies, s'.state) := by
  induction requests generalizing s with
  | nil =>
    cases hr
    exact ⟨h, by simp, hreplies⟩
  | cons r requests ih =>
    rw [List.foldlM_cons] at hr
    obtain ⟨s1, h1, hr⟩ := Option.bind_eq_some_iff.mp hr
    rw [onHttpRequest_eq h] at h1
    obtain ⟨st, hact, hs1⟩ := Option.map_eq_some_iff.mp h1
    have hreg1 : s1.Registered c := by
      rw [← hs1]
      exact ⟨h.path, h.default⟩
    have hevents1 : s1.events = s.events ++ [.request r.1 r.2] := by rw [← hs1]
    have hreplies1 : s1.events.foldlM c.act ([], state) = some (s1.replies, s1.state) := by
      rw [← hs1]
      exact foldlM_act_concat hreplies hact
    obtain ⟨hreg, hevents, hfold⟩ := ih hreg1 hr hreplies1
    exact ⟨hreg, by rw [hevents, hevents1]; simp, hfold⟩

theorem Lives.turn (h : Lives c state .turning s) {requests : List (ε × List Byte)}
    (ht : s.turn c requests = some s') : Lives c state .testing s' := by
  obtain ⟨s1, h1, ht⟩ := Option.bind_eq_some_iff.mp ht
  cases ht
  have htable := h.table.resolve_left (by simp)
  obtain ⟨hreg, hevents, hfold⟩ := requests_spec htable h1 h.replies
  refine ⟨Or.inr ⟨hreg.path, hreg.default⟩, ?_, foldlM_act_concat hfold rfl⟩
  rw [hevents]
  exact .turn requests h.ordered

theorem Lives.finish (h : Lives c state .testing s) : Lives c state .ended (s.finish c) where
  table := by
    have ht := h.table.resolve_left (by simp)
    exact Or.inr ⟨ht.path, ht.default⟩
  ordered := .release h.ordered
  replies := foldlM_act_concat h.replies rfl

theorem worker_invariant (c : HttpClass ε σ) (state : σ) : (worker c).Invariant (Lives c state) where
  launch := by
    rintro s s' h ⟨port, rfl⟩
    refine ⟨h.table.imp (fun ht => ⟨Or.inr rfl, ht.2⟩) fun ht => ⟨ht.path, ht.default⟩, ?_, h.replies⟩
    exact h.ordered
  setUp := by
    rintro s s' h rfl
    exact h.prepare
  test h := ⟨Or.inr (h.table.resolve_left (by simp)), h.ordered, h.replies⟩
  turn := by
    rintro s s' h ⟨requests, ht⟩
    exact h.turn ht
  tearDown := by
    rintro s s' h rfl
    exact h.finish
  land := by
    rintro s s' h rfl
    exact ⟨Or.inr (h.table.resolve_left (by simp)), h.ordered, h.replies⟩
  landIdle := by
    rintro s s' h rfl
    exact h

theorem lives_new (c : HttpClass ε σ) (state : σ) : Lives c state .idle (new state) :=
  ⟨Or.inl ⟨Or.inl rfl, rfl, rfl⟩, .nil, rfl⟩

/-- In any order of starts, stops and turns, a service is what its class says: every request is
answered once, in its order, by the callback that is registered last for its path, else by the
default one, else with 404; and it lies between the `OnInit` and the `OnRelease` of a service. The
guard of `Stop` is whether there is a thread that no `Stop` waits for. -/
theorem served {st : State (HttpService ε σ)} (h : (worker c).Reachable (new state) st) :
    Served (st.phase = .testing ∨ st.phase = .turning) st.data.events ∧
      st.data.events.foldlM c.act ([], state) = some (st.data.replies, st.data.state) ∧
      (st.run = true ↔ st.phase ≠ .idle ∧ st.waiting = false) := by
  have hlives := (worker_invariant c state).reachable (lives_new c state) h
  refine ⟨hlives.ordered, hlives.replies, fun hr => ⟨fun hi => ?_, ?_⟩,
    fun ⟨hi, hw⟩ => (h.sound.flag hw hi).1⟩
  · rw [h.sound.cleared hi] at hr
    cases hr
  · by_contra hw
    rw [(h.sound.stopped (by simpa using hw)).1] at hr
    cases hr

end HttpService

/-- The requests among the events. -/
def requestsOf {ε : Type} (es : List (HttpEvent ε)) : List (ε × List Byte) :=
  es.flatMap fun
    | .request env uri => [(env, uri)]
    | _ => []

/-- The replies to a list of events are those to its requests, one for each. -/
theorem HttpClass.replies_forall {ε σ : Type} {c : HttpClass ε σ} {R : ε × List Byte → HttpReply → Prop}
    (hR : ∀ env uri state r, c.answer env (HttpServer.getHttpParams uri).1
      (HttpServer.getHttpParams uri).2 uri state = some r → R (env, uri) r.1)
    {es : List (HttpEvent ε)} {st st' : List HttpReply × σ} (h : es.foldlM c.act st = some st') :
    ∃ more, st'.1 = st.1 ++ more ∧ List.Forall₂ R (requestsOf es) more := by
  induction es generalizing st with
  | nil =>
    cases h
    exact ⟨[], (List.append_nil _).symm, .nil⟩
  | cons e es ih =>
    rw [List.foldlM_cons] at h
    obtain ⟨st1, h1, h⟩ := Option.bind_eq_some_iff.mp h
    obtain ⟨more, hmore, hall⟩ := ih h
    cases e with
    | request env uri =>
      obtain ⟨r, hr, rfl⟩ := Option.map_eq_some_iff.mp h1
      exact ⟨r.1 :: more, by rw [hmore]; simp, .cons (hR env uri _ r hr) hall⟩
    | init =>
      cases h1
      exact ⟨more, hmore, hall⟩
    | update =>
      cases h1
      exact ⟨more, hmore, hall⟩
    | release =>
      cases h1
      exact ⟨more, hmore, hall⟩

namespace HttpTest
open Lua Worker

/-- `HttpTest`, with the time that `GetCurrentSecond` returns for a request. -/
def httpTest (build : Build) : HttpClass Int64 Unit where
  onRegisterServer := [.registerServer (text "/http_test") fun time _ params res state =>
    (onTestRequest build params time res).map fun res => (res, state)]
  onInit := id
  onUpdate := id
  onRelease := id

/-- The parameter `p` of a call. -/
def parameter (call : SendCall) : List Byte := call.params.getD (text "p") []

/-- A call that means the same on both sides: nothing in it is taken for a separator, and no string
is cut at a NUL. -/
structure Plain (call : SendCall) : Prop where
  path : chr '?' ∉ call.path ∧ 0 ∉ call.path
  params : HttpServer.Separable call.params
  size : call.params.size ≤ 2 ^ 31
  whole (k v : List Byte) : call.params[k]? = some v → 0 ∉ k ∧ 0 ∉ v

theorem Plain.uri {call : SendCall} (h : Plain call) :
    call.uri = HttpServer.getHttpURI call.path call.params := by
  refine HttpResponse.cString_eq ?_
  by_cases he : call.params = ∅
  · rw [he]
    exact h.path.2
  · have hassign : ∀ p ∈ call.params.toList, 0 ∉ HttpServer.assignment p := by
      intro p hp
      obtain ⟨hk, hv⟩ := h.whole _ _ (Std.ExtTreeMap.mem_toList_iff_getElem?_eq_some.mp hp)
      have hne : (0 : Byte) ≠ chr '=' := by decide
      simp [HttpServer.assignment, hk, hv, hne]
    have hquery := HttpServer.not_mem_written hassign (by decide) 0
    have hne : (0 : Byte) ≠ chr '?' := by decide
    rw [HttpServer.getHttpURI_eq _ he]
    simp [h.path.2, hquery, hne]

theorem Plain.parameter {call : SendCall} (h : Plain call) : 0 ∉ parameter call := by
  unfold HttpTest.parameter
  rw [Std.ExtTreeMap.getD_eq_getD_getElem?]
  cases hp : call.params[text "p"]? with
  | none => exact List.not_mem_nil
  | some v => exact (h.whole _ _ hp).2

/-- The reply to a call of `SendHttpRequest`. -/
def Answered (call : Int64 × SendCall) (reply : HttpReply) : Prop :=
  if call.2.path = text "/http_test" then
    reply.code = 200 ∧ ((∃ t, parse reply.body = some (.table (replyFields (parameter call.2) t))) ↔
      Literal (chr '"') (parameter call.2))
  else
    reply.code = 404 ∧ reply.body = notFoundText call.2.uri

theorem answered {build : Build} {call : Int64 × SendCall} (h : Plain call.2) {r : HttpReply × Unit}
    (hr : (httpTest build).answer call.1 call.2.path call.2.params call.2.uri () = some r) :
    Answered call r.1 := by
  have hcall : (httpTest build).callBack call.2.path =
      if text "/http_test" = call.2.path then some fun time _ params res state =>
        (onTestRequest build params time res).map fun res => (res, state)
      else none := by
    unfold HttpClass.callBack httpTest
    simp only [List.foldl_cons, List.foldl_nil, HttpClass.pathCallBack, HttpClass.defaultCallBack]
    split <;> rfl
  unfold HttpClass.answer at hr
  rw [hcall] at hr
  unfold Answered
  by_cases hpath : call.2.path = text "/http_test"
  · have hiff := onTestRequest_iff build call.1 (rfl : call.2.params.getD (text "p") [] = _) h.parameter
    rw [if_pos hpath.symm] at hr
    obtain ⟨r', hr', rfl⟩ := Option.map_eq_some_iff.mp hr
    obtain ⟨res, hres, rfl⟩ := Option.map_eq_some_iff.mp hr'
    rw [if_pos hpath]
    refine ⟨rfl, Iff.trans ?_ hiff⟩
    constructor
    · rintro ⟨t, ht⟩
      exact ⟨res, t, hres, ht⟩
    · rintro ⟨res', t, hres', ht⟩
      rw [hres] at hres'
      cases hres'
      exact ⟨t, ht⟩
  · rw [if_neg (Ne.symm hpath)] at hr
    rw [if_neg hpath]
    cases hr
    exact ⟨rfl, rfl⟩

/-- From the call of a client to the reply: in every run, each request that a client has made with
`SendHttpRequest` is answered once, in its order, from the path and the parameters of the call. -/
theorem calls_answered {build : Build} {st : State (HttpService Int64 Unit)}
    (h : (HttpService.worker (httpTest build)).Reachable (.new ()) st) {calls : List (Int64 × SendCall)}
    (hcalls : requestsOf st.data.events = calls.map fun call => (call.1, call.2.uri))
    (hplain : ∀ call ∈ calls, Plain call.2) : List.Forall₂ Answered calls st.data.replies := by
  have hreplies := ((HttpService.worker_invariant (httpTest build) ()).reachable
    (HttpService.lives_new (httpTest build) ()) h).replies
  let R : Int64 × List Byte → HttpReply → Prop := fun request reply =>
    ∀ call : Int64 × SendCall, Plain call.2 →
      request = (call.1, call.2.uri) → Answered call reply
  have hR : ∀ env uri state r, (httpTest build).answer env (HttpServer.getHttpParams uri).1
      (HttpServer.getHttpParams uri).2 uri state = some r → R (env, uri) r.1 := by
    intro env uri state r hr call hp he
    obtain ⟨rfl, rfl⟩ := Prod.mk.inj he
    have hread : HttpServer.getHttpParams call.2.uri = (call.2.path, call.2.params) := by
      rw [hp.uri]
      exact HttpServer.getHttpParams_getHttpURI hp.path.1 hp.params hp.size
    rw [hread] at hr
    exact answered hp hr
  obtain ⟨more, hmore, hall⟩ := HttpClass.replies_forall hR hreplies
  obtain rfl : st.data.replies = more := hmore
  rw [hcalls, List.forall₂_map_left_iff] at hall
  have hboth := (List.forall₂_and_left calls _).mpr ⟨hplain, hall⟩
  exact hboth.imp fun call reply hh => hh.2 call hh.1 rfl

/-- A call that is served, and one that is not. -/
def twoCalls : List (Int64 × SendCall) :=
  [(5, ⟨text "127.0.0.1", 8081, text "/http_test", (∅ : HttpParamMap).insert (text "p") (text "a+b")⟩),
    (6, ⟨text "127.0.0.1", 8081, text "/other", ∅⟩)]

theorem twoCalls_plain : ∀ call ∈ twoCalls, Plain call.2 := by
  have hone : Plain ⟨text "127.0.0.1", 8081, text "/http_test",
      (∅ : HttpParamMap).insert (text "p") (text "a+b")⟩ := by
    refine ⟨by decide, HttpServer.separable_empty.insert (by decide) (by decide), ?_, fun k v hk => ?_⟩
    · exact Std.ExtTreeMap.size_insert_le.trans (by simp)
    · rw [Std.ExtTreeMap.getElem?_insert] at hk
      split at hk
      next he =>
        cases hk
        rw [← Std.LawfulEqCmp.eq_of_compare he]
        decide
      next => simp at hk
  have htwo : Plain ⟨text "127.0.0.1", 8081, text "/other", ∅⟩ :=
    ⟨by decide, HttpServer.separable_empty, by simp, by simp⟩
  exact List.forall_mem_cons.mpr ⟨hone, List.forall_mem_singleton.mpr htwo⟩

/-- A service that has had these two calls in one turn. -/
theorem twoCalls_run : ∃ st : State (HttpService Int64 Unit),
    (HttpService.worker (httpTest .win)).Reachable (.new ()) st ∧
      requestsOf st.data.events = twoCalls.map fun call => (call.1, call.2.uri) := by
  let requests := twoCalls.map fun call => (call.1, call.2.uri)
  let opened : HttpService Int64 Unit := { HttpService.new () with port := 8081 }
  obtain ⟨s, hs⟩ : ∃ s, (opened.prepare (httpTest .win)).turn (httpTest .win) requests = some s :=
    Option.isSome_iff_exists.mp (by decide +kernel)
  have hrequests : ((opened.prepare (httpTest .win)).turn (httpTest .win) requests).map
      (fun s => requestsOf s.events) = some requests := by decide +kernel
  rw [hs] at hrequests
  have hreach : (HttpService.worker (httpTest .win)).Reachable (.new ()) ⟨true, .testing, false, s⟩ :=
    ⟨_, .head (.start ⟨8081, rfl⟩) (.head (.setUp rfl) (.head .test (.head (.turn ⟨requests, hs⟩) .refl)))⟩
  exact ⟨_, hreach, Option.some.inj hrequests⟩

theorem twoCalls_served : ∃ st : State (HttpService Int64 Unit), requestsOf st.data.events ≠ [] ∧
    st.data.events.foldlM (httpTest .win).act ([], ()) = some (st.data.replies, st.data.state) := by
  obtain ⟨st, hreach, hcalls⟩ := twoCalls_run
  exact ⟨st, by rw [hcalls]; decide, (HttpService.served hreach).2.1⟩

theorem twoCalls_answered : ∃ st : State (HttpService Int64 Unit),
    (HttpService.worker (httpTest .win)).Reachable (.new ()) st ∧
      List.Forall₂ Answered twoCalls st.data.replies := by
  obtain ⟨st, hreach, hcalls⟩ := twoCalls_run
  exact ⟨st, hreach, calls_answered hreach hcalls twoCalls_plain⟩

end HttpTest

end CppTry
