import CppTry.HttpParams
import CppTry.HttpResponse
import Mathlib.Data.Finset.Basic

namespace CppTry

/-- Requests and connections are addresses. -/
structure HttpServer where
  /-- `m_EventBase` is not `NULL` -/
  eventBase : Bool
  httpRequest : Std.ExtTreeMap Nat Nat

/-- What `evhttp_make_request` is given, over a connection to this address. -/
structure Outgoing where
  ip : List Byte
  port : UInt16
  uri : List Byte

/-- The arguments of `SendHttpRequest`. -/
structure SendCall where
  ip : List Byte
  port : Int32
  path : List Byte
  params : HttpParamMap

/-- What `uri.c_str()` shows. -/
def SendCall.uri (call : SendCall) : List Byte :=
  HttpResponse.cString (HttpServer.getHttpURI call.path call.params)

namespace HttpServer

/-- `con` and `req` are what libevent allocates. `insert` keeps an entry that is there. -/
def sendHttpRequest (server : HttpServer) (call : SendCall) (con req : Nat) :
    HttpServer × Option Outgoing :=
  if server.eventBase then
    ({ server with httpRequest := server.httpRequest.insertIfNew req con },
      some ⟨HttpResponse.cString call.ip, call.port.toUInt32.toUInt16, call.uri⟩)
  else (server, none)

/-- With the connection that is passed to `evhttp_connection_free`. -/
def onHttpRequestDone (server : HttpServer) (req : Nat) : HttpServer × Option Nat :=
  match server.httpRequest[req]? with
  | none => (server, none)
  | some con => ({ server with httpRequest := server.httpRequest.erase req }, some con)

/-- The connections that the destructor frees. -/
def release (server : HttpServer) : List Nat := server.httpRequest.toList.map Prod.snd

end HttpServer

/-- A callback with its request: the connection that was created for it, and what was freed. -/
structure Completion where
  own : Nat
  freed : Option Nat
  deriving DecidableEq

/-- The server with what libevent holds for it. -/
structure HttpClient where
  server : HttpServer
  connections : Finset Nat
  /-- the requests that wait for an answer, with their connections -/
  inFlight : Finset (Nat × Nat)
  sent : List Outgoing
  completions : List Completion

namespace HttpClient

def init : HttpClient := ⟨⟨false, ∅⟩, ∅, ∅, [], []⟩

/-- `evhttp_connection_free`; the requests on the connection go with it. -/
def connectionFree (c : HttpClient) (con : Nat) : HttpClient :=
  { c with connections := c.connections.erase con, inFlight := c.inFlight.filter (·.2 ≠ con) }

/-- `OnHttpRequestDone(req, this)`. -/
def callback (c : HttpClient) (req : Nat) : HttpClient :=
  let (server, freed) := c.server.onHttpRequestDone req
  match freed with
  | none => { c with server := server }
  | some con => connectionFree { c with server := server } con

inductive Event where
  /-- the thread has created its event base -/
  | threadProcess
  | sendUnstarted (call : SendCall)
  /-- `ok` tells whether `evhttp_make_request` has taken the request; else it has freed it -/
  | send (call : SendCall) (con req : Nat) (ok : Bool)
  | done (req own : Nat)
  /-- an error is reported with `NULL`; the request has been freed -/
  | doneNull (req own : Nat)

/-- `none` where libevent does not do this: an address that is in use is not handed out again, and
only what is in flight is completed. -/
def step (c : HttpClient) : Event → Option HttpClient
  | .threadProcess => some { c with server := { c.server with eventBase := true } }
  | .sendUnstarted call =>
    if c.server.eventBase then none
    else some { c with server := (c.server.sendHttpRequest call 0 0).1 }
  | .send call con req ok =>
    if c.server.eventBase = true ∧ con ∉ c.connections ∧ req ≠ 0 ∧ ∀ p ∈ c.inFlight, p.1 ≠ req then
      let (server, outgoing) := c.server.sendHttpRequest call con req
      some { c with
        server := server
        connections := insert con c.connections
        inFlight := if ok then insert (req, con) c.inFlight else c.inFlight
        sent := c.sent ++ outgoing.toList }
    else none
  | .done req own =>
    if (req, own) ∈ c.inFlight then
      some (callback { c with
        inFlight := c.inFlight.erase (req, own)
        completions := c.completions ++ [⟨own, (c.server.onHttpRequestDone req).2⟩] } req)
    else none
  | .doneNull req own =>
    if (req, own) ∈ c.inFlight then
      some (callback { c with inFlight := c.inFlight.erase (req, own) } 0)
    else none

def run (c : HttpClient) : List Event → Option HttpClient
  | [] => some c
  | e :: es => (c.step e).bind fun c => c.run es

/-- The event ends a request without its callback. -/
def Event.loses : Event → Bool
  | .send _ _ _ ok => !ok
  | .doneNull _ _ => true
  | _ => false

/-- The map has what is in flight, each request with its own connection, and nothing else; and
each callback has freed the connection of its request. -/
structure Paired (c : HttpClient) : Prop where
  own : ∀ req con, (req, con) ∈ c.inFlight → c.server.httpRequest[req]? = some con
  live : ∀ req ∈ c.server.httpRequest, ∃ con, (req, con) ∈ c.inFlight
  freed : ∀ d ∈ c.completions, d.freed = some d.own

/-- Beyond this, a connection belongs to one request, and no connection is open without one. -/
structure Books (c : HttpClient) : Prop where
  agree : ∀ req con, (req, con) ∈ c.inFlight ↔ c.server.httpRequest[req]? = some con
  nonnull : ∀ p ∈ c.inFlight, p.1 ≠ 0
  single : ∀ req req' con, (req, con) ∈ c.inFlight → (req', con) ∈ c.inFlight → req = req'
  opened : ∀ con, con ∈ c.connections ↔ ∃ req, (req, con) ∈ c.inFlight
  freed : ∀ d ∈ c.completions, d.freed = some d.own

theorem init_books : init.Books where
  agree := by simp [init]
  nonnull := by simp [init]
  single := by simp [init]
  opened := by simp [init]
  freed := by simp [init]

variable {c c' : HttpClient} {e : Event}

theorem Books.paired (h : c.Books) : c.Paired where
  own req con hm := (h.agree req con).mp hm
  live req hm := ⟨_, (h.agree req _).mpr (Std.ExtTreeMap.getElem?_eq_some_getElem hm)⟩
  freed := h.freed

theorem Books.null (h : c.Books) : c.server.httpRequest[0]? = none := by
  cases hm : c.server.httpRequest[0]? with
  | none => rfl
  | some con => exact absurd rfl (h.nonnull _ ((h.agree 0 con).mpr hm))

theorem Books.unique (h : c.Books) {req con con' : Nat} (hc : (req, con) ∈ c.inFlight)
    (hc' : (req, con') ∈ c.inFlight) : con = con' := by
  have he := (h.agree req con).mp hc
  rw [(h.agree req con').mp hc'] at he
  exact (Option.some.inj he).symm

theorem Books.lookup_none (h : c.Books) {req : Nat} (hf : ∀ p ∈ c.inFlight, p.1 ≠ req) :
    c.server.httpRequest[req]? = none := by
  cases hm : c.server.httpRequest[req]? with
  | none => rfl
  | some con => exact absurd rfl (hf _ ((h.agree req con).mpr hm))

/-- The addresses that a request gets are not in use; the map has an entry for it afterwards. -/
theorem step_send_inv {call : SendCall} {con req : Nat} {ok : Bool}
    (hs : c.step (.send call con req ok) = some c') :
    (con ∉ c.connections ∧ req ≠ 0 ∧ ∀ p ∈ c.inFlight, p.1 ≠ req) ∧
      c'.server.httpRequest = c.server.httpRequest.insertIfNew req con ∧
      c'.connections = insert con c.connections ∧
      c'.inFlight = (if ok then insert (req, con) c.inFlight else c.inFlight) ∧
      c'.completions = c.completions := by
  simp only [step, HttpServer.sendHttpRequest] at hs
  split at hs
  next hg =>
    obtain ⟨hbase, hfree⟩ := hg
    rw [if_pos hbase] at hs
    cases hs
    exact ⟨hfree, rfl, rfl, rfl, rfl⟩
  next => cases hs

theorem Books.send (h : c.Books) {call : SendCall} {con req : Nat}
    (hs : c.step (.send call con req true) = some c') : c'.Books := by
  obtain ⟨⟨hcon, hnull, hreq⟩, hmap, hopen, hflight, hcompletions⟩ := step_send_inv hs
  rw [if_pos rfl] at hflight
  have hnew := h.lookup_none hreq
  have hnone : ∀ r, (r, con) ∉ c.inFlight := fun r hm => hcon ((h.opened con).mpr ⟨r, hm⟩)
  refine ⟨?_, ?_, ?_, ?_, ?_⟩
  · intro r k
    rw [hflight, hmap, Finset.mem_insert, h.agree, Std.ExtTreeMap.getElem?_insertIfNew]
    by_cases hr : req = r
    · subst hr
      have hmem : req ∉ c.server.httpRequest := by simpa using hnew
      simp [hmem, eq_comm]
    · simp [hr, Ne.symm hr]
  · rw [hflight]
    intro p hp
    rcases Finset.mem_insert.mp hp with rfl | hp
    · exact hnull
    · exact h.nonnull p hp
  · rw [hflight]
    intro r r' k hm hm'
    rcases Finset.mem_insert.mp hm with he | hm
    · cases he
      rcases Finset.mem_insert.mp hm' with he' | hm'
      · cases he'
        rfl
      · exact absurd hm' (hnone r')
    · rcases Finset.mem_insert.mp hm' with he' | hm'
      · cases he'
        exact absurd hm (hnone r)
      · exact h.single r r' k hm hm'
  · intro k
    rw [hopen, hflight]
    simp only [Finset.mem_insert, h.opened, Prod.mk.injEq, exists_or]
    simp
  · rw [hcompletions]
    exact h.freed

theorem Books.step_done_inv (h : c.Books) {req own : Nat}
    (hs : c.step (.done req own) = some c') :
    (req, own) ∈ c.inFlight ∧ c'.server.httpRequest = c.server.httpRequest.erase req ∧
      c'.connections = c.connections.erase own ∧
      c'.inFlight = (c.inFlight.erase (req, own)).filter (·.2 ≠ own) ∧
      c'.completions = c.completions ++ [⟨own, some own⟩] := by
  simp only [HttpClient.step] at hs
  split at hs
  next hm =>
    have hfind : c.server.httpRequest[req]? = some own := (h.agree req own).mp hm
    have hdone : c.server.onHttpRequestDone req =
        ({ c.server with httpRequest := c.server.httpRequest.erase req }, some own) := by
      unfold HttpServer.onHttpRequestDone
      rw [hfind]
    simp only [callback, hdone] at hs
    cases hs
    exact ⟨hm, rfl, rfl, rfl, rfl⟩
  next => cases hs

theorem Books.mem_left_iff (h : c.Books) {req own : Nat} (hm : (req, own) ∈ c.inFlight)
    (r k : Nat) : (r, k) ∈ (c.inFlight.erase (req, own)).filter (·.2 ≠ own) ↔
      r ≠ req ∧ (r, k) ∈ c.inFlight := by
  simp only [Finset.mem_filter, Finset.mem_erase]
  constructor
  · rintro ⟨⟨_, hk⟩, hne⟩
    refine ⟨fun he => ?_, hk⟩
    subst he
    exact hne (h.unique hk hm)
  · rintro ⟨hr, hk⟩
    refine ⟨⟨fun he => hr (Prod.mk.inj he).1, hk⟩, fun he => hr ?_⟩
    subst he
    exact h.single r req k hk hm

theorem Books.opened_left_iff (h : c.Books) {req own : Nat} (hm : (req, own) ∈ c.inFlight)
    (k : Nat) : (∃ r, r ≠ req ∧ (r, k) ∈ c.inFlight) ↔ k ≠ own ∧ k ∈ c.connections := by
  rw [h.opened]
  constructor
  · rintro ⟨r, hr, hk⟩
    refine ⟨fun he => hr ?_, r, hk⟩
    subst he
    exact h.single r req k hk hm
  · rintro ⟨hne, r, hk⟩
    refine ⟨r, fun he => hne ?_, hk⟩
    subst he
    exact h.unique hk hm

theorem Books.done (h : c.Books) {req own : Nat} (hs : c.step (.done req own) = some c') :
    c'.Books := by
  obtain ⟨hm, hmap, hopen, hflight, hcompletions⟩ := h.step_done_inv hs
  have hleft := h.mem_left_iff hm
  rw [← hflight] at hleft
  refine ⟨?_, ?_, ?_, ?_, ?_⟩
  · intro r k
    rw [hleft, hmap, Std.ExtTreeMap.getElem?_erase, h.agree]
    by_cases hr : r = req
    · simp [hr]
    · simp [hr, Ne.symm hr]
  · intro p hp
    exact h.nonnull p ((hleft p.1 p.2).mp hp).2
  · intro r r' k hk hk'
    exact h.single r r' k ((hleft r k).mp hk).2 ((hleft r' k).mp hk').2
  · intro k
    simp only [hleft, hopen, Finset.mem_erase, h.opened_left_iff hm]
  · intro d hd
    rw [hcompletions] at hd
    rcases List.mem_append.mp hd with hd | hd
    · exact h.freed d hd
    · cases List.mem_singleton.mp hd
      rfl

theorem Books.step (h : c.Books) (hs : c.step e = some c') (hl : e.loses = false) : c'.Books := by
  cases e with
  | threadProcess =>
    cases hs
    exact ⟨h.agree, h.nonnull, h.single, h.opened, h.freed⟩
  | sendUnstarted call =>
    simp only [HttpClient.step, HttpServer.sendHttpRequest] at hs
    split at hs
    next => cases hs
    next =>
      cases hs
      exact h
  | send call con req ok =>
    cases ok with
    | true => exact h.send hs
    | false => cases hl
  | done req own => exact h.done hs
  | doneNull req own => cases hl

/-- An event that loses a request leaves it in the map. -/
theorem Books.step_loses (h : c.Books) (hs : c.step e = some c') (hl : e.loses = true) :
    ¬ c'.Paired := by
  cases e with
  | threadProcess => cases hl
  | sendUnstarted call => cases hl
  | send call con req ok =>
    cases ok with
    | true => cases hl
    | false =>
      obtain ⟨⟨_, _, hreq⟩, hmap, _, hflight, _⟩ := step_send_inv hs
      rw [if_neg (by simp)] at hflight
      intro hp
      obtain ⟨con', hm⟩ := hp.live req (by rw [hmap]; exact Std.ExtTreeMap.mem_insertIfNew_self)
      rw [hflight] at hm
      exact hreq _ hm rfl
  | done req own => cases hl
  | doneNull req own =>
    simp only [HttpClient.step, callback, HttpServer.onHttpRequestDone, h.null] at hs
    split at hs
    next hm =>
      cases hs
      intro hp
      have hfind := (h.agree req own).mp hm
      obtain ⟨con', hm'⟩ := hp.live req (Std.ExtTreeMap.mem_iff_isSome_getElem?.mpr
        (by rw [hfind]; rfl))
      obtain ⟨hne, hmem⟩ := Finset.mem_erase.mp hm'
      exact hne (by rw [h.unique hmem hm])
    next => cases hs

theorem run_cons_inv {es : List Event} (h : c.run (e :: es) = some c') :
    ∃ d, c.step e = some d ∧ d.run es = some c' :=
  Option.bind_eq_some_iff.mp h

/-- The pairing holds throughout a run exactly when no event of it loses a request. -/
theorem Books.run_paired_iff (h : c.Books) {es : List Event} (hrun : c.run es = some c') :
    (∀ es₁, es₁ <+: es → ∀ d, c.run es₁ = some d → d.Paired) ↔ ∀ e ∈ es, e.loses = false := by
  induction es generalizing c with
  | nil =>
    refine ⟨fun _ _ he => (nomatch he), fun _ es₁ hes d hd => ?_⟩
    rw [List.prefix_nil.mp hes] at hd
    cases hd
    exact h.paired
  | cons e es ih =>
    obtain ⟨d, hstep, hrest⟩ := run_cons_inv hrun
    cases hl : e.loses with
    | true =>
      refine iff_of_false (fun hall => ?_) fun hno => ?_
      · refine h.step_loses hstep hl (hall [e] (by simp) d ?_)
        rw [run, hstep]
        rfl
      · rw [hno e List.mem_cons_self] at hl
        cases hl
    | false =>
      have ih := ih (h.step hstep hl) hrest
      have hfirst : (∀ es₁, es₁ <+: e :: es → ∀ d', c.run es₁ = some d' → d'.Paired) ↔
          ∀ es₁, es₁ <+: es → ∀ d', d.run es₁ = some d' → d'.Paired := by
        constructor
        · intro hall es₁ hes d' hd'
          refine hall (e :: es₁) ((List.prefix_cons_inj e).mpr hes) d' ?_
          rw [run, hstep]
          exact hd'
        · intro hall es₁ hes d' hd'
          rcases List.prefix_cons_iff.mp hes with rfl | ⟨es₂, rfl, hes₂⟩
          · cases hd'
            exact h.paired
          · rw [run, hstep] at hd'
            exact hall es₂ hes₂ d' hd'
      rw [hfirst, ih, List.forall_mem_cons]
      exact (and_iff_right hl).symm

theorem Books.run (h : c.Books) {es : List Event} (hrun : c.run es = some c')
    (hl : ∀ e ∈ es, e.loses = false) : c'.Books := by
  induction es generalizing c with
  | nil =>
    cases hrun
    exact h
  | cons e es ih =>
    obtain ⟨d, hstep, hrest⟩ := run_cons_inv hrun
    obtain ⟨he, hes⟩ := List.forall_mem_cons.mp hl
    exact ih (h.step hstep he) hrest hes

/-- The destructor frees every connection that is open, and none of them twice. -/
theorem Books.release (h : c.Books) :
    c.server.release.Nodup ∧ ∀ con, con ∈ c.server.release ↔ con ∈ c.connections := by
  have hmem : ∀ req con, (req, con) ∈ c.server.httpRequest.toList ↔ (req, con) ∈ c.inFlight :=
    fun req con => Std.ExtTreeMap.mem_toList_iff_getElem?_eq_some.trans (h.agree req con).symm
  refine ⟨?_, fun con => ?_⟩
  · have hkeys : c.server.httpRequest.toList.Pairwise fun p q => p.1 ≠ q.1 := by
      refine Std.ExtTreeMap.distinct_keys_toList.imp ?_
      intro p q hne he
      exact hne (by rw [he]; exact Std.ReflCmp.compare_self)
    unfold HttpServer.release
    rw [List.Nodup, List.pairwise_map]
    refine hkeys.imp_of_mem ?_
    intro p q hp hq hne he
    refine hne (h.single p.1 q.1 p.2 ((hmem _ _).mp hp) ?_)
    rw [he]
    exact (hmem _ _).mp hq
  · rw [h.opened]
    simp only [HttpServer.release, List.mem_map, Prod.exists, exists_eq_right, hmem]

/-- The destructor leaves no connection behind when no request has been lost. -/
theorem release_run {es : List Event} (hrun : init.run es = some c')
    (hl : ∀ e ∈ es, e.loses = false) :
    c'.server.release.Nodup ∧ ∀ con, con ∈ c'.server.release ↔ con ∈ c'.connections :=
  (init_books.run hrun hl).release

/-- Each request keeps its own connection, at every moment of a run, exactly when libevent takes
every request and completes it with its address. -/
theorem connections_kept_iff {es : List Event} (hrun : init.run es = some c') :
    (∀ es₁, es₁ <+: es → ∀ d, init.run es₁ = some d → d.Paired) ↔ ∀ e ∈ es, e.loses = false :=
  init_books.run_paired_iff hrun

def someCall : SendCall := ⟨text "127.0.0.1", 80, text "/test", ∅⟩

/-- Two requests, the second one at the address of the first. -/
def recycled : List Event :=
  [.threadProcess, .send someCall 1 10 true, .done 10 1, .send someCall 2 10 true, .done 10 2]

theorem recycled_kept : ∃ c', init.run recycled = some c' ∧
    ∀ es₁, es₁ <+: recycled → ∀ d, init.run es₁ = some d → d.Paired :=
  ⟨_, rfl, (connections_kept_iff rfl).mpr (by decide)⟩

/-- The second request is still in flight when the server goes. -/
theorem recycled_release : ∃ c', init.run (recycled.take 4) = some c' ∧ c'.connections = {2} ∧
    c'.server.release.Nodup ∧ ∀ con, con ∈ c'.server.release ↔ con ∈ c'.connections := by
  have hl : ∀ e ∈ recycled.take 4, e.loses = false := by decide
  exact ⟨_, rfl, by decide, release_run rfl hl⟩

/-- libevent refuses the first request, and the second one gets its address. -/
def refused : List Event :=
  [.threadProcess, .send someCall 1 10 false, .send someCall 2 10 true, .done 10 2]

theorem refused_mispaired : ∃ c', init.run refused = some c' ∧
    c'.completions = [⟨2, some 1⟩] ∧ c'.connections = {2} ∧
    ¬ ∀ es₁, es₁ <+: refused → ∀ d, init.run es₁ = some d → d.Paired := by
  refine ⟨_, rfl, rfl, by decide, fun h => ?_⟩
  have hlast := (h refused List.prefix_rfl _ rfl).freed ⟨2, some 1⟩ (by decide)
  cases hlast

end HttpClient

end CppTry
