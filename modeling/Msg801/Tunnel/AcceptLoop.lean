import Msg801.Tunnel.Session

/-! # The accept loop of the tunnel and the sessions it starts

The loop is one coroutine: it waits for a client, builds the chain, connects to the remote
end and starts the session, whose two loops then run on their own. It was spawned
detached: an exception that escapes it is seen by nobody.
-/
namespace Msg801.Tunnel
open Transition

structure Endpoint where
  address : String
  port : UInt16
  deriving DecidableEq

/-- The record `log_conn_new` writes. -/
structure ConnNew where
  id : UInt64
  src : Endpoint
  dst : Endpoint
  deriving DecidableEq

/-- How the loop can be left: by `break`, by `co_return`, by an exception. -/
inductive AcceptEnd where
  | acceptFailed
  | returned
  | thrown
  deriving DecidableEq

/-- Where the loop is suspended. -/
inductive AcceptPc where
  | accepting
  | connecting (s : SessionState)
  | ended (how : AcceptEnd)

structure AcceptLoop where
  pc : AcceptPc := .accepting
  nextId : UInt64 := 0
  connNew : List ConnNew := []
  sessions : List SessionState := []

/-- The ends of the awaits. An accepted socket comes with what `remote_endpoint()` will
give for it, `none` where it throws because the client has gone. -/
inductive AcceptEvent where
  | accepted (src : Option Endpoint)
  | acceptFailed
  | connected
  | connectFailed
  | session (i : ℕ) (e : Side × LoopEvent)
  deriving DecidableEq

/-- What `do_accept` is called with, and what the machine supplies for each chain built. -/
structure AcceptArgs where
  crypto : Crypto
  engine : RandomEngine
  host : ℕ → Host
  remoteEp : Endpoint
  processorSpecs : List ByteSpan
  reverse : Bool

namespace AcceptLoop
variable (a : AcceptArgs)

/-- The chain of the next client. -/
def buildChain (t : AcceptLoop) : Except Abort (Option (ProcessorChain ProcessorPtr)) :=
  buildProcessorChain a.crypto a.engine (a.host t.connNew.length) a.reverse a.processorSpecs

/-- From the accepted socket to the connect. Nothing here is inside a `try` block. -/
def onAccepted (t : AcceptLoop) (src : Option Endpoint) : AcceptLoop :=
  let id := t.nextId
  let t := { t with nextId := t.nextId + 1 }
  match src with
  | none => { t with pc := .ended .thrown }
  | some src =>
    let chain := t.buildChain a
    let t := { t with connNew := t.connNew ++ [ConnNew.mk id src a.remoteEp] }
    match chain with
    | .error _ => { t with pc := .ended .thrown }
    | .ok none => { t with pc := .ended .returned }
    | .ok (some chain) => { t with pc := .connecting (.startSession id chain) }

def step (t : AcceptLoop) (e : AcceptEvent) : Option AcceptLoop :=
  match t.pc, e with
  | .accepting, .accepted src => some (t.onAccepted a src)
  | .accepting, .acceptFailed => some { t with pc := .ended .acceptFailed }
  | .connecting s, .connected => some { t with pc := .accepting, sessions := t.sessions ++ [s] }
  -- the session object and its two closed sockets go with the round of the loop
  | .connecting _, .connectFailed => some { t with pc := .accepting }
  | _, .session i e =>
    match t.sessions[i]? with
    | none => none
    | some s => (s.step e).map fun s' => { t with sessions := t.sessions.set i s' }
  | _, _ => none

/-- The loop waits for a client or for the connect of one, or the acceptor has failed. -/
def Serving (t : AcceptLoop) : Prop := ∀ how, t.pc = .ended how → how = .acceptFailed

/-- Whatever becomes of the connect, the loop is back at the accept. -/
def BackAtAccept (t : AcceptLoop) : Prop := ∀ s, t.pc = .connecting s →
  (t.step a .connected).map pc = some .accepting ∧ (t.step a .connectFailed).map pc = some .accepting

/-- The events of one session. -/
def sessionEvents (i : ℕ) (events : List AcceptEvent) : List (Side × LoopEvent) :=
  events.filterMap fun
    | .session j e => if j = i then some e else none
    | _ => none

/-- Every session started is where its own events alone have brought it. -/
def SessionsAlone (events : List AcceptEvent) (t : AcceptLoop) : Prop :=
  ∀ i s, t.sessions[i]? = some s → ∃ id chain,
    run SessionState.step (.startSession id chain) (sessionEvents i events) = some s

theorem sessionEvents_append (i : ℕ) (events events' : List AcceptEvent) :
    sessionEvents i (events ++ events') = sessionEvents i events ++ sessionEvents i events' :=
  List.filterMap_append ..

variable {a}

/-- What one step can do to the loop and to the sessions. -/
inductive Round (t : AcceptLoop) : AcceptEvent → AcceptLoop → Prop
  | gone (u) : t.pc = .accepting → u.pc = .ended .thrown → u.sessions = t.sessions →
      Round t (.accepted none) u
  | rejected (u src how) : t.pc = .accepting → u.pc = .ended how → u.sessions = t.sessions →
      (∀ chain, t.buildChain a ≠ .ok (some chain)) → Round t (.accepted (some src)) u
  | connect (u src id chain) : t.pc = .accepting → u.pc = .connecting (.startSession id chain) →
      u.sessions = t.sessions → Round t (.accepted (some src)) u
  | failed : t.pc = .accepting → Round t .acceptFailed { t with pc := .ended .acceptFailed }
  | started (s) : t.pc = .connecting s →
      Round t .connected { t with pc := .accepting, sessions := t.sessions ++ [s] }
  | refused (s) : t.pc = .connecting s → Round t .connectFailed { t with pc := .accepting }
  | session (i e s s') : t.sessions[i]? = some s → s.step e = some s' →
      Round t (.session i e) { t with sessions := t.sessions.set i s' }

theorem step_round {t u : AcceptLoop} {e : AcceptEvent} (h : t.step a e = some u) :
    Round (a := a) t e u := by
  unfold step at h
  split at h
  case h_1 src hpc =>
    obtain rfl := Option.some.inj h
    rcases src with _ | src
    · exact .gone _ hpc rfl rfl
    · have hchain : ∀ t' : AcceptLoop, t'.connNew = t.connNew → t'.buildChain a = t.buildChain a := by
        intro t' ht'
        rw [buildChain, ht', buildChain]
      rcases hb : t.buildChain a with _ | _ | chain
      all_goals simp only [onAccepted, hchain { t with nextId := t.nextId + 1 } rfl, hb]
      · exact .rejected _ src .thrown hpc rfl rfl fun chain h => by rw [hb] at h; cases h
      · exact .rejected _ src .returned hpc rfl rfl fun chain h => by rw [hb] at h; cases h
      · exact .connect _ src t.nextId chain hpc rfl rfl
  case h_2 hpc =>
    obtain rfl := Option.some.inj h
    exact .failed hpc
  case h_3 s hpc =>
    obtain rfl := Option.some.inj h
    exact .started s hpc
  case h_4 s hpc =>
    obtain rfl := Option.some.inj h
    exact .refused s hpc
  case h_5 i e =>
    rcases hs : t.sessions[i]? with _ | s
    · simp [hs] at h
    · simp only [hs] at h
      obtain ⟨s',hs',rfl⟩ := Option.map_eq_some_iff.mp h
      exact .session i e s s' hs hs'
  case h_6 => cases h

theorem backAtAccept (t : AcceptLoop) : t.BackAtAccept a := by
  intro s hs
  simp only [step, hs]
  exact ⟨rfl,rfl⟩

/-- A loop that builds its chains is only ever left through a client that has gone. -/
theorem Round.serving {t u : AcceptLoop} {e : AcceptEvent} (h : Round (a := a) t e u)
    (hbuild : ∀ t : AcceptLoop, ∃ chain, t.buildChain a = .ok (some chain)) (ht : t.Serving)
    (he : e ≠ .accepted none) : u.Serving := by
  intro how hu
  cases h with
  | gone => exact absurd rfl he
  | rejected u src how' _ _ _ hnone =>
    obtain ⟨chain,hchain⟩ := hbuild t
    exact absurd hchain (hnone chain)
  | connect u src id chain _ hpc =>
    rw [hpc] at hu
    cases hu
  | failed =>
    cases hu
    rfl
  | started => cases hu
  | refused => cases hu
  | session => exact ht how hu

/-- The sessions are as their own events made them, and none has events before it starts. -/
structure Alone (events : List AcceptEvent) (t : AcceptLoop) : Prop where
  started : SessionsAlone events t
  pending : ∀ s, t.pc = .connecting s → ∃ id chain, s = .startSession id chain
  unborn : ∀ i, t.sessions.length ≤ i → sessionEvents i events = []

theorem Alone.of_silent {events : List AcceptEvent} {t u : AcceptLoop} {e : AcceptEvent}
    (h : t.Alone events) (hsilent : ∀ i, sessionEvents i [e] = []) (hs : u.sessions = t.sessions)
    (hpc : ∀ s, u.pc = .connecting s → ∃ id chain, s = .startSession id chain) :
    u.Alone (events ++ [e]) := by
  refine ⟨fun i s hi => ?_,hpc,fun i hi => ?_⟩
  · rw [sessionEvents_append, hsilent, List.append_nil]
    exact h.started i s (hs ▸ hi)
  · rw [sessionEvents_append, hsilent, List.append_nil]
    exact h.unborn i (hs ▸ hi)

theorem Round.alone {events : List AcceptEvent} {t u : AcceptLoop} {e : AcceptEvent}
    (h : Round (a := a) t e u) (ht : t.Alone events) : u.Alone (events ++ [e]) := by
  cases h with
  | gone u _ hpc hs => exact ht.of_silent (fun _ => rfl) hs fun s h => by rw [hpc] at h; cases h
  | rejected u src how _ hpc hs =>
    exact ht.of_silent (fun _ => rfl) hs fun s h => by rw [hpc] at h; cases h
  | connect u src id chain _ hpc hs =>
    refine ht.of_silent (fun _ => rfl) hs fun s h => ?_
    rw [hpc] at h
    cases h
    exact ⟨id,chain,rfl⟩
  | failed => exact ht.of_silent (fun _ => rfl) rfl nofun
  | refused => exact ht.of_silent (fun _ => rfl) rfl nofun
  | started s hpc =>
    obtain ⟨id,chain,rfl⟩ := ht.pending s hpc
    have hsilent : ∀ i, sessionEvents i (events ++ [.connected]) = sessionEvents i events := by
      intro i
      rw [sessionEvents_append]
      exact List.append_nil _
    refine ⟨fun i s hi => ?_,nofun,fun i hi => ?_⟩
    · rw [hsilent]
      rcases Nat.lt_or_ge i t.sessions.length with hlt | hge
      · exact ht.started i s (by rwa [List.getElem?_append_left hlt] at hi)
      · rw [List.getElem?_append_right hge, List.getElem?_singleton] at hi
        split_ifs at hi
        cases hi
        exact ⟨id,chain,by rw [ht.unborn i hge]; rfl⟩
    · rw [List.length_append, List.length_singleton] at hi
      rw [hsilent]
      exact ht.unborn i (by omega)
  | session j e s s' hs hstep =>
    have hj : j < t.sessions.length := (List.getElem?_eq_some_iff.mp hs).1
    have hself : sessionEvents j [.session j e] = [e] := by simp [sessionEvents]
    have hother : ∀ i, i ≠ j → sessionEvents i [.session j e] = [] := by
      intro i hi
      simp [sessionEvents, hi.symm]
    refine ⟨fun i s₁ hi => ?_,ht.pending,fun i hi => ?_⟩
    · by_cases hij : i = j
      · subst hij
        obtain ⟨id,chain,hrun⟩ := ht.started i s hs
        rw [List.getElem?_set_self hj] at hi
        cases hi
        refine ⟨id,chain,?_⟩
        rw [sessionEvents_append, hself]
        exact run_append_some.mpr ⟨s,hrun,by simp [hstep]⟩
      · rw [List.getElem?_set_ne (Ne.symm hij)] at hi
        rw [sessionEvents_append, hother i hij, List.append_nil]
        exact ht.started i s₁ hi
    · rw [List.length_set] at hi
      rw [sessionEvents_append, hother i (by omega), List.append_nil]
      exact ht.unborn i hi

theorem run_alone {events : List AcceptEvent} {t : AcceptLoop} (hrun : run (step a) {} events = some t) :
    t.Alone events := by
  induction events using List.reverseRecOn generalizing t with
  | nil =>
    cases hrun
    exact ⟨nofun,nofun,fun _ _ => rfl⟩
  | append_singleton events e ih =>
    obtain ⟨u,hu,he⟩ := run_append_some.mp hrun
    exact (step_round (a := a) (by simpa using he)).alone (ih hu)

/-- Take any run of the loop and of the sessions it starts, with specifications that the
check at the start of `run_tunnel` accepted. The loop keeps serving, comes back to the
accept after every client and leaves the sessions to themselves, in all states of the run,
exactly when no client had gone before its endpoint was asked for. -/
theorem accept_loop_survives_iff {host : Host} {check : ProcessorChain ProcessorPtr}
    (hcheck : buildProcessorChain a.crypto a.engine host a.reverse a.processorSpecs = .ok (some check))
    {events : List AcceptEvent} {t : AcceptLoop} (hrun : run (step a) {} events = some t) :
    (∀ done u, done <+: events → run (step a) {} done = some u →
      u.Serving ∧ u.BackAtAccept a ∧ u.SessionsAlone done) ↔
    ∀ e ∈ events, e ≠ .accepted none := by
  constructor
  case mp =>
    rintro hserve e he rfl
    obtain ⟨before,after,rfl⟩ := List.append_of_mem he
    rw [List.append_cons, run_append_some] at hrun
    obtain ⟨u,hu,-⟩ := hrun
    obtain ⟨hserving,-,-⟩ := hserve (before ++ [.accepted none]) u (by simp) hu
    obtain ⟨v,-,hv⟩ := run_append_some.mp hu
    cases step_round (a := a) (by simpa using hv) with
    | gone _ _ hpc => cases hserving .thrown hpc
  case mpr =>
    intro hpresent done u hdone hu
    have hmeets : Meets (step a) (fun _ e => e ≠ .accepted none) {} done := by
      rintro before e after rfl v -
      exact hpresent e (hdone.subset (by simp))
    have hbuild : ∀ t : AcceptLoop, ∃ chain, t.buildChain a = .ok (some chain) := fun t =>
      buildProcessorChain_accepts hcheck _
    refine ⟨?_,backAtAccept u,(run_alone hu).started⟩
    exact (hmeets.reach hu).invariant (P := Serving) nofun fun ht he hs =>
      (step_round hs).serving hbuild ht he

/-- A tunnel from port 7001 to port 7002 of one host, without processors. -/
def plainArgs : AcceptArgs where
  crypto := CfbNonceProcessor.knownCrypto
  engine := zeroEngine
  host _ := zeroHost
  remoteEp := ⟨"127.0.0.1",7002⟩
  processorSpecs := []
  reverse := false

/-- One client is served while the connect for another one fails. -/
def twoClients : List AcceptEvent :=
  [.accepted (some ⟨"127.0.0.1",40000⟩),.connected,.session 0 (.localSide,.start),
    .accepted (some ⟨"127.0.0.1",40001⟩),.session 0 (.remoteSide,.start),.connectFailed]

theorem accept_loop_survives_twoClients : ∃ t, run (step plainArgs) {} twoClients = some t ∧
    t.Serving ∧ t.sessions.length = 1 ∧ t.SessionsAlone twoClients := by
  have hcheck : buildProcessorChain plainArgs.crypto plainArgs.engine zeroHost plainArgs.reverse
      plainArgs.processorSpecs = .ok (some [⟨({} : IdentityProcessor)⟩]) := rfl
  obtain ⟨t,hrun,hlen⟩ : ∃ t, run (step plainArgs) {} twoClients = some t ∧
      t.sessions.length = 1 := ⟨_,rfl,rfl⟩
  obtain ⟨hserving,-,halone⟩ := (accept_loop_survives_iff (a := plainArgs) hcheck hrun).mpr
    (by decide) twoClients t List.prefix_rfl hrun
  exact ⟨t,hrun,hserving,hlen,halone⟩

/-- The second client resets its connection between the accept and `remote_endpoint()`:
the loop is over, and no later client is accepted. -/
theorem gone_client_ends_loop : ∃ t, run (step plainArgs) {}
      [.accepted (some ⟨"127.0.0.1",40000⟩),.connected,.accepted none] = some t ∧
    ¬t.Serving ∧ ∀ src, t.step plainArgs (.accepted src) = none :=
  ⟨_,rfl,fun h => (nomatch h .thrown rfl),fun _ => rfl⟩

end AcceptLoop

end Msg801.Tunnel
