import NetherNet.Library.Dict
import NetherNet.Session.Loop

/-! The session manager on the event loop: the map from connection ids to
sessions, the candidates buffered for sessions still to come, every session it
ever created, the signal tasks not yet started and the shutdowns under way. -/
namespace NetherNet
open Library

/-- A session object, by its place in the order of creation. -/
abbrev Ref := Nat

structure CandidateAdd where
  connectionId : Nat
  candidate : Text
  deriving DecidableEq, Repr

def CandidateAdd.message (c : CandidateAdd) : SignalingMessage := .candidateAdd c.connectionId c.candidate

/-- The coroutine of the manager that awaits a session coroutine, with its locals:
`connect`; `handle_signal` at its last line, at the first call on a session it has
just created, or inside `_flush_pending_candidates` with the candidates to come. -/
inductive Caller where
  | connect
  | handleSignal (senderId : NetworkId) (parsed : SignalingMessage)
  | newSession (senderId : NetworkId) (parsed : SignalingMessage)
  | flush (senderId : NetworkId) (parsed : SignalingMessage) (rest : List CandidateAdd)
  deriving DecidableEq, Repr

/-- An `aclose` of the manager that awaits a session's teardown: the sessions after
it in its snapshot, and how many sessions existed when the snapshot was taken. -/
structure Closing where
  snapshot : Nat
  rest : List Ref
  deriving DecidableEq, Repr

structure Manager where
  localId : NetworkId
  relayOnly : Bool
  sessions : Dict Nat Ref := Dict.empty
  pendingCandidates : Dict Nat (List CandidateAdd) := Dict.empty
  heap : List (SessionLoop Caller) := []
  created : List (NetworkId × Text) := []
  closing : List Closing := []
  /-- Each `_sessions.pop` of `_handle_session_close`: the session that closed, and the entry removed. -/
  pops : List (Ref × Option Ref) := []

inductive ManagerEvent where
  | connect (remoteId : NetworkId) (connectionId : Nat)
  | deliver (senderId : NetworkId) (message : Text)
  | start (index : Nat)
  | session (r : Ref) (e : SessionEvent Caller)
  | aclose
  | teardown (index : Nat) (succeeds : Bool)
  deriving DecidableEq, Repr

/-- What the manager shows to the layer above it, in order. -/
inductive Output where
  | effect (r : Ref) (f : Effect)
  | connected (r : Ref)
  | raised (r : Ref) (caller : Caller)
  | aclosed
  deriving DecidableEq, Repr

namespace Manager

def maxPendingCandidates : Nat := 64

def new (localId : NetworkId) (relayOnly : Bool) : Manager := { localId := localId, relayOnly := relayOnly }

/-- `_handle_session_close`, up to the application's callback. -/
def handleSessionClose (m : Manager) (r : Ref) (connectionId : Nat) : Manager :=
  { m with sessions := m.sessions.pop connectionId, pops := m.pops ++ [(r, m.sessions.get? connectionId)] }

/-- The manager's own callbacks, in the order the session called them. -/
def callbacks (m : Manager) (r : Ref) (connectionId : Nat) : List Effect → Manager
  | [] => m
  | .onClose _ :: rest => (m.handleSessionClose r connectionId).callbacks r connectionId rest
  | _ :: rest => m.callbacks r connectionId rest

/-- What a coroutine of the manager shows when the session coroutine it awaits ends:
`connect` returns its session, and an exception goes through to the manager's caller. -/
def reports (r : Ref) : Outcome Caller → List Output
  | .returned .connect _ => [.connected r]
  | .raised caller => [.raised r caller]
  | _ => []

/-- An event of one session, with the manager's callbacks. -/
def onSession [Aiortc] (m : Manager) (r : Ref) (e : SessionEvent Caller) :
    Manager × List Output × Outcome Caller :=
  match m.heap[r]? with
  | none => (m, [], .none)
  | some l =>
    let stepped := l.step e
    (({ m with heap := m.heap.set r stepped.loop }).callbacks r l.session.connectionId stepped.effects,
      stepped.effects.map (.effect r) ++ reports r stepped.outcome, stepped.outcome)

/-- The loop of `_flush_pending_candidates`, until a call is suspended or raises. -/
def flush [Aiortc] (r : Ref) (senderId : NetworkId) (parsed : SignalingMessage) :
    List CandidateAdd → Manager → Manager × List Output
  | [], m => (m, [])
  | c :: rest, m =>
    let out := m.onSession r (.call (.handleSignal c.message) (.flush senderId parsed rest))
    match out.2.2 with
    | .returned _ _ =>
      let more := flush r senderId parsed rest out.1
      (more.1, out.2.1 ++ more.2)
    | _ => (out.1, out.2.1)

/-- `_flush_pending_candidates(session)`. -/
def flushPendingCandidates [Aiortc] (m : Manager) (r : Ref) (connectionId : Nat) (senderId : NetworkId)
    (parsed : SignalingMessage) : Manager × List Output :=
  flush r senderId parsed ((m.pendingCandidates.get? connectionId).getD [])
    { m with pendingCandidates := m.pendingCandidates.pop connectionId }

/-- What the awaiting coroutine of the manager does once the session coroutine has returned. -/
def afterCall [Aiortc] (m : Manager) (r : Ref) : Outcome Caller → Manager × List Output
  | .returned (.newSession senderId parsed) _ =>
    m.flushPendingCandidates r parsed.connectionId senderId parsed
  | .returned (.flush senderId parsed rest) _ => flush r senderId parsed rest m
  | _ => (m, [])

/-- An event of one session, and what the manager's awaiting coroutine does next. -/
def run [Aiortc] (m : Manager) (r : Ref) (e : SessionEvent Caller) : Manager × List Output :=
  let out := m.onSession r e
  let rest := out.1.afterCall r out.2.2
  (rest.1, out.2.1 ++ rest.2)

/-- `_create_session`: the manager, and the new session. -/
def createSession (m : Manager) (connectionId : Nat) (remoteId : NetworkId) (isDialer : Bool) : Manager × Ref :=
  ({ m with
      heap := m.heap ++ [.fresh (Session.new connectionId m.localId remoteId isDialer m.relayOnly)]
      sessions := m.sessions.set connectionId m.heap.length }, m.heap.length)

/-- `_buffer_pending_candidate`. -/
def bufferPendingCandidate (m : Manager) (c : CandidateAdd) : Manager :=
  let buffer := (m.pendingCandidates.get? c.connectionId).getD []
  let buffer := if buffer.length < maxPendingCandidates then buffer ++ [c] else buffer
  { m with pendingCandidates := m.pendingCandidates.set c.connectionId buffer }

/-- `connect`, where `new_connection_id()` draws `connectionId`. -/
def connect [Aiortc] (m : Manager) (remoteId : NetworkId) (connectionId : Nat) : Manager × List Output :=
  let made := m.createSession connectionId remoteId true
  made.1.run made.2 (.call .start .connect)

/-- `handle_signal` up to its first await. -/
def handleSignal [Aiortc] (m : Manager) (senderId : NetworkId) (message : Text) : Manager × List Output :=
  match SignalingMessage.parse message with
  | none => (m, [])
  | some none => (m, [])
  | some (some parsed) =>
    match m.sessions.get? parsed.connectionId with
    | some r => m.run r (.call (.handleSignal parsed) (.handleSignal senderId parsed))
    | none =>
      match parsed with
      | .connectRequest k _ =>
        let made := m.createSession k senderId false
        made.1.run made.2 (.call (.handleSignal parsed) (.newSession senderId parsed))
      | .candidateAdd k c => (m.bufferPendingCandidate ⟨k, c⟩, [])
      | _ => (m, [])

/-- `aclose` over the rest of its snapshot, up to its next await. -/
def acloseFrom [Aiortc] (m : Manager) (snapshot : Nat) : List Ref → Manager × List Output
  | [] => ({ m with sessions := Dict.empty }, [.aclosed])
  | r :: rest =>
    let out := m.onSession r (.aclose (.member .none))
    ({ out.1 with closing := out.1.closing ++ [⟨snapshot, rest⟩] }, out.2.1)

/-- One event. Session coroutines are called by the manager alone. -/
def step [Aiortc] (m : Manager) : ManagerEvent → Manager × List Output
  | .connect remoteId connectionId => m.connect remoteId connectionId
  | .deliver senderId message => ({ m with created := m.created ++ [(senderId, message)] }, [])
  | .start index =>
    match m.created[index]? with
    | none => (m, [])
    | some signal => { m with created := m.created.eraseIdx index }.handleSignal signal.1 signal.2
  | .session _ (.call _ _) => (m, [])
  | .session r e => m.run r e
  | .aclose => m.acloseFrom m.heap.length m.sessions.values
  | .teardown index succeeds =>
    match m.closing[index]? with
    | none => (m, [])
    | some c =>
      let m := { m with closing := m.closing.eraseIdx index }
      if succeeds then m.acloseFrom c.snapshot c.rest else (m, [])

/-- The manager after one event. -/
def next [Aiortc] (m : Manager) (e : ManagerEvent) : Manager := (m.step e).1

end Manager
end NetherNet
