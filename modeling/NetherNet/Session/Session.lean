import NetherNet.Signaling.Messages
import NetherNet.Transport.PeerConnection

/-! The session state machine. A coroutine is cut at its awaits: `call` runs it up
to the first, `resume` from one to the next, and each such segment is atomic on
the event loop. -/
namespace NetherNet

inductive SessionState where
  | idle | offerSent | answerSent | negotiating | connected | closed
  deriving DecidableEq, Repr

/-- aiortc's `connectionState`. -/
inductive ConnectionState where
  | new | connecting | connected | failed | closed
  deriving DecidableEq, Repr

/-- A session, with the `close` calls the event loop has scheduled for it. -/
structure Session where
  connectionId : Nat
  localId : NetworkId
  remoteId : NetworkId
  isDialer : Bool
  state : SessionState := .idle
  timeoutHandle : Option Nat := none
  closeTask : Bool := false
  pc : PeerConnection
  scheduled : List (Nat × ErrorCode) := []
  nextHandle : Nat := 0
  deriving DecidableEq, Repr

/-- The session coroutines that await `create_offer`. -/
inductive Offering where
  | start | offer
  deriving DecidableEq, Repr

/-- The session coroutines that await `create_answer`. -/
inductive Answering where
  | answer | handleRequest
  deriving DecidableEq, Repr

/-- The session coroutines that await `set_remote_answer`. -/
inductive Applying where
  | acceptAnswer | handleResponse
  deriving DecidableEq, Repr

/-- A suspended session coroutine: which one, inside which call of the peer
connection, and at which await of that call. -/
inductive Suspended where
  | offering (h : Offering) (a : OfferAwait)
  | answering (h : Answering) (offer : Text) (a : AnswerAwait)
  | applying (h : Applying) (answer : Text) (a : ApplyAwait)
  | adding (candidate : Candidate)
  deriving DecidableEq, Repr

/-- The coroutines an application or the session manager may call. -/
inductive Call where
  | start
  | offer
  | acceptAnswer (answer : Text)
  | answer (offer : Text)
  | handleSignal (message : SignalingMessage)
  deriving DecidableEq, Repr

/-- How a segment of a session coroutine ends. -/
inductive Flow where
  | suspended (c : Suspended)
  | returned (value : Option Text)
  | raised
  deriving DecidableEq, Repr

structure Segment where
  session : Session
  effects : List Effect
  flow : Flow

namespace Session

def new (connectionId : Nat) (localId remoteId : NetworkId) (isDialer relayOnly : Bool) : Session :=
  { connectionId := connectionId, localId := localId, remoteId := remoteId, isDialer := isDialer,
    pc := PeerConnection.new isDialer relayOnly }

/-! ### Timeouts and close -/

/-- `_cancel_timeout`. -/
def cancelTimeout (s : Session) : Session :=
  match s.timeoutHandle with
  | none => s
  | some handle => { s with scheduled := s.scheduled.filter (fun t => t.1 ≠ handle), timeoutHandle := none }

section Frame
variable (s : Session)
@[simp] theorem cancelTimeout_state : s.cancelTimeout.state = s.state := by unfold cancelTimeout; split <;> rfl
@[simp] theorem cancelTimeout_pc : s.cancelTimeout.pc = s.pc := by unfold cancelTimeout; split <;> rfl
@[simp] theorem cancelTimeout_connectionId : s.cancelTimeout.connectionId = s.connectionId := by
  unfold cancelTimeout; split <;> rfl
@[simp] theorem cancelTimeout_remoteId : s.cancelTimeout.remoteId = s.remoteId := by
  unfold cancelTimeout; split <;> rfl
@[simp] theorem cancelTimeout_isDialer : s.cancelTimeout.isDialer = s.isDialer := by
  unfold cancelTimeout; split <;> rfl
@[simp] theorem cancelTimeout_timeoutHandle : s.cancelTimeout.timeoutHandle = none := by
  unfold cancelTimeout
  split
  · assumption
  · rfl
end Frame

/-- `_arm_timeout`. -/
def armTimeout (s : Session) (error : SessionError) : Session :=
  let s := s.cancelTimeout
  { s with scheduled := s.scheduled ++ [(s.nextHandle, .member error)], timeoutHandle := some s.nextHandle,
           nextHandle := s.nextHandle + 1 }

section Frame
variable (s : Session) (error : SessionError)
@[simp] theorem armTimeout_state : (s.armTimeout error).state = s.state := by simp [armTimeout]
@[simp] theorem armTimeout_pc : (s.armTimeout error).pc = s.pc := by simp [armTimeout]
@[simp] theorem armTimeout_connectionId : (s.armTimeout error).connectionId = s.connectionId := by simp [armTimeout]
@[simp] theorem armTimeout_remoteId : (s.armTimeout error).remoteId = s.remoteId := by simp [armTimeout]
@[simp] theorem armTimeout_isDialer : (s.armTimeout error).isDialer = s.isDialer := by simp [armTimeout]
end Frame

def close (s : Session) (error : ErrorCode) (notifyRemote : Bool) : Session × List Effect :=
  if s.state = .closed then (s, [])
  else
    let s := { s with state := .closed }.cancelTimeout
    let notice := if notifyRemote then
      [Effect.sendSignal (SignalingMessage.connectError s.connectionId error).serialize] else []
    ({ s with closeTask := true }, notice ++ [.onClose error])

/-- `aclose` up to its await of the transport's teardown. -/
def aclose (s : Session) (error : ErrorCode) : Session × List Effect :=
  if s.state ≠ .closed then s.close error false else (s, [])

/-- The event loop runs a scheduled `close`. -/
def fireTimer (s : Session) (handle : Nat) : Session × List Effect :=
  match s.scheduled.find? (fun t => t.1 = handle) with
  | none => (s, [])
  | some timer => { s with scheduled := s.scheduled.filter (fun t => t.1 ≠ handle) }.close timer.2 false

/-! ### Transport callbacks -/

def handleChannelsOpen (s : Session) : Session × List Effect :=
  if s.state = .connected ∨ s.state = .closed then (s, [])
  else ({ s with state := .connected }.cancelTimeout, [.onOpen])

def handleConnectionState (s : Session) (state : ConnectionState) : Session × List Effect :=
  if s.state = .closed then (s, [])
  else
    match state with
    | .failed =>
      s.close (.member (if s.state = .connected then .dataChannelClosed else .ice)) false
    | .closed => if s.state = .connected then s.close (.member .dataChannelClosed) false else (s, [])
    | _ => (s, [])

/-- A data channel opens, or is registered already open. -/
def channelEvent (s : Session) (opened : PeerConnection × Bool) : Session × List Effect :=
  let s := { s with pc := opened.1 }
  if opened.2 then s.handleChannelsOpen else (s, [])

/-- `_handle_packet` for each packet that a channel message completes. -/
def channelMessage (s : Session) (isReliable : Bool) (data : Bytes) : Session × List Effect :=
  let delivered := s.pc.handleChannelMessage isReliable data
  ({ s with pc := delivered.1 }, delivered.2.map .onPacket)

/-- `send`; `push` does not raise, see `PacketQueue.push_eq`. -/
def send (s : Session) (data : Bytes) (sendType : SendType) : Bool × Session :=
  if s.state ≠ .connected then (false, s)
  else
    match s.pc.send data sendType with
    | .error _ => (false, s)
    | .ok (accepted, pc) => (accepted, { s with pc := pc })

/-! ### The coroutines -/

def sendCandidates (s : Session) (candidates : List Text) : List Effect :=
  candidates.map fun c => .sendSignal (SignalingMessage.candidateAdd s.connectionId c).serialize

/-- `start` after its await. -/
def afterStart (s : Session) (sdp : Text) : Segment :=
  let (offer, candidates) := Sdp.stripCandidates sdp
  let s := { s with state := .offerSent }
  ⟨s.armTimeout .negotiationTimeoutWaitingForResponse,
    .sendSignal (SignalingMessage.connectRequest s.connectionId offer).serialize :: s.sendCandidates candidates ++
      [.armed (.member .negotiationTimeoutWaitingForResponse)], .returned none⟩

/-- `offer` after its await. -/
def afterOffer (s : Session) (sdp : Text) : Segment :=
  let s := { s with state := .offerSent }
  ⟨s.armTimeout .negotiationTimeoutWaitingForResponse,
    [.armed (.member .negotiationTimeoutWaitingForResponse)], .returned (some sdp)⟩

/-- `answer` after its await. -/
def afterAnswer (s : Session) (sdp : Text) : Segment :=
  let s := { s with state := .answerSent }
  ⟨s.armTimeout .negotiationTimeoutWaitingForAccept,
    [.armed (.member .negotiationTimeoutWaitingForAccept)], .returned (some sdp)⟩

/-- `_handle_request` after its await. -/
def afterRequest (s : Session) (sdp : Text) : Segment :=
  let (answer, candidates) := Sdp.stripCandidates sdp
  let s := { s with state := .answerSent }
  ⟨s.armTimeout .negotiationTimeoutWaitingForAccept,
    .sendSignal (SignalingMessage.connectResponse s.connectionId answer).serialize :: s.sendCandidates candidates ++
      [.armed (.member .negotiationTimeoutWaitingForAccept)], .returned none⟩

/-- `start` and `offer` around a segment of `create_offer`. -/
def offering (s : Session) (h : Offering) (seg : PcSegment OfferAwait Text) : Segment :=
  let s := { s with pc := seg.pc }
  match seg.flow with
  | .suspended a => ⟨s, seg.effects, .suspended (.offering h a)⟩
  | .raised => ⟨s, seg.effects, .raised⟩
  | .returned sdp =>
    let rest := match h with
      | .start => s.afterStart sdp
      | .offer => s.afterOffer sdp
    { rest with effects := seg.effects ++ rest.effects }

/-- `answer` and `_handle_request` around a segment of `create_answer`. -/
def answering (s : Session) (h : Answering) (offer : Text) (seg : PcSegment AnswerAwait Text) : Segment :=
  let s := { s with pc := seg.pc }
  match seg.flow with
  | .suspended a => ⟨s, seg.effects, .suspended (.answering h offer a)⟩
  | .raised => ⟨s, seg.effects, .raised⟩
  | .returned sdp =>
    let rest := match h with
      | .answer => s.afterAnswer sdp
      | .handleRequest => s.afterRequest sdp
    { rest with effects := seg.effects ++ rest.effects }

/-- `accept_answer` and `_handle_response` around a segment of `set_remote_answer`, their last call. -/
def applying (s : Session) (h : Applying) (answer : Text) (seg : PcSegment ApplyAwait Unit) : Segment :=
  let s := { s with pc := seg.pc }
  match seg.flow with
  | .suspended a => ⟨s, seg.effects, .suspended (.applying h answer a)⟩
  | .raised => ⟨s, seg.effects, .raised⟩
  | .returned () => ⟨s, seg.effects, .returned none⟩

/-- `handle_signal` around a segment of `add_remote_candidate`, its last call. -/
def adding (s : Session) (seg : PcSegment Candidate Unit) : Segment :=
  let s := { s with pc := seg.pc }
  match seg.flow with
  | .suspended c => ⟨s, seg.effects, .suspended (.adding c)⟩
  | .raised => ⟨s, seg.effects, .raised⟩
  | .returned () => ⟨s, seg.effects, .returned none⟩

/-- `accept_answer` and `_handle_response`, which are the same code. -/
def applyAnswer (s : Session) (h : Applying) (answer : Text) : Segment :=
  if s.state ≠ .offerSent then ⟨s, [], .returned none⟩
  else
    let s := { s with state := .negotiating }.armTimeout .negotiationTimeoutWaitingForAccept
    let seg := s.applying h answer (s.pc.setRemoteAnswer answer)
    { seg with effects := .armed (.member .negotiationTimeoutWaitingForAccept) :: seg.effects }

theorem applyAnswer_eq (s : Session) (h : Applying) (answer : Text) (hs : s.state = .offerSent) :
    s.applyAnswer h answer = ⟨{ s with state := .negotiating }.armTimeout .negotiationTimeoutWaitingForAccept,
      [.armed (.member .negotiationTimeoutWaitingForAccept), .setRemoteAnswer answer],
      .suspended (.applying h answer .setRemoteDescription)⟩ := by
  rw [applyAnswer, if_neg (by simp [hs])]
  rfl

def acceptAnswer (s : Session) (answer : Text) : Segment := s.applyAnswer .acceptAnswer answer
def handleResponse (s : Session) (answer : Text) : Segment := s.applyAnswer .handleResponse answer

def handleRequest (s : Session) (offer : Text) : Segment :=
  if s.state ≠ .idle then ⟨s, [], .returned none⟩
  else s.answering .handleRequest offer (s.pc.createAnswer offer)

/-- `_handle_connect_error`. -/
def handleConnectError (s : Session) (error : ErrorCode) : Session × List Effect :=
  if ¬ s.isDialer ∧ error.toInt = SessionError.signalingUnicastMessageDeliveryFailed.toInt then (s, [])
  else s.close error false

def handleSignal [Aiortc] (s : Session) (message : SignalingMessage) : Segment :=
  if s.state = .closed then ⟨s, [], .returned none⟩
  else
    match message with
    | .connectError _ error =>
      let closed := s.handleConnectError error
      ⟨closed.1, closed.2, .returned none⟩
    | .candidateAdd _ candidate => s.adding (s.pc.addRemoteCandidate candidate)
    | .connectResponse _ sdp => if s.isDialer then s.handleResponse sdp else ⟨s, [], .returned none⟩
    | .connectRequest _ sdp => if ¬ s.isDialer then s.handleRequest sdp else ⟨s, [], .returned none⟩

/-- A coroutine is called and runs up to its first await. -/
def call [Aiortc] (s : Session) : Call → Segment
  | .start => s.offering .start s.pc.createOffer
  | .offer => s.offering .offer s.pc.createOffer
  | .acceptAnswer answer => s.acceptAnswer answer
  | .answer offer => s.answering .answer offer (s.pc.createAnswer offer)
  | .handleSignal message => s.handleSignal message

/-- A suspended coroutine goes on with aiortc's reply, up to its next await. -/
def resume (s : Session) : Suspended → Reply → Segment
  | .offering h a, r => s.offering h (s.pc.resumeOffer a r)
  | .answering h offer a, r => s.answering h offer (s.pc.resumeAnswer offer a r)
  | .applying h answer a, r => s.applying h answer (s.pc.resumeApply answer a r)
  | .adding c, r => s.adding (s.pc.resumeCandidate c r)

end Session
end NetherNet
