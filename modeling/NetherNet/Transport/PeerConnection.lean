import NetherNet.Transport.Framing
import NetherNet.Transport.Sdp

/-! The peer connection around aiortc: two data channels with framing, and the
offer/answer coroutines with the candidates buffered until the remote description
is set. Every await of an aiortc call is a point where a coroutine is suspended. -/
namespace NetherNet

/-- What the model leaves to aiortc's candidate grammar: whether
`candidate_from_sdp` accepts a text or raises. -/
class Aiortc where
  parsesCandidate : Text → Bool

/-- An ICE candidate object, named by the text it was parsed from. -/
abbrev Candidate := Text

/-- What a session does that others can observe: the calls it makes on its peer
connection and aiortc, the signals it sends, its timers and its callbacks. -/
inductive Effect where
  | createOffer
  | createAnswer (offer : Text)
  | answered (offer answer : Text)
  | setRemoteAnswer (answer : Text)
  | remoteDescription (sdp : Text)
  | addIceCandidate (candidate : Candidate)
  | sendSignal (message : Text)
  | armed (error : ErrorCode)
  | onOpen
  | onClose (error : ErrorCode)
  | onPacket (data : Bytes)
  deriving DecidableEq, Repr

/-- An `RTCDataChannel`: whether it is open and what was handed to its `send`. -/
structure DataChannel where
  isOpen : Bool := false
  sent : List Bytes := []
  deriving DecidableEq, Repr

def DataChannel.send (channel : DataChannel) (fragments : List Bytes) : DataChannel :=
  { channel with sent := channel.sent ++ fragments }

def DataChannel.opened (channel : DataChannel) : DataChannel := { channel with isOpen := true }

def reliableLabel : Text := "ReliableDataChannel".toList
def unreliableLabel : Text := "UnreliableDataChannel".toList

structure PeerConnection where
  relayOnly : Bool := false
  packets : PacketQueue := {}
  reliable : Option DataChannel := none
  unreliable : Option DataChannel := none
  reliableOpen : Bool := false
  unreliableOpen : Bool := false
  pendingReliable : List Bytes := []
  pendingUnreliable : List Bytes := []
  channelsOpenFired : Bool := false
  remoteDescriptionSet : Bool := false
  pendingRemoteCandidates : List Candidate := []
  /-- aiortc's own descriptions. -/
  localDescription : Option Text := none
  remoteDescription : Option Text := none
  deriving DecidableEq, Repr

/-- What an awaited aiortc call comes back with. After a call that sets the local
description, `localSdp` is that description's text. -/
inductive Reply where
  | ok (localSdp : Text)
  | raised
  deriving DecidableEq, Repr

/-- The awaits of `create_offer`. -/
inductive OfferAwait where
  | createOffer | setLocalDescription
  deriving DecidableEq, Repr

/-- The awaits of `create_answer`; `flush` is the place of the loop over the buffered candidates. -/
inductive AnswerAwait where
  | setRemoteDescription | flush (index : Nat) | createAnswer | setLocalDescription
  deriving DecidableEq, Repr

/-- The awaits of `set_remote_answer`. -/
inductive ApplyAwait where
  | setRemoteDescription | flush (index : Nat)
  deriving DecidableEq, Repr

/-- How an uninterrupted piece of a coroutine ends: suspended at an await, or with its result. -/
inductive PcFlow (α ρ : Type) where
  | suspended (place : α)
  | returned (value : ρ)
  | raised
  deriving DecidableEq, Repr

structure PcSegment (α ρ : Type) where
  pc : PeerConnection
  effects : List Effect
  flow : PcFlow α ρ

namespace PeerConnection

/-- The constructor: a dialer creates its two channels at once. -/
def new (isDialer relayOnly : Bool) : PeerConnection :=
  if isDialer then { relayOnly := relayOnly, reliable := some {}, unreliable := some {} }
  else { relayOnly := relayOnly }

/-! ### Candidates and descriptions -/

/-- `candidate_from_message`, or nothing where it raises. -/
def candidateFromMessage [Aiortc] (text : Text) : Option Candidate :=
  let marker := "candidate:".toList
  let value := if Sdp.startsWith text marker then text.drop marker.length else text
  if Aiortc.parsesCandidate value then some value else none

/-- `_local_sdp`. -/
def localSdp (pc : PeerConnection) : Text :=
  let sdp := Sdp.setMaxMessageSize (pc.localDescription.getD []) Sdp.maxMessageSize
  if pc.relayOnly then Sdp.keepOnlyRelayCandidates sdp else sdp

/-- One turn of the loop in `_flush_remote_candidates`: the place where it is now
suspended, or nothing when it is through and has cleared the buffer. -/
def flushFrom (pc : PeerConnection) (index : Nat) : PeerConnection × List Effect × Option Nat :=
  match pc.pendingRemoteCandidates[index]? with
  | some candidate => (pc, [.addIceCandidate candidate], some index)
  | none => ({ pc with pendingRemoteCandidates := [] }, [], none)

/-- `setRemoteDescription(sdp)` is through: `_flush_remote_candidates` begins. -/
def beginFlush (pc : PeerConnection) (sdp : Text) : PeerConnection × List Effect × Option Nat :=
  let flushed := { pc with remoteDescription := some sdp, remoteDescriptionSet := true }.flushFrom 0
  (flushed.1, .remoteDescription sdp :: flushed.2.1, flushed.2.2)

def createOffer (pc : PeerConnection) : PcSegment OfferAwait Text :=
  ⟨pc, [.createOffer], .suspended .createOffer⟩

def resumeOffer (pc : PeerConnection) : OfferAwait → Reply → PcSegment OfferAwait Text
  | _, .raised => ⟨pc, [], .raised⟩
  | .createOffer, .ok _ => ⟨pc, [], .suspended .setLocalDescription⟩
  | .setLocalDescription, .ok sdp =>
    let pc := { pc with localDescription := some sdp }
    ⟨pc, [], .returned pc.localSdp⟩

def createAnswer (pc : PeerConnection) (offer : Text) : PcSegment AnswerAwait Text :=
  ⟨pc, [.createAnswer offer], .suspended .setRemoteDescription⟩

/-- `create_answer` goes on with its flush, and after it with `createAnswer`. -/
def answerFlush (flushed : PeerConnection × List Effect × Option Nat) : PcSegment AnswerAwait Text :=
  match flushed.2.2 with
  | some index => ⟨flushed.1, flushed.2.1, .suspended (.flush index)⟩
  | none => ⟨flushed.1, flushed.2.1, .suspended .createAnswer⟩

def resumeAnswer (pc : PeerConnection) (offer : Text) : AnswerAwait → Reply → PcSegment AnswerAwait Text
  | _, .raised => ⟨pc, [], .raised⟩
  | .setRemoteDescription, .ok _ => answerFlush (pc.beginFlush offer)
  | .flush index, .ok _ => answerFlush (pc.flushFrom (index + 1))
  | .createAnswer, .ok _ => ⟨pc, [], .suspended .setLocalDescription⟩
  | .setLocalDescription, .ok sdp =>
    let pc := { pc with localDescription := some sdp }
    ⟨pc, [.answered offer pc.localSdp], .returned pc.localSdp⟩

def setRemoteAnswer (pc : PeerConnection) (answer : Text) : PcSegment ApplyAwait Unit :=
  ⟨pc, [.setRemoteAnswer answer], .suspended .setRemoteDescription⟩

/-- `set_remote_answer` ends with its flush. -/
def applyFlush (flushed : PeerConnection × List Effect × Option Nat) : PcSegment ApplyAwait Unit :=
  match flushed.2.2 with
  | some index => ⟨flushed.1, flushed.2.1, .suspended (.flush index)⟩
  | none => ⟨flushed.1, flushed.2.1, .returned ()⟩

def resumeApply (pc : PeerConnection) (answer : Text) : ApplyAwait → Reply → PcSegment ApplyAwait Unit
  | _, .raised => ⟨pc, [], .raised⟩
  | .setRemoteDescription, .ok _ => applyFlush (pc.beginFlush answer)
  | .flush index, .ok _ => applyFlush (pc.flushFrom (index + 1))

def addRemoteCandidate [Aiortc] (pc : PeerConnection) (text : Text) : PcSegment Candidate Unit :=
  match candidateFromMessage text with
  | none => ⟨pc, [], .raised⟩
  | some candidate =>
    if pc.remoteDescriptionSet then ⟨pc, [.addIceCandidate candidate], .suspended candidate⟩
    else ⟨{ pc with pendingRemoteCandidates := pc.pendingRemoteCandidates ++ [candidate] }, [], .returned ()⟩

def resumeCandidate (pc : PeerConnection) : Candidate → Reply → PcSegment Candidate Unit
  | _, .raised => ⟨pc, [], .raised⟩
  | _, .ok _ => ⟨pc, [], .returned ()⟩

/-- Both descriptions are applied. Only then does aiortc connect, and so open a channel. -/
def negotiated (pc : PeerConnection) : Bool := pc.remoteDescriptionSet && pc.localDescription.isSome

/-! ### Data channels -/

def registered (pc : PeerConnection) (isReliable : Bool) : Bool :=
  if isReliable then pc.reliable.isSome else pc.unreliable.isSome

/-- `_handle_channel_open`; the flag says whether `on_channels_open` is called. -/
def handleChannelOpen (pc : PeerConnection) (isReliable : Bool) : PeerConnection × Bool :=
  if (if isReliable then pc.reliableOpen else pc.unreliableOpen) then (pc, false)
  else
    let pc :=
      if isReliable then
        { pc with reliableOpen := true, reliable := pc.reliable.map (·.send pc.pendingReliable),
                  pendingReliable := [] }
      else
        { pc with unreliableOpen := true, unreliable := pc.unreliable.map (·.send pc.pendingUnreliable),
                  pendingUnreliable := [] }
    if pc.reliableOpen && pc.unreliableOpen && !pc.channelsOpenFired then ({ pc with channelsOpenFired := true }, true)
    else (pc, false)

/-- `_register_channel`: only the exact label is the reliable channel. -/
def registerChannel (pc : PeerConnection) (label : Text) (readyState : Bool) : PeerConnection × Bool :=
  let isReliable : Bool := label = reliableLabel
  let channel : DataChannel := { isOpen := readyState }
  let pc := if isReliable then { pc with reliable := some channel } else { pc with unreliable := some channel }
  if readyState then pc.handleChannelOpen isReliable else (pc, false)

/-- The channel's "open" event: the channel is open and the handler runs. -/
def channelOpened (pc : PeerConnection) (isReliable : Bool) : PeerConnection × Bool :=
  let pc := if isReliable then { pc with reliable := pc.reliable.map DataChannel.opened }
    else { pc with unreliable := pc.unreliable.map DataChannel.opened }
  pc.handleChannelOpen isReliable

/-- `_channel_send`. -/
def channelSend (pc : PeerConnection) (isReliable : Bool) (fragment : Bytes) : PeerConnection :=
  if isReliable then
    match pc.reliable, pc.reliableOpen with
    | some channel, true => { pc with reliable := some (channel.send [fragment]) }
    | _, _ => { pc with pendingReliable := pc.pendingReliable ++ [fragment] }
  else
    match pc.unreliable, pc.unreliableOpen with
    | some channel, true => { pc with unreliable := some (channel.send [fragment]) }
    | _, _ => { pc with pendingUnreliable := pc.pendingUnreliable ++ [fragment] }

theorem fired_channelSend (pc : PeerConnection) (isReliable : Bool) (fragment : Bytes) :
    (pc.channelSend isReliable fragment).channelsOpenFired = pc.channelsOpenFired := by
  unfold channelSend
  split <;> split <;> rfl

theorem fired_channelSends (fragments : List (SendType × Bytes)) (pc : PeerConnection) :
    (fragments.foldl (fun pc f => pc.channelSend (f.1 = .reliable) f.2) pc).channelsOpenFired = pc.channelsOpenFired := by
  induction fragments generalizing pc with
  | nil => rfl
  | cons f fragments ih => rw [List.foldl_cons, ih, fired_channelSend]

/-- `send`: its result, and the fragments in the hands of the channels. -/
def send (pc : PeerConnection) (data : Bytes) (sendType : SendType) : Except Exn (Bool × PeerConnection) :=
  match PacketQueue.push data sendType with
  | .error e => .error e
  | .ok (accepted, fragments) =>
    .ok (accepted, fragments.foldl (fun pc f => pc.channelSend (f.1 = .reliable) f.2) pc)

/-- The `while` loop of `_deliver`, for at most `n` packets. -/
def drain : Nat → PacketQueue → List Bytes × PacketQueue
  | 0, q => ([], q)
  | n + 1, q =>
    match q.read none with
    | (none, q) => ([], q)
    | (some packet, q) =>
      let rest := drain n q
      (packet :: rest.1, rest.2)

/-- `_handle_channel_message`: the packets it delivers, in order. -/
def handleChannelMessage (pc : PeerConnection) (isReliable : Bool) (data : Bytes) : PeerConnection × List Bytes :=
  let packets := if isReliable then pc.packets.onReliableMessage data else pc.packets.onUnreliableMessage data
  let delivered := drain (packets.received.length + 1) packets
  ({ pc with packets := delivered.2 }, delivered.1)

/-- The delivery loop empties the receive queue, in order. -/
theorem drain_eq (n : Nat) (q : PacketQueue) (h : q.received.length < n) :
    drain n q = (q.received, { q with received := [] }) := by
  induction n generalizing q with
  | zero => exact absurd h (Nat.not_lt_zero _)
  | succ n ih =>
    obtain ⟨buffer, received⟩ := q
    cases received with
    | nil => rfl
    | cons packet received =>
      have hr := ih ⟨buffer, received⟩ (by simpa using h)
      simp only [drain, PacketQueue.read, hr]

end PeerConnection
end NetherNet
