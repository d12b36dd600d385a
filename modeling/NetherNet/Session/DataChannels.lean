import NetherNet.Session.Loop
import NetherNet.Transport.Channels

/-! What an event of a session does to its data channels and its packet queue: negotiating and
closing leave them alone, and the others are the events of the two channels. -/
namespace NetherNet
variable {κ : Type}

namespace PeerConnection

/-- A peer connection with the same channels and packets: what negotiating does not touch. -/
structure SameChannels (pc pc' : PeerConnection) : Prop where
  sides : ∀ r, pc'.side r = pc.side r
  fired : pc'.channelsOpenFired = pc.channelsOpenFired
  packets : pc'.packets = pc.packets

theorem SameChannels.refl (pc : PeerConnection) : SameChannels pc pc := ⟨fun _ => rfl, rfl, rfl⟩

theorem SameChannels.trans {pc pc' pc'' : PeerConnection} (h : SameChannels pc pc') (h' : SameChannels pc' pc'') :
    SameChannels pc pc'' :=
  ⟨fun r => (h'.sides r).trans (h.sides r), h'.fired.trans h.fired, h'.packets.trans h.packets⟩

theorem SameChannels.channelled {pc pc' : PeerConnection} (h : SameChannels pc pc') {produced : Bool → List Bytes}
    (hc : pc.Channelled produced) : pc'.Channelled produced := by
  refine ⟨fun r => ?_, ?_⟩
  · rw [h.sides]
    exact hc.sides r
  · rw [h.fired, h.sides, h.sides]
    exact hc.fired

private theorem flushFrom_same (pc : PeerConnection) (index : Nat) : SameChannels pc (pc.flushFrom index).1 := by
  unfold flushFrom
  split <;> exact ⟨fun _ => rfl, rfl, rfl⟩

private theorem beginFlush_same (pc : PeerConnection) (sdp : Text) : SameChannels pc (pc.beginFlush sdp).1 := by
  have described : SameChannels pc { pc with remoteDescription := some sdp, remoteDescriptionSet := true } :=
    ⟨fun _ => rfl, rfl, rfl⟩
  exact described.trans (flushFrom_same _ 0)

private theorem answerFlush_pc (flushed : PeerConnection × List Effect × Option Nat) : (answerFlush flushed).pc = flushed.1 := by
  unfold answerFlush
  split <;> rfl

private theorem applyFlush_pc (flushed : PeerConnection × List Effect × Option Nat) : (applyFlush flushed).pc = flushed.1 := by
  unfold applyFlush
  split <;> rfl

theorem resumeOffer_same (pc : PeerConnection) (a : OfferAwait) (r : Reply) : SameChannels pc (pc.resumeOffer a r).pc := by
  cases r with
  | raised => exact SameChannels.refl pc
  | ok sdp => cases a <;> exact ⟨fun _ => rfl, rfl, rfl⟩

theorem resumeAnswer_same (pc : PeerConnection) (offer : Text) (a : AnswerAwait) (r : Reply) :
    SameChannels pc (pc.resumeAnswer offer a r).pc := by
  cases r with
  | raised => exact SameChannels.refl pc
  | ok sdp =>
    cases a with
    | setRemoteDescription =>
      rw [resumeAnswer, answerFlush_pc]
      exact beginFlush_same pc offer
    | flush index =>
      rw [resumeAnswer, answerFlush_pc]
      exact flushFrom_same pc (index + 1)
    | createAnswer => exact SameChannels.refl pc
    | setLocalDescription => exact ⟨fun _ => rfl, rfl, rfl⟩

theorem resumeApply_same (pc : PeerConnection) (answer : Text) (a : ApplyAwait) (r : Reply) :
    SameChannels pc (pc.resumeApply answer a r).pc := by
  cases r with
  | raised => exact SameChannels.refl pc
  | ok sdp =>
    cases a with
    | setRemoteDescription =>
      rw [resumeApply, applyFlush_pc]
      exact beginFlush_same pc answer
    | flush index =>
      rw [resumeApply, applyFlush_pc]
      exact flushFrom_same pc (index + 1)

theorem addRemoteCandidate_same [Aiortc] (pc : PeerConnection) (text : Text) :
    SameChannels pc (pc.addRemoteCandidate text).pc := by
  unfold addRemoteCandidate
  split
  · exact SameChannels.refl pc
  · split <;> exact ⟨fun _ => rfl, rfl, rfl⟩

theorem resumeCandidate_same (pc : PeerConnection) (c : Candidate) (r : Reply) : SameChannels pc (pc.resumeCandidate c r).pc := by
  cases r <;> exact SameChannels.refl pc

/-- Channels behave alike where they are the same. -/
theorem SameChannels.registered {pc pc' : PeerConnection} (h : SameChannels pc pc') (isReliable : Bool) :
    pc'.registered isReliable = pc.registered isReliable := by
  have hside := congrArg ChannelSide.channel (h.sides isReliable)
  cases isReliable with
  | true => exact congrArg Option.isSome hside
  | false => exact congrArg Option.isSome hside

/-! ### What is received -/

private theorem packets_handleChannelOpen (pc : PeerConnection) (isReliable : Bool) :
    (pc.handleChannelOpen isReliable).1.packets = pc.packets := by
  have marked : ∀ (q : PeerConnection) (fires : Bool), q.packets = pc.packets →
      (if fires then ({ q with channelsOpenFired := true }, true) else (q, false)).1.packets = pc.packets := by
    intro q fires h
    cases fires <;> exact h
  unfold handleChannelOpen
  by_cases hopen : (if isReliable then pc.reliableOpen else pc.unreliableOpen) = true
  · rw [if_pos hopen]
  · rw [if_neg hopen]
    cases isReliable <;> exact marked _ _ rfl

private theorem packets_channelSends (fragments : List (SendType × Bytes)) (pc : PeerConnection) :
    (fragments.foldl (fun pc f => pc.channelSend (f.1 = .reliable) f.2) pc).packets = pc.packets := by
  induction fragments generalizing pc with
  | nil => rfl
  | cons f rest ih =>
    rw [List.foldl_cons, ih]
    unfold channelSend
    split <;> split <;> rfl

/-- The packet queue is left alone by what happens to the channels. -/
theorem packets_next (pc : PeerConnection) (e : ChannelEvent) : (pc.next e).packets = pc.packets := by
  cases e with
  | send data sendType =>
    simp only [next, onEvent, send, PacketQueue.push_eq]
    exact packets_channelSends _ pc
  | register label readyState =>
    simp only [next, onEvent, registerChannel]
    cases readyState with
    | true =>
      rw [if_pos rfl, packets_handleChannelOpen]
      split <;> rfl
    | false =>
      rw [if_neg Bool.false_ne_true]
      split <;> rfl
  | opened isReliable =>
    simp only [next, onEvent]
    split
    · rw [channelOpened, packets_handleChannelOpen]
      split <;> rfl
    · rfl

/-- A message's packets are delivered at once. -/
theorem handleChannelMessage_eq (pc : PeerConnection) (isReliable : Bool) (data : Bytes) :
    let packets := if isReliable then pc.packets.onReliableMessage data else pc.packets.onUnreliableMessage data
    pc.handleChannelMessage isReliable data = ({ pc with packets := { packets with received := [] } }, packets.received) := by
  intro packets
  rw [handleChannelMessage, drain_eq _ packets (Nat.lt_succ_self _)]

end PeerConnection

namespace Session
open PeerConnection

/-! ### Negotiating -/

theorem offering_pc (s : Session) (h : Offering) (seg : PcSegment OfferAwait Text) : (s.offering h seg).session.pc = seg.pc := by
  unfold offering
  cases seg.flow with
  | suspended a => rfl
  | raised => rfl
  | returned sdp => cases h <;> simp [afterStart, afterOffer]

theorem answering_pc (s : Session) (h : Answering) (offer : Text) (seg : PcSegment AnswerAwait Text) :
    (s.answering h offer seg).session.pc = seg.pc := by
  unfold answering
  cases seg.flow with
  | suspended a => rfl
  | raised => rfl
  | returned sdp => cases h <;> simp [afterAnswer, afterRequest]

theorem applying_pc (s : Session) (h : Applying) (answer : Text) (seg : PcSegment ApplyAwait Unit) :
    (s.applying h answer seg).session.pc = seg.pc := by
  unfold applying
  cases seg.flow <;> rfl

theorem adding_pc (s : Session) (seg : PcSegment Candidate Unit) : (s.adding seg).session.pc = seg.pc := by
  unfold adding
  cases seg.flow <;> rfl

@[simp] theorem close_pc (s : Session) (error : ErrorCode) (notifyRemote : Bool) : (s.close error notifyRemote).1.pc = s.pc := by
  unfold close
  split <;> simp

private theorem applyAnswer_pc (s : Session) (h : Applying) (answer : Text) : (s.applyAnswer h answer).session.pc = s.pc := by
  unfold applyAnswer
  split
  · rfl
  · simp [applying_pc, setRemoteAnswer]

private theorem handleSignal_same [Aiortc] (s : Session) (message : SignalingMessage) :
    SameChannels s.pc (s.handleSignal message).session.pc := by
  unfold handleSignal
  split
  · exact SameChannels.refl _
  · cases message with
    | connectError k error =>
      simp only [handleConnectError]
      split
      · exact SameChannels.refl _
      · rw [close_pc]
        exact SameChannels.refl _
    | candidateAdd k candidate =>
      simp only [adding_pc]
      exact addRemoteCandidate_same s.pc candidate
    | connectResponse k sdp =>
      simp only
      split
      · rw [handleResponse, applyAnswer_pc]
        exact SameChannels.refl _
      · exact SameChannels.refl _
    | connectRequest k sdp =>
      simp only [handleRequest]
      split
      · split
        · exact SameChannels.refl _
        · rw [answering_pc]
          exact SameChannels.refl _
      · exact SameChannels.refl _

theorem call_same [Aiortc] (s : Session) (c : Call) : SameChannels s.pc (s.call c).session.pc := by
  cases c with
  | start =>
    rw [call, offering_pc]
    exact SameChannels.refl _
  | offer =>
    rw [call, offering_pc]
    exact SameChannels.refl _
  | acceptAnswer answer =>
    rw [call, acceptAnswer, applyAnswer_pc]
    exact SameChannels.refl _
  | answer offer =>
    rw [call, answering_pc]
    exact SameChannels.refl _
  | handleSignal message => exact handleSignal_same s message

theorem resume_same (s : Session) (c : Suspended) (r : Reply) : SameChannels s.pc (s.resume c r).session.pc := by
  cases c with
  | offering h a =>
    rw [resume, offering_pc]
    exact resumeOffer_same s.pc a r
  | answering h offer a =>
    rw [resume, answering_pc]
    exact resumeAnswer_same s.pc offer a r
  | applying h answer a =>
    rw [resume, applying_pc]
    exact resumeApply_same s.pc answer a r
  | adding c =>
    rw [resume, adding_pc]
    exact resumeCandidate_same s.pc c r

/-! ### Sending and opening -/

private theorem handleChannelsOpen_pc (s : Session) : s.handleChannelsOpen.1.pc = s.pc := by
  unfold handleChannelsOpen
  split <;> simp

theorem channelEvent_pc (s : Session) (opened : PeerConnection × Bool) : (s.channelEvent opened).1.pc = opened.1 := by
  unfold channelEvent
  split
  · rw [handleChannelsOpen_pc]
  · rfl

/-- A packet is handed on exactly while the session is connected and the framing accepts it. -/
theorem send_fst (s : Session) (data : Bytes) (sendType : SendType) :
    (s.send data sendType).1 = true ↔ s.state = .connected ∧ PacketQueue.Accepts data sendType := by
  unfold send
  split
  · next h => simp [h]
  · next h =>
    rw [ne_eq, not_not] at h
    rw [PeerConnection.send, PacketQueue.push_eq]
    by_cases ha : PacketQueue.Accepts data sendType <;> simp [h, ha]

theorem send_pc (s : Session) (data : Bytes) (sendType : SendType) :
    (s.send data sendType).2.pc = if s.state = .connected then s.pc.next (.send data sendType) else s.pc := by
  unfold send
  by_cases h : s.state = .connected
  · rw [if_neg (by simp [h]), if_pos h, PeerConnection.next, onEvent]
    cases hsend : s.pc.send data sendType with
    | error e => rfl
    | ok sent => rfl
  · rw [if_pos h, if_neg h]

end Session

namespace SessionLoop
open PeerConnection

/-- The events of the two channels in an event of the session. -/
def channelEvents (l : SessionLoop κ) : SessionEvent κ → List ChannelEvent
  | .send data sendType => if l.session.state = .connected then [.send data sendType] else []
  | .dataChannel label readyState =>
    if l.session.pc.negotiated ∧ ¬ l.session.isDialer then [.register label readyState] else []
  | .channelOpen isReliable => if l.session.pc.negotiated ∧ l.session.pc.registered isReliable then [.opened isReliable] else []
  | _ => []

/-- An event that carries no message of a channel does to the channels what its channel events do. -/
theorem next_channels [Aiortc] (l : SessionLoop κ) {e : SessionEvent κ} (he : ∀ isReliable data, e ≠ .channelMessage isReliable data) :
    SameChannels (Library.Machine.run PeerConnection.next l.session.pc (l.channelEvents e)) (l.next e).session.pc := by
  have closed : ∀ error notifyRemote, SameChannels l.session.pc (l.session.close error notifyRemote).1.pc := by
    intro error notifyRemote
    rw [Session.close_pc]
    exact SameChannels.refl _
  cases e with
  | call c caller =>
    rw [next, step, segment_session]
    exact Session.call_same l.session c
  | resume index reply =>
    rw [next, step]
    split
    · exact SameChannels.refl _
    · rw [segment_session]
      exact Session.resume_same l.session _ reply
  | close error notifyRemote => exact closed error notifyRemote
  | aclose error =>
    simp only [next, step, ran, Session.aclose]
    split
    · exact closed error false
    · exact SameChannels.refl _
  | timer handle =>
    simp only [next, step, ran, Session.fireTimer]
    split
    · exact SameChannels.refl _
    · rw [Session.close_pc]
      exact SameChannels.refl _
  | connectionState state =>
    simp only [next, step, ran, Session.handleConnectionState]
    split
    · exact SameChannels.refl _
    · cases state with
      | failed => exact closed _ false
      | closed =>
        simp only
        split
        · exact closed _ false
        · exact SameChannels.refl _
      | _ => exact SameChannels.refl _
  | dataChannel label readyState =>
    simp only [next, step, channelEvents]
    split
    · rw [ran, Session.channelEvent_pc]
      exact SameChannels.refl _
    · exact SameChannels.refl _
  | channelOpen isReliable =>
    simp only [next, step, channelEvents]
    split
    · next h =>
      rw [ran, Session.channelEvent_pc, Library.Machine.run_cons, Library.Machine.run_nil, PeerConnection.next, onEvent, if_pos h.2]
      exact SameChannels.refl _
    · exact SameChannels.refl _
  | channelMessage isReliable data => exact absurd rfl (he isReliable data)
  | send data sendType =>
    simp only [next, step, ran, channelEvents, Session.send_pc]
    split <;> exact SameChannels.refl _

end SessionLoop
end NetherNet
