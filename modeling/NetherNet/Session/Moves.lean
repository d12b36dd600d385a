import NetherNet.Session.Loop

/-! What one event can do to a session, said once: it changes nothing but the peer
connection, opens the session, arms a timer, or closes the session. -/
namespace NetherNet
variable {κ : Type}

/-- Effects that send nothing, arm nothing and call neither `on_open` nor `on_close`. -/
def Effect.quiet : Effect → Bool
  | .sendSignal _ | .armed _ | .onOpen | .onClose _ => false
  | _ => true

def Effect.isClose : Effect → Bool
  | .onClose _ => true
  | _ => false

/-- Effects other than the two callbacks. -/
def Effect.internal (f : Effect) : Prop := f ≠ .onOpen ∧ f.isClose = false

/-- The states that wait for a message, each with the error its timer reports. -/
inductive Waits : SessionState → SessionError → Prop where
  | offerSent : Waits .offerSent .negotiationTimeoutWaitingForResponse
  | answerSent : Waits .answerSent .negotiationTimeoutWaitingForAccept
  | negotiating : Waits .negotiating .negotiationTimeoutWaitingForAccept

/-- The last await of `create_offer` or `create_answer`, after which the state is written. -/
def Suspended.last : Suspended → Bool
  | .offering _ .setLocalDescription => true
  | .answering _ _ .setLocalDescription => true
  | _ => false

namespace Session

/-- One atomic segment. `late` is the circumstance in which a closed session may
be moved to a waiting state. A timer goes off without effect only on a closed session. -/
inductive Move (late : Prop) (s : Session) : Session → List Effect → Prop where
  | quiet (pc : PeerConnection) (scheduled : List (Nat × ErrorCode)) (effects : List Effect)
      (hq : ∀ f ∈ effects, f.quiet = true) (hf : s.pc.channelsOpenFired = true → pc.channelsOpenFired = true)
      (hl : scheduled = s.scheduled ∨ s.state = .closed ∧ scheduled.Sublist s.scheduled) :
      Move late s { s with pc := pc, scheduled := scheduled } effects
  | opens (pc : PeerConnection) (hs : s.state ≠ .connected) (hc : s.state ≠ .closed)
      (hn : s.pc.channelsOpenFired = false) (hf : pc.channelsOpenFired = true) :
      Move late s { s with pc := pc, state := .connected }.cancelTimeout [.onOpen]
  | arms (pc : PeerConnection) (state : SessionState) (error : SessionError) (effects : List Effect)
      (hw : Waits state error) (hi : ∀ f ∈ effects, f.internal) (hl : s.state = .closed → late)
      (hf : pc.channelsOpenFired = s.pc.channelsOpenFired) :
      Move late s ({ s with pc := pc, state := state }.armTimeout error) effects
  | closes (scheduled : List (Nat × ErrorCode)) (error : ErrorCode) (notice : List Effect) (hs : s.state ≠ .closed)
      (hl : scheduled.Sublist s.scheduled) (hn : ∀ f ∈ notice, f.internal) :
      Move late s { { s with scheduled := scheduled, state := .closed }.cancelTimeout with closeTask := true }
        (notice ++ [.onClose error])

variable {late : Prop}

/-- A move keeps who the session is and whom it talks to. -/
theorem Move.identity {s s' : Session} {effects : List Effect} (h : Move late s s' effects) :
    s'.connectionId = s.connectionId ∧ s'.remoteId = s.remoteId ∧ s'.isDialer = s.isDialer := by
  cases h <;> simp

/-- A move closes the session and calls `on_close` once, last, or does neither. -/
theorem Move.closing {s s' : Session} {effects : List Effect} (h : Move late s s' effects) :
    (∀ f ∈ effects, f.isClose = false) ∧ (s.state ≠ .closed → s'.state ≠ .closed) ∨
    s.state ≠ .closed ∧ s'.state = .closed ∧
      ∃ notice error, effects = notice ++ [.onClose error] ∧ ∀ f ∈ notice, f.isClose = false := by
  cases h with
  | quiet pc scheduled _ hq _ _ =>
    refine Or.inl ⟨fun f hf => ?_, id⟩
    have hquiet := hq f hf
    cases f <;> first | rfl | cases hquiet
  | opens pc _ _ _ _ =>
    refine Or.inl ⟨fun f hf => ?_, by simp⟩
    obtain rfl := List.mem_singleton.mp hf
    rfl
  | arms pc state error _ hw hi _ _ =>
    refine Or.inl ⟨fun f hf => (hi f hf).2, ?_⟩
    cases hw <;> simp
  | closes scheduled error notice hs _ hn =>
    exact Or.inr ⟨hs, by simp, notice, error, rfl, fun f hf => (hn f hf).2⟩

private theorem stays (s : Session) : Move late s s [] :=
  .quiet s.pc s.scheduled [] (by simp) id (Or.inl rfl)

private theorem pcOnly (s : Session) (pc : PeerConnection) (effects : List Effect)
    (hq : ∀ f ∈ effects, f.quiet = true) (hf : pc.channelsOpenFired = s.pc.channelsOpenFired) :
    Move late s { s with pc := pc } effects :=
  .quiet pc s.scheduled effects hq (fun h => by rw [hf, h]) (Or.inl rfl)

/-! ### Closing -/

private theorem close_open (s : Session) (scheduled : List (Nat × ErrorCode)) (error : ErrorCode) (notifyRemote : Bool)
    (hs : s.state ≠ .closed) (hl : scheduled.Sublist s.scheduled) :
    Move late s ({ s with scheduled := scheduled }.close error notifyRemote).1
      ({ s with scheduled := scheduled }.close error notifyRemote).2 := by
  simp only [close, if_neg hs]
  apply Move.closes scheduled error _ hs hl
  intro f hf
  split at hf
  · obtain rfl := List.mem_singleton.mp hf
    exact ⟨by simp, rfl⟩
  · cases hf

theorem close_move (s : Session) (error : ErrorCode) (notifyRemote : Bool) :
    Move late s (s.close error notifyRemote).1 (s.close error notifyRemote).2 := by
  by_cases hs : s.state = .closed
  · rw [close, if_pos hs]
    exact stays s
  · exact close_open s s.scheduled error notifyRemote hs (List.Sublist.refl _)

theorem aclose_move (s : Session) (error : ErrorCode) : Move late s (s.aclose error).1 (s.aclose error).2 := by
  unfold aclose
  split
  · exact close_move s error false
  · exact stays s

theorem fireTimer_move (s : Session) (handle : Nat) : Move late s (s.fireTimer handle).1 (s.fireTimer handle).2 := by
  unfold fireTimer
  split
  · exact stays s
  · by_cases hs : s.state = .closed
    · simp only [close, if_pos hs]
      exact .quiet s.pc _ [] (by simp) id (Or.inr ⟨hs, List.filter_sublist⟩)
    · exact close_open s _ _ _ hs List.filter_sublist

theorem handleConnectionState_move (s : Session) (state : ConnectionState) :
    Move late s (s.handleConnectionState state).1 (s.handleConnectionState state).2 := by
  unfold handleConnectionState
  split
  · exact stays s
  · cases state with
    | failed => exact close_move s _ false
    | closed =>
      simp only
      split
      · exact close_move s _ false
      · exact stays s
    | new => exact stays s
    | connecting => exact stays s
    | connected => exact stays s

theorem handleConnectError_move (s : Session) (error : ErrorCode) :
    Move late s (s.handleConnectError error).1 (s.handleConnectError error).2 := by
  unfold handleConnectError
  split
  · exact stays s
  · exact close_move s error false

/-! ### Channels -/

/-- What the channel handlers tell the session: the callback is made once, with the flag. -/
structure Opened (pc : PeerConnection) (opened : PeerConnection × Bool) : Prop where
  fires : opened.2 = true → pc.channelsOpenFired = false ∧ opened.1.channelsOpenFired = true
  keeps : pc.channelsOpenFired = true → opened.1.channelsOpenFired = true

theorem handleChannelOpen_opened (pc pc' : PeerConnection) (isReliable : Bool)
    (h : pc'.channelsOpenFired = pc.channelsOpenFired) : Opened pc (pc'.handleChannelOpen isReliable) := by
  unfold PeerConnection.handleChannelOpen
  by_cases hopen : (if isReliable then pc'.reliableOpen else pc'.unreliableOpen) = true
  · rw [if_pos hopen]
    exact ⟨by simp, fun hf => h.trans hf⟩
  · rw [if_neg hopen]
    have marked : ∀ q : PeerConnection, q.channelsOpenFired = pc.channelsOpenFired →
        Opened pc (if q.reliableOpen && q.unreliableOpen && !q.channelsOpenFired then
          ({ q with channelsOpenFired := true }, true) else (q, false)) := by
      intro q hq
      split
      · next hfire =>
        simp only [Bool.and_eq_true, Bool.not_eq_true'] at hfire
        exact ⟨fun _ => ⟨hq.symm.trans hfire.2, rfl⟩, fun _ => rfl⟩
      · exact ⟨by simp, fun hf => hq.trans hf⟩
    cases isReliable
    · exact marked _ h
    · exact marked _ h

theorem send_move (s : Session) (data : Bytes) (sendType : SendType) : Move late s (s.send data sendType).2 [] := by
  unfold send
  split
  · exact stays s
  · split
    · exact stays s
    · next accepted pc hsend =>
      apply pcOnly s pc [] (by simp)
      unfold PeerConnection.send at hsend
      split at hsend
      · cases hsend
      · cases hsend
        exact PeerConnection.fired_channelSends _ _

theorem channelMessage_move (s : Session) (isReliable : Bool) (data : Bytes) :
    Move late s (s.channelMessage isReliable data).1 (s.channelMessage isReliable data).2 := by
  apply pcOnly s (s.pc.handleChannelMessage isReliable data).1
  · intro f hmem
    obtain ⟨d, _, rfl⟩ := List.mem_map.mp hmem
    rfl
  · rfl

theorem channelEvent_move (s : Session) (opened : PeerConnection × Bool) (h : Opened s.pc opened) :
    Move late s (s.channelEvent opened).1 (s.channelEvent opened).2 := by
  have hquiet : Move late s { s with pc := opened.1 } [] :=
    .quiet opened.1 s.scheduled [] (by simp) h.keeps (Or.inl rfl)
  unfold channelEvent
  split
  · next hfire =>
    obtain ⟨hn, hf⟩ := h.fires hfire
    simp only [handleChannelsOpen]
    split
    · exact hquiet
    · next hs =>
      simp only [not_or] at hs
      exact .opens opened.1 hs.1 hs.2 hn hf
  · exact hquiet

/-! ### Coroutines -/

/-- A segment of the peer connection changes nothing the session reacts to. -/
structure Inner {α ρ : Type} (pc : PeerConnection) (seg : PcSegment α ρ) : Prop where
  quiet : ∀ f ∈ seg.effects, f.quiet = true
  fired : seg.pc.channelsOpenFired = pc.channelsOpenFired

private theorem flushFrom_inner (pc : PeerConnection) (index : Nat) :
    (∀ f ∈ (pc.flushFrom index).2.1, f.quiet = true) ∧
      (pc.flushFrom index).1.channelsOpenFired = pc.channelsOpenFired := by
  unfold PeerConnection.flushFrom
  split <;> simp [Effect.quiet]

private theorem beginFlush_inner (pc : PeerConnection) (sdp : Text) :
    (∀ f ∈ (pc.beginFlush sdp).2.1, f.quiet = true) ∧
      (pc.beginFlush sdp).1.channelsOpenFired = pc.channelsOpenFired := by
  obtain ⟨hq, hf⟩ := flushFrom_inner { pc with remoteDescription := some sdp, remoteDescriptionSet := true } 0
  refine ⟨?_, hf⟩
  intro f hmem
  rcases List.mem_cons.mp hmem with rfl | hmem
  · rfl
  · exact hq f hmem

private theorem answerFlush_inner (pc : PeerConnection) (flushed : PeerConnection × List Effect × Option Nat)
    (h : (∀ f ∈ flushed.2.1, f.quiet = true) ∧ flushed.1.channelsOpenFired = pc.channelsOpenFired) :
    Inner pc (PeerConnection.answerFlush flushed) := by
  unfold PeerConnection.answerFlush
  split <;> exact ⟨h.1, h.2⟩

private theorem answerFlush_unreturned (flushed : PeerConnection × List Effect × Option Nat) (sdp : Text) :
    (PeerConnection.answerFlush flushed).flow ≠ .returned sdp := by
  unfold PeerConnection.answerFlush
  split <;> simp

private theorem applyFlush_inner (pc : PeerConnection) (flushed : PeerConnection × List Effect × Option Nat)
    (h : (∀ f ∈ flushed.2.1, f.quiet = true) ∧ flushed.1.channelsOpenFired = pc.channelsOpenFired) :
    Inner pc (PeerConnection.applyFlush flushed) := by
  unfold PeerConnection.applyFlush
  split <;> exact ⟨h.1, h.2⟩

theorem resumeOffer_inner (pc : PeerConnection) (a : OfferAwait) (r : Reply) : Inner pc (pc.resumeOffer a r) := by
  cases r with
  | raised => exact ⟨by simp [PeerConnection.resumeOffer], rfl⟩
  | ok sdp => cases a <;> exact ⟨by simp [PeerConnection.resumeOffer], rfl⟩

theorem resumeAnswer_inner (pc : PeerConnection) (offer : Text) (a : AnswerAwait) (r : Reply) :
    Inner pc (pc.resumeAnswer offer a r) := by
  cases r with
  | raised => exact ⟨by simp [PeerConnection.resumeAnswer], rfl⟩
  | ok sdp =>
    cases a with
    | setRemoteDescription => exact answerFlush_inner pc _ (beginFlush_inner pc offer)
    | flush index => exact answerFlush_inner pc _ (flushFrom_inner pc (index + 1))
    | createAnswer => exact ⟨by simp [PeerConnection.resumeAnswer], rfl⟩
    | setLocalDescription => exact ⟨by simp [PeerConnection.resumeAnswer, Effect.quiet], rfl⟩

theorem resumeApply_inner (pc : PeerConnection) (answer : Text) (a : ApplyAwait) (r : Reply) :
    Inner pc (pc.resumeApply answer a r) := by
  cases r with
  | raised => exact ⟨by simp [PeerConnection.resumeApply], rfl⟩
  | ok sdp =>
    cases a with
    | setRemoteDescription => exact applyFlush_inner pc _ (beginFlush_inner pc answer)
    | flush index => exact applyFlush_inner pc _ (flushFrom_inner pc (index + 1))

theorem addRemoteCandidate_inner [Aiortc] (pc : PeerConnection) (text : Text) :
    Inner pc (pc.addRemoteCandidate text) := by
  unfold PeerConnection.addRemoteCandidate
  split
  · exact ⟨by simp, rfl⟩
  · split <;> exact ⟨by simp [Effect.quiet], rfl⟩

theorem resumeCandidate_inner (pc : PeerConnection) (c : Candidate) (r : Reply) : Inner pc (pc.resumeCandidate c r) := by
  cases r <;> exact ⟨by simp [PeerConnection.resumeCandidate], rfl⟩

/-- What a handler does after its await: it moves to a waiting state and arms the timer. -/
private theorem after_move (s : Session) (pc : PeerConnection) (before after : List Effect) (state : SessionState)
    (error : SessionError) (hw : Waits state error) (hq : ∀ f ∈ before, f.quiet = true)
    (hi : ∀ f ∈ after, f.internal) (hl : s.state = .closed → late)
    (hf : pc.channelsOpenFired = s.pc.channelsOpenFired) :
    Move late s ({ s with pc := pc, state := state }.armTimeout error) (before ++ after) := by
  apply Move.arms pc state error _ hw _ hl hf
  intro f hmem
  rcases List.mem_append.mp hmem with hmem | hmem
  · have := hq f hmem
    cases f <;> simp_all [Effect.internal, Effect.quiet, Effect.isClose]
  · exact hi f hmem

private theorem signals_internal (s : Session) (message : Text) (candidates : List Text) (error : ErrorCode) :
    ∀ f ∈ Effect.sendSignal message :: s.sendCandidates candidates ++ [.armed error], f.internal := by
  intro f hmem
  simp only [sendCandidates, List.cons_append, List.mem_cons, List.mem_append, List.mem_map, List.not_mem_nil,
    or_false] at hmem
  rcases hmem with rfl | ⟨_, _, rfl⟩ | rfl <;> exact ⟨by simp, rfl⟩

private theorem armed_internal (error : ErrorCode) : ∀ f ∈ [Effect.armed error], f.internal := by
  intro f hmem
  obtain rfl := List.mem_singleton.mp hmem
  exact ⟨by simp, rfl⟩

theorem offering_move (s : Session) (h : Offering) (seg : PcSegment OfferAwait Text) (hs : Inner s.pc seg)
    (hl : ∀ sdp, seg.flow = .returned sdp → s.state = .closed → late) :
    Move late s (s.offering h seg).session (s.offering h seg).effects := by
  unfold offering
  cases hflow : seg.flow with
  | suspended a => exact pcOnly s seg.pc _ hs.quiet hs.fired
  | raised => exact pcOnly s seg.pc _ hs.quiet hs.fired
  | returned sdp =>
    cases h with
    | start => exact after_move s seg.pc _ _ _ _ .offerSent hs.quiet (signals_internal _ _ _ _) (hl sdp hflow) hs.fired
    | offer => exact after_move s seg.pc _ _ _ _ .offerSent hs.quiet (armed_internal _) (hl sdp hflow) hs.fired

theorem answering_move (s : Session) (h : Answering) (offer : Text) (seg : PcSegment AnswerAwait Text)
    (hs : Inner s.pc seg) (hl : ∀ sdp, seg.flow = .returned sdp → s.state = .closed → late) :
    Move late s (s.answering h offer seg).session (s.answering h offer seg).effects := by
  unfold answering
  cases hflow : seg.flow with
  | suspended a => exact pcOnly s seg.pc _ hs.quiet hs.fired
  | raised => exact pcOnly s seg.pc _ hs.quiet hs.fired
  | returned sdp =>
    cases h with
    | answer => exact after_move s seg.pc _ _ _ _ .answerSent hs.quiet (armed_internal _) (hl sdp hflow) hs.fired
    | handleRequest =>
      exact after_move s seg.pc _ _ _ _ .answerSent hs.quiet (signals_internal _ _ _ _) (hl sdp hflow) hs.fired

theorem applying_move (s : Session) (h : Applying) (answer : Text) (seg : PcSegment ApplyAwait Unit)
    (hs : Inner s.pc seg) : Move late s (s.applying h answer seg).session (s.applying h answer seg).effects := by
  unfold applying
  cases seg.flow <;> exact pcOnly s seg.pc _ hs.quiet hs.fired

theorem adding_move (s : Session) (seg : PcSegment Candidate Unit) (hs : Inner s.pc seg) :
    Move late s (s.adding seg).session (s.adding seg).effects := by
  unfold adding
  cases seg.flow <;> exact pcOnly s seg.pc _ hs.quiet hs.fired

theorem applyAnswer_move (s : Session) (h : Applying) (answer : Text) :
    Move late s (s.applyAnswer h answer).session (s.applyAnswer h answer).effects := by
  by_cases hs : s.state = .offerSent
  · rw [applyAnswer_eq s h answer hs]
    apply Move.arms s.pc .negotiating _ _ .negotiating _ (fun hc => by rw [hs] at hc; cases hc) rfl
    intro f hmem
    simp only [List.mem_cons, List.not_mem_nil, or_false] at hmem
    rcases hmem with rfl | rfl <;> exact ⟨by simp, rfl⟩
  · rw [applyAnswer, if_pos hs]
    exact stays s

theorem handleRequest_move (s : Session) (offer : Text) :
    Move late s (s.handleRequest offer).session (s.handleRequest offer).effects := by
  unfold handleRequest
  split
  · exact stays s
  · exact answering_move s _ _ _ ⟨by simp [PeerConnection.createAnswer, Effect.quiet], rfl⟩
      (fun sdp h => by simp [PeerConnection.createAnswer] at h)

theorem handleSignal_move [Aiortc] (s : Session) (message : SignalingMessage) :
    Move late s (s.handleSignal message).session (s.handleSignal message).effects := by
  unfold handleSignal
  split
  · exact stays s
  · cases message with
    | connectError k error => exact handleConnectError_move s error
    | candidateAdd k candidate => exact adding_move s _ (addRemoteCandidate_inner s.pc candidate)
    | connectResponse k sdp =>
      simp only
      split
      · exact applyAnswer_move s .handleResponse sdp
      · exact stays s
    | connectRequest k sdp =>
      simp only
      split
      · exact handleRequest_move s sdp
      · exact stays s

theorem call_move [Aiortc] (s : Session) (c : Call) : Move late s (s.call c).session (s.call c).effects := by
  have hoffer : Inner s.pc s.pc.createOffer := ⟨by simp [PeerConnection.createOffer, Effect.quiet], rfl⟩
  cases c with
  | start => exact offering_move s _ _ hoffer (fun sdp h => by simp [PeerConnection.createOffer] at h)
  | offer => exact offering_move s _ _ hoffer (fun sdp h => by simp [PeerConnection.createOffer] at h)
  | acceptAnswer answer => exact applyAnswer_move s .acceptAnswer answer
  | answer offer =>
    exact answering_move s _ _ _ ⟨by simp [PeerConnection.createAnswer, Effect.quiet], rfl⟩
      (fun sdp h => by simp [PeerConnection.createAnswer] at h)
  | handleSignal message => exact handleSignal_move s message

/-- A resumed coroutine writes the state only after its last await has returned. -/
theorem resume_move (s : Session) (c : Suspended) (r : Reply)
    (hl : ∀ sdp, r = .ok sdp → c.last = true → s.state = .closed → late) :
    Move late s (s.resume c r).session (s.resume c r).effects := by
  cases c with
  | offering h a =>
    apply offering_move s h _ (resumeOffer_inner s.pc a r)
    intro sdp hflow hs
    cases r with
    | raised => cases a <;> simp [PeerConnection.resumeOffer] at hflow
    | ok x =>
      cases a with
      | createOffer => simp [PeerConnection.resumeOffer] at hflow
      | setLocalDescription => exact hl x rfl rfl hs
  | answering h offer a =>
    apply answering_move s h offer _ (resumeAnswer_inner s.pc offer a r)
    intro sdp hflow hs
    cases r with
    | raised => cases a <;> simp [PeerConnection.resumeAnswer] at hflow
    | ok x =>
      cases a with
      | setRemoteDescription => exact absurd hflow (answerFlush_unreturned _ sdp)
      | flush index => exact absurd hflow (answerFlush_unreturned _ sdp)
      | createAnswer => simp [PeerConnection.resumeAnswer] at hflow
      | setLocalDescription => exact hl x rfl rfl hs
  | applying h answer a => exact applying_move s h answer _ (resumeApply_inner s.pc answer a r)
  | adding c => exact adding_move s _ (resumeCandidate_inner s.pc c r)

end Session

namespace SessionLoop

/-- A closed session's `create_offer` or `create_answer` returns normally. -/
def Late (l : SessionLoop κ) : SessionEvent κ → Prop
  | .resume index (.ok _) => ∃ t, l.tasks[index]? = some t ∧ t.coroutine.last = true ∧ l.session.state = .closed
  | _ => False

instance (l : SessionLoop κ) (e : SessionEvent κ) : Decidable (l.Late e) :=
  match e with
  | .resume index (.ok _) =>
    decidable_of_iff (∃ t ∈ l.tasks[index]?, t.coroutine.last = true ∧ l.session.state = .closed)
      (by simp only [Late, Option.mem_def])
  | .resume _ .raised | .call _ _ | .close _ _ | .aclose _ | .timer _ | .connectionState _ | .dataChannel _ _
  | .channelOpen _ | .channelMessage _ _ | .send _ _ => .isFalse id

private theorem stays (l : SessionLoop κ) (late : Prop) : Session.Move late l.session l.session [] :=
  .quiet l.session.pc l.session.scheduled [] (by simp) id (Or.inl rfl)

/-- One event makes one move. -/
theorem step_move [Aiortc] (l : SessionLoop κ) (e : SessionEvent κ) :
    Session.Move (l.Late e) l.session (l.step e).loop.session (l.step e).effects := by
  cases e with
  | call c caller => simpa [step] using Session.call_move l.session c
  | resume index reply =>
    simp only [step]
    split
    · exact stays l _
    · next t ht =>
      simp only [segment_session, segment_effects]
      apply Session.resume_move
      rintro sdp rfl hlast hs
      exact ⟨t, ht, hlast, hs⟩
  | close error notifyRemote => exact Session.close_move l.session error notifyRemote
  | aclose error => exact Session.aclose_move l.session error
  | timer handle => exact Session.fireTimer_move l.session handle
  | connectionState state => exact Session.handleConnectionState_move l.session state
  | dataChannel label readyState =>
    simp only [step]
    split
    · apply Session.channelEvent_move
      unfold PeerConnection.registerChannel
      cases readyState with
      | true => cases hb : decide (label = reliableLabel) <;> exact Session.handleChannelOpen_opened _ _ _ rfl
      | false => cases hb : decide (label = reliableLabel) <;> exact ⟨by simp, id⟩
    · exact stays l _
  | channelOpen isReliable =>
    simp only [step]
    split
    · apply Session.channelEvent_move
      cases isReliable <;> exact Session.handleChannelOpen_opened _ _ _ rfl
    · exact stays l _
  | channelMessage isReliable data =>
    simp only [step]
    split
    · exact Session.channelMessage_move l.session isReliable data
    · exact stays l _
  | send data sendType => exact Session.send_move l.session data sendType

theorem step_trace [Aiortc] (l : SessionLoop κ) (e : SessionEvent κ) :
    (l.step e).loop.trace = l.trace ++ (l.step e).effects := by
  cases e with
  | call c caller => simp [step]
  | resume index reply => simp only [step]; split <;> simp
  | dataChannel label readyState => simp only [step]; split <;> simp [ran]
  | channelOpen isReliable => simp only [step]; split <;> simp [ran]
  | channelMessage isReliable data => simp only [step]; split <;> simp [ran]
  | _ => rfl

/-- A session's identity never changes. -/
theorem next_identity [Aiortc] (l : SessionLoop κ) (e : SessionEvent κ) :
    (l.next e).session.connectionId = l.session.connectionId ∧ (l.next e).session.remoteId = l.session.remoteId ∧
      (l.next e).session.isDialer = l.session.isDialer := (l.step_move e).identity

end SessionLoop
end NetherNet
