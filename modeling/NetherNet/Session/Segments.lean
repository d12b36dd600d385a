import NetherNet.Session.Loop

/-! The segments of the session coroutines, said once: how a call begins, how a
suspended coroutine goes on, and what the callbacks leave alone. -/
namespace NetherNet
variable {κ : Type}

/-- A suspended coroutine without the place where it waits. -/
inductive Handler where
  | offering (h : Offering)
  | answering (h : Answering) (offer : Text)
  | applying (h : Applying) (answer : Text)
  | adding (candidate : Candidate)
  deriving DecidableEq, Repr

def Suspended.handler : Suspended → Handler
  | .offering h _ => .offering h
  | .answering h offer _ => .answering h offer
  | .applying h answer _ => .applying h answer
  | .adding c => .adding c

/-- Inside `create_answer`, past the await that sets the remote description. -/
def Suspended.described : Suspended → Bool
  | .answering _ _ .setRemoteDescription => false
  | .answering _ _ _ => true
  | _ => false

/-- A call of `on_open`, `on_close` or `on_packet`. -/
def Effect.isCallback : Effect → Bool
  | .onOpen | .onClose _ | .onPacket _ => true
  | _ => false

namespace Session

/-- The first segment of each coroutine. -/
inductive Began [Aiortc] (s : Session) : Call → Segment → Prop where
  | ignored (c : Call) : Began s c ⟨s, [], .returned none⟩
  | closes (k : Nat) (error : ErrorCode) :
      Began s (.handleSignal (.connectError k error)) ⟨(s.close error false).1, (s.close error false).2, .returned none⟩
  | start : Began s .start ⟨s, [.createOffer], .suspended (.offering .start .createOffer)⟩
  | offer : Began s .offer ⟨s, [.createOffer], .suspended (.offering .offer .createOffer)⟩
  | answer (offer : Text) :
      Began s (.answer offer) ⟨s, [.createAnswer offer], .suspended (.answering .answer offer .setRemoteDescription)⟩
  | request (k : Nat) (offer : Text) (hs : s.state = .idle) (hd : s.isDialer = false) :
      Began s (.handleSignal (.connectRequest k offer))
        ⟨s, [.createAnswer offer], .suspended (.answering .handleRequest offer .setRemoteDescription)⟩
  | accept (answer : Text) (hs : s.state = .offerSent) :
      Began s (.acceptAnswer answer)
        ⟨{ s with state := .negotiating }.armTimeout .negotiationTimeoutWaitingForAccept,
          [.armed (.member .negotiationTimeoutWaitingForAccept), .setRemoteAnswer answer],
          .suspended (.applying .acceptAnswer answer .setRemoteDescription)⟩
  | response (k : Nat) (answer : Text) (hs : s.state = .offerSent) (hd : s.isDialer = true) :
      Began s (.handleSignal (.connectResponse k answer))
        ⟨{ s with state := .negotiating }.armTimeout .negotiationTimeoutWaitingForAccept,
          [.armed (.member .negotiationTimeoutWaitingForAccept), .setRemoteAnswer answer],
          .suspended (.applying .handleResponse answer .setRemoteDescription)⟩
  | malformed (k : Nat) (text : Text) (hs : s.state ≠ .closed) (hc : PeerConnection.candidateFromMessage text = none) :
      Began s (.handleSignal (.candidateAdd k text)) ⟨s, [], .raised⟩
  | adds (k : Nat) (text : Text) (c : Candidate) (hc : PeerConnection.candidateFromMessage text = some c) :
      Began s (.handleSignal (.candidateAdd k text)) ⟨s, [.addIceCandidate c], .suspended (.adding c)⟩
  | buffers (k : Nat) (text : Text) (c : Candidate) (hr : s.pc.remoteDescriptionSet = false)
      (hc : PeerConnection.candidateFromMessage text = some c) :
      Began s (.handleSignal (.candidateAdd k text))
        ⟨{ s with pc := { s.pc with pendingRemoteCandidates := s.pc.pendingRemoteCandidates ++ [c] } }, [],
          .returned none⟩

private theorem candidate_began [Aiortc] (s : Session) (k : Nat) (text : Text) (hs : s.state ≠ .closed) :
    Began s (.handleSignal (.candidateAdd k text)) (s.adding (s.pc.addRemoteCandidate text)) := by
  unfold PeerConnection.addRemoteCandidate
  cases hc : PeerConnection.candidateFromMessage text with
  | none => exact .malformed k text hs hc
  | some c =>
    by_cases hr : s.pc.remoteDescriptionSet = true
    · simp only [if_pos hr]
      exact .adds k text c hc
    · simp only [if_neg hr]
      exact .buffers k text c (by simpa using hr) hc

private theorem signal_began [Aiortc] (s : Session) (message : SignalingMessage) :
    Began s (.handleSignal message) (s.handleSignal message) := by
  unfold handleSignal
  split
  · exact .ignored _
  · next hopen =>
    cases message with
    | connectError k error =>
      simp only [handleConnectError]
      split
      · exact .ignored _
      · exact .closes k error
    | candidateAdd k text => exact candidate_began s k text hopen
    | connectResponse k answer =>
      simp only [handleResponse]
      split
      · next hd =>
        by_cases hs : s.state = .offerSent
        · rw [applyAnswer_eq s _ answer hs]
          exact .response k answer hs hd
        · rw [applyAnswer, if_pos hs]
          exact .ignored _
      · exact .ignored _
    | connectRequest k offer =>
      simp only [handleRequest]
      split
      · next hd =>
        split
        · exact .ignored _
        · next hs => exact .request k offer (by simpa using hs) (by simpa using hd)
      · exact .ignored _

theorem call_began [Aiortc] (s : Session) (c : Call) : Began s c (s.call c) := by
  cases c with
  | start => exact .start
  | offer => exact .offer
  | acceptAnswer answer =>
    by_cases hs : s.state = .offerSent
    · rw [call, acceptAnswer, applyAnswer_eq s _ answer hs]
      exact .accept answer hs
    · rw [call, acceptAnswer, applyAnswer, if_pos hs]
      exact .ignored _
  | answer offer => exact .answer offer
  | handleSignal message => exact signal_began s message

/-- Inside a call of the peer connection only descriptions and buffered candidates are handed to aiortc. -/
structure Negotiates (pc pc' : PeerConnection) (effects : List Effect) : Prop where
  localDescription : pc'.localDescription = pc.localDescription
  pending : ∀ c ∈ pc'.pendingRemoteCandidates, c ∈ pc.pendingRemoteCandidates
  remote : pc.remoteDescriptionSet = true → pc'.remoteDescriptionSet = true
  effects : ∀ f ∈ effects, (∃ sdp, f = .remoteDescription sdp) ∨ ∃ c ∈ pc.pendingRemoteCandidates, f = .addIceCandidate c

/-- A segment after the first. -/
inductive Went (s : Session) : Suspended → Reply → Segment → Prop where
  | raises (c : Suspended) : Went s c .raised ⟨s, [], .raised⟩
  | goes (c c' : Suspended) (sdp : Text) (pc : PeerConnection) (effects : List Effect) (hc : c'.handler = c.handler)
      (hd : c'.described = true → c.described = true ∨ pc.remoteDescriptionSet = true) (hpc : Negotiates s.pc pc effects) :
      Went s c (.ok sdp) ⟨{ s with pc := pc }, effects, .suspended c'⟩
  | applied (h : Applying) (answer : Text) (a : ApplyAwait) (sdp : Text) (pc : PeerConnection) (effects : List Effect)
      (hpc : Negotiates s.pc pc effects) :
      Went s (.applying h answer a) (.ok sdp) ⟨{ s with pc := pc }, effects, .returned none⟩
  | added (c : Candidate) (sdp : Text) : Went s (.adding c) (.ok sdp) ⟨s, [], .returned none⟩
  | offered (h : Offering) (sdp : Text) (s' : Session)
      (hs' : s' = { s with pc := { s.pc with localDescription := some sdp } }) :
      Went s (.offering h .setLocalDescription) (.ok sdp)
        (match h with | .start => s'.afterStart s'.pc.localSdp | .offer => s'.afterOffer s'.pc.localSdp)
  | answered (h : Answering) (offer sdp : Text) (s' : Session)
      (hs' : s' = { s with pc := { s.pc with localDescription := some sdp } }) :
      Went s (.answering h offer .setLocalDescription) (.ok sdp)
        (let rest := match h with | .answer => s'.afterAnswer s'.pc.localSdp | .handleRequest => s'.afterRequest s'.pc.localSdp
        { rest with effects := .answered offer s'.pc.localSdp :: rest.effects })

private theorem negotiates_refl (pc : PeerConnection) : Negotiates pc pc [] := ⟨rfl, fun _ h => h, id, by simp⟩

private theorem flushFrom_negotiates (pc : PeerConnection) (index : Nat) :
    Negotiates pc (pc.flushFrom index).1 (pc.flushFrom index).2.1 := by
  unfold PeerConnection.flushFrom
  split
  · next c hc =>
    refine ⟨rfl, fun _ h => h, id, ?_⟩
    intro f hf
    obtain rfl := List.mem_singleton.mp hf
    exact Or.inr ⟨c, List.mem_of_getElem? hc, rfl⟩
  · exact ⟨rfl, by simp, id, by simp⟩

private theorem beginFlush_set (pc : PeerConnection) (sdp : Text) : (pc.beginFlush sdp).1.remoteDescriptionSet = true := by
  simp only [PeerConnection.beginFlush, PeerConnection.flushFrom]
  split <;> rfl

private theorem beginFlush_negotiates (pc : PeerConnection) (sdp : Text) :
    Negotiates pc (pc.beginFlush sdp).1 (pc.beginFlush sdp).2.1 := by
  obtain ⟨hlocal, hpending, _, heffects⟩ :=
    flushFrom_negotiates { pc with remoteDescription := some sdp, remoteDescriptionSet := true } 0
  refine ⟨hlocal, hpending, fun _ => beginFlush_set pc sdp, ?_⟩
  intro f hf
  rcases List.mem_cons.mp hf with rfl | hf
  · exact Or.inl ⟨sdp, rfl⟩
  · exact heffects f hf

private theorem answerFlush_went (s : Session) (h : Answering) (offer : Text) (a : AnswerAwait) (sdp : Text)
    (flushed : PeerConnection × List Effect × Option Nat) (hf : Negotiates s.pc flushed.1 flushed.2.1)
    (hd : (Suspended.answering h offer a).described = true ∨ flushed.1.remoteDescriptionSet = true) :
    Went s (.answering h offer a) (.ok sdp) (s.answering h offer (PeerConnection.answerFlush flushed)) := by
  unfold PeerConnection.answerFlush
  split <;> exact .goes _ _ sdp flushed.1 _ rfl (fun _ => hd) hf

private theorem applyFlush_went (s : Session) (h : Applying) (answer : Text) (a : ApplyAwait) (sdp : Text)
    (flushed : PeerConnection × List Effect × Option Nat) (hf : Negotiates s.pc flushed.1 flushed.2.1) :
    Went s (.applying h answer a) (.ok sdp) (s.applying h answer (PeerConnection.applyFlush flushed)) := by
  unfold PeerConnection.applyFlush
  split
  · exact .goes _ _ sdp flushed.1 _ rfl (fun hd => by cases hd) hf
  · exact .applied h answer a sdp flushed.1 _ hf

theorem resume_went (s : Session) (c : Suspended) (r : Reply) : Went s c r (s.resume c r) := by
  cases r with
  | raised =>
    cases c with
    | offering h a => cases a <;> exact .raises _
    | answering h offer a => cases a <;> exact .raises _
    | applying h answer a => cases a <;> exact .raises _
    | adding c => exact .raises _
  | ok sdp =>
    cases c with
    | offering h a =>
      cases a with
      | createOffer =>
        exact .goes _ (.offering h .setLocalDescription) sdp s.pc _ rfl (fun hd => by cases hd) (negotiates_refl s.pc)
      | setLocalDescription => cases h <;> exact .offered _ sdp _ rfl
    | answering h offer a =>
      cases a with
      | setRemoteDescription =>
        exact answerFlush_went s h offer _ sdp _ (beginFlush_negotiates s.pc offer) (Or.inr (beginFlush_set s.pc offer))
      | flush index => exact answerFlush_went s h offer _ sdp _ (flushFrom_negotiates s.pc (index + 1)) (Or.inl rfl)
      | createAnswer =>
        exact .goes _ (.answering h offer .setLocalDescription) sdp s.pc _ rfl (fun _ => Or.inl rfl) (negotiates_refl s.pc)
      | setLocalDescription => cases h <;> exact .answered _ offer sdp _ rfl
    | applying h answer a =>
      cases a with
      | setRemoteDescription => exact applyFlush_went s h answer _ sdp _ (beginFlush_negotiates s.pc answer)
      | flush index => exact applyFlush_went s h answer _ sdp _ (flushFrom_negotiates s.pc (index + 1))
    | adding c => exact .added c sdp

/-! ### Callbacks -/

/-- The channel handlers leave the negotiation alone. -/
structure Alike (pc pc' : PeerConnection) : Prop where
  localDescription : pc'.localDescription = pc.localDescription
  pending : pc'.pendingRemoteCandidates = pc.pendingRemoteCandidates
  remote : pc'.remoteDescriptionSet = pc.remoteDescriptionSet

/-- The callbacks of the application that a segment makes: none, `on_open`, `on_close` or
`on_packet` for some packets. -/
inductive Calls (s s' : Session) : List Effect → Prop where
  | silent (effects : List Effect) (h : ∀ f ∈ effects, f.isCallback = false) : Calls s s' effects
  | opens (hn : s.pc.negotiated = true) (hs : s.state ≠ .closed) (hs' : s'.state = .connected) : Calls s s' [.onOpen]
  | closes (notice : List Effect) (error : ErrorCode) (h : ∀ f ∈ notice, f.isCallback = false) (hs : s.state ≠ .closed)
      (hs' : s'.state = .closed) : Calls s s' (notice ++ [.onClose error])
  | packets (packets : List Bytes) (hn : s.pc.negotiated = true) (hs' : s'.state = s.state) :
      Calls s s' (packets.map .onPacket)

/-- What a callback leaves alone, and what it may do. -/
structure Callback (s s' : Session) (effects : List Effect) : Prop where
  pc : Alike s.pc s'.pc
  calls : Calls s s' effects
  state : s'.state = s.state ∨ s'.state = .closed ∨ s'.state = .connected ∧ s.pc.negotiated = true
  effects : ∀ f ∈ effects, f = .onOpen ∨ (∃ data, f = .onPacket data) ∨ (∃ error, f = .onClose error) ∨
    ∃ error, f = .sendSignal (SignalingMessage.connectError s.connectionId error).serialize

private theorem unchanged (s : Session) : Callback s s [] := ⟨⟨rfl, rfl, rfl⟩, .silent [] (by simp), Or.inl rfl, by simp⟩

private theorem close_scheduled (s : Session) (scheduled : List (Nat × ErrorCode)) (error : ErrorCode)
    (notifyRemote : Bool) : Callback s ({ s with scheduled := scheduled }.close error notifyRemote).1
      ({ s with scheduled := scheduled }.close error notifyRemote).2 := by
  unfold close
  split
  · exact ⟨⟨rfl, rfl, rfl⟩, .silent [] (by simp), Or.inl rfl, by simp⟩
  · next hs =>
    refine ⟨⟨by simp, by simp, by simp⟩, .closes _ error ?_ hs (by simp), Or.inr (Or.inl (by simp)), ?_⟩
    · intro f hf
      split at hf
      · obtain rfl := List.mem_singleton.mp hf
        rfl
      · cases hf
    · intro f hf
      rcases List.mem_append.mp hf with hf | hf
      · split at hf
        · obtain rfl := List.mem_singleton.mp hf
          exact Or.inr (Or.inr (Or.inr ⟨error, by simp⟩))
        · cases hf
      · obtain rfl := List.mem_singleton.mp hf
        exact Or.inr (Or.inr (Or.inl ⟨error, rfl⟩))

theorem close_callback (s : Session) (error : ErrorCode) (notifyRemote : Bool) :
    Callback s (s.close error notifyRemote).1 (s.close error notifyRemote).2 :=
  close_scheduled s s.scheduled error notifyRemote

theorem fireTimer_callback (s : Session) (handle : Nat) : Callback s (s.fireTimer handle).1 (s.fireTimer handle).2 := by
  unfold fireTimer
  split
  · exact unchanged s
  · exact close_scheduled s _ _ false

theorem aclose_callback (s : Session) (error : ErrorCode) : Callback s (s.aclose error).1 (s.aclose error).2 := by
  unfold aclose
  split
  · exact close_callback s error false
  · exact unchanged s

theorem handleConnectionState_callback (s : Session) (state : ConnectionState) :
    Callback s (s.handleConnectionState state).1 (s.handleConnectionState state).2 := by
  unfold handleConnectionState
  split
  · exact unchanged s
  · cases state with
    | failed => exact close_callback s _ false
    | closed =>
      simp only
      split
      · exact close_callback s _ false
      · exact unchanged s
    | new => exact unchanged s
    | connecting => exact unchanged s
    | connected => exact unchanged s

private theorem handleChannelOpen_alike (pc : PeerConnection) (isReliable : Bool) :
    Alike pc (pc.handleChannelOpen isReliable).1 := by
  have marked : ∀ q : PeerConnection, Alike pc q →
      Alike pc (if q.reliableOpen && q.unreliableOpen && !q.channelsOpenFired then
        ({ q with channelsOpenFired := true }, true) else (q, false)).1 := by
    intro q hq
    split
    · exact ⟨hq.localDescription, hq.pending, hq.remote⟩
    · exact hq
  unfold PeerConnection.handleChannelOpen
  by_cases hopen : (if isReliable then pc.reliableOpen else pc.unreliableOpen) = true
  · rw [if_pos hopen]
    exact ⟨rfl, rfl, rfl⟩
  · rw [if_neg hopen]
    cases isReliable
    · exact marked _ ⟨rfl, rfl, rfl⟩
    · exact marked _ ⟨rfl, rfl, rfl⟩

private theorem Alike.trans {pc pc' pc'' : PeerConnection} (h : Alike pc pc') (h' : Alike pc' pc'') : Alike pc pc'' :=
  ⟨h'.localDescription.trans h.localDescription, h'.pending.trans h.pending, h'.remote.trans h.remote⟩

theorem registerChannel_alike (pc : PeerConnection) (label : Text) (readyState : Bool) :
    Alike pc (pc.registerChannel label readyState).1 := by
  have handled : ∀ (q : PeerConnection) (isReliable : Bool), Alike pc q →
      Alike pc (if readyState then q.handleChannelOpen isReliable else (q, false)).1 := by
    intro q isReliable hq
    split
    · exact hq.trans (handleChannelOpen_alike q isReliable)
    · exact hq
  unfold PeerConnection.registerChannel
  apply handled
  split <;> exact ⟨rfl, rfl, rfl⟩

theorem channelOpened_alike (pc : PeerConnection) (isReliable : Bool) : Alike pc (pc.channelOpened isReliable).1 := by
  have handled : ∀ q : PeerConnection, Alike pc q → Alike pc (q.handleChannelOpen isReliable).1 :=
    fun q hq => hq.trans (handleChannelOpen_alike q isReliable)
  unfold PeerConnection.channelOpened
  apply handled
  split <;> exact ⟨rfl, rfl, rfl⟩

theorem channelEvent_callback (s : Session) (opened : PeerConnection × Bool) (h : Alike s.pc opened.1)
    (hn : s.pc.negotiated = true) : Callback s (s.channelEvent opened).1 (s.channelEvent opened).2 := by
  unfold channelEvent
  simp only
  split
  · unfold handleChannelsOpen
    split
    · exact ⟨h, .silent [] (by simp), Or.inl rfl, by simp⟩
    · next hs =>
      exact ⟨⟨by simp [h.localDescription], by simp [h.pending], by simp [h.remote]⟩,
        .opens hn (fun hc => hs (Or.inr hc)) (by simp), Or.inr (Or.inr ⟨by simp, hn⟩), by simp⟩
  · exact ⟨h, .silent [] (by simp), Or.inl rfl, by simp⟩

theorem channelMessage_callback (s : Session) (isReliable : Bool) (data : Bytes) (hn : s.pc.negotiated = true) :
    Callback s (s.channelMessage isReliable data).1 (s.channelMessage isReliable data).2 := by
  refine ⟨⟨rfl, rfl, rfl⟩, .packets _ hn rfl, Or.inl rfl, ?_⟩
  intro f hf
  obtain ⟨packet, _, rfl⟩ := List.mem_map.mp hf
  exact Or.inr (Or.inl ⟨packet, rfl⟩)

private theorem channelSend_alike (pc : PeerConnection) (isReliable : Bool) (fragment : Bytes) :
    Alike pc (pc.channelSend isReliable fragment) := by
  unfold PeerConnection.channelSend
  split <;> split <;> exact ⟨rfl, rfl, rfl⟩

theorem send_callback (s : Session) (data : Bytes) (sendType : SendType) : Callback s (s.send data sendType).2 [] := by
  have sends : ∀ (fragments : List (SendType × Bytes)) (pc : PeerConnection),
      Alike pc (fragments.foldl (fun pc f => pc.channelSend (f.1 = .reliable) f.2) pc) := by
    intro fragments
    induction fragments with
    | nil => exact fun _ => ⟨rfl, rfl, rfl⟩
    | cons f rest ih => exact fun pc => (channelSend_alike pc _ _).trans (ih _)
  unfold send
  split
  · exact unchanged s
  · split
    · exact unchanged s
    · next accepted pc hsend =>
      unfold PeerConnection.send at hsend
      split at hsend
      · cases hsend
      · cases hsend
        exact ⟨sends _ _, .silent [] (by simp), Or.inl rfl, by simp⟩

end Session

namespace SessionLoop

/-- The three kinds of step: a coroutine begins, a coroutine goes on, a callback runs. -/
inductive Steps [Aiortc] (l : SessionLoop κ) : SessionEvent κ → SessionStep κ → Prop where
  | call (c : Call) (caller : κ) (seg : Segment) (h : Session.Began l.session c seg) :
      Steps l (.call c caller) (l.segment seg caller)
  | resume (index : Nat) (reply : Reply) (t : Task κ) (seg : Segment) (ht : l.tasks[index]? = some t)
      (h : Session.Went l.session t.coroutine reply seg) :
      Steps l (.resume index reply) ({ l with tasks := l.tasks.eraseIdx index }.segment seg t.caller)
  | callback (e : SessionEvent κ) (s' : Session) (effects : List Effect) (h : Session.Callback l.session s' effects) :
      Steps l e (l.ran (s', effects))

private theorem skips [Aiortc] (l : SessionLoop κ) (e : SessionEvent κ) : Steps l e ⟨l, [], .none⟩ := by
  have hnone : Steps l e _ := Steps.callback e l.session [] (Session.unchanged l.session)
  simpa [ran] using hnone

theorem step_steps [Aiortc] (l : SessionLoop κ) (e : SessionEvent κ) : Steps l e (l.step e) := by
  cases e with
  | call c caller => exact .call c caller _ (Session.call_began l.session c)
  | resume index reply =>
    simp only [step]
    cases ht : l.tasks[index]? with
    | none => exact skips l _
    | some t => exact .resume index reply t _ ht (Session.resume_went l.session t.coroutine reply)
  | close error notifyRemote => exact .callback _ _ _ (Session.close_callback l.session error notifyRemote)
  | aclose error => exact .callback _ _ _ (Session.aclose_callback l.session error)
  | timer handle => exact .callback _ _ _ (Session.fireTimer_callback l.session handle)
  | connectionState state => exact .callback _ _ _ (Session.handleConnectionState_callback l.session state)
  | dataChannel label readyState =>
    simp only [step]
    split
    · next h =>
      exact .callback _ _ _ (Session.channelEvent_callback l.session _ (Session.registerChannel_alike _ _ _) h.1)
    · exact skips l _
  | channelOpen isReliable =>
    simp only [step]
    split
    · next h =>
      exact .callback _ _ _ (Session.channelEvent_callback l.session _ (Session.channelOpened_alike _ _) h.1)
    · exact skips l _
  | channelMessage isReliable data =>
    simp only [step]
    split
    · next h => exact .callback _ _ _ (Session.channelMessage_callback l.session isReliable data h.1)
    · exact skips l _
  | send data sendType => exact .callback _ _ _ (Session.send_callback l.session data sendType)

/-- A suspended coroutine was suspended before, in the same handler, or has just been called. -/
theorem next_tasks [Aiortc] (l : SessionLoop κ) (e : SessionEvent κ) {t' : Task κ} (ht' : t' ∈ (l.next e).tasks) :
    (∃ t ∈ l.tasks, t'.caller = t.caller ∧ t'.coroutine.handler = t.coroutine.handler) ∨
      ∃ c seg, e = .call c t'.caller ∧ Session.Began l.session c seg ∧ (l.step e).effects = seg.effects ∧
        seg.flow = .suspended t'.coroutine := by
  have hsteps := l.step_steps e
  simp only [next] at ht'
  generalize l.step e = stepped at ht' hsteps ⊢
  cases hsteps with
  | callback _ s' effects hc => exact Or.inl ⟨t', ht', rfl, rfl⟩
  | call c caller seg hb =>
    rw [segment_tasks] at ht'
    cases hflow : seg.flow with
    | suspended c' =>
      rw [hflow] at ht'
      rcases List.mem_append.mp ht' with ht' | ht'
      · exact Or.inl ⟨t', ht', rfl, rfl⟩
      · obtain rfl := List.mem_singleton.mp ht'
        exact Or.inr ⟨c, seg, rfl, hb, l.segment_effects seg _, hflow⟩
    | returned value =>
      rw [hflow] at ht'
      exact Or.inl ⟨t', ht', rfl, rfl⟩
    | raised =>
      rw [hflow] at ht'
      exact Or.inl ⟨t', ht', rfl, rfl⟩
  | resume index reply t seg ht hw =>
    have hmem := List.mem_of_getElem? ht
    have hkept : t' ∈ l.tasks.eraseIdx index → t' ∈ l.tasks := List.mem_of_mem_eraseIdx
    rw [segment_tasks] at ht'
    cases hflow : seg.flow with
    | suspended c' =>
      rw [hflow] at ht'
      rcases List.mem_append.mp ht' with ht' | ht'
      · exact Or.inl ⟨t', hkept ht', rfl, rfl⟩
      · obtain rfl := List.mem_singleton.mp ht'
        refine Or.inl ⟨t, hmem, rfl, ?_⟩
        generalize t.coroutine = c at hw
        cases hw with
        | goes c c'' sdp pc effects hc hd hpc =>
          cases hflow
          exact hc
        | offered handler sdp s' hs' => cases handler <;> cases hflow
        | answered handler offer sdp s' hs' => cases handler <;> cases hflow
        | _ => cases hflow
    | returned value =>
      rw [hflow] at ht'
      exact Or.inl ⟨t', hkept ht', rfl, rfl⟩
    | raised =>
      rw [hflow] at ht'
      exact Or.inl ⟨t', hkept ht', rfl, rfl⟩

end SessionLoop
end NetherNet
