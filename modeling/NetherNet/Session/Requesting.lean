import NetherNet.Session.Serving

/-! A session whose coroutines are called one after the other, `offer` and then
`accept_answer`: what each event does to it while one of them is suspended. -/
namespace NetherNet
variable {κ : Type}

/-! ### The policy -/

section RelayOnly

private theorem handleChannelOpen_relayOnly (pc : PeerConnection) (isReliable : Bool) :
    (pc.handleChannelOpen isReliable).1.relayOnly = pc.relayOnly := by
  unfold PeerConnection.handleChannelOpen
  cases isReliable with
  | true => simp only [if_true]; split <;> [rfl; (split <;> rfl)]
  | false => simp only [Bool.false_eq_true, if_false]; split <;> [rfl; (split <;> rfl)]

private theorem channelSends_relayOnly (fragments : List (SendType × Bytes)) (pc : PeerConnection) :
    (fragments.foldl (fun pc f => pc.channelSend (f.1 = .reliable) f.2) pc).relayOnly = pc.relayOnly := by
  induction fragments generalizing pc with
  | nil => rfl
  | cons f fragments ih =>
    rw [List.foldl_cons, ih]
    unfold PeerConnection.channelSend
    split <;> split <;> rfl

private theorem flushFrom_relayOnly (pc : PeerConnection) (index : Nat) : (pc.flushFrom index).1.relayOnly = pc.relayOnly := by
  unfold PeerConnection.flushFrom
  split <;> rfl

private theorem close_relayOnly (s : Session) (error : ErrorCode) (notifyRemote : Bool) :
    (s.close error notifyRemote).1.pc.relayOnly = s.pc.relayOnly := by
  unfold Session.close
  split <;> simp

private theorem channelEvent_relayOnly (s : Session) (opened : PeerConnection × Bool) :
    (s.channelEvent opened).1.pc.relayOnly = opened.1.relayOnly := by
  unfold Session.channelEvent Session.handleChannelsOpen
  simp only
  split
  · split <;> simp
  · rfl

private theorem answerFlush_relayOnly (flushed : PeerConnection × List Effect × Option Nat) :
    (PeerConnection.answerFlush flushed).pc = flushed.1 := by
  unfold PeerConnection.answerFlush
  split <;> rfl

private theorem applyFlush_relayOnly (flushed : PeerConnection × List Effect × Option Nat) :
    (PeerConnection.applyFlush flushed).pc = flushed.1 := by
  unfold PeerConnection.applyFlush
  split <;> rfl

private theorem offering_relayOnly (s : Session) (h : Offering) (seg : PcSegment OfferAwait Text)
    (hs : seg.pc.relayOnly = s.pc.relayOnly) : (s.offering h seg).session.pc.relayOnly = s.pc.relayOnly := by
  unfold Session.offering
  split
  · exact hs
  · exact hs
  · cases h <;> simp [Session.afterStart, Session.afterOffer, hs]

private theorem answering_relayOnly (s : Session) (h : Answering) (offer : Text) (seg : PcSegment AnswerAwait Text)
    (hs : seg.pc.relayOnly = s.pc.relayOnly) : (s.answering h offer seg).session.pc.relayOnly = s.pc.relayOnly := by
  unfold Session.answering
  split
  · exact hs
  · exact hs
  · cases h <;> simp [Session.afterAnswer, Session.afterRequest, hs]

private theorem applying_relayOnly (s : Session) (h : Applying) (answer : Text) (seg : PcSegment ApplyAwait Unit)
    (hs : seg.pc.relayOnly = s.pc.relayOnly) : (s.applying h answer seg).session.pc.relayOnly = s.pc.relayOnly := by
  unfold Session.applying
  split <;> exact hs

private theorem resume_relayOnly (s : Session) (c : Suspended) (r : Reply) : (s.resume c r).session.pc.relayOnly = s.pc.relayOnly := by
  cases c with
  | offering h a =>
    apply offering_relayOnly
    cases r with
    | raised => cases a <;> rfl
    | ok sdp => cases a <;> rfl
  | answering h offer a =>
    apply answering_relayOnly
    cases r with
    | raised => cases a <;> rfl
    | ok sdp =>
      cases a with
      | setRemoteDescription =>
        simp only [PeerConnection.resumeAnswer, answerFlush_relayOnly, PeerConnection.beginFlush, flushFrom_relayOnly]
      | flush index => simp only [PeerConnection.resumeAnswer, answerFlush_relayOnly, flushFrom_relayOnly]
      | createAnswer => rfl
      | setLocalDescription => rfl
  | applying h answer a =>
    apply applying_relayOnly
    cases r with
    | raised => cases a <;> rfl
    | ok sdp =>
      cases a with
      | setRemoteDescription =>
        simp only [PeerConnection.resumeApply, applyFlush_relayOnly, PeerConnection.beginFlush, flushFrom_relayOnly]
      | flush index => simp only [PeerConnection.resumeApply, applyFlush_relayOnly, flushFrom_relayOnly]
  | adding c => cases r <;> rfl

private theorem began_relayOnly [Aiortc] {s : Session} {c : Call} {seg : Segment} (h : Session.Began s c seg) :
    seg.session.pc.relayOnly = s.pc.relayOnly := by
  cases h with
  | closes k error => exact close_relayOnly s error false
  | accept answer hs => simp
  | response k answer hs hd => simp
  | _ => rfl

/-- Whether relay candidates alone are sent is settled when the session is made. -/
theorem SessionLoop.step_relayOnly [Aiortc] (l : SessionLoop κ) (e : SessionEvent κ) :
    (l.step e).loop.session.pc.relayOnly = l.session.pc.relayOnly := by
  cases e with
  | call c caller =>
    rw [step, segment_session]
    exact began_relayOnly (Session.call_began l.session c)
  | resume index reply =>
    simp only [step]
    split
    · rfl
    · rw [segment_session]
      exact resume_relayOnly _ _ _
  | close error notifyRemote => exact close_relayOnly _ _ _
  | aclose error =>
    simp only [step, ran, Session.aclose]
    split
    · exact close_relayOnly _ _ _
    · rfl
  | timer handle =>
    simp only [step, ran, Session.fireTimer]
    split
    · rfl
    · exact close_relayOnly _ _ _
  | connectionState state =>
    simp only [step, ran, Session.handleConnectionState]
    split
    · rfl
    · split
      · exact close_relayOnly _ _ _
      · split
        · exact close_relayOnly _ _ _
        · rfl
      · rfl
  | dataChannel label readyState =>
    simp only [step]
    split
    · refine (channelEvent_relayOnly _ _).trans ?_
      unfold PeerConnection.registerChannel
      split
      · rw [handleChannelOpen_relayOnly]
        split <;> rfl
      · simp only
        split <;> rfl
    · rfl
  | channelOpen isReliable =>
    simp only [step]
    split
    · refine (channelEvent_relayOnly _ _).trans ?_
      unfold PeerConnection.channelOpened
      rw [handleChannelOpen_relayOnly]
      split <;> rfl
    · rfl
  | channelMessage isReliable data =>
    simp only [step]
    split <;> rfl
  | send data sendType =>
    simp only [step, ran, Session.send]
    split
    · rfl
    · split
      · rfl
      · next accepted pc hsend =>
        unfold PeerConnection.send at hsend
        split at hsend
        · cases hsend
        · cases hsend
          exact channelSends_relayOnly _ _

end RelayOnly

/-! ### The coroutines -/

/-- A call of `on_open` or `on_close`. -/
def Effect.isSettling : Effect → Bool
  | .onOpen | .onClose _ => true
  | _ => false

namespace SessionLoop

/-- A step in which no coroutine goes on. -/
structure Idles (l : SessionLoop κ) (stepped : SessionStep κ) : Prop where
  tasks : stepped.loop.tasks = l.tasks
  outcome : stepped.outcome = .none
  localDescription : stepped.loop.session.pc.localDescription = l.session.pc.localDescription
  remote : stepped.loop.session.pc.remoteDescriptionSet = l.session.pc.remoteDescriptionSet
  unapplied : ∀ f ∈ stepped.effects, f.isApplied = false
  state : (∀ f ∈ stepped.effects, f.isSettling = false) → stepped.loop.session.state = l.session.state
  unopened : l.session.pc.remoteDescriptionSet = false → .onOpen ∉ stepped.effects

private theorem callback_idles {l : SessionLoop κ} {s' : Session} {effects : List Effect} {late : Prop}
    (hc : Session.Callback l.session s' effects) (hm : Session.Move late l.session s' effects) : Idles l (l.ran (s', effects)) := by
  refine ⟨rfl, rfl, hc.pc.localDescription, hc.pc.remote, fun f hf => (undialing_of_callback hc f hf).2, fun hquiet => ?_,
    fun hremote hopen => ?_⟩
  · show s'.state = l.session.state
    have hstate := hc.state
    cases hm with
    | quiet pc scheduled _ _ _ _ => rfl
    | opens pc _ _ _ _ => cases hquiet .onOpen (List.mem_singleton.mpr rfl)
    | arms pc state error _ hw _ _ _ =>
      rw [Session.armTimeout_state] at hstate ⊢
      rcases hstate with hstate | hstate | ⟨hstate, _⟩
      · exact hstate
      · cases hw <;> cases hstate
      · cases hw <;> cases hstate
    | closes scheduled error notice _ _ _ => cases hquiet (.onClose error) (List.mem_append_right _ List.mem_cons_self)
  · have hcalls := hc.calls
    have hopen : .onOpen ∈ effects := hopen
    cases hcalls with
    | silent _ hsilent => cases hsilent _ hopen
    | opens hn _ _ =>
      rw [PeerConnection.negotiated, hremote] at hn
      cases hn
    | closes notice error hn _ _ =>
      rcases List.mem_append.mp hopen with hmem | hmem
      · cases hn _ hmem
      · cases List.mem_singleton.mp hmem
    | packets packets _ _ =>
      obtain ⟨data, _, heq⟩ := List.mem_map.mp hopen
      cases heq

theorem step_idles [Aiortc] (l : SessionLoop κ) {e : SessionEvent κ} (he : Uncalled e)
    (hresume : ∀ index reply, e = .resume index reply → l.tasks[index]? = none) : Idles l (l.step e) := by
  have hsteps := l.step_steps e
  have hmove := l.step_move e
  generalize l.step e = stepped at hsteps hmove ⊢
  cases hsteps with
  | call c caller seg hb => exact he.elim
  | resume index reply t seg hget hw =>
    rw [hresume index reply rfl] at hget
    cases hget
  | callback _ s' effects hc => exact callback_idles hc hmove

/-- What an event does to a session whose one coroutine is an `offer` call. -/
inductive Offers (l : SessionLoop κ) (caller : κ) (stepped : SessionStep κ) : Prop where
  | idles (hi : Idles l stepped)
  | waits (a : OfferAwait) (ht : stepped.loop.tasks = [⟨.offering .offer a, caller⟩]) (ho : stepped.outcome = .none)
      (hs : stepped.loop.session = l.session) (hf : stepped.effects = [])
  | raised (ht : stepped.loop.tasks = []) (ho : stepped.outcome = .raised caller) (hs : stepped.loop.session = l.session)
      (hf : stepped.effects = [])
  | returned (sdp : Text) (error : ErrorCode) (ht : stepped.loop.tasks = [])
      (ho : stepped.outcome = .returned caller (some stepped.loop.session.pc.localSdp))
      (hl : stepped.loop.session.pc.localDescription = some sdp)
      (hr : stepped.loop.session.pc.remoteDescriptionSet = l.session.pc.remoteDescriptionSet)
      (hs : stepped.loop.session.state = .offerSent) (hf : stepped.effects = [.armed error])

/-- In a list of one task an event resumes this one, or none. -/
private theorem resumes_one {l : SessionLoop κ} {t : Task κ} (ht : l.tasks = [t]) (e : SessionEvent κ) :
    (∃ reply, e = .resume 0 reply) ∨ ∀ index reply, e = .resume index reply → l.tasks[index]? = none := by
  by_cases hresume : ∃ reply, e = .resume 0 reply
  · exact Or.inl hresume
  · refine Or.inr fun index reply heq => ?_
    cases index with
    | zero => exact absurd ⟨reply, heq⟩ hresume
    | succ index => simp [ht]

theorem step_offers [Aiortc] (l : SessionLoop κ) {e : SessionEvent κ} (he : Uncalled e) {a : OfferAwait} {caller : κ}
    (ht : l.tasks = [⟨.offering .offer a, caller⟩]) : Offers l caller (l.step e) := by
  rcases resumes_one ht e with ⟨reply, rfl⟩ | hresume
  · have hleft : l.tasks.eraseIdx 0 = [] := by rw [ht]; rfl
    simp only [step, ht, List.getElem?_cons_zero]
    cases reply with
    | raised =>
      refine .raised ?_ rfl ?_ rfl
      · simp [Session.resume, Session.offering, PeerConnection.resumeOffer]
      · simp [Session.resume, Session.offering, PeerConnection.resumeOffer]
    | ok sdp =>
      cases a with
      | createOffer => exact .waits .setLocalDescription rfl rfl rfl rfl
      | setLocalDescription =>
        refine .returned sdp (.member .negotiationTimeoutWaitingForResponse) rfl ?_ ?_ ?_ ?_ rfl
        · simp [segment, Session.resume, Session.offering, PeerConnection.resumeOffer, Session.afterOffer]
        · simp [Session.resume, Session.offering, PeerConnection.resumeOffer, Session.afterOffer]
        · simp [Session.resume, Session.offering, PeerConnection.resumeOffer, Session.afterOffer]
        · simp [Session.resume, Session.offering, PeerConnection.resumeOffer, Session.afterOffer]
  · exact .idles (l.step_idles he hresume)

/-- What an event does to a session whose one coroutine is an `accept_answer` call. -/
inductive Applies (l : SessionLoop κ) (answer : Text) (caller : κ) (stepped : SessionStep κ) : Prop where
  | idles (hi : Idles l stepped)
  | goes (hl : stepped.loop.session.pc.localDescription = l.session.pc.localDescription)
      (hs : stepped.loop.session.state = l.session.state)
      (hf : ∀ f ∈ stepped.effects, f.isApplied = false ∧ f.isSettling = false)
      (hends : (∃ a, stepped.loop.tasks = [⟨.applying .acceptAnswer answer a, caller⟩] ∧ stepped.outcome = .none) ∨
        stepped.loop.tasks = [] ∧ (stepped.outcome = .raised caller ∨ stepped.outcome = .returned caller none))

private theorem negotiates_settles {pc pc' : PeerConnection} {effects : List Effect} (h : Session.Negotiates pc pc' effects) :
    ∀ f ∈ effects, f.isApplied = false ∧ f.isSettling = false := by
  intro f hf
  rcases h.effects f hf with ⟨sdp, rfl⟩ | ⟨c, _, rfl⟩ <;> exact ⟨rfl, rfl⟩

theorem step_applies [Aiortc] (l : SessionLoop κ) {e : SessionEvent κ} (he : Uncalled e) {answer : Text} {a : ApplyAwait} {caller : κ}
    (ht : l.tasks = [⟨.applying .acceptAnswer answer a, caller⟩]) : Applies l answer caller (l.step e) := by
  rcases resumes_one ht e with ⟨reply, rfl⟩ | hresume
  · have hleft : l.tasks.eraseIdx 0 = [] := by rw [ht]; rfl
    have hwent := Session.resume_went l.session (.applying .acceptAnswer answer a) reply
    simp only [step, ht, List.getElem?_cons_zero]
    generalize l.session.resume (.applying .acceptAnswer answer a) reply = seg at hwent
    cases hwent with
    | raises c => exact .goes rfl rfl (fun f hf => absurd hf List.not_mem_nil) (Or.inr ⟨rfl, Or.inl rfl⟩)
    | goes _ c' sdp pc effects hc _ hpc =>
      cases c' with
      | applying handler answer' a' =>
        cases hc
        exact .goes hpc.localDescription rfl (negotiates_settles hpc) (Or.inl ⟨a', rfl, rfl⟩)
      | offering handler a' => cases hc
      | answering handler offer a' => cases hc
      | adding cand => cases hc
    | applied handler _ a' sdp pc effects hpc =>
      exact .goes hpc.localDescription rfl (negotiates_settles hpc) (Or.inr ⟨rfl, Or.inr rfl⟩)
  · exact .idles (l.step_idles he hresume)

end SessionLoop
end NetherNet
