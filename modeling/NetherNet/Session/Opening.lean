import NetherNet.Session.Dialing

/-! What a session shows the application: callbacks of one kind an event, and none but
`on_close` before its local description is set. -/
namespace NetherNet
variable {κ : Type}

namespace Session

private theorem signals_silent (s : Session) (message : Text) (candidates : List Text) (error : ErrorCode) :
    ∀ f ∈ Effect.sendSignal message :: s.sendCandidates candidates ++ [.armed error], f.isCallback = false := by
  intro f hf
  rcases List.mem_append.mp hf with hf | hf
  · rcases List.mem_cons.mp hf with rfl | hf
    · rfl
    · obtain ⟨c, _, rfl⟩ := List.mem_map.mp hf
      rfl
  · obtain rfl := List.mem_singleton.mp hf
    rfl

private theorem armed_silent (error : ErrorCode) : ∀ f ∈ [Effect.armed error], f.isCallback = false := by
  intro f hf
  obtain rfl := List.mem_singleton.mp hf
  rfl

private theorem negotiates_silent {pc pc' : PeerConnection} {effects : List Effect} (h : Negotiates pc pc' effects) :
    ∀ f ∈ effects, f.isCallback = false := by
  intro f hf
  rcases h.effects f hf with ⟨sdp, rfl⟩ | ⟨c, _, rfl⟩ <;> rfl

/-- A coroutine makes no callback, but for the `on_close` of a CONNECTERROR. -/
private theorem began_calls [Aiortc] {s : Session} {c : Call} {seg : Segment} (h : Began s c seg) :
    Calls s seg.session seg.effects := by
  cases h with
  | closes k error => exact (close_callback s error false).calls
  | _ => exact .silent _ (by simp [Effect.isCallback])

private theorem went_silent {s : Session} {c : Suspended} {r : Reply} {seg : Segment} (h : Went s c r seg) :
    ∀ f ∈ seg.effects, f.isCallback = false := by
  cases h with
  | raises c => simp
  | goes c c' sdp pc effects hc hd hpc => exact negotiates_silent hpc
  | applied handler answer a sdp pc effects hpc => exact negotiates_silent hpc
  | added cand sdp => simp
  | offered handler sdp s' hs' =>
    cases handler with
    | start => exact signals_silent _ _ _ _
    | offer => exact armed_silent _
  | answered handler offer sdp s' hs' =>
    intro f hf
    rcases List.mem_cons.mp hf with rfl | hf
    · rfl
    · cases handler with
      | answer => exact armed_silent _ f hf
      | handleRequest => exact signals_silent _ _ _ _ f hf

private theorem close_packet (s : Session) (error : ErrorCode) (notifyRemote : Bool) (data : Bytes) :
    .onPacket data ∉ (s.close error notifyRemote).2 := by
  unfold close
  split
  · simp
  · split <;> simp

private theorem channelEvent_packet (s : Session) (opened : PeerConnection × Bool) (data : Bytes) :
    .onPacket data ∉ (s.channelEvent opened).2 := by
  unfold channelEvent handleChannelsOpen
  simp only
  split
  · split <;> simp
  · simp

end Session

namespace SessionLoop

/-- Packets come with channel messages alone. -/
theorem step_packet [Aiortc] (l : SessionLoop κ) (e : SessionEvent κ) {data : Bytes} (h : .onPacket data ∈ (l.step e).effects) :
    ∃ isReliable message, e = .channelMessage isReliable message ∧
      data ∈ (l.session.pc.handleChannelMessage isReliable message).2 := by
  cases e with
  | call c caller =>
    rw [step, segment_effects] at h
    have hb := Session.call_began l.session c
    generalize l.session.call c = seg at h hb
    cases hb with
    | closes k error => exact absurd h (Session.close_packet _ _ _ _)
    | _ => simp at h
  | resume index reply =>
    simp only [step] at h
    split at h
    · simp at h
    · rw [segment_effects] at h
      cases Session.went_silent (Session.resume_went _ _ _) _ h
  | close error notifyRemote => exact absurd h (Session.close_packet _ _ _ _)
  | aclose error =>
    simp only [step, ran, Session.aclose] at h
    split at h
    · exact absurd h (Session.close_packet _ _ _ _)
    · simp at h
  | timer handle =>
    simp only [step, ran, Session.fireTimer] at h
    split at h
    · simp at h
    · exact absurd h (Session.close_packet _ _ _ _)
  | connectionState state =>
    simp only [step, ran, Session.handleConnectionState] at h
    split at h
    · simp at h
    · split at h
      · exact absurd h (Session.close_packet _ _ _ _)
      · split at h
        · exact absurd h (Session.close_packet _ _ _ _)
        · simp at h
      · simp at h
  | dataChannel label readyState =>
    simp only [step] at h
    split at h
    · exact absurd h (Session.channelEvent_packet _ _ _)
    · simp at h
  | channelOpen isReliable =>
    simp only [step] at h
    split at h
    · exact absurd h (Session.channelEvent_packet _ _ _)
    · simp at h
  | channelMessage isReliable message =>
    simp only [step] at h
    split at h
    · obtain ⟨data', hdata', heq⟩ := List.mem_map.mp h
      cases heq
      exact ⟨isReliable, message, rfl, hdata'⟩
    · simp at h
  | send data sendType => simp [step, ran] at h

theorem step_calls [Aiortc] (l : SessionLoop κ) (e : SessionEvent κ) :
    Session.Calls l.session (l.next e).session (l.step e).effects := by
  have hsteps := l.step_steps e
  simp only [next]
  generalize l.step e = stepped at hsteps ⊢
  cases hsteps with
  | callback _ s' effects hc => exact hc.calls
  | call c caller seg hb =>
    rw [segment_session, segment_effects]
    exact Session.began_calls hb
  | resume index reply t seg ht hw =>
    rw [segment_session, segment_effects]
    exact .silent _ (Session.went_silent hw)

theorem resume_silent [Aiortc] (l : SessionLoop κ) (index : Nat) (reply : Reply) :
    ∀ f ∈ (l.step (.resume index reply)).effects, f.isCallback = false := by
  simp only [step]
  split
  · simp
  · rw [segment_effects]
    exact Session.went_silent (Session.resume_went _ _ _)

/-- A session under the manager: its one offer comes with its local description, and
before that description is set it neither opens nor receives. -/
structure Opening (l : SessionLoop κ) : Prop where
  dials : l.Dials
  roles : ∀ t ∈ l.tasks, (t.coroutine.handler.isOffering = true → l.session.isDialer = true) ∧
    (t.coroutine.handler.isAnswering = true → l.session.isDialer = false)
  undescribed : 0 < l.offering → l.session.pc.localDescription = none
  silent : l.session.pc.localDescription = none → ∀ f ∈ l.trace, f.isCallback = true → f.isClose = true

/-- The one `create_offer` returns, for `caller`. -/
def Offered (l : SessionLoop κ) (e : SessionEvent κ) (caller : κ) : Prop :=
  ∃ index sdp t h, e = .resume index (.ok sdp) ∧ l.tasks[index]? = some t ∧
    t.coroutine = .offering h .setLocalDescription ∧ t.caller = caller

theorem Opening.one {l : SessionLoop κ} (h : l.Opening) : l.offering ≤ 1 :=
  Nat.le_trans (Nat.le_add_left _ _) h.dials.requests

private theorem offering_pos {l : SessionLoop κ} {t : Task κ} (ht : t ∈ l.tasks)
    (ho : t.coroutine.handler.isOffering = true) : 0 < l.offering := List.countP_pos_iff.mpr ⟨t, ht, ho⟩

private theorem offering_of_pos {l : SessionLoop κ} (h : 0 < l.offering) :
    ∃ t ∈ l.tasks, t.coroutine.handler.isOffering = true := List.countP_pos_iff.mp h

/-- What the return of `create_offer` does. -/
theorem Offered.step [Aiortc] {l : SessionLoop κ} {e : SessionEvent κ} {caller : κ} (h : l.Offered e caller) :
    0 < l.offering ∧ (l.next e).session.pc.localDescription.isSome ∧ (l.next e).session.state = .offerSent ∧
      (l.next e).offering + 1 = l.offering ∧ (∃ value, (l.step e).outcome = .returned caller value) ∧
      (∀ f ∈ (l.step e).effects, f.isCallback = false) ∧ (l.session.state = .closed → l.Late e) := by
  obtain ⟨index, sdp, t, handler, rfl, ht, hcoroutine, rfl⟩ := h
  have hmem := List.mem_of_getElem? ht
  have hoffering : t.coroutine.handler.isOffering = true := by rw [hcoroutine]; rfl
  have herase := countP_eraseIdx (fun t : Task κ => t.coroutine.handler.isOffering) ht
  simp only [hoffering, if_true] at herase
  have hsilent := l.resume_silent index (.ok sdp)
  have hclosed : l.session.state = .closed → l.Late (.resume index (.ok sdp)) :=
    fun hs => ⟨t, ht, by rw [hcoroutine]; rfl, hs⟩
  refine ⟨offering_pos hmem hoffering, ?_, ?_, ?_, ?_, hsilent, hclosed⟩
  all_goals simp only [next, SessionLoop.step, ht, hcoroutine]
  · cases handler <;> simp [Session.resume, Session.offering, PeerConnection.resumeOffer, Session.afterStart, Session.afterOffer]
  · cases handler <;> simp [Session.resume, Session.offering, PeerConnection.resumeOffer, Session.afterStart, Session.afterOffer]
  · cases handler <;> exact herase
  · cases handler <;> exact ⟨_, rfl⟩

/-- Only when its `create_offer` returns does a dialer get its local description. -/
theorem Opening.description [Aiortc] {l : SessionLoop κ} (h : l.Opening) {e : SessionEvent κ} (he : Signalled e)
    (hd : l.session.isDialer = true) :
    (l.next e).session.pc.localDescription = l.session.pc.localDescription ∨ ∃ caller, l.Offered e caller := by
  have hsteps := l.step_steps e
  simp only [next]
  generalize l.step e = stepped at hsteps ⊢
  cases hsteps with
  | callback _ s' effects hc => exact Or.inl hc.pc.localDescription
  | call c caller seg hb =>
    rw [segment_session]
    cases hb with
    | closes k error => exact Or.inl (Session.close_callback l.session error false).pc.localDescription
    | accept answer hs => exact Or.inl (by simp)
    | response k answer hs hd => exact Or.inl (by simp)
    | _ => exact Or.inl rfl
  | resume index reply t seg ht hw =>
    rw [segment_session]
    have hmem := List.mem_of_getElem? ht
    generalize hcoroutine : t.coroutine = c at hw
    cases hw with
    | raises c => exact Or.inl rfl
    | goes c c' sdp pc effects hc _ hpc => exact Or.inl hpc.localDescription
    | applied handler answer a sdp pc effects hpc => exact Or.inl hpc.localDescription
    | added cand sdp => exact Or.inl rfl
    | offered handler sdp s' hs' => exact Or.inr ⟨t.caller, index, sdp, t, handler, rfl, ht, hcoroutine, rfl⟩
    | answered handler offer sdp s' hs' =>
      have hlistener := (h.roles t hmem).2 (by rw [hcoroutine]; rfl)
      cases hd.symm.trans hlistener

/-- Whoever awaits `create_offer` goes on when it has returned. -/
theorem returned_offered [Aiortc] {l : SessionLoop κ} {index : Nat} {reply : Reply} {t : Task κ}
    (ht : l.tasks[index]? = some t) (ho : t.coroutine.handler.isOffering = true) {caller : κ} {value : Option Text}
    (h : (l.step (.resume index reply)).outcome = .returned caller value) : l.Offered (.resume index reply) caller := by
  simp only [step, ht] at h
  have hw := Session.resume_went l.session t.coroutine reply
  generalize hcoroutine : t.coroutine = c at hw h
  generalize l.session.resume c reply = seg at hw h
  cases hw with
  | offered handler sdp s' hs' =>
    refine ⟨index, sdp, t, handler, rfl, ht, hcoroutine, ?_⟩
    cases handler <;> cases h <;> rfl
  | raises c => cases h
  | goes c c' sdp pc effects hc _ hpc => cases h
  | applied handler answer a sdp pc effects hpc => rw [hcoroutine] at ho; cases ho
  | added cand sdp => rw [hcoroutine] at ho; cases ho
  | answered handler offer sdp s' hs' => rw [hcoroutine] at ho; cases ho

/-- The local description is never unset. -/
theorem next_described [Aiortc] (l : SessionLoop κ) (e : SessionEvent κ)
    (h : (l.next e).session.pc.localDescription = none) : l.session.pc.localDescription = none := by
  have hsteps := l.step_steps e
  simp only [next] at h
  generalize l.step e = stepped at hsteps h
  cases hsteps with
  | callback _ s' effects hc => exact hc.pc.localDescription.symm.trans h
  | call c caller seg hb =>
    rw [segment_session] at h
    cases hb with
    | closes k error => exact (Session.close_callback l.session error false).pc.localDescription.symm.trans h
    | accept answer hs => simpa using h
    | response k answer hs hd => simpa using h
    | _ => exact h
  | resume index reply t seg ht hw =>
    rw [segment_session] at h
    generalize t.coroutine = c at hw
    cases hw with
    | raises c => exact h
    | goes c c' sdp pc effects hc _ hpc => exact hpc.localDescription.symm.trans h
    | applied handler answer a sdp pc effects hpc => exact hpc.localDescription.symm.trans h
    | added cand sdp => exact h
    | offered handler sdp s' hs' =>
      subst hs'
      cases handler <;> simp [Session.afterStart, Session.afterOffer] at h
    | answered handler offer sdp s' hs' =>
      subst hs'
      cases handler <;> simp [Session.afterAnswer, Session.afterRequest] at h

/-- What a signal starts is neither an offer nor, for a dialer, an answer. -/
theorem signalled_task [Aiortc] {l : SessionLoop κ} {e : SessionEvent κ} (he : Signalled e) {t' : Task κ} (ht' : t' ∈ (l.next e).tasks) :
    (∃ t ∈ l.tasks, t'.caller = t.caller ∧ t'.coroutine.handler = t.coroutine.handler) ∨
      (∃ message, e = .call (.handleSignal message) t'.caller) ∧ t'.coroutine.handler.isOffering = false ∧
        (t'.coroutine.handler.isAnswering = true → l.session.isDialer = false) := by
  rcases l.next_tasks e ht' with hold | ⟨c, seg, rfl, hb, _, hflow⟩
  · exact Or.inl hold
  · refine Or.inr ?_
    cases hb with
    | ignored c => cases hflow
    | closes k error => cases hflow
    | start => exact he.elim
    | offer => exact he.elim
    | answer offer => exact he.elim
    | accept answer hs => exact he.elim
    | request k offer hs hd =>
      rw [← Flow.suspended.inj hflow]
      exact ⟨⟨_, rfl⟩, rfl, fun _ => hd⟩
    | response k answer hs hd =>
      rw [← Flow.suspended.inj hflow]
      exact ⟨⟨_, rfl⟩, rfl, fun h => by cases h⟩
    | malformed k text hs hc => cases hflow
    | adds k text cand hc =>
      rw [← Flow.suspended.inj hflow]
      exact ⟨⟨_, rfl⟩, rfl, fun h => by cases h⟩
    | buffers k text cand hr hc => cases hflow

theorem opening_step [Aiortc] (l : SessionLoop κ) (e : SessionEvent κ) (h : l.Opening) (he : Signalled e) : (l.next e).Opening := by
  refine ⟨dials_step l e h.dials he, ?_, ?_, ?_⟩
  · intro t' ht'
    rw [(l.next_identity e).2.2]
    rcases signalled_task he ht' with ⟨t, ht, _, hhandler⟩ | ⟨_, hoffering, hanswering⟩
    · rw [hhandler]
      exact h.roles t ht
    · exact ⟨fun ho => (by cases hoffering.symm.trans ho), hanswering⟩
  · intro hpos
    obtain ⟨t', ht', ho⟩ := offering_of_pos hpos
    rcases signalled_task he ht' with ⟨t, ht, _, hhandler⟩ | ⟨_, hoffering, _⟩
    · rw [hhandler] at ho
      rcases h.description he ((h.roles t ht).1 ho) with hsame | ⟨caller, hoffered⟩
      · exact hsame.trans (h.undescribed (offering_pos ht ho))
      · -- the one offer there was has returned
        obtain ⟨_, _, _, hless, _⟩ := hoffered.step
        have hone := h.one
        omega
    · rw [hoffering] at ho
      cases ho
  · intro hnone f hf hcallback
    have hbefore := l.next_described e hnone
    rw [next, step_trace] at hf
    rcases List.mem_append.mp hf with hf | hf
    · exact h.silent hbefore f hf hcallback
    · have hunnegotiated : l.session.pc.negotiated ≠ true := by
        rw [PeerConnection.negotiated, hbefore]
        simp
      have hcalls := l.step_calls e
      generalize (l.step e).effects = effects at hf hcalls
      cases hcalls with
      | silent _ hsilent => cases hcallback.symm.trans (hsilent f hf)
      | opens hn _ _ => exact absurd hn hunnegotiated
      | closes notice error hn _ _ =>
        rcases List.mem_append.mp hf with hf | hf
        · cases hcallback.symm.trans (hn f hf)
        · obtain rfl := List.mem_singleton.mp hf
          rfl
      | packets packets hn _ => exact absurd hn hunnegotiated

/-- The two first calls of the manager on a session it has created. -/
theorem opening_started [Aiortc] (connectionId : Nat) (localId remoteId : NetworkId) (isDialer relayOnly : Bool) (caller : κ) {c : Call}
    (hc : isDialer = true ∧ c = .start ∨ isDialer = false ∧ ∃ k offer, c = .handleSignal (.connectRequest k offer)) :
    ((fresh (Session.new connectionId localId remoteId isDialer relayOnly)).next (.call c caller)).Opening := by
  rcases hc with ⟨rfl, rfl⟩ | ⟨rfl, k, offer, rfl⟩
  · refine ⟨dials_started _ _ _ _ _ _, ?_, fun _ => rfl, ?_⟩
    · intro t ht
      obtain rfl := List.mem_singleton.mp ht
      exact ⟨fun _ => rfl, fun h => by cases h⟩
    · intro _ f hf hcallback
      obtain rfl := List.mem_singleton.mp hf
      cases hcallback
  · refine ⟨⟨Nat.zero_le _, Nat.zero_le _⟩, ?_, fun _ => rfl, ?_⟩
    · intro t ht
      obtain rfl := List.mem_singleton.mp ht
      exact ⟨fun h => (by cases h), fun _ => rfl⟩
    · intro _ f hf hcallback
      obtain rfl := List.mem_singleton.mp hf
      cases hcallback

end SessionLoop
end NetherNet
