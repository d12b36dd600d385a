import NetherNet.Session.Answering

/-! Where a session has from what it hands to aiortc and what it sends: every
description and candidate from a message it was handed, every signal from its own
descriptions. -/
namespace NetherNet
variable {κ : Type} [Aiortc]

/-- A candidate that one of the messages carries. -/
def Announced (got : SignalingMessage → Prop) (c : Candidate) : Prop :=
  ∃ k text, got (.candidateAdd k text) ∧ PeerConnection.candidateFromMessage text = some c

namespace SessionLoop

/-- The texts the session may send: its offer, its answer, its candidates and its error. -/
def Says (l : SessionLoop κ) (text : Text) : Prop :=
  (∃ error, text = (SignalingMessage.connectError l.session.connectionId error).serialize) ∨
    (∃ candidate, text = (SignalingMessage.candidateAdd l.session.connectionId candidate).serialize) ∨
    (∃ offer, l.session.isDialer = true ∧ text = (SignalingMessage.connectRequest l.session.connectionId offer).serialize) ∨
    ∃ offer answer, l.session.isDialer = false ∧ .answered offer answer ∈ l.trace ∧
      text = (SignalingMessage.connectResponse l.session.connectionId (Sdp.stripCandidates answer).1).serialize

/-- What stands behind each thing the session did, where `got` are the messages it was handed. -/
def Origin (got : SignalingMessage → Prop) (l : SessionLoop κ) : Effect → Prop
  | .sendSignal text => l.Says text
  | .answered offer _ => .createAnswer offer ∈ l.trace
  | .createAnswer offer => ∃ k, got (.connectRequest k offer)
  | .setRemoteAnswer answer => l.session.isDialer = true ∧ ∃ k, got (.connectResponse k answer)
  | .addIceCandidate c => Announced got c
  | _ => True

/-- What the session did and what it is about to do come from the messages of `got`. -/
structure Traced (got : SignalingMessage → Prop) (l : SessionLoop κ) : Prop where
  effects : ∀ f ∈ l.trace, l.Origin got f
  pending : ∀ c ∈ l.session.pc.pendingRemoteCandidates, Announced got c
  offering : ∀ t ∈ l.tasks, ∀ h, t.coroutine.handler = .offering h → l.session.isDialer = true
  answering : ∀ t ∈ l.tasks, ∀ h offer, t.coroutine.handler = .answering h offer →
    l.session.isDialer = false ∧ .createAnswer offer ∈ l.trace

/-- The manager starts dialers, and hands a session the messages of `got`. -/
def Manages (got : SignalingMessage → Prop) (l : SessionLoop κ) : SessionEvent κ → Prop
  | .call .start _ => l.session.isDialer = true
  | .call (.handleSignal message) _ => got message
  | .call _ _ => False
  | _ => True

private theorem origin_got {got more : SignalingMessage → Prop} (h : ∀ m, got m → more m) {l : SessionLoop κ} {f : Effect}
    (hf : l.Origin got f) : l.Origin more f := by
  cases f with
  | createAnswer offer =>
    obtain ⟨k, hk⟩ := hf
    exact ⟨k, h _ hk⟩
  | setRemoteAnswer answer =>
    obtain ⟨hd, k, hk⟩ := hf
    exact ⟨hd, k, h _ hk⟩
  | addIceCandidate c =>
    obtain ⟨k, text, hk, hc⟩ := hf
    exact ⟨k, text, h _ hk, hc⟩
  | _ => exact hf

/-- More messages change no origin. -/
theorem Traced.mono {got more : SignalingMessage → Prop} {l : SessionLoop κ} (hl : Traced got l) (h : ∀ m, got m → more m) :
    Traced more l := by
  refine ⟨fun f hf => origin_got h (hl.effects f hf), fun c hc => ?_, hl.offering, hl.answering⟩
  obtain ⟨k, text, hk, hparse⟩ := hl.pending c hc
  exact ⟨k, text, h _ hk, hparse⟩

theorem traced_fresh (got : SignalingMessage → Prop) (connectionId : Nat) (localId remoteId : NetworkId)
    (isDialer relayOnly : Bool) :
    Traced got (fresh (Session.new connectionId localId remoteId isDialer relayOnly) : SessionLoop κ) := by
  refine ⟨by simp [fresh], ?_, by simp [fresh], by simp [fresh]⟩
  intro c hc
  cases isDialer <;> simp [fresh, Session.new, PeerConnection.new] at hc

/-! ### One step -/

private theorem next_trace (l : SessionLoop κ) (e : SessionEvent κ) : (l.next e).trace = l.trace ++ (l.step e).effects :=
  l.step_trace e

private theorem says_next {l : SessionLoop κ} (e : SessionEvent κ) {text : Text} (h : l.Says text) : (l.next e).Says text := by
  obtain ⟨hid, _, hd⟩ := l.next_identity e
  rcases h with herror | hcandidate | ⟨offer, hdialer, heq⟩ | ⟨offer, answer, hlistener, hmade, heq⟩
  · exact Or.inl (hid ▸ herror)
  · exact Or.inr (Or.inl (hid ▸ hcandidate))
  · exact Or.inr (Or.inr (Or.inl ⟨offer, hd.trans hdialer, hid ▸ heq⟩))
  · refine Or.inr (Or.inr (Or.inr ⟨offer, answer, hd.trans hlistener, ?_, hid ▸ heq⟩))
    rw [next_trace]
    exact List.mem_append_left _ hmade

private theorem origin_next {got : SignalingMessage → Prop} {l : SessionLoop κ} (e : SessionEvent κ) {f : Effect}
    (h : l.Origin got f) : (l.next e).Origin got f := by
  cases f with
  | sendSignal text => exact says_next e h
  | answered offer answer =>
    show .createAnswer offer ∈ (l.next e).trace
    rw [next_trace]
    exact List.mem_append_left _ h
  | setRemoteAnswer answer => exact ⟨(l.next_identity e).2.2.trans h.1, h.2⟩
  | _ => exact h

/-- A coroutine that starts in a session of the manager. -/
private theorem called_tasks {got : SignalingMessage → Prop} {l : SessionLoop κ} {c : Call} {caller : κ} {seg : Segment}
    (hb : Session.Began l.session c seg) (he : Manages got l (.call c caller)) {c' : Suspended} (hflow : seg.flow = .suspended c') :
    (∀ h, c'.handler = .offering h → l.session.isDialer = true) ∧
      ∀ h offer, c'.handler = .answering h offer → l.session.isDialer = false ∧ .createAnswer offer ∈ seg.effects := by
  cases hb with
  | start =>
    cases hflow
    exact ⟨fun _ _ => he, fun _ _ ho => by cases ho⟩
  | offer => exact he.elim
  | answer offer => exact he.elim
  | accept answer hs => exact he.elim
  | request k offer hs hd =>
    cases hflow
    refine ⟨fun _ ho => (by cases ho), fun _ _ ho => ?_⟩
    cases ho
    exact ⟨hd, List.mem_singleton_self _⟩
  | response k answer hs hd =>
    cases hflow
    exact ⟨fun _ ho => (by cases ho), fun _ _ ho => by cases ho⟩
  | adds k text cand hc =>
    cases hflow
    exact ⟨fun _ ho => (by cases ho), fun _ _ ho => by cases ho⟩
  | ignored c => cases hflow
  | closes k error => cases hflow
  | malformed k text hs hc => cases hflow
  | buffers k text cand hr hc => cases hflow

/-- What a callback does has an origin. -/
private theorem callback_origin {got : SignalingMessage → Prop} {l l' : SessionLoop κ} {s' : Session} {effects : List Effect}
    (hc : Session.Callback l.session s' effects) (hid : l'.session.connectionId = l.session.connectionId) :
    ∀ f ∈ effects, l'.Origin got f := by
  intro f hf
  rcases hc.effects f hf with rfl | ⟨data, rfl⟩ | ⟨error, rfl⟩ | ⟨error, rfl⟩
  · trivial
  · trivial
  · trivial
  · exact Or.inl ⟨error, by rw [hid]⟩

/-- What a call of the manager does, and what it buffers. -/
private theorem call_origin {got : SignalingMessage → Prop} {l l' : SessionLoop κ} {c : Call} {caller : κ} {seg : Segment}
    (hb : Session.Began l.session c seg) (he : Manages got l (.call c caller))
    (hid : l'.session.connectionId = l.session.connectionId) (hd : l'.session.isDialer = l.session.isDialer) :
    (∀ f ∈ seg.effects, l'.Origin got f) ∧
      ∀ cand ∈ seg.session.pc.pendingRemoteCandidates, cand ∈ l.session.pc.pendingRemoteCandidates ∨ Announced got cand := by
  cases hb with
  | ignored c => exact ⟨by simp, fun _ hc => Or.inl hc⟩
  | closes k error =>
    have hcall := Session.close_callback l.session error false
    exact ⟨callback_origin hcall hid, fun _ hc => Or.inl (hcall.pc.pending ▸ hc)⟩
  | start =>
    refine ⟨fun f hf => ?_, fun _ hc => Or.inl hc⟩
    obtain rfl := List.mem_singleton.mp hf
    trivial
  | offer => exact he.elim
  | answer offer => exact he.elim
  | accept answer hs => exact he.elim
  | request k offer hs _ =>
    refine ⟨fun f hf => ?_, fun _ hc => Or.inl hc⟩
    obtain rfl := List.mem_singleton.mp hf
    exact ⟨k, he⟩
  | response k answer hs hdialer =>
    refine ⟨fun f hf => ?_, fun _ hc => Or.inl (by simpa using hc)⟩
    rcases List.mem_cons.mp hf with rfl | hf
    · trivial
    · obtain rfl := List.mem_singleton.mp hf
      exact ⟨hd.trans hdialer, k, he⟩
  | malformed k text hs hc => exact ⟨by simp, fun _ hc => Or.inl hc⟩
  | adds k text cand hparse =>
    refine ⟨fun f hf => ?_, fun _ hc => Or.inl hc⟩
    obtain rfl := List.mem_singleton.mp hf
    exact ⟨k, text, he, hparse⟩
  | buffers k text cand hr hparse =>
    refine ⟨by simp, fun cand' hc => ?_⟩
    rcases List.mem_append.mp hc with hc | hc
    · exact Or.inl hc
    · obtain rfl := List.mem_singleton.mp hc
      exact Or.inr ⟨k, text, he, hparse⟩

private theorem candidates_origin {got : SignalingMessage → Prop} {l : SessionLoop κ} {s : Session}
    (hid : l.session.connectionId = s.connectionId) (candidates : List Text) :
    ∀ f ∈ s.sendCandidates candidates, l.Origin got f := by
  intro f hf
  obtain ⟨c, _, rfl⟩ := List.mem_map.mp hf
  exact Or.inr (Or.inl ⟨c, by rw [hid]⟩)

/-- What follows the last await of `create_offer`. -/
private theorem offered_origin {got : SignalingMessage → Prop} {l : SessionLoop κ} {s : Session} (h : Offering) (sdp : Text)
    (hid : l.session.connectionId = s.connectionId) (hd : l.session.isDialer = true) :
    ∀ f ∈ (match h with | .start => s.afterStart sdp | .offer => s.afterOffer sdp).effects, l.Origin got f := by
  intro f hf
  cases h with
  | start =>
    rcases List.mem_append.mp hf with hf | hf
    · rcases List.mem_cons.mp hf with rfl | hf
      · exact Or.inr (Or.inr (Or.inl ⟨_, hd, by rw [hid]⟩))
      · exact candidates_origin hid _ f hf
    · obtain rfl := List.mem_singleton.mp hf
      trivial
  | offer =>
    obtain rfl := List.mem_singleton.mp hf
    trivial

/-- What follows the last await of `create_answer`. -/
private theorem answered_origin {got : SignalingMessage → Prop} {l : SessionLoop κ} {s : Session} (h : Answering)
    (offer sdp : Text) (hid : l.session.connectionId = s.connectionId) (hd : l.session.isDialer = false)
    (hmade : .answered offer sdp ∈ l.trace) :
    ∀ f ∈ (match h with | .answer => s.afterAnswer sdp | .handleRequest => s.afterRequest sdp).effects, l.Origin got f := by
  intro f hf
  cases h with
  | answer =>
    obtain rfl := List.mem_singleton.mp hf
    trivial
  | handleRequest =>
    rcases List.mem_append.mp hf with hf | hf
    · rcases List.mem_cons.mp hf with rfl | hf
      · exact Or.inr (Or.inr (Or.inr ⟨offer, sdp, hd, hmade, by rw [hid]; rfl⟩))
      · exact candidates_origin hid _ f hf
    · obtain rfl := List.mem_singleton.mp hf
      trivial

/-- What a coroutine does when it goes on, and what is left of the buffer. -/
private theorem resume_origin {got : SignalingMessage → Prop} {l l' : SessionLoop κ} {t : Task κ} {reply : Reply} {seg : Segment}
    (h : Traced got l) (ht : t ∈ l.tasks) (hw : Session.Went l.session t.coroutine reply seg)
    (hid : l'.session.connectionId = l.session.connectionId) (hd : l'.session.isDialer = l.session.isDialer)
    (htrace : l'.trace = l.trace ++ seg.effects) :
    (∀ f ∈ seg.effects, l'.Origin got f) ∧
      ∀ cand ∈ seg.session.pc.pendingRemoteCandidates, cand ∈ l.session.pc.pendingRemoteCandidates := by
  have negotiated : ∀ (pc : PeerConnection) (effects : List Effect), Session.Negotiates l.session.pc pc effects →
      ∀ f ∈ effects, l'.Origin got f := by
    intro pc effects hpc f hf
    rcases hpc.effects f hf with ⟨sdp, rfl⟩ | ⟨c, hc, rfl⟩
    · trivial
    · exact h.pending c hc
  have hoffering := h.offering t ht
  have hanswering := h.answering t ht
  generalize t.coroutine = c at hw hoffering hanswering
  cases hw with
  | raises c => exact ⟨by simp, fun _ hc => hc⟩
  | goes c c' sdp pc effects _ _ hpc => exact ⟨negotiated pc effects hpc, hpc.pending⟩
  | applied handler answer a sdp pc effects hpc => exact ⟨negotiated pc effects hpc, hpc.pending⟩
  | added cand sdp => exact ⟨by simp, fun _ hc => hc⟩
  | offered handler sdp s' hs' =>
    refine ⟨offered_origin handler _ (by rw [hid, hs']) (hd.trans (hoffering handler rfl)), fun cand hc => ?_⟩
    subst hs'
    cases handler <;> simpa [Session.afterStart, Session.afterOffer] using hc
  | answered handler offer sdp s' hs' =>
    obtain ⟨hlistener, hcreate⟩ := hanswering handler offer rfl
    refine ⟨fun f hf => ?_, fun cand hc => ?_⟩
    · rcases List.mem_cons.mp hf with rfl | hf
      · show .createAnswer offer ∈ l'.trace
        rw [htrace]
        exact List.mem_append_left _ hcreate
      · refine answered_origin handler offer _ (by rw [hid, hs']) (hd.trans hlistener) ?_ f hf
        rw [htrace]
        exact List.mem_append_right _ (List.mem_cons_self ..)
    · subst hs'
      cases handler <;> simpa [Session.afterAnswer, Session.afterRequest] using hc

private theorem step_origin {got : SignalingMessage → Prop} {l : SessionLoop κ} (e : SessionEvent κ) (h : Traced got l)
    (he : Manages got l e) : (∀ f ∈ (l.step e).effects, (l.next e).Origin got f) ∧
      ∀ c ∈ (l.next e).session.pc.pendingRemoteCandidates, c ∈ l.session.pc.pendingRemoteCandidates ∨ Announced got c := by
  obtain ⟨hid, _, hd⟩ := l.next_identity e
  have htrace := l.step_trace e
  have hsteps := l.step_steps e
  simp only [next] at hid hd ⊢
  generalize l.step e = stepped at hid hd htrace hsteps ⊢
  cases hsteps with
  | callback _ s' effects hc => exact ⟨callback_origin hc hid, fun _ hmem => Or.inl (hc.pc.pending ▸ hmem)⟩
  | call c caller seg hb =>
    rw [segment_effects, segment_session]
    exact call_origin hb he hid hd
  | resume index reply t seg ht hw =>
    rw [segment_effects] at htrace ⊢
    rw [segment_session]
    obtain ⟨heffects, hpending⟩ := resume_origin h (List.mem_of_getElem? ht) hw hid hd htrace
    exact ⟨heffects, fun c hc => Or.inl (hpending c hc)⟩

/-- Each step of a session of the manager keeps the origins. -/
theorem traced_step {got : SignalingMessage → Prop} (l : SessionLoop κ) (e : SessionEvent κ) (h : Traced got l)
    (he : Manages got l e) : Traced got (l.next e) := by
  obtain ⟨heffects, hpending⟩ := step_origin e h he
  have hd := (l.next_identity e).2.2
  refine ⟨fun f hf => ?_, fun c hc => ?_, fun t' ht' => ?_, fun t' ht' => ?_⟩
  · rw [next_trace] at hf
    rcases List.mem_append.mp hf with hf | hf
    · exact origin_next e (h.effects f hf)
    · exact heffects f hf
  · rcases hpending c hc with hold | hnew
    · exact h.pending c hold
    · exact hnew
  · rw [hd]
    rcases l.next_tasks e ht' with ⟨t, ht, _, hhandler⟩ | ⟨c, seg, rfl, hb, _, hflow⟩
    · rw [hhandler]
      exact h.offering t ht
    · exact (called_tasks hb he hflow).1
  · intro handler offer ho
    rw [hd, next_trace]
    rcases l.next_tasks e ht' with ⟨t, ht, _, hhandler⟩ | ⟨c, seg, rfl, hb, heffects', hflow⟩
    · obtain ⟨hlistener, hcreate⟩ := h.answering t ht handler offer (hhandler.symm.trans ho)
      exact ⟨hlistener, List.mem_append_left _ hcreate⟩
    · obtain ⟨hlistener, hcreate⟩ := (called_tasks hb he hflow).2 handler offer ho
      exact ⟨hlistener, List.mem_append_right _ (heffects' ▸ hcreate)⟩

end SessionLoop
end NetherNet
