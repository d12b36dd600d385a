import NetherNet.Manager.Closing
import NetherNet.Session.Waiting

/-! What the sessions of the map wait for, and what a raise in the handling of a
request for an unknown id leaves behind. -/
namespace NetherNet

/-- The request whose handling created the session, for the coroutines that are part of it. -/
def Caller.admitting : Caller → Option SignalingMessage
  | .newSession _ parsed | .flush _ parsed _ => some parsed
  | _ => none

namespace Manager
open Library

/-- The candidates that a suspended coroutine hands to its session next, once it returns. -/
def upcoming (m : Manager) (t : Task Caller) : List CandidateAdd :=
  match t.caller with
  | .newSession _ parsed => if t.coroutine.last then (m.pendingCandidates.get? parsed.connectionId).getD [] else []
  | .flush _ _ rest => rest
  | _ => []

/-- What stands in the map after an event stood there before, or was created by it. -/
theorem Acts.mapped_before [Aiortc] {m₀ m : Manager} {e : ManagerEvent} {outs : List Output} (h : Acts m₀ e m outs)
    {k : Nat} {r : Ref} (hk : m.sessions.get? k = some r) : (∃ k, m₀.sessions.get? k = some r) ∨ r = m₀.heap.length := by
  refine @Acts.invariant _ m₀ e
    (fun m => ∀ k r, m.sessions.get? k = some r → (∃ k, m₀.sessions.get? k = some r) ∨ r = m₀.heap.length)
    ?_ ?_ ?_ ?_ ?_ m outs h k r hk
  · exact fun k r hk => Or.inl ⟨k, hk⟩
  · exact fun _ _ _ _ hm => hm
  · intro _ _ k r hk
    cases hk
  · intro m k remoteId isDialer c caller hm heap _ j r hj
    simp only [createSession, Dict.get?_set] at hj
    split at hj
    · rw [heap] at hj
      exact Or.inr (Option.some.inj hj).symm
    · exact hm j r hj
  · intro m r ev hm _ k j hj
    cases hl : m.heap[r]? with
    | none =>
      rw [onSession_none ev hl] at hj
      exact hm k j hj
    | some l =>
      rcases onSession_cases ev hl with ⟨_, _, heq⟩ | ⟨_, _, _, heq⟩
      · rw [heq] at hj
        exact hm k j hj
      · rw [heq] at hj
        exact hm k j (Dict.get?_of_pop _ hj).2

/-- Every session of the map is ready. -/
def Waits (m : Manager) : Prop := ∀ k r l, m.sessions.get? k = some r → m.heap[r]? = some l → l.Ready

/-- The coroutines that handle a request for an unknown id: inside the answer, then inside
the flush, in which the remote description is set. -/
structure Callers (l : SessionLoop Caller) : Prop where
  described : l.Described
  answering : ∀ t ∈ l.tasks, ∀ senderId parsed, t.caller = .newSession senderId parsed →
    ∃ offer, t.coroutine.handler = .answering .handleRequest offer
  flushing : ∀ t ∈ l.tasks, ∀ senderId parsed rest, t.caller = .flush senderId parsed rest →
    (∃ c, t.coroutine.handler = .adding c) ∧ l.session.pc.remoteDescriptionSet = true

/-- Whom the manager calls for whom. -/
def CallOf (l : SessionLoop Caller) (c : Call) : Caller → Prop
  | .newSession _ _ => ∃ k offer, c = .handleSignal (.connectRequest k offer)
  | .flush _ _ _ => (∃ k text, c = .handleSignal (.candidateAdd k text)) ∧ l.session.pc.remoteDescriptionSet = true
  | _ => True

theorem callers_step [Aiortc] (l : SessionLoop Caller) (e : SessionEvent Caller) (h : Callers l)
    (he : ∀ c caller, e = .call c caller → CallOf l c caller) : Callers (l.next e) := by
  refine ⟨l.described_step e h.described, ?_, ?_⟩
  · intro t' ht' senderId parsed hcaller
    rcases l.next_tasks e ht' with ⟨t, ht, hsame, hhandler⟩ | ⟨c, seg, rfl, hb, _, hflow⟩
    · obtain ⟨offer, hoffer⟩ := h.answering t ht senderId parsed (hsame.symm.trans hcaller)
      exact ⟨offer, hhandler.trans hoffer⟩
    · have hcall := he c t'.caller rfl
      rw [hcaller] at hcall
      obtain ⟨k, offer, rfl⟩ := hcall
      refine ⟨offer, ?_⟩
      cases hb with
      | ignored c => cases hflow
      | request k offer hs hd => exact congrArg Suspended.handler (Flow.suspended.inj hflow).symm
  · intro t' ht' senderId parsed rest hcaller
    rcases l.next_tasks e ht' with ⟨t, ht, hsame, hhandler⟩ | ⟨c, seg, rfl, hb, _, hflow⟩
    · obtain ⟨⟨cand, hcand⟩, hset⟩ := h.flushing t ht senderId parsed rest (hsame.symm.trans hcaller)
      exact ⟨⟨cand, hhandler.trans hcand⟩, l.remote_step e hset⟩
    · have hcall := he c t'.caller rfl
      rw [hcaller] at hcall
      obtain ⟨⟨k, text, rfl⟩, hset⟩ := hcall
      refine ⟨?_, l.remote_step _ hset⟩
      cases hb with
      | ignored c => cases hflow
      | malformed k text hs hc => cases hflow
      | adds k text cand hc => exact ⟨cand, congrArg Suspended.handler (Flow.suspended.inj hflow).symm⟩
      | buffers k text cand hr hc => cases hflow

theorem callers_fresh (s : Session) : Callers (SessionLoop.fresh s) := by
  refine ⟨?_, ?_, ?_⟩
  · intro t ht
    cases ht
  · intro t ht
    cases ht
  · intro t ht
    cases ht

/-- What leads to a flush has set the remote description. -/
theorem flushing_set [Aiortc] {m : Manager} {e : ManagerEvent} {r : Ref} {l : SessionLoop Caller}
    {senderId : NetworkId} {parsed : SignalingMessage} {cs : List CandidateAdd} (hl : m.heap[r]? = some l) (h : Callers l)
    (hf : m.Flushing e r senderId parsed cs) : l.session.pc.remoteDescriptionSet = true := by
  obtain ⟨l', index, reply, t, value, _, hl', ht, hreturn, hcaller⟩ := hf
  obtain rfl := Option.some.inj (hl.symm.trans hl')
  have hmem := List.mem_of_getElem? ht
  rcases hcaller with ⟨hnew, _⟩ | ⟨rest, hflush, _⟩
  · obtain ⟨offer, hoffer⟩ := h.answering t hmem senderId parsed hnew
    have hstep : l.step (.resume index reply) = ({ l with tasks := l.tasks.eraseIdx index } : SessionLoop Caller).segment
        (l.session.resume t.coroutine reply) t.caller := by
      simp only [SessionLoop.step, ht]
    have hwent := Session.resume_went l.session t.coroutine reply
    rw [hstep] at hreturn
    generalize l.session.resume t.coroutine reply = seg at hwent hreturn
    have hdescribed := h.described t hmem
    generalize t.coroutine = c at hoffer hwent hdescribed
    cases hwent with
    | answered handler offer' sdp s' hs' => exact hdescribed rfl
    | raises c => cases hreturn
    | goes c c' sdp pc effects hc hd hpc => cases hreturn
    | applied handler answer a sdp pc effects hpc => cases hoffer
    | added cand sdp => cases hoffer
    | offered handler sdp s' hs' => cases hoffer
  · exact (h.flushing t hmem senderId parsed rest hflush).2

def Handled (m : Manager) : Prop := ∀ l ∈ m.heap, Callers l

theorem handled_next [Aiortc] (m : Manager) (e : ManagerEvent) (hm : m.Handled) : (m.next e).Handled := by
  have hall : ∀ r l, (m.next e).heap[r]? = some l →
      Callers l ∧ ((∃ senderId parsed cs, m.Flushing e r senderId parsed cs) → l.session.pc.remoteDescriptionSet = true) := by
    apply (step_acts m e).sessions (P := fun r l =>
      Callers l ∧ ((∃ senderId parsed cs, m.Flushing e r senderId parsed cs) → l.session.pc.remoteDescriptionSet = true))
    · intro r l hl
      have hcallers := hm l (List.mem_of_getElem? hl)
      exact ⟨hcallers, fun ⟨_, _, _, hf⟩ => flushing_set hl hcallers hf⟩
    · intro r ev l _ hc hl
      have hcallers := hm l (List.mem_of_getElem? hl)
      refine ⟨callers_step l ev hcallers fun c caller hev => ?_,
        fun ⟨_, _, _, hf⟩ => l.remote_step ev (flushing_set hl hcallers hf)⟩
      subst hev
      cases hc
    · intro k remoteId isDialer c caller hk
      refine ⟨callers_step _ _ (callers_fresh _) fun c' caller' hev => ?_, ?_⟩
      · cases hev
        cases hk with
        | dial _ => trivial
        | listen sdp _ _ => exact ⟨k, sdp, rfl⟩
      · rintro ⟨_, _, _, l, _, _, _, _, _, hl, _⟩
        simp at hl
    · intro senderId parsed r l _ _ hl
      have hcallers := hm l (List.mem_of_getElem? hl)
      refine ⟨callers_step l _ hcallers fun c caller hev => ?_,
        fun ⟨_, _, _, hf⟩ => l.remote_step _ (flushing_set hl hcallers hf)⟩
      cases hev
      trivial
    · intro r l senderId parsed c rest hf ⟨hcallers, hset⟩
      have hset' := hset ⟨_, _, _, hf⟩
      refine ⟨callers_step l _ hcallers fun c' caller hev => ?_, fun _ => l.remote_step _ hset'⟩
      cases hev
      exact ⟨⟨c.connectionId, c.candidate, rfl⟩, hset'⟩
    · intro _ r l ⟨hcallers, hset⟩
      exact ⟨callers_step l _ hcallers fun c caller hev => (by cases hev), fun hf => l.remote_step _ (hset hf)⟩
  intro l hl
  obtain ⟨r, hr⟩ := List.getElem?_of_mem hl
  exact (hall r l hr).1

/-- How a session coroutine of the handling returns: the answer past its last await,
or the candidate on a session it leaves as it is. -/
theorem handling_returned {l : SessionLoop Caller} {index : Nat} {reply : Reply} {t : Task Caller}
    {value : Option Text} [Aiortc] (ht : l.tasks[index]? = some t)
    (h : (l.step (.resume index reply)).outcome = .returned t.caller value) :
    (∃ sdp, reply = .ok sdp) ∧
      ((∃ offer, t.coroutine.handler = .answering .handleRequest offer) → t.coroutine.last = true) ∧
      ((∃ c, t.coroutine.handler = .adding c) → (l.next (.resume index reply)).session = l.session) := by
  have hstep : l.step (.resume index reply) = ({ l with tasks := l.tasks.eraseIdx index } : SessionLoop Caller).segment
      (l.session.resume t.coroutine reply) t.caller := by
    simp only [SessionLoop.step, ht]
  have hwent := Session.resume_went l.session t.coroutine reply
  rw [SessionLoop.next, hstep, SessionLoop.segment_session]
  rw [hstep] at h
  generalize l.session.resume t.coroutine reply = seg at hwent h ⊢
  generalize t.coroutine = c at hwent
  cases hwent with
  | raises c => cases h
  | goes c c' sdp pc effects _ _ _ => cases h
  | applied handler answer a sdp pc effects _ =>
    refine ⟨⟨sdp, rfl⟩, ?_, ?_⟩
    · rintro ⟨_, ho⟩
      cases ho
    · rintro ⟨_, hc⟩
      cases hc
  | added cand sdp =>
    refine ⟨⟨sdp, rfl⟩, ?_, fun _ => rfl⟩
    rintro ⟨_, ho⟩
    cases ho
  | offered handler sdp s' _ =>
    refine ⟨⟨sdp, rfl⟩, ?_, ?_⟩
    · rintro ⟨_, ho⟩
      cases ho
    · rintro ⟨_, hc⟩
      cases hc
  | answered handler offer sdp s' _ =>
    refine ⟨⟨sdp, rfl⟩, fun _ => rfl, ?_⟩
    rintro ⟨_, hc⟩
    cases hc

theorem candidate_parses [Aiortc] (h : ∀ text, Aiortc.parsesCandidate text = true) (text : Text) :
    PeerConnection.candidateFromMessage text ≠ none := by
  simp only [PeerConnection.candidateFromMessage, h, if_true]
  exact Option.some_ne_none _

end Manager
end NetherNet
