import NetherNet.Manager.Closing
import NetherNet.Session.Provenance

/-! What a signal may change, and whose messages reach a session: the manager knows a
session by its connection id alone. -/
namespace NetherNet
namespace Manager
open Library

/-- A message for connection id `k`, from whomever. -/
def Addressed (got : NetworkId → SignalingMessage → Prop) (k : Nat) (parsed : SignalingMessage) : Prop :=
  parsed.connectionId = k ∧ ∃ senderId, got senderId parsed

/-- What the coroutines of the manager hand on to a session with id `k`. -/
def Carries (got : NetworkId → SignalingMessage → Prop) (k : Nat) : Caller → Prop
  | .newSession _ parsed => parsed.connectionId = k
  | .flush _ parsed rest => parsed.connectionId = k ∧ ∀ c ∈ rest, Addressed got k c.message
  | _ => True

/-- A session of the manager, with what its coroutines carry. -/
def Served [Aiortc] (got : NetworkId → SignalingMessage → Prop) (l : SessionLoop Caller) : Prop :=
  l.Traced (Addressed got l.session.connectionId) ∧ ∀ t ∈ l.tasks, Carries got l.session.connectionId t.caller

/-- Every message in the hands of the manager is one of `got`, and every session has its own. -/
structure Origins [Aiortc] (got : NetworkId → SignalingMessage → Prop) (m : Manager) : Prop where
  mapped : m.Mapped
  created : ∀ senderId text parsed, (senderId, text) ∈ m.created → SignalingMessage.parse text = some (some parsed) →
    got senderId parsed
  buffered : ∀ k cs, m.pendingCandidates.get? k = some cs → ∀ c ∈ cs, Addressed got k c.message
  sessions : ∀ (r : Ref) (l : SessionLoop Caller), m.heap[r]? = some l → Served got l

/-- The event delivers a message of `got`, or none. -/
def Delivers (got : NetworkId → SignalingMessage → Prop) : ManagerEvent → Prop
  | .deliver senderId text => ∀ parsed, SignalingMessage.parse text = some (some parsed) → got senderId parsed
  | _ => True

theorem origins_new [Aiortc] (got : NetworkId → SignalingMessage → Prop) (localId : NetworkId) (relayOnly : Bool) :
    (new localId relayOnly).Origins got := by
  refine ⟨mapped_new localId relayOnly, ?_, ?_, ?_⟩
  · intro senderId text parsed h
    cases h
  · intro k cs h
    cases h
  · intro r l h
    simp [new] at h

private theorem addressed_mono {got more : NetworkId → SignalingMessage → Prop} (h : ∀ s p, got s p → more s p) {k : Nat}
    {parsed : SignalingMessage} (hp : Addressed got k parsed) : Addressed more k parsed := by
  obtain ⟨hk, s, hs⟩ := hp
  exact ⟨hk, s, h s parsed hs⟩

theorem Origins.mono [Aiortc] {got more : NetworkId → SignalingMessage → Prop} {m : Manager} (hm : m.Origins got)
    (h : ∀ s p, got s p → more s p) : m.Origins more := by
  refine ⟨hm.mapped, ?_, ?_, ?_⟩
  · exact fun senderId text parsed hmem hparse => h _ _ (hm.created senderId text parsed hmem hparse)
  · exact fun k cs hk c hc => addressed_mono h (hm.buffered k cs hk c hc)
  · intro r l hl
    obtain ⟨htraced, hcarries⟩ := hm.sessions r l hl
    refine ⟨htraced.mono fun p hp => addressed_mono h hp, fun t ht => ?_⟩
    have hcarried := hcarries t ht
    cases hcaller : t.caller with
    | connect => trivial
    | handleSignal senderId parsed => trivial
    | newSession senderId parsed =>
      rw [hcaller] at hcarried
      exact hcarried
    | flush senderId parsed rest =>
      rw [hcaller] at hcarried
      exact ⟨hcarried.1, fun c hc => addressed_mono h (hcarried.2 c hc)⟩

/-! ### One step -/

private theorem received_got [Aiortc] {got : NetworkId → SignalingMessage → Prop} {m : Manager} {e : ManagerEvent}
    {senderId : NetworkId} {parsed : SignalingMessage} (hm : m.Origins got) (h : m.Received e senderId parsed) :
    Addressed got parsed.connectionId parsed := by
  obtain ⟨index, text, _, hcreated, hparse⟩ := h
  exact ⟨rfl, senderId, hm.created senderId text parsed (List.mem_of_getElem? hcreated) hparse⟩

/-- The candidates a flush is about to hand over. -/
private theorem flushing_carries [Aiortc] {got : NetworkId → SignalingMessage → Prop} {m : Manager} {e : ManagerEvent}
    {r : Ref} {senderId : NetworkId} {parsed : SignalingMessage} {cs : List CandidateAdd} (hm : m.Origins got)
    (h : m.Flushing e r senderId parsed cs) :
    ∃ l, m.heap[r]? = some l ∧ parsed.connectionId = l.session.connectionId ∧
      ∀ c ∈ cs, Addressed got l.session.connectionId c.message := by
  obtain ⟨l, index, reply, t, value, _, hl, ht, _, hcaller⟩ := h
  have hcarries := (hm.sessions r l hl).2 t (List.mem_of_getElem? ht)
  refine ⟨l, hl, ?_⟩
  rcases hcaller with ⟨hnew, hsuffix⟩ | ⟨rest, hflush, hsuffix⟩
  · rw [hnew] at hcarries
    refine ⟨hcarries, fun c hc => ?_⟩
    have hmem := hsuffix.subset hc
    cases hget : m.pendingCandidates.get? parsed.connectionId with
    | none => simp [hget] at hmem
    | some cs' =>
      simp only [hget, Option.getD_some] at hmem
      rw [← show parsed.connectionId = l.session.connectionId from hcarries]
      exact hm.buffered _ cs' hget c hmem
  · rw [hflush] at hcarries
    exact ⟨hcarries.1, fun c hc => hcarries.2 c (hsuffix.subset hc)⟩

private theorem served_step [Aiortc] {got : NetworkId → SignalingMessage → Prop} (l : SessionLoop Caller)
    (ev : SessionEvent Caller) (hl : Served got l)
    (hmanages : SessionLoop.Manages (Addressed got l.session.connectionId) l ev)
    (hcarries : ∀ c caller, ev = .call c caller → Carries got l.session.connectionId caller) : Served got (l.next ev) := by
  obtain ⟨htraced, hcarried⟩ := hl
  rw [Served, (l.next_identity ev).1]
  refine ⟨l.traced_step ev htraced hmanages, fun t' ht' => ?_⟩
  rcases l.next_tasks ev ht' with ⟨t, ht, hcaller, _⟩ | ⟨c, seg, rfl, _⟩
  · rw [hcaller]
    exact hcarried t ht
  · exact hcarries c t'.caller rfl

private theorem sessions_step [Aiortc] {got : NetworkId → SignalingMessage → Prop} (m : Manager) (e : ManagerEvent)
    (hm : m.Origins got) : ∀ (r : Ref) (l : SessionLoop Caller), (m.next e).heap[r]? = some l → Served got l := by
  have hserved : ∀ (r : Ref) (l : SessionLoop Caller), (m.next e).heap[r]? = some l →
      Served got l ∧ ∀ l₀, m.heap[r]? = some l₀ → l.session.connectionId = l₀.session.connectionId := by
    have stepped : ∀ (r : Ref) (l : SessionLoop Caller) ev, (∀ l₀, m.heap[r]? = some l₀ →
        l.session.connectionId = l₀.session.connectionId) → ∀ l₀, m.heap[r]? = some l₀ →
          (l.next ev).session.connectionId = l₀.session.connectionId :=
      fun r l ev h l₀ hl₀ => (l.next_identity ev).1.trans (h l₀ hl₀)
    have same : ∀ (r : Ref) (l : SessionLoop Caller), m.heap[r]? = some l → ∀ l₀, m.heap[r]? = some l₀ →
        l.session.connectionId = l₀.session.connectionId := by
      intro r l hl l₀ hl₀
      rw [Option.some.inj (hl.symm.trans hl₀)]
    apply (step_acts m e).sessions (P := fun r l =>
      Served got l ∧ ∀ l₀, m.heap[r]? = some l₀ → l.session.connectionId = l₀.session.connectionId)
    · exact fun r l hl => ⟨hm.sessions r l hl, same r l hl⟩
    · intro r ev l _ hc hl
      refine ⟨served_step l ev (hm.sessions r l hl) ?_ ?_, stepped r l ev (same r l hl)⟩
      · cases ev with
        | call c caller => cases hc
        | _ => trivial
      · rintro c caller rfl
        cases hc
    · intro k remoteId isDialer c caller hk
      refine ⟨served_step _ _ ⟨SessionLoop.traced_fresh _ k m.localId remoteId isDialer m.relayOnly, by simp [SessionLoop.fresh]⟩
        ?_ ?_, fun l₀ hl₀ => by simp at hl₀⟩
      · cases hk with
        | dial _ => rfl
        | listen sdp hs _ => exact received_got hm hs
      · rintro c' caller' hev
        cases hev
        cases hk with
        | dial _ => trivial
        | listen sdp hs _ => rfl
    · intro senderId parsed r l hs hr hl
      obtain ⟨l', hl', hid, _⟩ := hm.mapped _ r hr
      obtain rfl := Option.some.inj (hl.symm.trans hl')
      refine ⟨served_step l _ (hm.sessions r l hl) ?_ ?_, stepped r l _ (same r l hl)⟩
      · rw [hid]
        exact received_got hm hs
      · rintro c caller hev
        cases hev
        trivial
    · rintro r l senderId parsed c rest hf ⟨hl, hsame⟩
      obtain ⟨l₀, hl₀, hid, hcs⟩ := flushing_carries hm hf
      rw [← hsame l₀ hl₀] at hid hcs
      refine ⟨served_step l _ hl (hcs c (List.mem_cons_self ..)) ?_, stepped r l _ hsame⟩
      rintro c' caller hev
      cases hev
      exact ⟨hid, fun c' hc' => hcs c' (List.mem_cons_of_mem _ hc')⟩
    · rintro _ r l ⟨hl, hsame⟩
      exact ⟨served_step l _ hl trivial (fun _ _ hev => by cases hev), stepped r l _ hsame⟩
  exact fun r l hl => (hserved r l hl).1

private theorem buffered_step [Aiortc] {got : NetworkId → SignalingMessage → Prop} {m₀ m : Manager} {e : ManagerEvent}
    {outs : List Output} (hm : m₀.Origins got) (h : Acts m₀ e m outs) :
    ∀ k cs, m.pendingCandidates.get? k = some cs → ∀ c ∈ cs, Addressed got k c.message := by
  induction h with
  | tasks created closing => exact hm.buffered
  | direct r ev he hc =>
    rw [onSession_pendingCandidates]
    exact hm.buffered
  | enroll created k remoteId isDialer c caller hk =>
    simp only [enroll, onSession_pendingCandidates, createSession]
    exact hm.buffered
  | route created senderId parsed r hs hr =>
    rw [onSession_pendingCandidates]
    exact hm.buffered
  | buffer created senderId k candidate hs hk =>
    intro j cs hj c hc
    simp only [bufferPendingCandidate, Dict.get?_set] at hj
    have hold : ∀ c ∈ (m₀.pendingCandidates.get? k).getD [], Addressed got k c.message := by
      intro c hc
      cases hget : m₀.pendingCandidates.get? k with
      | none => simp [hget] at hc
      | some cs => exact hm.buffered k cs hget c (by simpa [hget] using hc)
    split at hj
    · next hjk =>
      obtain rfl := Option.some.inj hj
      rw [hjk]
      split at hc
      · rcases List.mem_append.mp hc with hc | hc
        · exact hold c hc
        · obtain rfl := List.mem_singleton.mp hc
          exact received_got hm hs
      · exact hold c hc
    · exact hm.buffered j cs hj c hc
  | take m outs h k ih => exact fun j cs hj => ih j cs (Dict.get?_of_pop _ hj).2
  | flush m outs h r senderId parsed c rest hf ih =>
    rw [onSession_pendingCandidates]
    exact ih
  | shut m outs h r closing he ih =>
    simp only [onSession_pendingCandidates]
    exact ih
  | clear m outs h he ih => exact ih

theorem created_step [Aiortc] {m₀ m : Manager} {e : ManagerEvent} {outs : List Output} (h : Acts m₀ e m outs) :
    m₀.Pending e m.created := by
  induction h with
  | tasks created closing hc => exact hc
  | direct r ev he hc =>
    rw [onSession_created]
    exact fun _ hs => Or.inl hs
  | enroll created k remoteId isDialer c caller hk hc =>
    simp only [enroll, onSession_created, createSession]
    exact hc
  | route created senderId parsed r hs hr hc =>
    rw [onSession_created]
    exact hc
  | buffer created senderId k candidate hs hk hc => exact hc
  | take m outs h k ih => exact ih
  | flush m outs h r senderId parsed c rest hf ih =>
    rw [onSession_created]
    exact ih
  | shut m outs h r closing he ih =>
    simp only [onSession_created]
    exact ih
  | clear m outs h he ih => exact ih

theorem origins_step [Aiortc] {got : NetworkId → SignalingMessage → Prop} (m : Manager) (e : ManagerEvent)
    (hm : m.Origins got) (he : Delivers got e) : (m.next e).Origins got := by
  refine ⟨mapped_step m e hm.mapped, ?_, buffered_step hm (step_acts m e), sessions_step m e hm⟩
  intro senderId text parsed hmem hparse
  rcases created_step (step_acts m e) _ hmem with hold | rfl
  · exact hm.created senderId text parsed hold hparse
  · exact he parsed hparse

/-! ### What a signal changes -/

/-- What a started signal task leaves of a session, and what it creates. -/
private theorem started_sessions [Aiortc] (m : Manager) (index : Nat) {senderId : NetworkId} {text : Text}
    (hcreated : m.created[index]? = some (senderId, text)) (r : Ref) (l : SessionLoop Caller)
    (hl : (m.next (.start index)).heap[r]? = some l) :
    m.heap[r]? = some l ∨ ∃ parsed, SignalingMessage.parse text = some (some parsed) ∧
      (m.sessions.get? parsed.connectionId = some r ∨
        m.heap.length ≤ r ∧ l.session.remoteId = senderId ∧ l.session.connectionId = parsed.connectionId) := by
  have received : ∀ senderId' parsed, m.Received (.start index) senderId' parsed →
      senderId' = senderId ∧ SignalingMessage.parse text = some (some parsed) := by
    rintro senderId' parsed ⟨index', text', hindex, hmem, hparse⟩
    cases hindex
    cases hcreated.symm.trans hmem
    exact ⟨rfl, hparse⟩
  apply (step_acts m (.start index)).sessions (P := fun r l =>
    m.heap[r]? = some l ∨ ∃ parsed, SignalingMessage.parse text = some (some parsed) ∧
      (m.sessions.get? parsed.connectionId = some r ∨
        m.heap.length ≤ r ∧ l.session.remoteId = senderId ∧ l.session.connectionId = parsed.connectionId)) _ _ _ _ _ _ r l hl
  · exact fun r l hl => Or.inl hl
  · intro r ev l he
    cases he
  · intro k remoteId isDialer c caller hk
    cases hk with
    | dial he => cases he
    | listen sdp hs _ =>
      obtain ⟨rfl, hparse⟩ := received _ _ hs
      obtain ⟨hid, hremote, _⟩ := SessionLoop.next_identity
        (SessionLoop.fresh (Session.new k m.localId remoteId false m.relayOnly))
        (.call (.handleSignal (.connectRequest k sdp)) (Caller.newSession remoteId (.connectRequest k sdp)))
      exact Or.inr ⟨_, hparse, Or.inr ⟨Nat.le_refl _, hremote, hid⟩⟩
  · intro senderId' parsed r l hs hr _
    exact Or.inr ⟨parsed, (received _ _ hs).2, Or.inl hr⟩
  · rintro r l senderId' parsed c rest ⟨_, _, _, _, _, he, _⟩
    cases he
  · intro he
    cases he

/-- An event of one session leaves the others as they are. -/
private theorem session_event_frame [Aiortc] (m : Manager) (r : Ref) (ev : SessionEvent Caller) {j : Ref}
    {l : SessionLoop Caller} (hj : j ≠ r) (hl : (m.next (.session r ev)).heap[j]? = some l) : m.heap[j]? = some l := by
  refine (step_acts m (.session r ev)).sessions (P := fun i l => i ≠ r → m.heap[i]? = some l) ?_ ?_ ?_ ?_ ?_ ?_ j l hl hj
  · exact fun i l hl _ => hl
  · intro i ev' l he _ _ hi
    cases he
    exact absurd rfl hi
  · intro k remoteId isDialer c caller hk
    cases hk with
    | dial he => cases he
    | listen sdp hs _ =>
      obtain ⟨index, text, he, _⟩ := hs
      cases he
  · rintro senderId parsed i l ⟨index, text, he, _⟩
    cases he
  · rintro i l senderId parsed c rest ⟨_, _, _, _, _, he, _⟩ _ hi
    cases he
    exact absurd rfl hi
  · intro he
    cases he

/-- What was there is there still. -/
theorem kept_of_next [Aiortc] {m : Manager} {e : ManagerEvent} {r : Ref} {l : SessionLoop Caller}
    (hl : m.heap[r]? = some l) : ∃ l', (m.next e).heap[r]? = some l' := by
  obtain ⟨hlt, _⟩ := List.getElem?_eq_some_iff.mp hl
  have hlt' := Nat.lt_of_lt_of_le hlt (length_step m e)
  exact ⟨_, List.getElem?_eq_getElem hlt'⟩

/-- Whoever the sender is, a signal changes only the session that stands under the
connection id it names, or creates one under that id for its sender; an event of one
session changes only that session; and a candidate reaches a session only from a
CANDIDATEADD with the session's connection id. -/
theorem signals_reach_by_connection_id [Aiortc] (localId : NetworkId) (relayOnly : Bool) (events : List ManagerEvent) :
    let m := Machine.run next (new localId relayOnly) events
    (∀ index senderId text, m.created[index]? = some (senderId, text) →
      (∀ (r : Ref) (l : SessionLoop Caller), m.heap[r]? = some l → (m.next (.start index)).heap[r]? = some l ∨
        ∃ parsed, SignalingMessage.parse text = some (some parsed) ∧ l.session.connectionId = parsed.connectionId ∧
          m.sessions.get? parsed.connectionId = some r) ∧
      ∀ (r : Ref) (l : SessionLoop Caller), m.heap[r]? = none → (m.next (.start index)).heap[r]? = some l →
        ∃ parsed, SignalingMessage.parse text = some (some parsed) ∧ l.session.connectionId = parsed.connectionId ∧
          l.session.remoteId = senderId) ∧
    (∀ (r : Ref) (ev : SessionEvent Caller) (j : Ref), j ≠ r → (m.next (.session r ev)).heap[j]? = m.heap[j]?) ∧
    ∀ (r : Ref) (l : SessionLoop Caller) (c : Candidate), m.heap[r]? = some l →
      .addIceCandidate c ∈ l.trace ∨ c ∈ l.session.pc.pendingRemoteCandidates →
      ∃ senderId text candidate, .deliver senderId text ∈ events ∧
        SignalingMessage.parse text = some (some (.candidateAdd l.session.connectionId candidate)) ∧
        PeerConnection.candidateFromMessage candidate = some c := by
  intro m
  have hmapped : m.Mapped := mapped_run localId relayOnly events
  refine ⟨fun index senderId text hcreated => ⟨?_, ?_⟩, ?_, ?_⟩
  · intro r l hl
    obtain ⟨l', hl'⟩ := kept_of_next (e := .start index) hl
    rcases started_sessions m index hcreated r l' hl' with hsame | ⟨parsed, hparse, hr | ⟨hge, _⟩⟩
    · exact Or.inl (hl'.trans (hsame.symm.trans hl))
    · obtain ⟨l₀, hl₀, hid, _⟩ := hmapped _ r hr
      obtain rfl := Option.some.inj (hl.symm.trans hl₀)
      exact Or.inr ⟨parsed, hparse, hid, hr⟩
    · obtain ⟨hlt, _⟩ := List.getElem?_eq_some_iff.mp hl
      exact absurd hlt (Nat.not_lt_of_le hge)
  · intro r l hnone hl
    rcases started_sessions m index hcreated r l hl with hsame | ⟨parsed, hparse, hr | ⟨_, hremote, hid⟩⟩
    · cases hnone.symm.trans hsame
    · obtain ⟨l₀, hl₀, _⟩ := hmapped _ r hr
      cases hnone.symm.trans hl₀
    · exact ⟨parsed, hparse, hid, hremote⟩
  · intro r ev j hj
    cases hl : m.heap[j]? with
    | none =>
      cases hl' : (m.next (.session r ev)).heap[j]? with
      | none => rfl
      | some l' => exact (hl.symm.trans (session_event_frame m r ev hj hl')).symm
    | some l =>
      obtain ⟨l', hl'⟩ := kept_of_next (e := .session r ev) hl
      rw [hl', ← session_event_frame m r ev hj hl', hl]
  · intro r l c hl hc
    have horigins : m.Origins fun senderId parsed => ∃ text, .deliver senderId text ∈ events ∧
        SignalingMessage.parse text = some (some parsed) := by
      refine Machine.run_invariant origins_step (origins_new _ localId relayOnly) (Machine.along_of_forall next _ ?_)
      rintro (_ | ⟨senderId, text⟩ | _ | _ | _ | _) he
      case deliver => exact fun parsed hparse => ⟨text, he, hparse⟩
      all_goals trivial
    obtain ⟨htraced, _⟩ := horigins.sessions r l hl
    have hannounced : Announced _ c := hc.elim (htraced.effects _) (htraced.pending c)
    obtain ⟨k, candidate, ⟨rfl, senderId, text, hmem, hparse⟩, hcandidate⟩ := hannounced
    exact ⟨senderId, text, candidate, hmem, hparse, hcandidate⟩

/-- A third peer closes the session of another one, and its candidate is applied to it. -/
theorem foreign_signals_accepted :
    letI : Aiortc := ⟨fun _ => true⟩
    let error := (SignalingMessage.connectError 7 (.member .none)).serialize
    let candidate := (SignalingMessage.candidateAdd 7 "candidate:1".toList).serialize
    let request := (SignalingMessage.connectRequest 7 []).serialize
    let goOn : ManagerEvent := .session 0 (.resume 0 (.ok []))
    let dialed := Machine.run next (new (.p2p 1) false) [.connect (.p2p 2) 7, goOn, goOn, .deliver (.p2p 3) error]
    let flushed := Machine.run next (new (.p2p 1) false)
      [.deliver (.p2p 3) candidate, .deliver (.p2p 2) request, .start 0, .start 0, goOn, goOn, goOn]
    (dialed.heap.map (fun l => (l.session.remoteId, l.session.state)) = [(.p2p 2, .offerSent)] ∧
      dialed.created = [(.p2p 3, error)] ∧
      (dialed.next (.start 0)).heap.map (fun l => l.session.state) = [.closed]) ∧
    flushed.heap.map (fun l => (l.session.remoteId, l.trace.contains (.addIceCandidate "1".toList))) = [(.p2p 2, true)] := by
  decide +kernel

end Manager
end NetherNet
