import NetherNet.Manager.Manager
import NetherNet.Session.Moves

/-! What one event can do to the manager, said once: a chain of events of single
sessions, with what the manager itself changes between them. -/
namespace NetherNet
open Library

def SessionEvent.isCall {κ : Type} : SessionEvent κ → Bool
  | .call _ _ => true
  | _ => false

/-- The events of the manager's `aclose`. -/
def ManagerEvent.isShutdown : ManagerEvent → Bool
  | .aclose | .teardown _ _ => true
  | _ => false

namespace Manager

/-! ### One event of one session -/

/-- What is not `on_close` takes no session out of the map. -/
private theorem callbacks_notice (m : Manager) (r : Ref) (k : Nat) (notice rest : List Effect)
    (h : ∀ f ∈ notice, f.isClose = false) : m.callbacks r k (notice ++ rest) = m.callbacks r k rest := by
  induction notice with
  | nil => rfl
  | cons f notice ih =>
    have hf := h f (List.mem_cons_self ..)
    have hrest := ih fun g hg => h g (List.mem_cons_of_mem _ hg)
    cases f <;> first | exact hrest | cases hf

private theorem callbacks_unclosed (m : Manager) (r : Ref) (k : Nat) (effects : List Effect)
    (h : ∀ f ∈ effects, f.isClose = false) : m.callbacks r k effects = m := by
  have hnotice := callbacks_notice m r k effects [] h
  rwa [List.append_nil] at hnotice

theorem step_session [Aiortc] (m : Manager) (r : Ref) {ev : SessionEvent Caller} (hc : ev.isCall = false) :
    m.step (.session r ev) = m.run r ev := by
  cases ev with
  | call c caller => cases hc
  | _ => rfl

theorem onSession_none [Aiortc] {m : Manager} {r : Ref} (e : SessionEvent Caller) (h : m.heap[r]? = none) :
    m.onSession r e = (m, [], .none) := by
  simp only [onSession, h]

theorem onSession_some [Aiortc] {m : Manager} {r : Ref} {l : SessionLoop Caller} (e : SessionEvent Caller)
    (h : m.heap[r]? = some l) :
    m.onSession r e =
      (({ m with heap := m.heap.set r (l.next e) }).callbacks r l.session.connectionId (l.step e).effects,
        (l.step e).effects.map (.effect r) ++ reports r (l.step e).outcome, (l.step e).outcome) := by
  simp only [onSession, h, SessionLoop.next]

/-- The manager follows its session: it drops the id exactly when the session closes. -/
theorem onSession_cases [Aiortc] {m : Manager} {r : Ref} {l : SessionLoop Caller} (e : SessionEvent Caller)
    (h : m.heap[r]? = some l) :
    ((∀ f ∈ (l.step e).effects, f.isClose = false) ∧
        (l.session.state ≠ .closed → (l.next e).session.state ≠ .closed) ∧
        (m.onSession r e).1 = { m with heap := m.heap.set r (l.next e) }) ∨
      (l.session.state ≠ .closed ∧ (l.next e).session.state = .closed ∧
        (∃ notice error, (l.step e).effects = notice ++ [.onClose error] ∧ ∀ f ∈ notice, f.isClose = false) ∧
        (m.onSession r e).1 =
          { m with heap := m.heap.set r (l.next e), sessions := m.sessions.pop l.session.connectionId,
                   pops := m.pops ++ [(r, m.sessions.get? l.session.connectionId)] }) := by
  rw [onSession_some e h]
  rcases (l.step_move e).closing with ⟨hclose, hstate⟩ | ⟨hopen, hclosed, notice, error, heffects, hnotice⟩
  · exact Or.inl ⟨hclose, hstate, callbacks_unclosed _ r _ _ hclose⟩
  · refine Or.inr ⟨hopen, hclosed, ⟨notice, error, heffects, hnotice⟩, ?_⟩
    rw [heffects]
    exact callbacks_notice _ r _ notice [.onClose error] hnotice

section Frame
variable [Aiortc] (m : Manager) (r : Ref) (e : SessionEvent Caller)

private theorem onSession_frame : (m.onSession r e).1.localId = m.localId ∧ (m.onSession r e).1.relayOnly = m.relayOnly ∧
    (m.onSession r e).1.pendingCandidates = m.pendingCandidates ∧ (m.onSession r e).1.created = m.created ∧
    (m.onSession r e).1.closing = m.closing ∧ (m.onSession r e).1.heap.length = m.heap.length := by
  cases h : m.heap[r]? with
  | none => simp [onSession_none e h]
  | some l => rcases onSession_cases e h with ⟨_, _, hm⟩ | ⟨_, _, _, hm⟩ <;> simp [hm]

@[simp] theorem onSession_localId : (m.onSession r e).1.localId = m.localId := (onSession_frame m r e).1
@[simp] theorem onSession_relayOnly : (m.onSession r e).1.relayOnly = m.relayOnly := (onSession_frame m r e).2.1
@[simp] theorem onSession_pendingCandidates : (m.onSession r e).1.pendingCandidates = m.pendingCandidates :=
  (onSession_frame m r e).2.2.1
@[simp] theorem onSession_created : (m.onSession r e).1.created = m.created := (onSession_frame m r e).2.2.2.1
@[simp] theorem onSession_closing : (m.onSession r e).1.closing = m.closing := (onSession_frame m r e).2.2.2.2.1
@[simp] theorem onSession_length : (m.onSession r e).1.heap.length = m.heap.length := (onSession_frame m r e).2.2.2.2.2
end Frame

/-- Every session but `r` is left as it is. -/
theorem onSession_heap [Aiortc] {m : Manager} {r : Ref} {l : SessionLoop Caller} (e : SessionEvent Caller)
    (h : m.heap[r]? = some l) (j : Ref) :
    (m.onSession r e).1.heap[j]? = if j = r then some (l.next e) else m.heap[j]? := by
  obtain ⟨hlt, _⟩ := List.getElem?_eq_some_iff.mp h
  have hset : (m.heap.set r (l.next e))[j]? = if j = r then some (l.next e) else m.heap[j]? := by
    rw [List.getElem?_set]
    by_cases hj : r = j
    · subst hj; simp [hlt]
    · rw [if_neg hj, if_neg (fun h => hj h.symm)]
  rcases onSession_cases e h with ⟨_, _, hm⟩ | ⟨_, _, _, hm⟩ <;> rw [hm] <;> exact hset

/-! ### A step of the manager -/

/-- The session put under a new id, and the call that follows at once. -/
def enroll [Aiortc] (m : Manager) (k : Nat) (remoteId : NetworkId) (isDialer : Bool) (c : Call) (caller : Caller) :
    Manager × List Output :=
  let made := m.createSession k remoteId isDialer
  let out := made.1.onSession made.2 (.call c caller)
  (out.1, out.2.1)

/-- The event hands a created signal task to the manager, and its text parses. -/
def Received (m : Manager) (e : ManagerEvent) (senderId : NetworkId) (parsed : SignalingMessage) : Prop :=
  ∃ index text, e = .start index ∧ m.created[index]? = some (senderId, text) ∧
    SignalingMessage.parse text = some (some parsed)

/-- The two ways a session comes to be. -/
inductive Admits (m : Manager) (e : ManagerEvent) : Nat → NetworkId → Bool → Call → Caller → Prop where
  | dial (k : Nat) (remoteId : NetworkId) (he : e = .connect remoteId k) : Admits m e k remoteId true .start .connect
  | listen (k : Nat) (senderId : NetworkId) (sdp : Text) (hs : m.Received e senderId (.connectRequest k sdp))
      (hk : m.sessions.get? k = none) :
      Admits m e k senderId false (.handleSignal (.connectRequest k sdp)) (.newSession senderId (.connectRequest k sdp))

/-- The event lets a coroutine of session `r` return, which leads to a flush of `cs`,
the candidates buffered for the id or what a suspended flush has left of them. -/
def Flushing [Aiortc] (m : Manager) (e : ManagerEvent) (r : Ref) (senderId : NetworkId) (parsed : SignalingMessage)
    (cs : List CandidateAdd) : Prop :=
  ∃ l index reply t value, e = .session r (.resume index reply) ∧ m.heap[r]? = some l ∧ l.tasks[index]? = some t ∧
    (l.step (.resume index reply)).outcome = .returned t.caller value ∧
    (t.caller = .newSession senderId parsed ∧ cs <:+ (m.pendingCandidates.get? parsed.connectionId).getD [] ∨
      ∃ rest, t.caller = .flush senderId parsed rest ∧ cs <:+ rest)

/-- The signal tasks after the event: those there were, and the one the event delivers. -/
def Pending (m : Manager) (e : ManagerEvent) (created : List (NetworkId × Text)) : Prop :=
  ∀ signal ∈ created, signal ∈ m.created ∨ e = .deliver signal.1 signal.2

/-- What the event `e` has done to the manager `m₀`, and shown, at some point within its step. -/
inductive Acts [Aiortc] (m₀ : Manager) (e : ManagerEvent) : Manager → List Output → Prop where
  | tasks (created : List (NetworkId × Text)) (closing : List Closing) (hc : m₀.Pending e created) :
      Acts m₀ e { m₀ with created := created, closing := closing } []
  | direct (r : Ref) (ev : SessionEvent Caller) (he : e = .session r ev) (hc : ev.isCall = false) :
      Acts m₀ e (m₀.onSession r ev).1 (m₀.onSession r ev).2.1
  | enroll (created : List (NetworkId × Text)) (k : Nat) (remoteId : NetworkId) (isDialer : Bool) (c : Call)
      (caller : Caller) (hk : m₀.Admits e k remoteId isDialer c caller) (hc : m₀.Pending e created) :
      Acts m₀ e ({ m₀ with created := created }.enroll k remoteId isDialer c caller).1
        ({ m₀ with created := created }.enroll k remoteId isDialer c caller).2
  | route (created : List (NetworkId × Text)) (senderId : NetworkId) (parsed : SignalingMessage) (r : Ref)
      (hs : m₀.Received e senderId parsed) (hr : m₀.sessions.get? parsed.connectionId = some r)
      (hc : m₀.Pending e created) :
      Acts m₀ e ({ m₀ with created := created }.onSession r (.call (.handleSignal parsed) (.handleSignal senderId parsed))).1
        ({ m₀ with created := created }.onSession r (.call (.handleSignal parsed) (.handleSignal senderId parsed))).2.1
  | buffer (created : List (NetworkId × Text)) (senderId : NetworkId) (k : Nat) (candidate : Text)
      (hs : m₀.Received e senderId (.candidateAdd k candidate)) (hk : m₀.sessions.get? k = none)
      (hc : m₀.Pending e created) :
      Acts m₀ e ({ m₀ with created := created }.bufferPendingCandidate ⟨k, candidate⟩) []
  | take (m : Manager) (outs : List Output) (h : Acts m₀ e m outs) (k : Nat) :
      Acts m₀ e { m with pendingCandidates := m.pendingCandidates.pop k } outs
  | flush (m : Manager) (outs : List Output) (h : Acts m₀ e m outs) (r : Ref) (senderId : NetworkId)
      (parsed : SignalingMessage) (c : CandidateAdd) (rest : List CandidateAdd)
      (hf : m₀.Flushing e r senderId parsed (c :: rest)) :
      Acts m₀ e (m.onSession r (.call (.handleSignal c.message) (.flush senderId parsed rest))).1
        (outs ++ (m.onSession r (.call (.handleSignal c.message) (.flush senderId parsed rest))).2.1)
  | shut (m : Manager) (outs : List Output) (h : Acts m₀ e m outs) (r : Ref) (closing : List Closing)
      (he : e.isShutdown = true) :
      Acts m₀ e { (m.onSession r (.aclose (.member .none))).1 with closing := closing }
        (outs ++ (m.onSession r (.aclose (.member .none))).2.1)
  | clear (m : Manager) (outs : List Output) (h : Acts m₀ e m outs) (he : e.isShutdown = true) :
      Acts m₀ e { m with sessions := Dict.empty } (outs ++ [.aclosed])

/-! ### Every step is such a chain -/

/-- The first call on a session is suspended, so it neither returns nor raises at once. -/
theorem enroll_outcome [Aiortc] {m : Manager} (m₁ : Manager) {e : ManagerEvent} {k : Nat} {remoteId : NetworkId}
    {isDialer : Bool} {c : Call} {caller : Caller} (hk : m.Admits e k remoteId isDialer c caller) :
    ((m₁.createSession k remoteId isDialer).1.onSession (m₁.createSession k remoteId isDialer).2 (.call c caller)).2.2 =
      .none := by
  have hnew : (m₁.createSession k remoteId isDialer).1.heap[(m₁.createSession k remoteId isDialer).2]? =
      some (.fresh (Session.new k m₁.localId remoteId isDialer m₁.relayOnly)) := by
    simp [createSession]
  rw [onSession_some _ hnew]
  cases hk with
  | dial _ => rfl
  | listen _ _ _ => rfl

theorem run_of_outcome [Aiortc] (m : Manager) (r : Ref) (ev : SessionEvent Caller) {o : Outcome Caller}
    (h : (m.onSession r ev).2.2 = o) :
    m.run r ev = (((m.onSession r ev).1.afterCall r o).1, (m.onSession r ev).2.1 ++ ((m.onSession r ev).1.afterCall r o).2) := by
  subst h
  rfl

theorem createSession_run [Aiortc] {m : Manager} (m₁ : Manager) {e : ManagerEvent} {k : Nat} {remoteId : NetworkId}
    {isDialer : Bool} {c : Call} {caller : Caller} (hk : m.Admits e k remoteId isDialer c caller) :
    (m₁.createSession k remoteId isDialer).1.run (m₁.createSession k remoteId isDialer).2 (.call c caller) =
      m₁.enroll k remoteId isDialer c caller := by
  rw [run_of_outcome _ _ _ (enroll_outcome m₁ hk)]
  simp only [enroll, afterCall, List.append_nil]

private theorem acts_flush [Aiortc] {m₀ : Manager} {e : ManagerEvent} {r : Ref} {senderId : NetworkId}
    {parsed : SignalingMessage} (cs : List CandidateAdd) {m : Manager} {outs : List Output} (h : Acts m₀ e m outs)
    (hf : ∀ c rest, (c :: rest) <:+ cs → m₀.Flushing e r senderId parsed (c :: rest)) :
    Acts m₀ e (Manager.flush r senderId parsed cs m).1 (outs ++ (Manager.flush r senderId parsed cs m).2) := by
  induction cs generalizing m outs with
  | nil => simpa [Manager.flush] using h
  | cons c rest ih =>
    have hone := Acts.flush m outs h r senderId parsed c rest (hf c rest (List.suffix_refl _))
    simp only [Manager.flush]
    split
    · rw [← List.append_assoc]
      exact ih hone fun d tail htail => hf d tail (htail.trans (List.suffix_cons c rest))
    · exact hone

/-- Whom a suspended coroutine reports to when it goes on, it named when it was called. -/
theorem outcome_caller [Aiortc] (l : SessionLoop Caller) (ev : SessionEvent Caller) (hc : ev.isCall = false)
    (caller : Caller) (value : Option Text) (h : (l.step ev).outcome = .returned caller value) :
    ∃ index reply t, ev = .resume index reply ∧ l.tasks[index]? = some t ∧ t.caller = caller := by
  cases ev with
  | call c k => cases hc
  | resume index reply =>
    simp only [SessionLoop.step] at h
    split at h
    · cases h
    · next t ht =>
      refine ⟨index, reply, t, rfl, ht, ?_⟩
      unfold SessionLoop.segment at h
      cases hflow : (l.session.resume t.coroutine reply).flow <;> simp only [hflow] at h <;> cases h
      rfl
  | dataChannel label readyState => simp only [SessionLoop.step] at h; split at h <;> cases h
  | channelOpen isReliable => simp only [SessionLoop.step] at h; split at h <;> cases h
  | channelMessage isReliable data => simp only [SessionLoop.step] at h; split at h <;> cases h
  | _ => cases h

private theorem acts_direct [Aiortc] (m₀ : Manager) (r : Ref) (ev : SessionEvent Caller) (hc : ev.isCall = false) :
    Acts m₀ (.session r ev) (m₀.run r ev).1 (m₀.run r ev).2 := by
  have hone : Acts m₀ (.session r ev) _ _ := Acts.direct r ev rfl hc
  cases hout : (m₀.onSession r ev).2.2 with
  | none =>
    rw [run_of_outcome m₀ r ev hout]
    simpa [afterCall] using hone
  | raised caller =>
    rw [run_of_outcome m₀ r ev hout]
    simpa [afterCall] using hone
  | returned caller value =>
    have hend : ∃ l index reply t, ev = .resume index reply ∧ m₀.heap[r]? = some l ∧ l.tasks[index]? = some t ∧
        t.caller = caller ∧ (l.step ev).outcome = .returned caller value := by
      cases hl : m₀.heap[r]? with
      | none =>
        rw [onSession_none ev hl] at hout
        cases hout
      | some l =>
        rw [onSession_some ev hl] at hout
        obtain ⟨index, reply, t, hev, ht, hcaller⟩ := outcome_caller l ev hc caller value hout
        exact ⟨l, index, reply, t, hev, rfl, ht, hcaller, hout⟩
    obtain ⟨l, index, reply, t, rfl, hl, ht, rfl, hreturn⟩ := hend
    rw [run_of_outcome m₀ r _ hout]
    cases hcaller : t.caller with
    | connect => simpa [afterCall] using hone
    | handleSignal senderId parsed => simpa [afterCall] using hone
    | newSession senderId parsed =>
      apply acts_flush _ (Acts.take _ _ hone parsed.connectionId)
      intro c rest hsuffix
      rw [onSession_pendingCandidates] at hsuffix
      exact ⟨l, index, reply, t, value, rfl, hl, ht, hreturn, Or.inl ⟨hcaller, hsuffix⟩⟩
    | flush senderId parsed left =>
      apply acts_flush _ hone
      intro c rest hsuffix
      exact ⟨l, index, reply, t, value, rfl, hl, ht, hreturn, Or.inr ⟨left, hcaller, hsuffix⟩⟩

/-- A call that returns at once returns to its caller. -/
theorem call_caller [Aiortc] (m : Manager) (r : Ref) (c : Call) (caller caller' : Caller) (value : Option Text)
    (h : (m.onSession r (.call c caller)).2.2 = .returned caller' value) : caller' = caller := by
  cases hl : m.heap[r]? with
  | none =>
    rw [onSession_none _ hl] at h
    cases h
  | some l =>
    rw [onSession_some _ hl] at h
    simp only [SessionLoop.step, SessionLoop.segment] at h
    split at h <;> cases h
    rfl

private theorem acts_shut [Aiortc] {m₀ : Manager} {e : ManagerEvent} {m : Manager} {outs : List Output}
    (h : Acts m₀ e m outs) (he : e.isShutdown = true) (snapshot : Nat) (rs : List Ref) :
    Acts m₀ e (m.acloseFrom snapshot rs).1 (outs ++ (m.acloseFrom snapshot rs).2) := by
  cases rs with
  | nil => exact Acts.clear m outs h he
  | cons r rest => exact Acts.shut m outs h r _ he

private theorem acts_received [Aiortc] {m₀ : Manager} {index : Nat} {senderId : NetworkId} {message : Text}
    (hcreated : m₀.created[index]? = some (senderId, message)) (created : List (NetworkId × Text))
    (hc : m₀.Pending (.start index) created) :
    Acts m₀ (.start index) ({ m₀ with created := created }.handleSignal senderId message).1
      ({ m₀ with created := created }.handleSignal senderId message).2 := by
  have hskip : Acts m₀ (.start index) { m₀ with created := created } [] :=
    Acts.tasks created m₀.closing hc
  unfold handleSignal
  cases hparse : SignalingMessage.parse message with
  | none => exact hskip
  | some o =>
    cases o with
    | none => exact hskip
    | some parsed =>
      have hs : m₀.Received (.start index) senderId parsed := ⟨index, message, rfl, hcreated, hparse⟩
      simp only
      cases hr : m₀.sessions.get? parsed.connectionId with
      | some r =>
        have hroute := Acts.route created senderId parsed r hs hr hc
        simp only
        cases hout : ({ m₀ with created := created }.onSession r
            (.call (.handleSignal parsed) (.handleSignal senderId parsed))).2.2 with
        | none =>
          rw [run_of_outcome _ _ _ hout]
          simpa [afterCall] using hroute
        | raised caller =>
          rw [run_of_outcome _ _ _ hout]
          simpa [afterCall] using hroute
        | returned caller value =>
          obtain rfl := call_caller _ _ _ _ _ _ hout
          rw [run_of_outcome _ _ _ hout]
          simpa [afterCall] using hroute
      | none =>
        cases parsed with
        | connectRequest k sdp =>
          have hk := Admits.listen k senderId sdp hs hr
          simp only
          rw [createSession_run _ hk]
          exact Acts.enroll created _ _ _ _ _ hk hc
        | candidateAdd k candidate => exact Acts.buffer created senderId k candidate hs hr hc
        | connectResponse k sdp => exact hskip
        | connectError k error => exact hskip

/-- Every step is such a chain of acts. -/
theorem step_acts [Aiortc] (m : Manager) (e : ManagerEvent) : Acts m e (m.step e).1 (m.step e).2 := by
  have kept : m.Pending e m.created := fun signal hs => Or.inl hs
  have hskip : Acts m e m [] := Acts.tasks m.created m.closing kept
  cases e with
  | connect remoteId k =>
    have hk : m.Admits (.connect remoteId k) k remoteId true .start .connect := Admits.dial k remoteId rfl
    simp only [step, connect]
    rw [createSession_run m hk]
    exact Acts.enroll m.created _ _ _ _ _ hk kept
  | deliver senderId message =>
    refine Acts.tasks _ m.closing fun signal hs => ?_
    rcases List.mem_append.mp hs with hs | hs
    · exact Or.inl hs
    · obtain rfl := List.mem_singleton.mp hs
      exact Or.inr rfl
  | start index =>
    simp only [step]
    cases hcreated : m.created[index]? with
    | none => exact hskip
    | some signal => exact acts_received hcreated _ fun signal hs => Or.inl (List.mem_of_mem_eraseIdx hs)
  | session r ev =>
    cases hcall : ev.isCall with
    | true =>
      cases ev with
      | call c caller => exact hskip
      | _ => cases hcall
    | false =>
      have hdirect := acts_direct m r ev hcall
      cases ev with
      | call c caller => cases hcall
      | _ => exact hdirect
  | aclose => exact acts_shut hskip rfl m.heap.length m.sessions.values
  | teardown index succeeds =>
    simp only [step]
    cases hclosing : m.closing[index]? with
    | none => exact hskip
    | some c =>
      have hrest : Acts m (.teardown index succeeds) { m with closing := m.closing.eraseIdx index } [] :=
        Acts.tasks m.created _ kept
      cases succeeds with
      | true => exact acts_shut hrest rfl c.snapshot c.rest
      | false => exact hrest

/-! ### What holds of every session -/

theorem enroll_heap [Aiortc] (m : Manager) (k : Nat) (remoteId : NetworkId) (isDialer : Bool) (c : Call) (caller : Caller)
    (j : Ref) :
    (m.enroll k remoteId isDialer c caller).1.heap[j]? =
      if j = m.heap.length then
        some ((SessionLoop.fresh (Session.new k m.localId remoteId isDialer m.relayOnly)).next (.call c caller))
      else m.heap[j]? := by
  have hnew : (m.createSession k remoteId isDialer).1.heap[m.heap.length]? =
      some (.fresh (Session.new k m.localId remoteId isDialer m.relayOnly)) := by
    simp [createSession]
  simp only [enroll]
  rw [show (m.createSession k remoteId isDialer).2 = m.heap.length from rfl, onSession_heap (.call c caller) hnew]
  split
  · rfl
  · next hj =>
    simp only [createSession, List.getElem?_append]
    split
    · rfl
    · next hlt =>
      have hge : m.heap.length ≤ j := Nat.le_of_not_lt hlt
      have hout : j - m.heap.length ≠ 0 := Nat.sub_ne_zero_of_lt (Nat.lt_of_le_of_ne hge fun h => hj h.symm)
      rw [List.getElem?_eq_none hge]
      simp [hout]

/-- The rule for a property of every session: what a step may do to one keeps it. -/
theorem Acts.sessions [Aiortc] {m₀ : Manager} {e : ManagerEvent} {P : Ref → SessionLoop Caller → Prop}
    (before : ∀ r l, m₀.heap[r]? = some l → P r l)
    (direct : ∀ r ev l, e = .session r ev → ev.isCall = false → m₀.heap[r]? = some l → P r (l.next ev))
    (enrolled : ∀ k remoteId isDialer c caller, m₀.Admits e k remoteId isDialer c caller →
      P m₀.heap.length
        ((SessionLoop.fresh (Session.new k m₀.localId remoteId isDialer m₀.relayOnly)).next (.call c caller)))
    (routed : ∀ senderId parsed r l, m₀.Received e senderId parsed → m₀.sessions.get? parsed.connectionId = some r →
      m₀.heap[r]? = some l → P r (l.next (.call (.handleSignal parsed) (.handleSignal senderId parsed))))
    (flushed : ∀ r l senderId parsed c rest, m₀.Flushing e r senderId parsed (c :: rest) → P r l →
      P r (l.next (.call (.handleSignal c.message) (.flush senderId parsed rest))))
    (shut : e.isShutdown = true → ∀ r l, P r l → P r (l.next (.aclose (.member .none))))
    {m : Manager} {outs : List Output} (h : Acts m₀ e m outs) : ∀ r l, m.heap[r]? = some l → P r l := by
  have stepped : ∀ (m : Manager) (r : Ref) (ev : SessionEvent Caller), (∀ j l, m.heap[j]? = some l → P j l) →
      (∀ l, m.heap[r]? = some l → P r (l.next ev)) → ∀ j l, (m.onSession r ev).1.heap[j]? = some l → P j l := by
    intro m r ev hm hr j l hl
    cases hold : m.heap[r]? with
    | none =>
      rw [onSession_none ev hold] at hl
      exact hm j l hl
    | some old =>
      rw [onSession_heap ev hold] at hl
      split at hl
      · next hj =>
        obtain rfl := Option.some.inj hl
        rw [hj]
        exact hr old hold
      · exact hm j l hl
  induction h with
  | tasks created closing => exact before
  | direct r ev he hc => exact stepped m₀ r ev before fun l hl => direct r ev l he hc hl
  | enroll created k remoteId isDialer c caller hk =>
    intro j l hl
    rw [enroll_heap] at hl
    split at hl
    · next hj =>
      obtain rfl := Option.some.inj hl
      rw [hj]
      exact enrolled k remoteId isDialer c caller hk
    · exact before j l hl
  | route created senderId parsed r hs hr =>
    exact stepped { m₀ with created := created } r _ before fun l hl => routed senderId parsed r l hs hr hl
  | buffer created senderId k candidate hs hk => exact before
  | take m outs h k ih => exact ih
  | flush m outs h r senderId parsed c rest hf ih =>
    exact stepped m r _ ih fun l hl => flushed r l senderId parsed c rest hf (ih r l hl)
  | shut m outs h r closing he ih => exact stepped m r _ ih fun l hl => shut he r l (ih r l hl)
  | clear m outs h he ih => exact ih

/-- The rule for an invariant of the manager: bookkeeping, `clear`, a new session and
one event of one session keep it. -/
theorem Acts.invariant [Aiortc] {m₀ : Manager} {e : ManagerEvent} {Inv : Manager → Prop} (before : Inv m₀)
    (books : ∀ m created closing pendingCandidates, Inv m →
      Inv { m with created := created, closing := closing, pendingCandidates := pendingCandidates })
    (clear : ∀ m, Inv m → Inv { m with sessions := Dict.empty })
    (creates : ∀ m k remoteId isDialer c caller, Inv m → m.heap = m₀.heap →
      m₀.Admits e k remoteId isDialer c caller → Inv (m.createSession k remoteId isDialer).1)
    (session : ∀ m r ev, Inv m →
      (ev.isCall = true ∨ (∃ error, ev = .aclose error) ∨ e = .session r ev ∧ m.heap = m₀.heap) →
      Inv (m.onSession r ev).1)
    {m : Manager} {outs : List Output} (h : Acts m₀ e m outs) : Inv m := by
  induction h with
  | tasks created closing => exact books m₀ created closing m₀.pendingCandidates before
  | direct r ev he hc => exact session m₀ r ev before (Or.inr (Or.inr ⟨he, rfl⟩))
  | enroll created k remoteId isDialer c caller hk =>
    have hm := books m₀ created m₀.closing m₀.pendingCandidates before
    exact session _ _ _ (creates _ k remoteId isDialer c caller hm rfl hk) (Or.inl rfl)
  | route created senderId parsed r hs hr =>
    exact session _ r _ (books m₀ created m₀.closing m₀.pendingCandidates before) (Or.inl rfl)
  | buffer created senderId k candidate hs hk => exact books m₀ created m₀.closing _ before
  | take m outs h k ih => exact books m m.created m.closing _ ih
  | flush m outs h r senderId parsed c rest hf ih => exact session m r _ ih (Or.inl rfl)
  | shut m outs h r closing he ih =>
    have hm := session m r (.aclose (.member .none)) ih (Or.inr (Or.inl ⟨_, rfl⟩))
    exact books _ (m.onSession r (.aclose (.member .none))).1.created closing
      (m.onSession r (.aclose (.member .none))).1.pendingCandidates hm
  | clear m outs h he ih => exact clear m ih

/-- No session is ever forgotten. -/
theorem length_step [Aiortc] (m : Manager) (e : ManagerEvent) : m.heap.length ≤ (m.next e).heap.length := by
  refine @Acts.invariant _ m e (fun m' => m.heap.length ≤ m'.heap.length) (Nat.le_refl _) ?_ ?_ ?_ ?_ _ _ (step_acts m e)
  · exact fun _ _ _ _ h => h
  · exact fun _ h => h
  · intro m' k remoteId isDialer c caller h _ _
    simp only [createSession, List.length_append]
    omega
  · intro m' r ev h _
    rwa [onSession_length]

end Manager
end NetherNet
