import NetherNet.Manager.Ledger
import NetherNet.Manager.Provenance
import NetherNet.Manager.Histories

/-! Every candidate that the manager receives for a session is handed to aiortc once,
whichever of the three ways it takes. -/
namespace NetherNet
namespace Manager
open Library

/-- The message that the event hands to the manager, where its text parses. -/
def handled (m : Manager) : ManagerEvent → Option SignalingMessage
  | .start index => (m.created[index]?).bind fun signal => (SignalingMessage.parse signal.2).join
  | _ => none

/-- The messages for connection id `k` that are handled, each with the session that stands under the id. -/
def heard (k : Nat) (m : Manager) (e : ManagerEvent) : List (Option Ref × SignalingMessage) :=
  match m.handled e with
  | some parsed => if parsed.connectionId = k then [(m.sessions.get? k, parsed)] else []
  | none => []

/-- The messages that found `holder` under their id. -/
def found (holder : Option Ref) (log : List (Option Ref × SignalingMessage)) : List SignalingMessage :=
  log.filterMap fun s => if s.1 = holder then some s.2 else none

def adds (messages : List SignalingMessage) : List CandidateAdd := messages.flatMap (·.adds)

def requests (messages : List SignalingMessage) : Nat := messages.countP (·.identifier = .connectRequest)

@[simp] theorem found_append (holder : Option Ref) (log more : List (Option Ref × SignalingMessage)) :
    found holder (log ++ more) = found holder log ++ found holder more := List.filterMap_append
@[simp] theorem adds_append (messages more : List SignalingMessage) : adds (messages ++ more) = adds messages ++ adds more :=
  List.flatMap_append
@[simp] theorem requests_append (messages more : List SignalingMessage) :
    requests (messages ++ more) = requests messages + requests more := List.countP_append

theorem received_of_handled {m : Manager} {e : ManagerEvent} {parsed : SignalingMessage} (h : m.handled e = some parsed) :
    ∃ senderId, m.Received e senderId parsed := by
  cases e with
  | start index =>
    simp only [handled, Option.bind_eq_some_iff, Option.join_eq_some_iff] at h
    obtain ⟨⟨senderId, text⟩, hcreated, hparse⟩ := h
    exact ⟨senderId, index, text, rfl, hcreated, hparse⟩
  | _ => cases h

/-- What is heard, a signal task has brought. -/
theorem heard_cases (k : Nat) (m : Manager) (e : ManagerEvent) :
    heard k m e = [] ∨ ∃ senderId parsed, m.Received e senderId parsed ∧ parsed.connectionId = k ∧
      heard k m e = [(m.sessions.get? k, parsed)] := by
  unfold heard
  cases hhandled : m.handled e with
  | none => exact Or.inl rfl
  | some parsed =>
    by_cases hk : parsed.connectionId = k
    · obtain ⟨senderId, hs⟩ := received_of_handled hhandled
      exact Or.inr ⟨senderId, parsed, hs, hk, by simp only [if_pos hk]⟩
    · exact Or.inl (by simp only [if_neg hk])

theorem heard_received {k : Nat} {m : Manager} {e : ManagerEvent} {senderId : NetworkId} {parsed : SignalingMessage}
    (h : m.Received e senderId parsed) (hk : parsed.connectionId = k) : heard k m e = [(m.sessions.get? k, parsed)] := by
  obtain ⟨index, text, rfl, hcreated, hparse⟩ := h
  have hhandled : m.handled (.start index) = some parsed := by
    simp only [handled, hcreated, Option.bind_some, hparse, Option.join_some]
  simp only [heard, hhandled, if_pos hk]

/-! ### What one step does to a session and to the buffer of an id -/

/-- A session that the event does not name is left as it is, or shut down with the manager. -/
private theorem elsewhere [Aiortc] {m : Manager} {e : ManagerEvent} {r : Ref} {l l' : SessionLoop Caller}
    (hl : m.heap[r]? = some l) (hsession : ∀ ev, e ≠ .session r ev)
    (hsignal : ∀ senderId parsed, m.Received e senderId parsed → m.sessions.get? parsed.connectionId ≠ some r)
    (hl' : (m.next e).heap[r]? = some l') : l' = l ∨ l'.session.state = .closed := by
  refine (step_acts m e).sessions (P := fun j l' => j = r → l' = l ∨ l'.session.state = .closed) ?_ ?_ ?_ ?_ ?_ ?_ r l' hl' rfl
  · rintro j l' hj rfl
    exact Or.inl (Option.some.inj (hj.symm.trans hl))
  · rintro j ev l' he _ _ rfl
    exact absurd he (hsession ev)
  · rintro k remoteId isDialer c caller _ hj
    rw [← hj] at hl
    simp at hl
  · rintro senderId parsed j l' hs hr _ rfl
    exact absurd hr (hsignal senderId parsed hs)
  · rintro j l' senderId parsed c rest ⟨_, _, _, _, _, he, _⟩ _ rfl
    exact absurd he (hsession _)
  · exact fun _ _ l' _ _ => Or.inr (l'.aclose_closes _)

/-- A session that the event has just created, and called. -/
private def Enrolled [Aiortc] (m : Manager) (e : ManagerEvent) (l : SessionLoop Caller) : Prop :=
  ∃ k remoteId isDialer c caller, m.Admits e k remoteId isDialer c caller ∧
    l = (SessionLoop.fresh (Session.new k m.localId remoteId isDialer m.relayOnly)).next (.call c caller)

private theorem created_session [Aiortc] {m : Manager} {e : ManagerEvent} {l : SessionLoop Caller}
    (hl : (m.next e).heap[m.heap.length]? = some l) : Enrolled m e l := by
  refine (step_acts m e).sessions (P := fun j l => j = m.heap.length → Enrolled m e l) ?_ ?_ ?_ ?_ ?_ ?_ _ l hl rfl
  · rintro j l hj rfl
    simp at hj
  · rintro j ev l _ _ hj rfl
    simp at hj
  · exact fun k remoteId isDialer c caller hk _ => ⟨k, remoteId, isDialer, c, caller, hk, rfl⟩
  · rintro senderId parsed j l _ _ hj rfl
    simp at hj
  · rintro j l senderId parsed c rest ⟨_, _, _, _, _, _, hj, _⟩ _ rfl
    simp at hj
  · intro he j l h hj
    obtain ⟨k, remoteId, isDialer, c, caller, hk, _⟩ := h hj
    cases hk with
    | dial he' =>
      subst he'
      cases he
    | listen sdp hs _ =>
      obtain ⟨index, text, rfl, _⟩ := hs
      cases he

/-- The session that a signal is routed to. -/
private theorem routed_session [Aiortc] {m : Manager} {e : ManagerEvent} {senderId : NetworkId} {parsed : SignalingMessage}
    {r : Ref} {l : SessionLoop Caller} (hs : m.Received e senderId parsed) (hr : m.sessions.get? parsed.connectionId = some r)
    (hl : m.heap[r]? = some l) :
    (m.next e).heap[r]? = some (l.next (.call (.handleSignal parsed) (.handleSignal senderId parsed))) := by
  obtain ⟨index, text, rfl, hcreated, hparse⟩ := hs
  have hheap := onSession_heap (m := { m with created := m.created.eraseIdx index })
    (.call (.handleSignal parsed) (.handleSignal senderId parsed)) hl r
  rw [if_pos rfl] at hheap
  have hnext : (m.next (.start index)).heap = ({ m with created := m.created.eraseIdx index }.onSession r
      (.call (.handleSignal parsed) (.handleSignal senderId parsed))).1.heap := by
    simp only [next, step, hcreated, handleSignal, hparse, hr]
    cases hout : ({ m with created := m.created.eraseIdx index }.onSession r
        (.call (.handleSignal parsed) (.handleSignal senderId parsed))).2.2 with
    | none =>
      rw [run_of_outcome _ _ _ hout]
      rfl
    | raised caller =>
      rw [run_of_outcome _ _ _ hout]
      rfl
    | returned caller value =>
      obtain rfl := call_caller _ _ _ _ _ _ hout
      rw [run_of_outcome _ _ _ hout]
      rfl
  rw [hnext]
  exact hheap

/-- An event of a session empties the buffer of the id whose answer has come through. -/
private theorem session_buffered [Aiortc] (m : Manager) (r : Ref) (ev : SessionEvent Caller) (hc : ev.isCall = false) (k : Nat) :
    (m.run r ev).1.buffered k = m.buffered k ∨ (m.run r ev).1.buffered k = [] ∧ ∃ l t senderId parsed, m.heap[r]? = some l ∧
      t ∈ l.tasks ∧ t.caller = .newSession senderId parsed ∧ parsed.connectionId = k := by
  simp only [buffered, run_pendingCandidates]
  split
  · next senderId parsed value hout =>
    by_cases hk : parsed.connectionId = k
    · refine Or.inr ⟨by rw [hk, Dict.get?_pop_self]; rfl, ?_⟩
      cases hl : m.heap[r]? with
      | none =>
        rw [onSession_none ev hl] at hout
        cases hout
      | some l =>
        rw [onSession_some ev hl] at hout
        obtain ⟨index, reply, t, _, ht, hcaller⟩ := outcome_caller l ev hc _ value hout
        exact ⟨l, t, senderId, parsed, rfl, List.mem_of_getElem? ht, hcaller, hk⟩
    · exact Or.inl (by rw [Dict.get?_pop_ne _ fun h => hk h.symm])
  · exact Or.inl rfl

/-- A message that is handled touches the buffers only as a candidate that finds no session. -/
private theorem received_buffered [Aiortc] {m : Manager} {e : ManagerEvent} {senderId : NetworkId} {parsed : SignalingMessage}
    (hs : m.Received e senderId parsed) :
    (m.next e).pendingCandidates = m.pendingCandidates ∧
        (m.sessions.get? parsed.connectionId = none → parsed.adds = []) ∨
      ∃ c, m.sessions.get? parsed.connectionId = none ∧ parsed = .candidateAdd parsed.connectionId c ∧
        (m.next e).pendingCandidates = (m.bufferPendingCandidate ⟨parsed.connectionId, c⟩).pendingCandidates := by
  have hreceived := hs
  obtain ⟨index, text, rfl, hcreated, hparse⟩ := hs
  simp only [next, step, hcreated, handleSignal, hparse]
  cases hr : m.sessions.get? parsed.connectionId with
  | some r =>
    refine Or.inl ⟨?_, fun hnone => by cases hnone⟩
    simp only [run_pendingCandidates]
    split
    · next hout =>
      cases call_caller _ _ _ _ _ _ hout
    · rfl
  | none =>
    cases parsed with
    | connectRequest k sdp =>
      have hk : m.Admits (.start index) k senderId false (.handleSignal (.connectRequest k sdp))
        (.newSession senderId (.connectRequest k sdp)) := Admits.listen k senderId sdp hreceived hr
      refine Or.inl ⟨?_, fun _ => rfl⟩
      simp only [run_pendingCandidates, enroll_outcome _ hk]
      rfl
    | candidateAdd k c => exact Or.inr ⟨c, rfl, rfl, rfl⟩
    | connectResponse k sdp => exact Or.inl ⟨rfl, fun _ => rfl⟩
    | connectError k error => exact Or.inl ⟨rfl, fun _ => rfl⟩

/-- The buffer of an id takes the candidates that find no session, up to its limit. -/
private theorem buffered_next [Aiortc] (m : Manager) (e : ManagerEvent) (k : Nat)
    (hcap : (m.buffered k).length ≤ maxPendingCandidates) :
    (m.next e).buffered k = (m.buffered k ++ adds (found none (heard k m e))).take maxPendingCandidates ∨
      (m.next e).buffered k = [] ∧ ∃ r ev l t senderId parsed, e = .session r ev ∧ m.heap[r]? = some l ∧ t ∈ l.tasks ∧
        t.caller = .newSession senderId parsed ∧ parsed.connectionId = k := by
  have same : (m.next e).buffered k = m.buffered k → adds (found none (heard k m e)) = [] →
      (m.next e).buffered k = (m.buffered k ++ adds (found none (heard k m e))).take maxPendingCandidates := by
    intro h hnone
    rw [h, hnone, List.append_nil, List.take_of_length_le hcap]
  cases e with
  | connect remoteId k' =>
    refine Or.inl (same ?_ rfl)
    have hk : m.Admits (.connect remoteId k') k' remoteId true .start .connect := Admits.dial k' remoteId rfl
    simp only [buffered, next, step, connect, run_pendingCandidates, enroll_outcome m hk]
    rfl
  | deliver senderId message => exact Or.inl (same rfl rfl)
  | session r ev =>
    cases hc : ev.isCall with
    | true =>
      cases ev with
      | call c caller => exact Or.inl (same rfl rfl)
      | _ => cases hc
    | false =>
      have hnext : m.next (.session r ev) = (m.run r ev).1 := congrArg Prod.fst (step_session m r hc)
      rw [hnext] at same ⊢
      rcases session_buffered m r ev hc k with hsame | ⟨hempty, l, t, senderId, parsed, hl, ht, hcaller, hk⟩
      · exact Or.inl (same hsame rfl)
      · exact Or.inr ⟨hempty, r, ev, l, t, senderId, parsed, rfl, hl, ht, hcaller, hk⟩
  | aclose =>
    refine Or.inl (same ?_ rfl)
    simp only [buffered, next, step]
    cases m.sessions.values with
    | nil => rfl
    | cons r rest => exact congrArg (fun d => (Dict.get? d k).getD []) (onSession_pendingCandidates m r _)
  | teardown index succeeds =>
    refine Or.inl (same ?_ rfl)
    simp only [buffered, next, step]
    cases m.closing[index]? with
    | none => rfl
    | some c =>
      cases succeeds with
      | false => rfl
      | true =>
        obtain ⟨snapshot, rest⟩ := c
        cases rest with
        | nil => rfl
        | cons r rest =>
          exact congrArg (fun d => (Dict.get? d k).getD [])
            (onSession_pendingCandidates { m with closing := m.closing.eraseIdx index } r _)
  | start index =>
    left
    cases hhandled : m.handled (.start index) with
    | none =>
      refine same ?_ (by simp only [heard, hhandled]; rfl)
      simp only [next, step, handled, Option.bind_eq_none_iff] at hhandled ⊢
      cases hcreated : m.created[index]? with
      | none => rfl
      | some signal =>
        have hparse := hhandled signal hcreated
        simp only [handleSignal]
        cases hp : SignalingMessage.parse signal.2 with
        | none => rfl
        | some o =>
          cases o with
          | none => rfl
          | some parsed => simp [hp] at hparse
    | some parsed =>
      obtain ⟨senderId, hs⟩ := received_of_handled hhandled
      by_cases hk : parsed.connectionId = k
      · have hheard := heard_received hs hk
        rcases received_buffered hs with ⟨hsame, hadds⟩ | ⟨c, hnone, hparsed, hbuffer⟩
        · refine same (by simp only [buffered, hsame]) ?_
          rw [hheard]
          cases hr : m.sessions.get? k with
          | some r => rfl
          | none => simpa [found, adds] using hadds (hk ▸ hr)
        · rw [hk] at hnone hparsed hbuffer
          have hlog : adds (found none (heard k m (.start index))) = [⟨k, c⟩] := by
            rw [hheard, hnone, hparsed]
            rfl
          rw [hlog, buffered, hbuffer]
          simp only [bufferPendingCandidate, Dict.get?_set_self, Option.getD_some]
          split
          · next hlt => exact (List.take_of_length_le (by rw [List.length_append]; exact hlt)).symm
          · next hlt =>
            have hfull : (m.buffered k).length = maxPendingCandidates := Nat.le_antisymm hcap (Nat.le_of_not_lt hlt)
            exact (List.take_left' hfull).symm
      · have hheard : heard k m (.start index) = [] := by simp only [heard, hhandled, if_neg hk]
        refine same ?_ (by rw [hheard]; rfl)
        rcases received_buffered hs with ⟨hsame, _⟩ | ⟨c, _, _, hbuffer⟩
        · simp only [buffered, hsame]
        · simp only [buffered, hbuffer, bufferPendingCandidate, Dict.get?_set_ne _ _ fun h => hk h.symm]

/-! ### Listeners and dialers of an id -/

/-- The listeners with id `k`. -/
def listeners (m : Manager) (k : Nat) : Nat :=
  m.heap.countP fun l => l.session.connectionId = k ∧ l.session.isDialer = false

/-- Sessions keep their ids and sides, so a count of these sees only new sessions. -/
private theorem onSession_listeners [Aiortc] (m : Manager) (r : Ref) (ev : SessionEvent Caller) (k : Nat) :
    (m.onSession r ev).1.listeners k = m.listeners k := by
  cases hl : m.heap[r]? with
  | none => rw [onSession_none ev hl]
  | some l =>
    obtain ⟨hlt, rfl⟩ := List.getElem?_eq_some_iff.mp hl
    obtain ⟨hid, _, hd⟩ := m.heap[r].next_identity ev
    have hset : (m.heap.set r (m.heap[r].next ev)).countP (fun l => l.session.connectionId = k ∧ l.session.isDialer = false) =
        m.heap.countP (fun l => l.session.connectionId = k ∧ l.session.isDialer = false) := by
      rw [List.countP_set hlt, hid, hd]
      split
      · next h =>
        have hpos : 0 < m.heap.countP fun l => l.session.connectionId = k ∧ l.session.isDialer = false :=
          List.countP_pos_iff.mpr ⟨m.heap[r], List.getElem_mem hlt, h⟩
        omega
      · omega
    rcases onSession_cases ev hl with ⟨_, _, hm⟩ | ⟨_, _, _, hm⟩
    · simpa only [listeners, hm] using hset
    · simpa only [listeners, hm] using hset

/-- A listener comes to be by a request that finds no session. -/
private theorem listeners_next [Aiortc] (m : Manager) (e : ManagerEvent) (k : Nat) :
    (m.next e).listeners k ≤ m.listeners k + requests (found none (heard k m e)) := by
  refine @Acts.invariant _ m e (fun m' => m'.listeners k ≤ m.listeners k + requests (found none (heard k m e)))
    (Nat.le_add_right _ _) ?_ ?_ ?_ ?_ _ _ (step_acts m e)
  · exact fun _ _ _ _ h => h
  · exact fun _ h => h
  · intro m' k' remoteId isDialer c caller _ heap hk
    simp only [listeners, createSession, List.countP_append, heap]
    refine Nat.add_le_add_left ?_ _
    cases hk with
    | dial he => simp [SessionLoop.fresh, Session.new]
    | listen sdp hs hnone =>
      by_cases hk : k' = k
      · subst hk
        have hheard : heard k' m e = [(none, .connectRequest k' sdp)] := hnone ▸ heard_received hs rfl
        rw [hheard]
        exact List.countP_le_length
      · simp [SessionLoop.fresh, Session.new, hk]
  · intro m' r ev h _
    rwa [onSession_listeners]

/-- No request is admitted in a dialer. -/
def Unadmitting (m : Manager) : Prop :=
  ∀ (r : Ref) (l : SessionLoop Caller), m.heap[r]? = some l → l.session.isDialer = true → ∀ c ∈ awaiting l, c.admitting = none

theorem unadmitting_next [Aiortc] (m : Manager) (e : ManagerEvent) (hm : m.Unadmitting) : (m.next e).Unadmitting := by
  have begins : ∀ (l : SessionLoop Caller) ev, (l.session.isDialer = true → ∀ c ∈ awaiting l, c.admitting = none) →
      (∀ c caller, ev = .call c caller → l.session.isDialer = true → caller.admitting = none) →
      (l.next ev).session.isDialer = true → ∀ c ∈ awaiting (l.next ev), c.admitting = none := by
    intro l ev hl hev hd c hc
    rw [(l.next_identity ev).2.2] at hd
    obtain ⟨t', ht', rfl⟩ := List.mem_map.mp hc
    rcases l.next_tasks ev ht' with ⟨t, ht, hcaller, _⟩ | ⟨c', seg, heq, _⟩
    · rw [hcaller]
      exact hl hd _ (List.mem_map_of_mem ht)
    · exact hev c' t'.caller heq hd
  have same : ∀ (l : SessionLoop Caller) ev, (l.next ev).session.isDialer = l.session.isDialer := fun l ev =>
    (l.next_identity ev).2.2
  have hall : ∀ (r : Ref) (l : SessionLoop Caller), (m.next e).heap[r]? = some l →
      (l.session.isDialer = true → ∀ c ∈ awaiting l, c.admitting = none) ∧
        ∀ l₀, m.heap[r]? = some l₀ → l.session.isDialer = l₀.session.isDialer := by
    apply (step_acts m e).sessions (P := fun r l => (l.session.isDialer = true → ∀ c ∈ awaiting l, c.admitting = none) ∧
      ∀ l₀, m.heap[r]? = some l₀ → l.session.isDialer = l₀.session.isDialer)
    · exact fun r l hl => ⟨hm r l hl, fun l₀ hl₀ => by rw [Option.some.inj (hl.symm.trans hl₀)]⟩
    · intro r ev l _ hc hl
      refine ⟨begins l ev (hm r l hl) fun c caller heq => ?_, fun l₀ hl₀ => by
        rw [same, Option.some.inj (hl.symm.trans hl₀)]⟩
      subst heq
      cases hc
    · intro k remoteId isDialer c caller hk
      refine ⟨begins _ _ (fun _ c hc => by cases hc) fun c' caller' heq hd => ?_, fun l₀ hl₀ => by simp at hl₀⟩
      cases heq
      cases hk with
      | dial _ => rfl
      | listen sdp _ _ => cases hd
    · intro senderId parsed r l _ _ hl
      refine ⟨begins l _ (hm r l hl) fun c caller heq _ => ?_, fun l₀ hl₀ => by
        rw [same, Option.some.inj (hl.symm.trans hl₀)]⟩
      cases heq
      rfl
    · rintro r l senderId parsed c rest hf ⟨hl, hsame⟩
      refine ⟨begins l _ hl fun c' caller heq hd => ?_, fun l₀ hl₀ => (same _ _).trans (hsame l₀ hl₀)⟩
      obtain ⟨l₀, index, reply, t, value, _, hl₀, ht, _, hcaller⟩ := hf
      have hnone := hm r l₀ hl₀ ((hsame l₀ hl₀).symm.trans hd) _ (List.mem_map_of_mem (List.mem_of_getElem? ht))
      rcases hcaller with ⟨hnew, _⟩ | ⟨left, hflush, _⟩
      · rw [hnew] at hnone
        cases hnone
      · rw [hflush] at hnone
        cases hnone
    · rintro _ r l ⟨hl, hsame⟩
      exact ⟨begins l _ hl (fun c caller heq => by cases heq), fun l₀ hl₀ => (same _ _).trans (hsame l₀ hl₀)⟩
  exact fun r l hl => (hall r l hl).1

/-! ### The ledger of a session over a run -/

/-- The candidates received for a session: those that were buffered before it, for a
listener, and those that were handed to it. -/
def kept (r : Ref) (isDialer : Bool) (log : List (Option Ref × SignalingMessage)) : List CandidateAdd :=
  if isDialer then adds (found (some r) log)
  else (adds (found none log)).take maxPendingCandidates ++ adds (found (some r) log)

/-- While session `r` stands under id `k`, its ledger is right, if it is a dialer or no other
listener was created under the id. -/
structure Followed [Aiortc] (k : Nat) (r : Ref) (m : Manager) (log : List (Option Ref × SignalingMessage)) : Prop where
  origins : m.Origins fun _ _ => True
  unadmitting : m.Unadmitting
  capped : (m.buffered k).length ≤ maxPendingCandidates
  known : ∀ c ∈ m.buffered k, c ∈ adds (found none log)
  listeners : m.listeners k ≤ requests (found none log)
  holders : ∀ s ∈ log, ∀ j, s.1 = some j → j < m.heap.length
  before : m.heap.length ≤ r → requests (found none log) = 0 →
    m.buffered k = (adds (found none log)).take maxPendingCandidates
  standing : ∀ l, m.sessions.get? k = some r → m.heap[r]? = some l →
    (l.session.isDialer = false → requests (found none log) ≤ 1) → Ledger (m.buffered k) l (kept r l.session.isDialer log)

/-- Session `r` under id `k` loses no candidate, and is handed no request while it is idle. -/
def Fair [Aiortc] (k : Nat) (r : Ref) (m : Manager) (e : ManagerEvent) : Prop :=
  ∀ l, m.sessions.get? k = some r → m.heap[r]? = some l → (∀ ev, e = .session r ev → m.Spares l ev) ∧
    ∀ senderId sdp, m.Received e senderId (.connectRequest k sdp) → l.session.isDialer = false → l.session.state ≠ .idle

private theorem followed_new [Aiortc] (k : Nat) (r : Ref) (localId : NetworkId) (relayOnly : Bool) :
    Followed k r (new localId relayOnly) [] := by
  refine ⟨origins_new _ localId relayOnly, ?_, Nat.zero_le _, (fun c hc => hc), Nat.le_refl _, by simp, fun _ _ => rfl, ?_⟩
  · intro r l hl
    simp [new] at hl
  · intro l hk
    cases hk

/-- Two different sessions that are both counted. -/
private theorem two_le_countP {α : Type} {xs : List α} {p : α → Bool} {i j : Nat} {a b : α} (ha : xs[i]? = some a)
    (hb : xs[j]? = some b) (hij : i ≠ j) (hpa : p a = true) (hpb : p b = true) : 2 ≤ xs.countP p := by
  have hmem : b ∈ xs.eraseIdx i := List.mem_eraseIdx_iff_getElem?.mpr ⟨j, fun h => hij h.symm, hb⟩
  have hpos := List.countP_pos_iff.mpr ⟨b, hmem, hpb⟩
  have hcount := countP_eraseIdx p ha
  rw [if_pos hpa] at hcount
  omega

/-- A session keeps its id and its side. -/
private theorem next_sides [Aiortc] {m : Manager} {e : ManagerEvent} {r : Ref} {l l' : SessionLoop Caller}
    (hl : m.heap[r]? = some l) (hl' : (m.next e).heap[r]? = some l') :
    l'.session.connectionId = l.session.connectionId ∧ l'.session.isDialer = l.session.isDialer := by
  refine (step_acts m e).sessions (P := fun j l' => ∀ l, m.heap[j]? = some l →
    l'.session.connectionId = l.session.connectionId ∧ l'.session.isDialer = l.session.isDialer) ?_ ?_ ?_ ?_ ?_ ?_ r l' hl' l hl
  · intro j l' hj l hl
    rw [Option.some.inj (hj.symm.trans hl)]
    exact ⟨rfl, rfl⟩
  · intro j ev l' _ _ hj l hl
    obtain ⟨hid, _, hd⟩ := l'.next_identity ev
    rw [Option.some.inj (hj.symm.trans hl)] at hid hd ⊢
    exact ⟨hid, hd⟩
  · intro k remoteId isDialer c caller _ l hl
    simp at hl
  · intro senderId parsed j l' _ _ hj l hl
    obtain ⟨hid, _, hd⟩ := l'.next_identity (.call (.handleSignal parsed) (.handleSignal senderId parsed))
    rw [Option.some.inj (hj.symm.trans hl)] at hid hd ⊢
    exact ⟨hid, hd⟩
  · intro j l' senderId parsed c rest _ h l hl
    obtain ⟨hid, _, hd⟩ := l'.next_identity (.call (.handleSignal c.message) (.flush senderId parsed rest))
    exact ⟨hid.trans (h l hl).1, hd.trans (h l hl).2⟩
  · intro _ j l' h l hl
    obtain ⟨hid, _, hd⟩ := l'.next_identity (.aclose (.member .none))
    exact ⟨hid.trans (h l hl).1, hd.trans (h l hl).2⟩

/-- A coroutine that answers a request for an id belongs to a listener of this id. -/
private theorem listener_of_admitting [Aiortc] {k : Nat} {r j : Ref} {m : Manager} {log : List (Option Ref × SignalingMessage)}
    {l : SessionLoop Caller} {t : Task Caller} {senderId : NetworkId} {parsed : SignalingMessage} (h : Followed k r m log)
    (hl : m.heap[j]? = some l) (ht : t ∈ l.tasks) (hcaller : t.caller = .newSession senderId parsed)
    (hk : parsed.connectionId = k) : l.session.connectionId = k ∧ l.session.isDialer = false := by
  constructor
  · have hcarries := (h.origins.sessions j l hl).2 t ht
    rw [hcaller] at hcarries
    exact hcarries.symm.trans hk
  · cases hd : l.session.isDialer with
    | false => rfl
    | true =>
      have hnone := h.unadmitting j l hl hd t.caller (List.mem_map_of_mem ht)
      rw [hcaller] at hnone
      cases hnone

private theorem take_take_append {α : Type} (xs ys : List α) (n : Nat) : (xs.take n ++ ys).take n = (xs ++ ys).take n := by
  rcases Nat.le_total xs.length n with hle | hle
  · rw [List.take_of_length_le hle]
  · have hfull : n ≤ (xs.take n).length := by rw [List.length_take]; exact Nat.le_min.mpr ⟨Nat.le_refl n, hle⟩
    rw [List.take_append_of_le_length hfull, List.take_take, Nat.min_self, List.take_append_of_le_length hle]

/-- A listener is created with its answer begun, and what was buffered for its id is owed to it. -/
private theorem ledger_listening [Aiortc] (k : Nat) (localId senderId : NetworkId) (relayOnly : Bool) (sdp : Text)
    (buffer : List CandidateAdd) :
    Ledger buffer ((SessionLoop.fresh (Session.new k localId senderId false relayOnly)).next
      (.call (.handleSignal (.connectRequest k sdp)) (.newSession senderId (.connectRequest k sdp)))) buffer := by
  have hmanaged : (SessionLoop.fresh (Session.new k localId senderId false relayOnly) : SessionLoop Caller).Managed :=
    ⟨(fun hd => by cases hd), fun _ => SessionLoop.answers_fresh k localId senderId relayOnly⟩
  have hbooked := SessionLoop.booked_step _
    (.call (.handleSignal (.connectRequest k sdp)) (Caller.newSession senderId (.connectRequest k sdp)))
    (SessionLoop.booked_fresh (Session.new k localId senderId false relayOnly) rfl rfl) hmanaged (by simp [SessionLoop.fresh, Session.new])
    trivial trivial
  refine ⟨⟨?_, ?_, fun _ => Nat.one_pos, fun _ => Nat.le_refl 1⟩, ⟨[], hbooked, ?_⟩, Nat.le_refl 1, ?_, fun hd => by cases hd⟩
  · exact SessionLoop.managed_step _ _ hmanaged ⟨trivial, fun _ => Or.inr ⟨rfl, rfl⟩⟩
  · refine callers_step _ _ (callers_fresh _) fun c caller heq => ?_
    cases heq
    exact ⟨k, sdp, rfl⟩
  · show ([] ++ (buffer ++ [])).Perm buffer
    rw [List.nil_append, List.append_nil]
  · intro _ hnone
    exact absurd (List.mem_singleton.mpr rfl) (hnone senderId (.connectRequest k sdp))

/-- A dialer is created with its offer begun, and nothing is owed to it. -/
private theorem ledger_dialing [Aiortc] (k : Nat) (localId remoteId : NetworkId) (relayOnly : Bool) (buffer : List CandidateAdd) :
    Ledger buffer ((SessionLoop.fresh (Session.new k localId remoteId true relayOnly)).next (.call .start Caller.connect)) [] := by
  have hbooked := SessionLoop.booked_started (Session.new k localId remoteId true relayOnly) rfl rfl Caller.connect
  refine ⟨⟨⟨fun _ => SessionLoop.dials_started k localId remoteId true relayOnly Caller.connect, (fun hd => by cases hd)⟩, ?_,
    (fun hd => by cases hd), fun hd => by cases hd⟩, ⟨[], hbooked, List.Perm.refl _⟩, Nat.zero_le 1, (fun hd => by cases hd), ?_⟩
  · refine callers_step _ _ (callers_fresh _) fun c caller heq => ?_
    cases heq
    trivial
  · intro _ c hc
    obtain rfl := List.mem_singleton.mp hc
    rfl

/-- Nothing stood under the reference of a session before it was created. -/
private theorem found_unborn {r : Ref} {m : Manager} {log : List (Option Ref × SignalingMessage)}
    (h : ∀ s ∈ log, ∀ j, s.1 = some j → j < m.heap.length) (hr : m.heap.length ≤ r) : found (some r) log = [] := by
  refine List.filterMap_eq_nil_iff.mpr fun s hs => ?_
  split
  · next heq => exact absurd (h s hs r heq) (Nat.not_lt_of_le hr)
  · rfl

/-- A message is heard for a session that is there. -/
private theorem Followed.heard_holders [Aiortc] {k : Nat} {r : Ref} {m : Manager} {e : ManagerEvent}
    {log : List (Option Ref × SignalingMessage)} (h : Followed k r m log) :
    ∀ s ∈ log ++ heard k m e, ∀ j, s.1 = some j → j < m.heap.length := by
  intro s hs j hj
  rcases List.mem_append.mp hs with hs | hs
  · exact h.holders s hs j hj
  · rcases heard_cases k m e with hnone | ⟨_, _, _, _, hheard⟩
    · rw [hnone] at hs
      cases hs
    · rw [hheard] at hs
      obtain rfl := List.mem_singleton.mp hs
      obtain ⟨l, hl, _⟩ := h.origins.mapped k j hj
      exact (List.getElem?_eq_some_iff.mp hl).1

/-- The session comes to be. -/
private theorem followed_created [Aiortc] {k : Nat} {m : Manager} {e : ManagerEvent}
    {log : List (Option Ref × SignalingMessage)} {l' : SessionLoop Caller} (h : Followed k m.heap.length m log)
    (hbuffered : requests (found none log) = 0 →
      (m.next e).buffered k = (adds (found none (log ++ heard k m e))).take maxPendingCandidates)
    (hl' : (m.next e).heap[m.heap.length]? = some l') (hid : l'.session.connectionId = k)
    (hreq : l'.session.isDialer = false → requests (found none (log ++ heard k m e)) ≤ 1) :
    Ledger ((m.next e).buffered k) l' (kept m.heap.length l'.session.isDialer (log ++ heard k m e)) := by
  have hunborn : found (some m.heap.length) (log ++ heard k m e) = [] := by
    exact found_unborn h.heard_holders (Nat.le_refl _)
  obtain ⟨k', remoteId, isDialer, c, caller, hk, rfl⟩ := created_session hl'
  obtain ⟨hid', _, hside⟩ := SessionLoop.next_identity
    (SessionLoop.fresh (Session.new k' m.localId remoteId isDialer m.relayOnly)) (.call c caller)
  obtain rfl : k' = k := hid'.symm.trans hid
  rw [hside] at hreq ⊢
  cases hk with
  | dial _ =>
    have hledger := ledger_dialing k' m.localId remoteId m.relayOnly ((m.next e).buffered k')
    simpa [kept, hunborn, adds, SessionLoop.fresh, Session.new] using hledger
  | listen sdp hs hnone =>
    have hheard : heard k' m e = [(none, .connectRequest k' sdp)] := hnone ▸ heard_received hs rfl
    have hone := hreq rfl
    have hzero : requests (found none log) = 0 := by
      rw [hheard, found_append, requests_append] at hone
      have hrequest : requests (found none [((none : Option Ref), SignalingMessage.connectRequest k' sdp)]) = 1 := rfl
      omega
    have hledger := ledger_listening k' m.localId remoteId m.relayOnly sdp ((m.next e).buffered k')
    simp only [kept, SessionLoop.fresh, Session.new, hunborn, Bool.false_eq_true, if_false]
    rw [← hbuffered hzero]
    simpa [adds, SessionLoop.fresh, Session.new] using hledger

/-- Until a listener of the id is created, its buffer holds what was received, up to the limit. -/
private theorem buffered_before [Aiortc] {k : Nat} {r : Ref} {m : Manager} {e : ManagerEvent}
    {log : List (Option Ref × SignalingMessage)} (h : Followed k r m log) (hr : m.heap.length ≤ r)
    (hzero : requests (found none log) = 0) :
    (m.next e).buffered k = (adds (found none (log ++ heard k m e))).take maxPendingCandidates := by
  rcases buffered_next m e k h.capped with hstep | ⟨_, j, _, l, t, senderId, parsed, _, hl, ht, hcaller, hk⟩
  · rw [hstep, h.before hr hzero, take_take_append, found_append, adds_append]
  · obtain ⟨hid, hd⟩ := listener_of_admitting h hl ht hcaller hk
    have hpos : 0 < m.listeners k := List.countP_pos_iff.mpr ⟨l, List.mem_of_getElem? hl, by simp [hid, hd]⟩
    have hle := h.listeners
    omega

/-- Nothing is owed to a dialer, whatever is buffered for its id. -/
private theorem ledger_dialer [Aiortc] {buffer kept : List CandidateAdd} {l : SessionLoop Caller} (h : Ledger buffer l kept)
    (hd : l.session.isDialer = true) (other : List CandidateAdd) : Ledger other l kept := by
  have nothing : ∀ buffer, owed buffer l = [] := by
    refine fun buffer => List.flatMap_eq_nil_iff.mpr fun c hc => ?_
    have hnone := h.dialer hd c hc
    cases c with
    | connect => rfl
    | handleSignal senderId parsed => rfl
    | newSession senderId parsed => cases hnone
    | flush senderId parsed rest => cases hnone
  obtain ⟨given, hgiven, hperm⟩ := h.booked
  refine ⟨h.conducts, ⟨given, hgiven, ?_⟩, h.single, fun hlistener => ?_, h.dialer⟩
  · rwa [nothing] at hperm ⊢
  · cases hd.symm.trans hlistener

/-- The session goes on standing under its id. -/
private theorem followed_standing [Aiortc] {k : Nat} {r : Ref} {m : Manager} {e : ManagerEvent}
    {log : List (Option Ref × SignalingMessage)} {l l' : SessionLoop Caller} (h : Followed k r m log) (he : Fair k r m e)
    (hk : m.sessions.get? k = some r) (hl : m.heap[r]? = some l) (hl' : (m.next e).heap[r]? = some l')
    (hopen' : l'.session.state ≠ .closed) (hreq : l.session.isDialer = false → requests (found none log) ≤ 1) :
    Ledger ((m.next e).buffered k) l' (kept r l.session.isDialer (log ++ heard k m e)) := by
  have hledger := h.standing l hk hl hreq
  obtain ⟨l₀, hl₀, hid, hopen⟩ := h.origins.mapped k r hk
  obtain rfl := Option.some.inj (hl.symm.trans hl₀)
  obtain ⟨hspares, hidle⟩ := he l hk hl
  have hmore : ∀ messages, heard k m e = messages.map (fun p => (some r, p)) →
      kept r l.session.isDialer (log ++ heard k m e) = kept r l.session.isDialer log ++ adds messages := by
    intro messages hheard
    have hnone : found none (heard k m e) = [] := by
      rw [hheard]
      exact List.filterMap_eq_nil_iff.mpr fun s hs => by
        obtain ⟨p, _, rfl⟩ := List.mem_map.mp hs
        rfl
    have hdirect : found (some r) (heard k m e) = messages := by
      rw [hheard, found, List.filterMap_map]
      exact (List.filterMap_congr fun p _ => if_pos rfl).trans List.filterMap_some
    simp only [kept, found_append, hnone, hdirect, adds_append, List.append_nil]
    split <;> simp
  have hbuffered : (∀ ev, e ≠ .session r ev) → l.session.isDialer = false → (m.next e).buffered k = m.buffered k := by
    intro hsession hlistener
    have hnone : found none (heard k m e) = [] := by
      rcases heard_cases k m e with hnone | ⟨_, parsed, _, _, hheard⟩
      · rw [hnone]
        rfl
      · rw [hheard, hk]
        rfl
    rcases buffered_next m e k h.capped with hstep | ⟨_, j, ev, lj, t, senderId, parsed, rfl, hlj, ht, hcaller, hkj⟩
    · rw [hstep, hnone, show adds [] = [] from rfl, List.append_nil, List.take_of_length_le h.capped]
    · -- another listener of the id is admitted: there is none
      obtain ⟨hidj, hdj⟩ := listener_of_admitting h hlj ht hcaller hkj
      have hne : r ≠ j := fun heq => hsession ev (heq ▸ rfl)
      have htwo : 2 ≤ m.listeners k := two_le_countP hl hlj hne (by simp [hid, hlistener]) (by simp [hidj, hdj])
      have hle := h.listeners
      have hone := hreq hlistener
      omega
  have carried : ∀ {kept'}, (∀ ev, e ≠ .session r ev) → Ledger (m.buffered k) l' kept' →
      l'.session.isDialer = l.session.isDialer → Ledger ((m.next e).buffered k) l' kept' := by
    intro kept' hsession hfollowed hside
    cases hd : l.session.isDialer with
    | true => exact ledger_dialer hfollowed (hside.trans hd) _
    | false => rwa [hbuffered hsession hd]
  by_cases hsession : ∃ ev, e = .session r ev
  · obtain ⟨ev, rfl⟩ := hsession
    have hnothing : heard k m (.session r ev) = [] := rfl
    rw [hmore [] hnothing, show adds [] = [] from rfl, List.append_nil]
    cases hc : ev.isCall with
    | true =>
      cases ev with
      | call c caller =>
        obtain rfl := Option.some.inj (hl.symm.trans hl')
        exact hledger
      | _ => cases hc
    | false =>
      have hnext : m.next (.session r ev) = (m.run r ev).1 := congrArg Prod.fst (step_session m r hc)
      have hnamed : ∀ t ∈ l.tasks, ∀ senderId parsed, t.caller = .newSession senderId parsed → parsed.connectionId = k := by
        intro t ht senderId parsed hcaller
        have hcarries := (h.origins.sessions r l hl).2 t ht
        rw [hcaller] at hcarries
        exact hcarries.trans hid
      obtain ⟨l₁, hl₁, hledger₁⟩ := ledger_run hl hledger hopen hnamed ev hc (hspares ev rfl)
      rw [hnext] at hl' ⊢
      obtain rfl := Option.some.inj (hl₁.symm.trans hl')
      exact hledger₁
  · have hother : ∀ ev, e ≠ .session r ev := fun ev heq => hsession ⟨ev, heq⟩
    by_cases hsignal : ∃ senderId parsed, m.Received e senderId parsed ∧ m.sessions.get? parsed.connectionId = some r
    · obtain ⟨senderId, parsed, hs, hr⟩ := hsignal
      have hpk : parsed.connectionId = k := by
        obtain ⟨l₁, hl₁, hid₁, _⟩ := h.origins.mapped _ r hr
        obtain rfl := Option.some.inj (hl.symm.trans hl₁)
        exact hid₁.symm.trans hid
      have hheard : heard k m e = [parsed].map fun p => (some r, p) := by rw [heard_received hs hpk, hk]; rfl
      obtain rfl := Option.some.inj ((routed_session hs hr hl).symm.trans hl')
      rw [hmore [parsed] hheard]
      have hside := (l.next_identity (.call (.handleSignal parsed) (.handleSignal senderId parsed))).2.2
      refine carried hother ?_ hside
      have hstep := ledger_signal hledger hopen senderId parsed fun hlistener => by
        cases parsed with
        | connectRequest k' sdp =>
          obtain rfl : k' = k := hpk
          exact Or.inl (hidle senderId sdp hs hlistener)
        | _ => trivial
      simpa [adds] using hstep
    · have hnothing : heard k m e = [] := by
        rcases heard_cases k m e with hnone | ⟨senderId, parsed, hs, hpk, _⟩
        · exact hnone
        · exact absurd ⟨senderId, parsed, hs, hpk ▸ hk⟩ hsignal
      rw [hmore [] hnothing, show adds [] = [] from rfl, List.append_nil]
      rcases elsewhere hl hother (fun senderId parsed hs hr => hsignal ⟨senderId, parsed, hs, hr⟩) hl' with rfl | hclosed
      · exact carried hother hledger rfl
      · exact absurd hclosed hopen'

/-- One step keeps the ledger of a session. -/
private theorem followed_step [Aiortc] {k : Nat} {r : Ref} (m : Manager) (log : List (Option Ref × SignalingMessage))
    (e : ManagerEvent) (h : Followed k r m log) (he : Fair k r m e) : Followed k r (m.next e) (log ++ heard k m e) := by
  have hmapped := mapped_step m e h.origins.mapped
  have hcount : requests (found none log) ≤ requests (found none (log ++ heard k m e)) := by
    rw [found_append, requests_append]
    exact Nat.le_add_right _ _
  refine ⟨origins_step m e h.origins ?_, unadmitting_next m e h.unadmitting, ?_, ?_, ?_, ?_, ?_, ?_⟩
  · cases e with
    | deliver senderId text => exact fun _ _ => trivial
    | _ => trivial
  · rcases buffered_next m e k h.capped with hstep | ⟨hempty, _⟩
    · rw [hstep]
      exact List.length_take_le _ _
    · rw [hempty]
      exact Nat.zero_le _
  · intro c hc
    rw [found_append, adds_append]
    rcases buffered_next m e k h.capped with hstep | ⟨hempty, _⟩
    · rw [hstep] at hc
      rcases List.mem_append.mp (List.mem_of_mem_take hc) with hold | hnew
      · exact List.mem_append_left _ (h.known c hold)
      · exact List.mem_append_right _ hnew
    · rw [hempty] at hc
      cases hc
  · rw [found_append, requests_append]
    exact Nat.le_trans (listeners_next m e k) (Nat.add_le_add_right h.listeners _)
  · intro s hs j hj
    exact Nat.lt_of_lt_of_le (h.heard_holders s hs j hj) (length_step m e)
  · intro hr hzero
    exact buffered_before h (Nat.le_trans (length_step m e) hr) (Nat.le_zero.mp (hzero ▸ hcount))
  · intro l' hk' hl' hreq
    obtain ⟨l₀, hl₀, hid', hopen'⟩ := hmapped k r hk'
    obtain rfl := Option.some.inj (hl'.symm.trans hl₀)
    rcases (step_acts m e).mapped_before hk' with ⟨k₀, hk₀⟩ | rfl
    · obtain ⟨l, hl, hid, _⟩ := h.origins.mapped k₀ r hk₀
      obtain ⟨hsame, hside⟩ := next_sides hl hl'
      obtain rfl : k₀ = k := hid.symm.trans (hsame.symm.trans hid')
      rw [hside] at hreq ⊢
      exact followed_standing h he hk₀ hl hl' hopen' fun hlistener => Nat.le_trans hcount (hreq hlistener)
    · exact followed_created h (buffered_before h (Nat.le_refl _)) hl' hid' hreq

/-! ### Once the handlers have finished -/

/-- The candidates received for a session: for a listener also those that came before it. -/
def received (r : Ref) (isDialer : Bool) (log : List (Option Ref × SignalingMessage)) : List CandidateAdd :=
  (if isDialer then [] else adds (found none log)) ++ adds (found (some r) log)

/-- A dialer is handed a CONNECTRESPONSE in OFFER_SENT, which supplies its remote description. -/
def Supplies (k : Nat) (r : Ref) (m : Manager) (e : ManagerEvent) : Prop :=
  ∃ answer l, (some r, .connectResponse k answer) ∈ heard k m e ∧ m.heap[r]? = some l ∧ l.session.state = .offerSent

/-- A session keeps its side to the end. -/
private theorem run_side [Aiortc] {m : Manager} {r : Ref} {l l' : SessionLoop Caller} (events : List ManagerEvent)
    (hl : m.heap[r]? = some l) (hl' : (Machine.run next m events).heap[r]? = some l') :
    l'.session.isDialer = l.session.isDialer := by
  have hside : ∃ l', (Machine.run next m events).heap[r]? = some l' ∧ l'.session.isDialer = l.session.isDialer := by
    refine @Machine.run_invariant_always _ _ next (fun m : Manager => ∃ l', m.heap[r]? = some l' ∧
      l'.session.isDialer = l.session.isDialer) ?_ m ⟨l, hl, rfl⟩ events
    rintro m e ⟨l₁, hl₁, hside⟩
    obtain ⟨l₂, hl₂⟩ := kept_of_next hl₁
    exact ⟨l₂, hl₂, (next_sides hl₁ hl₂).2.trans hside⟩
  obtain ⟨l₁, hl₁, hside⟩ := hside
  rwa [Option.some.inj (hl'.symm.trans hl₁)]

/-- What a session has done, it has done to the end. -/
private theorem run_trace [Aiortc] {m : Manager} {r : Ref} {f : Effect} (events : List ManagerEvent) (hf : f ∈ m.trace r) :
    f ∈ (Machine.run next m events).trace r :=
  @Machine.run_invariant_always _ _ next (fun m : Manager => f ∈ m.trace r)
    (fun m e h => step_trace m e r ▸ List.mem_append_left _ h) m hf events

/-- The answer of a dialer in OFFER_SENT is applied. -/
private theorem supplied_trace [Aiortc] {k : Nat} {r : Ref} {m : Manager} {e : ManagerEvent} {l : SessionLoop Caller}
    (hl : m.heap[r]? = some l) (hd : l.session.isDialer = true) (h : Supplies k r m e) :
    ∃ answer, .setRemoteAnswer answer ∈ (m.next e).trace r := by
  obtain ⟨answer, l₀, hmem, hl₀, hstate⟩ := h
  obtain rfl := Option.some.inj (hl.symm.trans hl₀)
  rcases heard_cases k m e with hnone | ⟨senderId, parsed, hs, hpk, hheard⟩
  · rw [hnone] at hmem
    cases hmem
  · rw [hheard] at hmem
    obtain ⟨hr, rfl⟩ := Prod.mk.inj (List.mem_singleton.mp hmem)
    have hnext := routed_session hs (hpk ▸ hr.symm) hl
    refine ⟨answer, ?_⟩
    rw [trace_of_heap hnext, SessionLoop.next, SessionLoop.step_trace]
    refine List.mem_append_right _ ?_
    have hsignal : l.session.handleSignal (.connectResponse k answer) = l.session.applyAnswer .handleResponse answer := by
      simp only [Session.handleSignal, hstate, reduceCtorEq, if_false, hd, if_true, Session.handleResponse]
    simp only [SessionLoop.step, SessionLoop.segment_effects, Session.call, hsignal, Session.applyAnswer_eq _ _ _ hstate]
    simp

/-- The calls of a session with id `k` that supplied its remote description. -/
private theorem supplied_run [Aiortc] {k : Nat} {r : Ref} {l : SessionLoop Caller} {localId : NetworkId} {relayOnly : Bool}
    {events : List ManagerEvent} {buffer cs : List CandidateAdd} (hledger : Ledger buffer l cs)
    (hl : (Machine.run next (new localId relayOnly) events).heap[r]? = some l)
    (h : l.session.isDialer = true → ∃ before e after, events = before ++ e :: after ∧
      Supplies k r (Machine.run next (new localId relayOnly) before) e) : 0 < l.trace.countP Effect.isSupply := by
  cases hd : l.session.isDialer with
  | false => exact hledger.conducts.supplied hd
  | true =>
    obtain ⟨before, e, after, rfl, hsupplies⟩ := h hd
    obtain ⟨_, l₀, _, hl₀, _⟩ := id hsupplies
    rw [Machine.run_append] at hl
    have hside := run_side (e :: after) hl₀ hl
    obtain ⟨answer, hmem⟩ := supplied_trace hl₀ (hside.symm.trans hd) hsupplies
    rw [Machine.run_cons] at hl
    have hend := run_trace after hmem
    rw [trace_of_heap hl] at hend
    exact List.countP_pos_iff.mpr ⟨_, hend, rfl⟩

/-- A session whose coroutines have finished, and that has its remote description. -/
private theorem ledger_finished [Aiortc] {buffer kept : List CandidateAdd} {l : SessionLoop Caller} (h : Ledger buffer l kept)
    (htasks : l.tasks = []) (hsupply : 0 < l.trace.countP Effect.isSupply) :
    l.added.Perm (candidates kept) ∧ Ordered l.trace ∧
      ∀ c ∈ l.session.pc.pendingRemoteCandidates, .addIceCandidate c ∈ l.trace := by
  obtain ⟨given, hgiven, hperm⟩ := h.booked
  have hnothing : owed buffer l = [] := by simp [owed, awaiting, htasks]
  rw [hnothing, List.append_nil] at hperm
  have hadded := SessionLoop.booked_finished hgiven htasks hsupply
  refine ⟨hadded.trans (hperm.filterMap _), hgiven.ordered, fun c hc => ?_⟩
  obtain ⟨f, hf, hcandidate⟩ := List.mem_filterMap.mp (hadded.symm.subset (hgiven.pending c hc))
  cases f with
  | addIceCandidate c' =>
    obtain rfl := Option.some.inj hcandidate
    exact hf
  | _ => cases hcandidate

private theorem sole_session {m : Manager} {isDialer : Bool}
    (h : m.heap.map (fun l => (l.tasks, l.session.isDialer)) = [([], isDialer)]) :
    ∃ l, m.heap[0]? = some l ∧ l.tasks = [] ∧ l.session.isDialer = isDialer := by
  obtain ⟨l, hheap, hl⟩ := List.map_eq_singleton_iff.mp h
  obtain ⟨htasks, hdialer⟩ := Prod.mk.inj hl
  exact ⟨l, by rw [hheap]; rfl, htasks, hdialer⟩

/-- In every run in which nothing raises inside `create_answer` or `set_remote_answer`, but
for the last candidate of the latter's flush, in which no candidate that aiortc can parse
comes after one that raises in the manager's flush, and no listener is handed a second
request while it is idle: a session that stands under its id when its coroutines have
finished has handed every candidate to aiortc once that was buffered for it or given to
it and that aiortc can parse, none is left in a buffer that was not, and a listener has
sent its CONNECTRESPONSE. The session is the only listener that was created under its id,
or a dialer for whose id nothing was buffered before it. -/
theorem other_candidates_added [Aiortc] (localId : NetworkId) (relayOnly : Bool) (events : List ManagerEvent) (k : Nat)
    (r : Ref) (l : SessionLoop Caller) (h : Machine.Along (Fair k r) next (new localId relayOnly) events)
    (hk : (Machine.run next (new localId relayOnly) events).sessions.get? k = some r)
    (hl : (Machine.run next (new localId relayOnly) events).heap[r]? = some l) (htasks : l.tasks = []) :
    let log := Machine.collect next (heard k) (new localId relayOnly) events
    (l.session.isDialer = false → requests (found none log) ≤ 1) →
    (l.session.isDialer = true → adds (found none log) = [] ∧ ∃ before e after, events = before ++ e :: after ∧
      Supplies k r (Machine.run next (new localId relayOnly) before) e) →
    l.added.Perm (candidates (kept r l.session.isDialer log)) ∧
      (∀ c ∈ l.session.pc.pendingRemoteCandidates, .addIceCandidate c ∈ l.trace) ∧
      (Machine.run next (new localId relayOnly) events).buffered k = [] ∧
      (l.session.isDialer = false → l.trace.countP Effect.isResponse = 1) := by
  intro log hlistener hdialer
  have hfollowed : Followed k r (Machine.run next (new localId relayOnly) events) log :=
    Machine.collect_invariant followed_step (followed_new k r localId relayOnly) h
  have hledger := hfollowed.standing l hk hl hlistener
  obtain ⟨hadded, _, hpending⟩ := ledger_finished hledger htasks (supplied_run hledger hl fun hd => (hdialer hd).2)
  refine ⟨hadded, hpending, ?_, fun hd => ?_⟩
  · cases hd : l.session.isDialer with
    | false => exact hledger.emptied hd (by simp [awaiting, htasks])
    | true =>
      refine List.eq_nil_iff_forall_not_mem.mpr fun c hc => ?_
      have hmem := hfollowed.known c hc
      rw [(hdialer hd).1] at hmem
      cases hmem
  · have hanswers := hledger.conducts.managed.listener hd
    have hresponds := hledger.conducts.responds hd
    have hstarted : 0 < l.trace.countP Effect.isCreateAnswer := by
      obtain ⟨given, hgiven, _⟩ := hledger.booked
      obtain ⟨f, hf, hsupply⟩ := List.countP_pos_iff.mp (hledger.conducts.supplied hd)
      have hside := (hgiven.sided f hf hsupply).trans hd
      refine List.countP_pos_iff.mpr ⟨f, hf, ?_⟩
      cases f with
      | createAnswer offer => rfl
      | setRemoteAnswer answer => cases hside
      | _ => cases hsupply
    have hnone : l.answering = 0 := by simp [SessionLoop.answering, htasks]
    have hserved := hanswers.served
    have honce := hanswers.started
    simp only [SessionLoop.Responds] at hresponds
    omega

/-- Where no session stands under the id, or the event is no message and no event of a session, nothing is asked. -/
private theorem fair_unheld [Aiortc] {k : Nat} {r : Ref} {m : Manager} {e : ManagerEvent} (hsession : ∀ ev, e ≠ .session r ev)
    (h : m.sessions.get? k ≠ some r ∨ ∀ index, e ≠ .start index) : Fair k r m e := by
  intro l hk _
  refine ⟨fun ev heq => absurd heq (hsession ev), ?_⟩
  rintro senderId sdp ⟨index, text, he, _⟩
  rcases h with hno | hno
  · exact absurd hk hno
  · exact absurd he (hno index)

/-- What aiortc parses never raises in the manager's flush, so a call that returns asks nothing of the run. -/
private theorem fair_returned [Aiortc] {k : Nat} {r : Ref} {m : Manager} {index : Nat} {value : Text}
    (parses : ∀ text, Aiortc.parsesCandidate text = true) :
    Fair k r m (.session r (.resume index (.ok value))) := by
  intro l _ _
  refine ⟨fun ev heq => ?_, fun senderId sdp hs => ?_⟩
  · obtain rfl := (ManagerEvent.session.inj heq).2
    refine ⟨trivial, fun index reply t heq _ => ?_⟩
    obtain ⟨-, rfl⟩ := SessionEvent.resume.inj heq
    exact fun c _ _ hc => absurd hc (candidate_parses parses c.candidate)
  · obtain ⟨index, text, he, _⟩ := hs
    cases he

/-- A candidate that raises while nothing is left to flush after it loses no other. -/
private theorem fair_raised [Aiortc] {k : Nat} {r : Ref} {m : Manager} {c : Candidate} {senderId : NetworkId}
    {parsed : SignalingMessage} (h : m.heap.map (·.tasks) = [[⟨.adding c, .flush senderId parsed []⟩]]) :
    Fair k r m (.session r (.resume 0 .raised)) := by
  intro l _ hl
  have htasks : l.tasks = [⟨.adding c, .flush senderId parsed []⟩] := by
    have hmem := List.mem_map_of_mem (f := (·.tasks)) (List.mem_of_getElem? hl)
    rw [h] at hmem
    exact List.mem_singleton.mp hmem
  refine ⟨fun ev heq => ?_, fun senderId sdp hs => ?_⟩
  · obtain rfl := (ManagerEvent.session.inj heq).2
    refine ⟨fun t ht => ?_, fun index reply t heq ht => ?_⟩
    · rw [htasks] at ht
      cases ht
      trivial
    · obtain ⟨rfl, rfl⟩ := SessionEvent.resume.inj heq
      rw [htasks] at ht
      cases ht
      intro senderId parsed rest hcaller
      obtain ⟨-, -, rfl⟩ := Caller.flush.inj hcaller
      rfl
  · obtain ⟨index, text, he, _⟩ := hs
    cases he

/-- The last of two candidates that came before the request makes aiortc raise: the first is
applied, and the response was sent. -/
theorem other_candidates_added_last :
    letI : Aiortc := ⟨fun _ => true⟩
    let signal (message : SignalingMessage) : ManagerEvent := .deliver (.p2p 2) message.serialize
    let goOn : ManagerEvent := .session 0 (.resume 0 (.ok []))
    let m := Machine.run next (new (.p2p 1) false)
      [signal (.candidateAdd 7 "1".toList), .start 0, signal (.candidateAdd 7 "2".toList), .start 0,
        signal (.connectRequest 7 []), .start 0, goOn, goOn, goOn, goOn, .session 0 (.resume 0 .raised)]
    ∃ l, m.heap[0]? = some l ∧ l.added.Perm ["1".toList, "2".toList] ∧ m.buffered 7 = [] ∧
      l.trace.countP Effect.isResponse = 1 := by
  let _ : Aiortc := ⟨fun _ => true⟩
  intro signal goOn
  generalize hevents : [signal (.candidateAdd 7 "1".toList), .start 0, signal (.candidateAdd 7 "2".toList), .start 0,
    signal (.connectRequest 7 []), .start 0, goOn, goOn, goOn, goOn, .session 0 (.resume 0 .raised)] = events
  have parses : ∀ text, Aiortc.parsesCandidate text = true := fun _ => rfl
  have delivers : ∀ m message, Fair 7 0 m (signal message) := fun m message =>
    fair_unheld (fun ev heq => ManagerEvent.noConfusion heq) (Or.inr fun index heq => ManagerEvent.noConfusion heq)
  have starts : ∀ m : Manager, m.sessions.get? 7 = none → Fair 7 0 m (.start 0) := fun m hnone =>
    fair_unheld (fun ev heq => by cases heq) (Or.inl (by simp [hnone]))
  have hfair : Machine.Along (Fair 7 0) next (new (.p2p 1) false) events := by
    subst hevents
    exact ⟨delivers _ _, starts _ (by decide +kernel), delivers _ _, starts _ (by decide +kernel), delivers _ _,
      starts _ (by decide +kernel), fair_returned parses, fair_returned parses, fair_returned parses,
      fair_returned parses, @fair_raised _ 7 0 _ "2".toList (.p2p 2) (.connectRequest 7 []) (by decide +kernel), trivial⟩
  have hk : (Machine.run next (new (.p2p 1) false) events).sessions.get? 7 = some 0 := by subst hevents; decide +kernel
  have hfacts : (Machine.run next (new (.p2p 1) false) events).heap.map (fun l => (l.tasks, l.session.isDialer)) = [([], false)] := by
    subst hevents; decide +kernel
  have hrequests : requests (found none (Machine.collect next (heard 7) (new (.p2p 1) false) events)) ≤ 1 := by
    subst hevents; decide +kernel
  have hkept : candidates (kept 0 false (Machine.collect next (heard 7) (new (.p2p 1) false) events)) =
      ["1".toList, "2".toList] := by
    subst hevents; decide +kernel
  obtain ⟨l, hl, htasks, hd⟩ := sole_session hfacts
  obtain ⟨hadded, _, hbuffered, hresponse⟩ := other_candidates_added (.p2p 1) false events 7 0 l hfair hk hl htasks
    (fun _ => hrequests) (fun hdialer => by cases hd.symm.trans hdialer)
  rw [hd, hkept] at hadded
  exact ⟨l, hl, hadded, hbuffered, hresponse hd⟩

/-- One bad candidate loses another: in the flush of `create_answer`, with the response, or
in the manager's own. -/
theorem bad_candidate_loses_others :
    letI : Aiortc := ⟨fun text => text ≠ "bad".toList⟩
    let signal (message : SignalingMessage) : ManagerEvent := .deliver (.p2p 2) message.serialize
    let goOn : ManagerEvent := .session 0 (.resume 0 (.ok []))
    let answered := Machine.run next (new (.p2p 1) false)
      [signal (.connectRequest 7 []), .start 0, signal (.candidateAdd 7 "1".toList), .start 0,
        signal (.candidateAdd 7 "2".toList), .start 0, goOn, .session 0 (.resume 0 .raised)]
    let flushed := Machine.run next (new (.p2p 1) false)
      [signal (.candidateAdd 7 "bad".toList), .start 0, signal (.candidateAdd 7 "2".toList), .start 0,
        signal (.connectRequest 7 []), .start 0, goOn, goOn, goOn]
    (answered.sessions.get? 7 = some 0 ∧ answered.heap.map (fun l => (l.tasks.length, l.added)) = [(0, ["1".toList])] ∧
      answered.heap.map (fun l => l.session.pc.pendingRemoteCandidates) = [["1".toList, "2".toList]] ∧
      answered.heap.map (fun l => l.trace.countP Effect.isResponse) = [0]) ∧
    flushed.sessions.get? 7 = some 0 ∧ flushed.heap.map (fun l => (l.tasks.length, l.added)) = [(0, [])] := by
  decide +kernel

end Manager
end NetherNet
