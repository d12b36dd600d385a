import NetherNet.Manager.Provenance

/-! The history of a session is what the manager has shown of it, in order. -/
namespace NetherNet

/-- The effect of session `r` that is shown. -/
def Output.of (r : Ref) : Output → Option Effect
  | .effect j f => if j = r then some f else none
  | _ => none

namespace Manager
open Library

/-- The history of a session, empty before it is created. -/
def trace (m : Manager) (r : Ref) : List Effect := ((m.heap[r]?).map (·.trace)).getD []

theorem trace_of_heap {m : Manager} {r : Ref} {l : SessionLoop Caller} (h : m.heap[r]? = some l) : m.trace r = l.trace := by
  simp [trace, h]

private theorem effects_of (r j : Ref) (effects : List Effect) :
    (effects.map (Output.effect r)).filterMap (Output.of j) = if r = j then effects else [] := by
  induction effects with
  | nil => simp
  | cons f rest ih =>
    by_cases hj : r = j
    · rw [if_pos hj] at ih ⊢
      simp only [List.map_cons, List.filterMap_cons, Output.of, if_pos hj, ih]
    · rw [if_neg hj] at ih ⊢
      simp only [List.map_cons, List.filterMap_cons, Output.of, if_neg hj, ih]

private theorem reports_of (r j : Ref) (o : Outcome Caller) : (reports r o).filterMap (Output.of j) = [] := by
  cases o with
  | none => rfl
  | raised caller => rfl
  | returned caller value => cases caller <;> rfl

theorem onSession_trace [Aiortc] (m : Manager) (r : Ref) (e : SessionEvent Caller) (j : Ref) :
    (m.onSession r e).1.trace j = m.trace j ++ (m.onSession r e).2.1.filterMap (Output.of j) := by
  cases hl : m.heap[r]? with
  | none => simp [onSession_none e hl]
  | some l =>
    rw [trace, onSession_heap e hl, onSession_some e hl]
    simp only [List.filterMap_append, effects_of, reports_of, List.append_nil]
    by_cases hj : j = r
    · subst hj
      simp only [if_pos, trace, hl, Option.map_some, Option.getD_some]
      exact l.step_trace e
    · rw [if_neg hj, if_neg fun h => hj h.symm, List.append_nil]
      rfl

theorem Acts.trace [Aiortc] {m₀ m : Manager} {e : ManagerEvent} {outs : List Output} (h : Acts m₀ e m outs) (r : Ref) :
    m.trace r = m₀.trace r ++ outs.filterMap (Output.of r) := by
  induction h with
  | tasks created closing hc => exact (List.append_nil _).symm
  | direct j ev he hc => exact onSession_trace m₀ j ev r
  | enroll created k remoteId isDialer c caller hk hc =>
    simp only [Manager.enroll]
    rw [onSession_trace]
    have hnew : ({ m₀ with created := created }.createSession k remoteId isDialer).1.trace r = m₀.trace r := by
      simp only [Manager.trace, createSession, List.getElem?_append]
      split
      · rfl
      · next hlt =>
        rw [List.getElem?_eq_none (Nat.le_of_not_lt hlt)]
        cases r - m₀.heap.length <;> simp [SessionLoop.fresh]
    rw [hnew]
  | route created senderId parsed j hs hr hc => exact onSession_trace { m₀ with created := created } j _ r
  | buffer created senderId k candidate hs hk hc => exact (List.append_nil _).symm
  | take m outs h k ih => exact ih
  | flush m outs h j senderId parsed c rest hf ih =>
    rw [onSession_trace, ih, List.filterMap_append, List.append_assoc]
  | shut m outs h j closing he ih =>
    rw [List.filterMap_append, ← List.append_assoc, ← ih]
    exact onSession_trace m j _ r
  | clear m outs h he ih =>
    rw [List.filterMap_append, show [Output.aclosed].filterMap (Output.of r) = [] from rfl, List.append_nil]
    exact ih

/-- A step adds to the history of a session what it shows of it. -/
theorem step_trace [Aiortc] (m : Manager) (e : ManagerEvent) (r : Ref) :
    (m.next e).trace r = m.trace r ++ (m.step e).2.filterMap (Output.of r) := (step_acts m e).trace r

/-- A later state of a session: its ids are the same, and its history has only grown. -/
def Kept (l l' : SessionLoop Caller) : Prop :=
  l.trace <+: l'.trace ∧ l'.session.connectionId = l.session.connectionId ∧ l'.session.remoteId = l.session.remoteId

/-- A session stays where it is. -/
theorem heap_next [Aiortc] {m : Manager} (e : ManagerEvent) {r : Ref} {l : SessionLoop Caller} (hl : m.heap[r]? = some l) :
    ∃ l', (m.next e).heap[r]? = some l' ∧ Kept l l' := by
  obtain ⟨hlt, _⟩ := List.getElem?_eq_some_iff.mp hl
  have hlt' := Nat.lt_of_lt_of_le hlt (length_step m e)
  -- a session that was there has only run on since
  have stepped : ∀ (l₁ : SessionLoop Caller) ev, Kept l l₁ → Kept l (l₁.next ev) := by
    intro l₁ ev h
    obtain ⟨hid, hremote, _⟩ := l₁.next_identity ev
    exact ⟨h.1.trans ⟨_, (l₁.step_trace ev).symm⟩, hid.trans h.2.1, hremote.trans h.2.2⟩
  have hkept : ∀ r' l', (m.next e).heap[r']? = some l' → r' = r → Kept l l' := by
    apply (step_acts m e).sessions (P := fun r' l' => r' = r → Kept l l')
    · intro r' l' hl' hr
      rw [hr, hl] at hl'
      obtain rfl := Option.some.inj hl'
      exact ⟨List.prefix_refl _, rfl, rfl⟩
    · intro r' ev l' _ _ hl' hr
      rw [hr, hl] at hl'
      obtain rfl := Option.some.inj hl'
      exact stepped _ ev ⟨List.prefix_refl _, rfl, rfl⟩
    · intro k remoteId isDialer c caller _ hr
      exact absurd hlt (Nat.not_lt.mpr (Nat.le_of_eq hr))
    · intro senderId parsed r' l' _ _ hl' hr
      rw [hr, hl] at hl'
      obtain rfl := Option.some.inj hl'
      exact stepped _ _ ⟨List.prefix_refl _, rfl, rfl⟩
    · exact fun r' l' senderId parsed c rest _ h hr => stepped l' _ (h hr)
    · exact fun _ r' l' h hr => stepped l' _ (h hr)
  exact ⟨_, List.getElem?_eq_getElem hlt', hkept r _ (List.getElem?_eq_getElem hlt') rfl⟩

/-- A manager keeps what it was made with. -/
theorem next_localId [Aiortc] (m : Manager) (e : ManagerEvent) :
    (m.next e).localId = m.localId ∧ (m.next e).relayOnly = m.relayOnly := by
  refine @Acts.invariant _ m e (fun m' => m'.localId = m.localId ∧ m'.relayOnly = m.relayOnly) ⟨rfl, rfl⟩ ?_ ?_ ?_ ?_ _ _
    (step_acts m e)
  · exact fun _ _ _ _ h => h
  · exact fun _ h => h
  · exact fun _ _ _ _ _ _ h _ _ => h
  · intro m' r ev h _
    rw [onSession_localId, onSession_relayOnly]
    exact h

theorem run_localId [Aiortc] (m : Manager) (events : List ManagerEvent) : (Machine.run Manager.next m events).localId = m.localId :=
  Machine.run_invariant_always (fun (m' : Manager) e (h : m'.localId = m.localId) => (m'.next_localId e).1.trans h) rfl events

/-! ### Whom the manager knows, and what it has sent to whom -/

/-- A session for the peer has sent the text. -/
def SentTo (m : Manager) (remoteId : NetworkId) (text : Text) : Prop :=
  ∃ (r : Ref) (l : SessionLoop Caller), m.heap[r]? = some l ∧ l.session.remoteId = remoteId ∧ .sendSignal text ∈ l.trace

/-- What was sent stays sent. -/
theorem SentTo.next [Aiortc] {m : Manager} {remoteId : NetworkId} {text : Text} (e : ManagerEvent) (h : m.SentTo remoteId text) :
    (m.next e).SentTo remoteId text := by
  obtain ⟨r, l, hl, hremote, hsent⟩ := h
  obtain ⟨l', hl', htrace, _, hremote'⟩ := heap_next e hl
  exact ⟨r, l', hl', hremote'.trans hremote, htrace.subset hsent⟩

theorem SentTo.run [Aiortc] {m : Manager} {remoteId : NetworkId} {text : Text} (events : List ManagerEvent)
    (h : m.SentTo remoteId text) : (Machine.run Manager.next m events).SentTo remoteId text :=
  Machine.run_invariant_always (fun (m' : Manager) e (h : m'.SentTo remoteId text) => h.next e) h events

/-- Every signal still to be handled is from a peer with the property, and so is the peer of every session. -/
structure Knows (P : NetworkId → Prop) (m : Manager) : Prop where
  senders : ∀ signal ∈ m.created, P signal.1
  remotes : ∀ (r : Ref) (l : SessionLoop Caller), m.heap[r]? = some l → P l.session.remoteId

/-- The event names no peer without the property. -/
def Names (P : NetworkId → Prop) : ManagerEvent → Prop
  | .connect remoteId _ => P remoteId
  | .deliver senderId _ => P senderId
  | _ => True

theorem knows_new (P : NetworkId → Prop) (localId : NetworkId) (relayOnly : Bool) : (new localId relayOnly).Knows P := by
  refine ⟨?_, ?_⟩
  · intro signal h
    cases h
  · intro r l h
    simp [new] at h

theorem Knows.next [Aiortc] {P : NetworkId → Prop} {m : Manager} (e : ManagerEvent) (hm : m.Knows P) (he : Names P e) :
    (m.next e).Knows P := by
  have stepped : ∀ (l : SessionLoop Caller) ev, P l.session.remoteId → P (l.next ev).session.remoteId := by
    intro l ev hl
    rwa [(l.next_identity ev).2.1]
  refine ⟨?_, ?_⟩
  · intro signal h
    rcases created_step (step_acts m e) signal h with hold | rfl
    · exact hm.senders signal hold
    · exact he
  · apply (step_acts m e).sessions (P := fun _ l => P l.session.remoteId) hm.remotes
    · exact fun r ev l _ _ hl => stepped l ev (hm.remotes r l hl)
    · intro k remoteId isDialer c caller hk
      refine stepped _ _ ?_
      cases hk with
      | dial h =>
        subst h
        exact he
      | listen sdp hs _ =>
        obtain ⟨index, text, _, hcreated, _⟩ := hs
        exact hm.senders _ (List.mem_of_getElem? hcreated)
    · exact fun senderId parsed r l _ _ hl => stepped l _ (hm.remotes r l hl)
    · exact fun r l senderId parsed c rest _ h => stepped l _ h
    · exact fun _ r l h => stepped l _ h

end Manager
end NetherNet
