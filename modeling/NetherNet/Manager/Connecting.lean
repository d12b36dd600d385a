import NetherNet.Manager.Closing
import NetherNet.Manager.Histories

/-! `SessionManager.connect`: it awaits the `start` of the session it has made, and goes on
when that does. -/
namespace NetherNet

namespace SessionLoop

/-- A suspended coroutine of the caller is left, unless it has just ended. -/
theorem step_awaited [Aiortc] {κ : Type} (l : SessionLoop κ) (ev : SessionEvent κ) {caller : κ}
    (h : ∃ t ∈ l.tasks, t.caller = caller) :
    (∃ t ∈ (l.next ev).tasks, t.caller = caller) ∨ (∃ value, (l.step ev).outcome = .returned caller value) ∨
      (l.step ev).outcome = .raised caller := by
  obtain ⟨t, ht, hcaller⟩ := h
  cases ev with
  | call c other =>
    refine Or.inl ⟨t, ?_, hcaller⟩
    rw [next, step, segment_tasks]
    split
    · exact List.mem_append_left _ ht
    · exact ht
  | resume index reply =>
    cases hi : l.tasks[index]? with
    | none =>
      refine Or.inl ⟨t, ?_, hcaller⟩
      simp only [next, step, hi]
      exact ht
    | some t₀ =>
      rcases List.mem_cons.mp ((perm_eraseIdx hi).mem_iff.mpr ht) with rfl | hleft
      · -- it is the one that goes on
        simp only [next, step, hi, segment]
        cases (l.session.resume t.coroutine reply).flow with
        | suspended c => exact Or.inl ⟨_, List.mem_append_right _ (List.mem_singleton_self _), hcaller⟩
        | returned value => exact Or.inr (Or.inl ⟨value, by rw [hcaller]⟩)
        | raised => exact Or.inr (Or.inr (by rw [hcaller]))
      · refine Or.inl ⟨t, ?_, hcaller⟩
        simp only [next, step, hi, segment_tasks]
        split
        · exact List.mem_append_left _ hleft
        · exact hleft
  | dataChannel label readyState =>
    refine Or.inl ⟨t, ?_, hcaller⟩
    simp only [next, step]
    split <;> exact ht
  | channelOpen isReliable =>
    refine Or.inl ⟨t, ?_, hcaller⟩
    simp only [next, step]
    split <;> exact ht
  | channelMessage isReliable data =>
    refine Or.inl ⟨t, ?_, hcaller⟩
    simp only [next, step]
    split <;> exact ht
  | _ => exact Or.inl ⟨t, ht, hcaller⟩

end SessionLoop

namespace Manager
open Library

/-! ### What a step leaves of one session -/

/-- The rule for what the events of one session keep. -/
theorem session_next [Aiortc] {m : Manager} (e : ManagerEvent) (r : Ref) {P : SessionLoop Caller → Prop}
    {l : SessionLoop Caller} (hl : m.heap[r]? = some l) (h : P l) (ht : m.Timely e)
    (step : ∀ l ev, l.Timely ev → P l → P (l.next ev)) : ∃ l', (m.next e).heap[r]? = some l' ∧ P l' := by
  obtain ⟨hlt, _⟩ := List.getElem?_eq_some_iff.mp hl
  obtain ⟨l', hl', _⟩ := heap_next e hl
  refine ⟨l', hl', ?_⟩
  have called : ∀ (l : SessionLoop Caller) (c : Call) (caller : Caller), l.Timely (.call c caller) := fun _ _ _ => id
  have hkept : ∀ r' x, (m.next e).heap[r']? = some x → r' = r → P x := by
    apply (step_acts m e).sessions (P := fun r' x => r' = r → P x)
    · intro r' x hx hr
      rw [hr, hl] at hx
      obtain rfl := Option.some.inj hx
      exact h
    · rintro r' ev x rfl _ hx hr
      have hinside := ht x hx
      rw [hr, hl] at hx
      obtain rfl := Option.some.inj hx
      exact step _ ev hinside h
    · exact fun k remoteId isDialer c caller _ hr => absurd hlt (Nat.not_lt.mpr (Nat.le_of_eq hr))
    · intro senderId parsed r' x _ _ hx hr
      rw [hr, hl] at hx
      obtain rfl := Option.some.inj hx
      exact step _ _ (called _ _ _) h
    · exact fun r' x senderId parsed c rest _ hx hr => step x _ (called _ _ _) (hx hr)
    · exact fun _ r' x hx hr => step x _ id (hx hr)
  exact hkept r l' hl' rfl

/-- The session is closed. -/
def IsClosed (m : Manager) (r : Ref) : Prop := ∃ l, m.heap[r]? = some l ∧ l.session.state = .closed

theorem closed_next [Aiortc] {m : Manager} {e : ManagerEvent} (ht : m.Timely e) {r : Ref} (h : m.IsClosed r) :
    (m.next e).IsClosed r := by
  obtain ⟨l, hl, hs⟩ := h
  exact session_next e r hl hs ht fun l ev hlate hs => (l.closed_step ev hs hlate).1

/-! ### The shutdowns under way -/

private theorem flush_closing [Aiortc] (r : Ref) (senderId : NetworkId) (parsed : SignalingMessage) (cs : List CandidateAdd)
    (m : Manager) : (Manager.flush r senderId parsed cs m).1.closing = m.closing := by
  induction cs generalizing m with
  | nil => rfl
  | cons c rest ih =>
    simp only [Manager.flush]
    split
    · rw [ih, onSession_closing]
    · exact onSession_closing m r _

private theorem run_closing [Aiortc] (m : Manager) (r : Ref) (ev : SessionEvent Caller) : (m.run r ev).1.closing = m.closing := by
  have hafter : ∀ (m : Manager) (o : Outcome Caller), (m.afterCall r o).1.closing = m.closing := by
    intro m o
    cases o with
    | none => rfl
    | raised caller => rfl
    | returned caller value =>
      cases caller with
      | connect => rfl
      | handleSignal senderId parsed => rfl
      | newSession senderId parsed => exact flush_closing r senderId parsed _ _
      | flush senderId parsed rest => exact flush_closing r senderId parsed rest m
  exact (hafter _ _).trans (onSession_closing m r ev)

/-- Only `aclose` itself changes which shutdowns are under way. -/
theorem next_closing [Aiortc] (m : Manager) {e : ManagerEvent} (h : e.isShutdown = false) : (m.next e).closing = m.closing := by
  cases e with
  | connect remoteId k => exact run_closing _ _ _
  | deliver senderId message => rfl
  | start index =>
    simp only [next, step]
    split
    · rfl
    · next signal hsignal =>
      unfold handleSignal
      cases SignalingMessage.parse signal.2 with
      | none => rfl
      | some o =>
        cases o with
        | none => rfl
        | some parsed =>
          simp only
          split
          · exact run_closing _ _ _
          · cases parsed with
            | connectRequest k sdp => exact run_closing _ _ _
            | candidateAdd k c => rfl
            | connectResponse k sdp => rfl
            | connectError k error => rfl
  | session r ev =>
    cases ev with
    | call c caller => rfl
    | _ => exact run_closing m r _
  | aclose => cases h
  | teardown index succeeds => cases h

/-! ### `connect` -/

/-- `connect` awaits the `start` of session `r`. -/
def Connects (m : Manager) (r : Ref) : Prop := ∃ l, m.heap[r]? = some l ∧ ∃ t ∈ l.tasks, t.caller = .connect

private theorem onSession_connects [Aiortc] {m : Manager} {r : Ref} (j : Ref) (ev : SessionEvent Caller) (h : m.Connects r) :
    (m.onSession j ev).1.Connects r ∨ .connected r ∈ (m.onSession j ev).2.1 ∨ .raised r .connect ∈ (m.onSession j ev).2.1 := by
  cases hj : m.heap[j]? with
  | none =>
    rw [onSession_none ev hj]
    exact Or.inl h
  | some x =>
    obtain ⟨l, hl, htask⟩ := h
    by_cases hr : r = j
    · subst hr
      obtain rfl := Option.some.inj (hl.symm.trans hj)
      rw [onSession_some ev hj]
      rcases l.step_awaited ev htask with htask' | ⟨value, hreturned⟩ | hraised
      · refine Or.inl ⟨l.next ev, ?_, htask'⟩
        have hheap := onSession_heap ev hj r
        rwa [if_pos rfl, onSession_some ev hj] at hheap
      · refine Or.inr (Or.inl (List.mem_append_right _ ?_))
        rw [hreturned]
        exact List.mem_singleton_self _
      · refine Or.inr (Or.inr (List.mem_append_right _ ?_))
        rw [hraised]
        exact List.mem_singleton_self _
    · refine Or.inl ⟨l, ?_, htask⟩
      rw [onSession_heap ev hj, if_neg hr]
      exact hl

private theorem acts_connects [Aiortc] {m₀ m : Manager} {e : ManagerEvent} {outs : List Output} (h : Acts m₀ e m outs) {r : Ref}
    (hr : m₀.Connects r) : m.Connects r ∨ .connected r ∈ outs ∨ .raised r .connect ∈ outs := by
  -- what was shown stays shown
  have more : ∀ {m m' : Manager} {outs tail : List Output}, (m.Connects r ∨ .connected r ∈ outs ∨ .raised r .connect ∈ outs) →
      (m.Connects r → m'.Connects r ∨ .connected r ∈ tail ∨ .raised r .connect ∈ tail) →
      m'.Connects r ∨ .connected r ∈ outs ++ tail ∨ .raised r .connect ∈ outs ++ tail := by
    intro m m' outs tail hbefore hstep
    rcases hbefore with hconnects | hconnected | hraised
    · rcases hstep hconnects with hconnects' | hconnected | hraised
      · exact Or.inl hconnects'
      · exact Or.inr (Or.inl (List.mem_append_right _ hconnected))
      · exact Or.inr (Or.inr (List.mem_append_right _ hraised))
    · exact Or.inr (Or.inl (List.mem_append_left _ hconnected))
    · exact Or.inr (Or.inr (List.mem_append_left _ hraised))
  induction h with
  | tasks created closing hc => exact Or.inl hr
  | direct j ev he hc => exact onSession_connects j ev hr
  | enroll created k remoteId isDialer c caller hk hc =>
    refine onSession_connects (m := ({ m₀ with created := created }.createSession k remoteId isDialer).1) _ _ ?_
    obtain ⟨l, hl, htask⟩ := hr
    refine ⟨l, ?_, htask⟩
    exact (List.getElem?_append_left (List.getElem?_eq_some_iff.mp hl).1).trans hl
  | route created senderId parsed j hs hj hc => exact onSession_connects (m := { m₀ with created := created }) j _ hr
  | buffer created senderId k candidate hs hk hc => exact Or.inl hr
  | take m outs h k ih => exact ih
  | flush m outs h j senderId parsed c rest hf ih => exact more ih fun hconnects => onSession_connects j _ hconnects
  | shut m outs h j closing he ih => exact more ih fun hconnects => onSession_connects (m := m) j (.aclose (.member .none)) hconnects
  | clear m outs h he ih => exact more ih Or.inl

/-- `connect` goes on awaiting, returns its session, or raises. -/
theorem next_connects [Aiortc] {m : Manager} (e : ManagerEvent) {r : Ref} (h : m.Connects r) :
    (m.next e).Connects r ∨ .connected r ∈ (m.step e).2 ∨ .raised r .connect ∈ (m.step e).2 := acts_connects (step_acts m e) h

/-- `connect` returns in a segment of its session alone. -/
private theorem acts_connected [Aiortc] {m₀ m : Manager} {e : ManagerEvent} {outs : List Output} (h : Acts m₀ e m outs) {r : Ref}
    (hr : .connected r ∈ outs) : ∃ ev l value, e = .session r ev ∧ ev.isCall = false ∧ m₀.heap[r]? = some l ∧
      (l.step ev).outcome = .returned .connect value := by
  have shown : ∀ {m : Manager} {j : Ref} {ev : SessionEvent Caller}, .connected r ∈ (m.onSession j ev).2.1 →
      r = j ∧ ∃ l value, m.heap[j]? = some l ∧ (l.step ev).outcome = .returned .connect value := by
    intro m j ev hmem
    cases hj : m.heap[j]? with
    | none =>
      rw [onSession_none ev hj] at hmem
      cases hmem
    | some l =>
      rw [onSession_some ev hj] at hmem
      rcases List.mem_append.mp hmem with heffect | hreport
      · obtain ⟨f, _, hf⟩ := List.mem_map.mp heffect
        cases hf
      · cases ho : (l.step ev).outcome with
        | none => simp [ho, reports] at hreport
        | raised caller => simp [ho, reports] at hreport
        | returned caller value =>
          rw [ho] at hreport
          cases caller with
          | connect =>
            obtain rfl := Output.connected.inj (List.mem_singleton.mp hreport)
            exact ⟨rfl, l, value, rfl, ho⟩
          | _ => cases hreport
  -- a call reports to the caller that it names
  have called : ∀ {m : Manager} {j : Ref} {c : Call} {caller : Caller}, caller ≠ .connect →
      .connected r ∉ (m.onSession j (.call c caller)).2.1 := by
    intro m j c caller hne hmem
    obtain ⟨_, l, value, hl, houtcome⟩ := shown hmem
    refine hne (call_caller m j c caller .connect value ?_).symm
    rw [onSession_some _ hl]
    exact houtcome
  induction h with
  | tasks created closing hc => cases hr
  | direct j ev he hc =>
    obtain ⟨rfl, l, value, hl, houtcome⟩ := shown hr
    exact ⟨ev, l, value, he, hc, hl, houtcome⟩
  | enroll created k remoteId isDialer c caller hk hc =>
    obtain ⟨_, l, value, hl, houtcome⟩ := shown hr
    have hnone := enroll_outcome { m₀ with created := created } hk
    rw [onSession_some _ hl, houtcome] at hnone
    cases hnone
  | route created senderId parsed j hs hj hc => exact absurd hr (called Caller.noConfusion)
  | buffer created senderId k candidate hs hk hc => cases hr
  | take m outs h k ih => exact ih hr
  | flush m outs h j senderId parsed c rest hf ih =>
    exact ih ((List.mem_append.mp hr).resolve_right (called Caller.noConfusion))
  | shut m outs h j closing he ih =>
    refine ih ((List.mem_append.mp hr).resolve_right fun hmem => ?_)
    obtain ⟨_, l, value, hl, houtcome⟩ := shown hmem
    simp [SessionLoop.step, SessionLoop.ran] at houtcome
  | clear m outs h he ih =>
    refine ih ((List.mem_append.mp hr).resolve_right fun hmem => ?_)
    cases List.mem_singleton.mp hmem

theorem step_connected [Aiortc] {m : Manager} {e : ManagerEvent} {r : Ref} (h : .connected r ∈ (m.step e).2) :
    ∃ ev l value, e = .session r ev ∧ ev.isCall = false ∧ m.heap[r]? = some l ∧ (l.step ev).outcome = .returned .connect value ∧
      m.step e = ((m.onSession r ev).1, (l.step ev).effects.map (.effect r) ++ [.connected r]) := by
  obtain ⟨ev, l, value, rfl, hcall, hl, houtcome⟩ := acts_connected (step_acts m e) h
  refine ⟨ev, l, value, rfl, hcall, hl, houtcome, ?_⟩
  rw [step_session m r hcall, Manager.run]
  simp only [onSession_some ev hl, houtcome, afterCall, reports, List.append_nil]

end Manager
end NetherNet
