import NetherNet.Api.Registry

/-! Closing an endpoint: what is left of its sessions and connections once
`Transport.aclose` has returned, whatever arrives at its awaits. -/
namespace NetherNet
open Library

namespace Connection

/-- `_mark_closed` runs to its end for every code it can make an exception of, and for any
other once the future is done. -/
theorem markClosed_closed {c : Connection} {error : ErrorCode} (h : error.IsMember ∨ c.connected ≠ .pending) :
    (c.markClosed error).1.closed = true := by
  rcases c.markClosed_cases error with ⟨future, _, heq⟩ | ⟨e, hfail, heq⟩
  · rw [heq]
  · rcases h with ⟨m, rfl⟩ | hdone
    · cases hc : c.connected <;> rw [hc] at hfail <;> cases hfail
    · cases hc : c.connected with
      | pending => exact absurd hc hdone
      | _ => rw [hc] at hfail; cases hfail

end Connection

namespace Manager

/-- Every open session stands in the map. -/
def Standing (m : Manager) : Prop :=
  ∀ (r : Ref) (l : SessionLoop Caller), m.heap[r]? = some l → l.session.state ≠ .closed →
    m.sessions.get? l.session.connectionId = some r

/-- Every session is closed. -/
def Over (m : Manager) : Prop := ∀ (r : Ref) (l : SessionLoop Caller), m.heap[r]? = some l → l.session.state = .closed

theorem Over.standing {m : Manager} (h : m.Over) : m.Standing := fun r l hl hs => absurd (h r l hl) hs

private theorem standing_onSession [Aiortc] {m : Manager} (r : Ref) (ev : SessionEvent Caller) (hm : m.Sound) (h : m.Standing)
    (ht : ∀ l, m.heap[r]? = some l → l.Timely ev) : (m.onSession r ev).1.Standing := by
  cases hl : m.heap[r]? with
  | none => rwa [onSession_none ev hl]
  | some l =>
    have hid := (l.next_identity ev).1
    have hstays : (l.next ev).session.state ≠ .closed → l.session.state ≠ .closed :=
      fun hs hc => hs (l.closed_step ev hc (ht l hl)).1
    intro j x hj hs
    rw [onSession_heap ev hl] at hj
    rcases onSession_cases ev hl with ⟨_, _, heq⟩ | ⟨hopen, hclosed, _, heq⟩
    · rw [heq]
      split at hj
      · next hjr =>
        obtain rfl := Option.some.inj hj
        rw [hid, hjr]
        exact h r l hl (hstays hs)
      · exact h j x hj hs
    · rw [heq]
      split at hj
      · obtain rfl := Option.some.inj hj
        exact absurd hclosed hs
      · next hjr =>
        have hne : x.session.connectionId ≠ l.session.connectionId := fun heq => hjr (hm.unique j r x l hj hl hs hopen heq)
        exact (Dict.get?_pop_ne _ hne).trans (h j x hj hs)

private theorem standing_createSession {m : Manager} (k : Nat) (remoteId : NetworkId) (isDialer : Bool) (h : m.Standing)
    (hnew : ∀ l ∈ m.heap, l.session.connectionId = k → l.session.state = .closed) :
    (m.createSession k remoteId isDialer).1.Standing := by
  intro j x hj hs
  simp only [createSession, List.getElem?_append] at hj ⊢
  split at hj
  · have hne : x.session.connectionId ≠ k := fun hid => hs (hnew x (List.mem_of_getElem? hj) hid)
    exact (Dict.get?_set_ne _ _ hne).trans (h j x hj hs)
  · next hlt =>
    obtain ⟨hone, _⟩ := List.getElem?_eq_some_iff.mp hj
    obtain rfl : j = m.heap.length := Nat.le_antisymm (Nat.sub_eq_zero_iff_le.mp (by simpa using hone)) (Nat.le_of_not_lt hlt)
    rw [Nat.sub_self] at hj
    obtain rfl := Option.some.inj hj
    exact Dict.get?_set_self _ _ _

/-- No step takes an open session out of the map, but the one that clears it. -/
theorem standing_acts [Aiortc] {m₀ m : Manager} {e : ManagerEvent} {outs : List Output} (h : Acts m₀ e m outs)
    (hm : m₀.Sound) (ht : m₀.Timely e) (hn : m₀.NewId e) (hs : m₀.Standing) (hopen : .aclosed ∉ outs) : m.Standing := by
  have called : ∀ (l : SessionLoop Caller) (c : Call) (caller : Caller), l.Timely (.call c caller) := fun _ _ _ => id
  induction h with
  | tasks created closing hc => exact hs
  | direct r ev he hc =>
    subst he
    exact standing_onSession r ev hm hs ht
  | enroll created k remoteId isDialer c caller hk hc =>
    have hbooks : Sound { m₀ with created := created } := ⟨hm.mapped, hm.unique, hm.popped⟩
    have hcreated := sound_createSession { m₀ with created := created } k remoteId isDialer hbooks (hn k hk.creates)
    have hstanding := @standing_createSession { m₀ with created := created } k remoteId isDialer hs (hn k hk.creates)
    exact standing_onSession _ _ hcreated hstanding fun l _ => called l _ _
  | route created senderId parsed r hs' hr hc =>
    exact @standing_onSession _ { m₀ with created := created } r _ ⟨hm.mapped, hm.unique, hm.popped⟩ hs fun l _ => called l _ _
  | buffer created senderId k candidate hs' hk hc => exact hs
  | take m outs h k ih => exact ih hopen
  | flush m outs h r senderId parsed c rest hf ih =>
    exact standing_onSession r _ (h.sound hm ht hn) (ih fun hmem => hopen (List.mem_append_left _ hmem)) fun l _ => called l _ _
  | shut m outs h r closing he ih =>
    exact @standing_onSession _ m r _ (h.sound hm ht hn) (ih fun hmem => hopen (List.mem_append_left _ hmem)) fun l _ => id
  | clear m outs h he ih => exact absurd (List.mem_append_right _ (List.mem_singleton_self _)) hopen

/-- The event ends an `aclose`: nothing is left of its snapshot. -/
def endsAclose (m : Manager) : ManagerEvent → Bool
  | .aclose => m.sessions.values.isEmpty
  | .teardown index succeeds => succeeds && (m.closing[index]?).any (·.rest.isEmpty)
  | _ => false

theorem onSession_aclosed [Aiortc] (m : Manager) (r : Ref) (ev : SessionEvent Caller) : .aclosed ∉ (m.onSession r ev).2.1 := by
  cases hl : m.heap[r]? with
  | none =>
    rw [onSession_none ev hl]
    exact List.not_mem_nil
  | some l =>
    rw [onSession_some ev hl]
    intro hmem
    rcases List.mem_append.mp hmem with heffect | hreport
    · obtain ⟨f, _, hf⟩ := List.mem_map.mp heffect
      cases hf
    · cases ho : (l.step ev).outcome with
      | none => simp [ho, reports] at hreport
      | raised caller => simp [ho, reports] at hreport
      | returned caller value => cases caller <;> simp [ho, reports] at hreport

theorem acts_aclosed [Aiortc] {m₀ m : Manager} {e : ManagerEvent} {outs : List Output} (h : Acts m₀ e m outs)
    (hmem : .aclosed ∈ outs) : e.isShutdown = true := by
  induction h with
  | tasks created closing hc => cases hmem
  | direct r ev he hc => exact absurd hmem (onSession_aclosed _ _ _)
  | enroll created k remoteId isDialer c caller hk hc => exact absurd hmem (onSession_aclosed _ _ _)
  | route created senderId parsed r hs hr hc => exact absurd hmem (onSession_aclosed _ _ _)
  | buffer created senderId k candidate hs hk hc => cases hmem
  | take m outs h k ih => exact ih hmem
  | flush m outs h r senderId parsed c rest hf ih =>
    exact ih ((List.mem_append.mp hmem).resolve_right (onSession_aclosed _ _ _))
  | shut m outs h r closing he ih => exact he
  | clear m outs h he ih => exact he

end Manager

/-- `_mark_closed` can do its work: it makes an exception of the code, or needs none. -/
def Close.Marks (x : Close) : Prop := ∀ p ∈ x.found, x.error.IsMember ∨ p.2.connected ≠ .pending

instance (x : Close) : Decidable x.Marks := inferInstanceAs (Decidable (∀ p ∈ x.found, x.error.IsMember ∨ p.2.connected ≠ .pending))

namespace Service

/-- The condition on one event: an `aclose` that returns finds the map empty, and once one
has returned no session is created. -/
def Orderly (s : Service) : ServiceEvent → Prop
  | .manager e => (s.manager.endsAclose e = true → s.manager.sessions.values = []) ∧ (s.lan ≠ .bound → s.manager.creates e = none)
  | _ => True

instance (s : Service) (e : ServiceEvent) : Decidable (s.Orderly e) :=
  match e with
  | .manager e => inferInstanceAs (Decidable
      ((s.manager.endsAclose e = true → s.manager.sessions.values = []) ∧ (s.lan ≠ .bound → s.manager.creates e = none)))
  | .connection _ _ | .accept | .lanClosed => .isTrue trivial

/-- Every close so far came with a code that a connection can be marked with. -/
def Marks (s : Service) : Prop := ∀ x ∈ s.endpoint.closes, x.Marks

instance (s : Service) : Decidable s.Marks := inferInstanceAs (Decidable (∀ x ∈ s.endpoint.closes, x.Marks))

theorem next_manager [Aiortc] (s : Service) (e : ManagerEvent) :
    s.next (.manager e) = s ∧ s.lan = .closed ∨ s.next (.manager e) = s.absorb (s.manager.step e) := by
  cases e with
  | deliver senderId message =>
    simp only [next]
    split
    · next hc => exact Or.inl ⟨rfl, hc⟩
    · exact Or.inr rfl
  | _ => exact Or.inr rfl

/-- Every session there was is closed, with one call of `on_close`, and every connection is marked closed. -/
structure Closed (s : Service) : Prop where
  sessions : ∀ (r : Ref) (l : SessionLoop Caller), s.manager.heap[r]? = some l →
    l.session.state = .closed ∧ l.callbacks.countP Effect.isClose = 1
  connections : ∀ (c : ConnRef) (conn : Connection), s.endpoint.connections[c]? = some conn → conn.closed = true

/-- A CONNECTREQUEST comes, is answered, and both channels open. -/
private def opened (request : Text) (r : Ref) : List ServiceEvent :=
  [.manager (.deliver (.p2p 2) request), .manager (.start 0)] ++ (List.replicate 3 (.resume 0 (.ok []))).map (.manager ∘ .session r) ++
    [.manager (.session r (.dataChannel reliableLabel true)), .manager (.session r (.dataChannel unreliableLabel true))]

end Service
end NetherNet
