import NetherNet.Api.Streams
import NetherNet.Api.Waiting
import NetherNet.Manager.Connecting
import NetherNet.Session.Waiting

/-! What one `aclose` of an endpoint comes to, for every session there is when it is called. -/
namespace NetherNet
open Library

namespace Connection

/-- Whatever becomes of a connection, it keeps its session, and a future that is done. -/
structure Lasts (c c' : Connection) : Prop where
  session : c'.session = c.session
  done : c.connected ≠ .pending → c'.connected = c.connected

theorem Lives.lasts {p p' : Bool × Connection} (h : Lives p p') : Lasts p.2 p'.2 := by
  cases h with
  | reader live c e =>
    obtain ⟨hsession, _, hconnected, _⟩ := c.next_kept e
    exact ⟨hsession, fun hdone => hconnected.resolve_right hdone⟩
  | connected c =>
    simp only [markConnected]
    split
    · next hp => exact ⟨rfl, fun hdone => absurd hp hdone⟩
    · exact ⟨rfl, fun _ => rfl⟩
  | packet c data => exact ⟨rfl, fun _ => rfl⟩
  | closed c error =>
    rcases c.markClosed_cases error with ⟨future, hfuture, heq⟩ | ⟨e, _, heq⟩
    · rw [heq]
      refine ⟨rfl, fun hdone => ?_⟩
      cases hc : c.connected with
      | pending => exact absurd hc hdone
      | _ =>
        rw [hc] at hfuture
        exact (Except.ok.inj hfuture).symm
    · rw [heq]
      exact ⟨rfl, fun _ => rfl⟩
  | displaced c => exact ⟨rfl, fun _ => rfl⟩

theorem lasts_run {p p' : Bool × Connection} (h : Relation.ReflTransGen Lives p p') : Lasts p.2 p'.2 := by
  induction h with
  | refl => exact ⟨rfl, fun _ => rfl⟩
  | tail _ hstep ih =>
    obtain ⟨hsession, hdone⟩ := hstep.lasts
    refine ⟨hsession.trans ih.session, fun hp => ?_⟩
    rw [hdone (by rw [ih.done hp]; exact hp), ih.done hp]

end Connection

namespace Service
variable [Aiortc]

/-! ### A step of the endpoint -/

theorem connection_lasts {s : Service} (h : s.Prompt) (e : ServiceEvent) {c : ConnRef} {conn : Connection}
    (hc : s.endpoint.connections[c]? = some conn) :
    ∃ conn', (s.next e).endpoint.connections[c]? = some conn' ∧ conn.Lasts conn' := by
  obtain ⟨_, hevolves⟩ := next_evolves s e h.routes.registry.accounted
  have hstands : ∃ live, s.endpoint.Stands c (live, conn) := by
    by_cases hlive : ∃ k, s.endpoint.conns.get? k = some c
    · exact ⟨true, hc, iff_of_true rfl hlive⟩
    · exact ⟨false, hc, iff_of_false Bool.false_ne_true hlive⟩
  obtain ⟨live, hstands⟩ := hstands
  obtain ⟨p', hp', hsteps⟩ := hevolves.goes c _ hstands
  exact ⟨p'.2, hp'.1, Connection.lasts_run hsteps⟩

/-- What holds of the manager after its step holds of it after the service's. -/
theorem manager_rule {s : Service} {P : Manager → Prop} (e : ServiceEvent) (h : P s.manager)
    (step : ∀ e', e = .manager e' → P (s.manager.next e')) : P (s.next e).manager :=
  @next_invariant _ (fun m _ => P m) s e h step (fun _ _ => h) h

omit [Aiortc] in
theorem closeLan_ne (s : Service) : s.closeLan ≠ .bound := by
  unfold closeLan
  cases s.lan with
  | closed => exact Lan.noConfusion
  | bound => cases s.broadcasting <;> exact Lan.noConfusion
  | closing => cases s.broadcasting <;> exact Lan.noConfusion

/-- The socket goes with the return of the manager's `aclose`. -/
theorem bound_next {s : Service} (e : ServiceEvent) (hl : s.lan = .bound) :
    (s.next e).lan = if .aclosed ∈ s.shows e then s.closeLan else .bound := by
  cases e with
  | manager e =>
    rcases s.next_manager e with ⟨_, hclosed⟩ | habsorb
    · rw [hl] at hclosed
      cases hclosed
    · rw [habsorb, absorb, hl]
      rfl
  | connection c ev => exact hl
  | accept => exact hl
  | lanClosed =>
    simp only [next, hl]
    exact hl

theorem unbound_next {s : Service} (e : ServiceEvent) (hl : s.lan ≠ .bound) : (s.next e).lan ≠ .bound := by
  cases e with
  | manager e =>
    rcases s.next_manager e with ⟨hsame, _⟩ | habsorb
    · rw [hsame]
      exact hl
    · rw [habsorb, absorb]
      simp only
      split
      · exact s.closeLan_ne
      · exact hl
  | connection c ev => exact hl
  | accept => exact hl
  | lanClosed =>
    simp only [next]
    split
    · exact Lan.noConfusion
    · exact hl

/-- Nothing has closed the endpoint. -/
structure Open (s : Service) : Prop where
  lan : s.lan = .bound
  closing : s.manager.closing = []
  standing : s.manager.Standing

/-- Where no `aclose` is under way there is nothing to be torn down. -/
private theorem step_teardown {m : Manager} (h : m.closing = []) (index : Nat) (succeeds : Bool) :
    m.step (.teardown index succeeds) = (m, []) := by
  simp [Manager.step, h]

theorem closing_next {s : Service} {e : ServiceEvent} (h : s.manager.closing = []) (hopen : e ≠ .manager .aclose) :
    (s.next e).manager.closing = [] := by
  refine manager_rule (P := fun m => m.closing = []) e h ?_
  rintro e' rfl
  cases e' with
  | aclose => exact absurd rfl hopen
  | teardown index succeeds =>
    rw [Manager.next, step_teardown h]
    exact h
  | _ => exact (Manager.next_closing s.manager rfl).trans h

theorem open_next {s : Service} {e : ServiceEvent} (h : s.Open) (hprompt : s.Prompt)
    (he : s.Timely e) (hopen : e ≠ .manager .aclose) : (s.next e).Open := by
  have hnone : .aclosed ∉ s.shows e := by
    intro hmem
    cases e with
    | manager e =>
      cases e with
      | aclose => exact hopen rfl
      | teardown index succeeds =>
        simp only [shows, step_teardown h.closing, List.not_mem_nil] at hmem
      | _ => cases Manager.acts_aclosed (Manager.step_acts _ _) hmem
    | _ => cases hmem
  refine ⟨?_, closing_next h.closing hopen, ?_⟩
  · rw [bound_next e h.lan, if_neg hnone]
  · refine manager_rule e h.standing ?_
    rintro e' rfl
    exact Manager.standing_acts (Manager.step_acts s.manager e') hprompt.routes.sound he.1 he.2 h.standing hnone

/-- One `aclose` is under way, and has closed the session, or comes to it yet. -/
structure Shuts (s : Service) (r : Ref) : Prop where
  lan : s.lan = .bound
  closing : ∃ x, s.manager.closing = [x] ∧ (s.manager.IsClosed r ∨ r ∈ x.rest)

/-- What an `aclose` has come to: it is under way, or has ended, and unless it was interrupted
the socket goes, and the session is closed. -/
def Ends (s : Service) (r : Ref) (interrupted : Bool) : Prop :=
  s.Shuts r ∨ s.manager.closing = [] ∧
    (interrupted = true ∨ s.lan ≠ .bound ∧ s.manager.IsClosed r)

/-- `aclose` over what is left of its snapshot. -/
private theorem acloseFrom_shuts {m : Manager} (hclosing : m.closing = []) (snapshot : Nat) (rest : List Ref) {r : Ref}
    {l : SessionLoop Caller} (hl : m.heap[r]? = some l) (h : l.session.state = .closed ∨ r ∈ rest) :
    let out := m.acloseFrom snapshot rest
    .aclosed ∈ out.2 ∧ out.1.closing = [] ∧ out.1.IsClosed r ∨
      .aclosed ∉ out.2 ∧ ∃ x, out.1.closing = [x] ∧ (out.1.IsClosed r ∨ r ∈ x.rest) := by
  cases rest with
  | nil => exact Or.inl ⟨List.mem_singleton_self _, hclosing, l, hl, h.resolve_right List.not_mem_nil⟩
  | cons j rest =>
    refine Or.inr ⟨Manager.onSession_aclosed m j _, ⟨snapshot, rest⟩, ?_, ?_⟩
    · simp only [Manager.acloseFrom, Manager.onSession_closing, hclosing, List.nil_append]
    · show (m.onSession j (.aclose (.member .none))).1.IsClosed r ∨ r ∈ rest
      cases hj : m.heap[j]? with
      | none =>
        rw [Manager.onSession_none _ hj]
        refine h.imp (fun hs => ⟨l, hl, hs⟩) fun hmem => (List.mem_cons.mp hmem).resolve_left ?_
        rintro rfl
        rw [hl] at hj
        cases hj
      | some x =>
        rw [Manager.IsClosed, Manager.onSession_heap _ hj]
        by_cases hr : r = j
        · subst hr
          exact Or.inl ⟨_, if_pos rfl, SessionLoop.aclose_closes x _⟩
        · rw [if_neg hr]
          exact h.imp (fun hs => ⟨l, hl, hs⟩) fun hmem => (List.mem_cons.mp hmem).resolve_left hr

omit [Aiortc] in
private theorem absorb_ends {s : Service} (hl : s.lan = .bound) {m : Manager} {outs : List Output}
    {r : Ref}
    (h : .aclosed ∈ outs ∧ m.closing = [] ∧ m.IsClosed r ∨
      .aclosed ∉ outs ∧ ∃ x, m.closing = [x] ∧ (m.IsClosed r ∨ r ∈ x.rest)) :
    (s.absorb (m, outs)).Ends r false := by
  rcases h with ⟨hmem, hclosing, hclosed⟩ | ⟨hmem, hclosing⟩
  · refine Or.inr ⟨hclosing, Or.inr ⟨?_, hclosed⟩⟩
    rw [absorb, if_pos hmem]
    exact s.closeLan_ne
  · refine Or.inl ⟨?_, hclosing⟩
    simp [absorb, hmem, hl]

/-- `aclose` is called. -/
theorem aclose_ends {s : Service} (h : s.Open) {r : Ref} {l : SessionLoop Caller}
    (hl : s.manager.heap[r]? = some l) : (s.next (.manager .aclose)).Ends r false := by
  show (s.absorb (s.manager.step .aclose)).Ends r false
  refine absorb_ends h.lan ?_
  refine acloseFrom_shuts h.closing _ _ hl ?_
  by_cases hs : l.session.state = .closed
  · exact Or.inl hs
  · exact Or.inr ((Dict.mem_values_iff _ r).mpr ⟨_, h.standing r l hl hs⟩)

/-- A session that is closed stays closed. -/
theorem closed_next {s : Service} {e : ServiceEvent} (he : s.Timely e) {r : Ref} (h : s.manager.IsClosed r) :
    (s.next e).manager.IsClosed r := by
  refine manager_rule (P := fun m => m.IsClosed r) e h ?_
  rintro e' rfl
  exact Manager.closed_next he.1 h

/-- While an `aclose` is under way it is not called again. -/
theorem Shuts.next {s : Service} {e : ServiceEvent} {r : Ref} (h : s.Shuts r) (he : s.Timely e)
    {l : SessionLoop Caller} (hl : s.manager.heap[r]? = some l) (hopen : e ≠ .manager .aclose) :
    (s.next e).Ends r e.interrupts := by
  obtain ⟨hlan, x, hclosing, hreach⟩ := h
  cases e with
  | connection c ev => exact Or.inl ⟨hlan, x, hclosing, hreach⟩
  | accept => exact Or.inl ⟨hlan, x, hclosing, hreach⟩
  | lanClosed =>
    have hsame : s.next .lanClosed = s := if_neg (by rw [hlan]; exact Lan.noConfusion)
    rw [hsame]
    exact Or.inl ⟨hlan, x, hclosing, hreach⟩
  | manager e =>
    -- what does not go on with the `aclose` leaves its snapshot, and closed what is closed
    have other : e.isShutdown = false → (s.next (.manager e)).Ends r false := by
      intro hshutdown
      have hnone : .aclosed ∉ s.shows (.manager e) := fun hmem => by
        rw [Manager.acts_aclosed (Manager.step_acts _ _) hmem] at hshutdown
        cases hshutdown
      have hlan' : (s.next (.manager e)).lan = .bound := by rw [bound_next _ hlan, if_neg hnone]
      refine Or.inl ⟨hlan', x, ?_, ?_⟩
      · exact manager_rule (P := fun m => m.closing = [x]) _ hclosing fun e' he' => by
          cases he'
          exact (Manager.next_closing s.manager hshutdown).trans hclosing
      · exact hreach.imp_left (closed_next he)
    cases e with
    | aclose => exact absurd rfl hopen
    | teardown index succeeds =>
      have habsorb : s.next (.manager (.teardown index succeeds)) = s.absorb (s.manager.step (.teardown index succeeds)) := rfl
      rw [habsorb]
      cases index with
      | succ index =>
        have hstep : s.manager.step (.teardown (index + 1) succeeds) = (s.manager, []) := by
          simp [Manager.step, hclosing]
        rw [hstep]
        exact Or.inl ⟨by simp [absorb, hlan], x, hclosing, hreach⟩
      | zero =>
        cases succeeds with
        | false =>
          have hstep : s.manager.step (.teardown 0 false) = ({ s.manager with closing := [] }, []) := by
            simp [Manager.step, hclosing]
          rw [hstep]
          exact Or.inr ⟨rfl, Or.inl rfl⟩
        | true =>
          have hstep : s.manager.step (.teardown 0 true) =
              Manager.acloseFrom { s.manager with closing := [] } x.snapshot x.rest := by
            simp [Manager.step, hclosing]
          rw [hstep]
          refine absorb_ends hlan (acloseFrom_shuts (m := { s.manager with closing := [] }) rfl _ _ hl ?_)
          rcases hreach with ⟨l', hl', hs⟩ | hmem
          · obtain rfl := Option.some.inj (hl'.symm.trans hl)
            exact Or.inl hs
          · exact Or.inr hmem
    | _ => exact other rfl

omit [Aiortc] in
theorem Ends.mono {s : Service} {r : Ref} {interrupted interrupted' : Bool} (h : s.Ends r interrupted)
    (hi : interrupted = true → interrupted' = true) : s.Ends r interrupted' :=
  h.imp_right fun hended => ⟨hended.1, hended.2.imp_left hi⟩

theorem Ends.next {s : Service} {e : ServiceEvent} {r : Ref} {interrupted : Bool} (h : s.Ends r interrupted) (he : s.Timely e)
    {l : SessionLoop Caller} (hl : s.manager.heap[r]? = some l) (hopen : e ≠ .manager .aclose) :
    (s.next e).Ends r (interrupted || (e.interrupts && !s.manager.closing.isEmpty)) := by
  rcases h with hshuts | ⟨hnone, hended⟩
  · obtain ⟨x, hclosing, _⟩ := hshuts.closing
    refine (hshuts.next he hl hopen).mono fun hi => ?_
    simp [hi, hclosing]
  · refine Or.inr ⟨closing_next hnone hopen, ?_⟩
    rcases hended with hi | ⟨hlan, hclosed⟩
    · exact Or.inl (by rw [hi, Bool.true_or])
    · exact Or.inr ⟨unbound_next e hlan, closed_next he hclosed⟩

/-- The session of the connection is closed. -/
def HasClosed (s : Service) (c : ConnRef) : Prop :=
  ∃ conn, s.endpoint.connections[c]? = some conn ∧ s.manager.IsClosed conn.session

theorem hasClosed_next {s : Service} {e : ServiceEvent} {c : ConnRef} (hprompt : s.Prompt) (he : s.Timely e) (h : s.HasClosed c) :
    (s.next e).HasClosed c := by
  obtain ⟨conn, hconn, hclosed⟩ := h
  obtain ⟨conn', hconn', hlasts⟩ := connection_lasts hprompt e hconn
  exact ⟨conn', hconn', by rw [hlasts.session]; exact closed_next he hclosed⟩

omit [Aiortc] in
theorem timely_aclose (s : Service) : s.Timely (.manager .aclose) := ⟨trivial, fun k hk => by cases hk⟩

end Service
end NetherNet
