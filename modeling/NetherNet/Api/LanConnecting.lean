import NetherNet.Api.Ending
import NetherNet.Api.LanClient

/-! Every call of `connect`: whom it dials, what it waits for, and what is left of its
endpoint when it raises. -/
namespace NetherNet
open Library

namespace Service
variable [Aiortc]

/-! ### The session that is dialed -/

/-- Without a broadcast task the socket closes at once. -/
structure Quiet (s : Service) : Prop where
  broadcasting : s.broadcasting = false
  lan : s.lan ≠ .closing

theorem quiet_next {s : Service} (h : s.Quiet) (e : ServiceEvent) : (s.next e).Quiet := by
  have hclose : s.closeLan = .closed := by
    unfold closeLan
    split
    · rfl
    · rw [h.broadcasting]
      rfl
  cases e with
  | manager e =>
    rcases s.next_manager e with ⟨hsame, _⟩ | habsorb
    · rw [hsame]
      exact h
    · rw [habsorb]
      refine ⟨h.broadcasting, ?_⟩
      simp only [absorb]
      split
      · rw [hclose]
        exact Lan.noConfusion
      · exact h.lan
  | connection c ev => exact ⟨h.broadcasting, h.lan⟩
  | accept => exact ⟨h.broadcasting, h.lan⟩
  | lanClosed =>
    rw [next, if_neg h.lan]
    exact h

omit [Aiortc] in
theorem Quiet.closed {s : Service} (h : s.Quiet) (hl : s.lan ≠ .bound) : s.lan = .closed := by
  cases hlan : s.lan with
  | bound => exact absurd hlan hl
  | closing => exact absurd hlan h.lan
  | closed => rfl

/-- A call has dialed the peer with session `r`, on an endpoint that does not broadcast. -/
structure Dialed (s : Service) (r : Ref) (remoteId : NetworkId) : Prop where
  prompt : s.Prompt
  quiet : s.Quiet
  session : ∃ l, s.manager.heap[r]? = some l ∧ l.session.isDialer = true ∧ l.session.remoteId = remoteId

theorem Dialed.next {s : Service} {e : ServiceEvent} {r : Ref} {remoteId : NetworkId} (h : s.Dialed r remoteId) (he : s.Timely e) :
    (s.next e).Dialed r remoteId := by
  refine ⟨prompt_next h.prompt he, quiet_next h.quiet e, ?_⟩
  refine manager_rule (P := fun m => ∃ l, m.heap[r]? = some l ∧ l.session.isDialer = true ∧ l.session.remoteId = remoteId) e
    h.session ?_
  rintro e' rfl
  obtain ⟨l, hl, hdials⟩ := h.session
  refine Manager.session_next e' r hl hdials he.1 fun l ev _ hdials => ?_
  obtain ⟨_, hremote, hdialer⟩ := l.next_identity ev
  rw [hremote, hdialer]
  exact hdials

/-- When `transport.connect` returns, a connection is made for its session, the newest there is. -/
theorem connected_registers {s : Service} {e : ServiceEvent} {r : Ref} (h : s.Prompt) (hmem : .connected r ∈ s.shows e) :
    ∃ conn, (s.next e).endpoint.connections[s.endpoint.connections.length]? = some conn ∧ conn.session = r := by
  cases e with
  | manager e =>
    obtain ⟨ev, l, value, rfl, hcall, hl, houtcome, hstep⟩ := Manager.step_connected hmem
    have hrouted : SessionLoop.Routed ev := by
      cases ev with
      | call c caller => cases hcall
      | _ => trivial
    obtain ⟨hoffered, _⟩ := Endpoint.connect_offered (h.routes.attached r l hl) hrouted houtcome
    obtain ⟨_, _, _, _, _, hsilent, _⟩ := hoffered.step
    have hendpoint : ∃ k, (s.next (.manager (.session r ev))).endpoint = (s.endpoint.register r k).1 := by
      refine ⟨(s.manager.step (.session r ev)).1.connectionId r, ?_⟩
      show s.endpoint.outputs (s.manager.step (.session r ev)).1.connectionId (s.manager.step (.session r ev)).2 = _
      rw [hstep, Endpoint.outputs_append, Endpoint.outputs_silent _ _ _ hsilent]
      rfl
    obtain ⟨k, hendpoint⟩ := hendpoint
    refine ⟨_, by rw [hendpoint, Endpoint.register_connections, if_pos rfl], (Connection.foldl_enqueue _ _).1⟩
  | _ => cases hmem

theorem next_connects {s : Service} (e : ServiceEvent) {r : Ref} (h : s.manager.Connects r) :
    (s.next e).manager.Connects r ∨ .connected r ∈ s.shows e ∨ .raised r .connect ∈ s.shows e := by
  cases e with
  | manager e =>
    rcases s.next_manager e with ⟨hsame, _⟩ | habsorb
    · rw [hsame]
      exact Or.inl h
    · rw [habsorb]
      exact Manager.next_connects e h
  | connection c ev => exact Or.inl h
  | accept => exact Or.inl h
  | lanClosed =>
    refine Or.inl ?_
    simp only [next]
    split <;> exact h

end Service

namespace LanClient

/-- The connection is that of the session that was dialed. -/
def Linked (c : LanClient) (j : ConnRef) : Prop :=
  ∃ conn, c.service.endpoint.connections[j]? = some conn ∧ conn.session = c.session

/-- What holds while the call is suspended, by the place where it is. -/
def AtStage (c : LanClient) : LanDialing → Prop
  | .dialing => c.service.Open ∧ c.service.manager.Connects c.session
  | .waiting j => c.service.Open ∧ c.Linked j
  | .aborting => c.service.Shuts c.session
  | .raised => c.interrupted = true ∨ c.service.lan ≠ .bound ∧ c.service.manager.IsClosed c.session
  | .returned j => ∃ conn, c.service.endpoint.connections[j]? = some conn ∧ conn.session = c.session ∧ conn.connected = .connected

/-- What holds of a call in every run in which sessions end once. -/
structure Kept (c : LanClient) (remoteId : NetworkId) : Prop where
  dialed : c.service.Dialed c.session remoteId
  stage : c.AtStage c.stage

variable [Aiortc]

/-- The condition on one event: that on the event of the endpoint it is. -/
def Timely (c : LanClient) : LanClientEvent → Prop
  | .service e => c.service.Timely e
  | _ => True

omit [Aiortc] in
instance (c : LanClient) (e : LanClientEvent) : Decidable (c.Timely e) :=
  match e with
  | .service e => inferInstanceAs (Decidable (c.service.Timely e))
  | .woken | .timeout | .cancel => .isTrue trivial

private theorem kept_closing {c : LanClient} {remoteId : NetworkId} {e : ServiceEvent} (h : c.service.Dialed c.session remoteId)
    (he : c.service.Timely e) (hends : (c.service.next e).Ends c.session e.interrupts) : (c.closing e).Kept remoteId := by
  unfold closing
  simp only
  split
  · next hclosing =>
    refine ⟨h.next he, ?_⟩
    rcases hends with hshuts | ⟨_, hended⟩
    · obtain ⟨_, x, hone, _⟩ := hshuts
      rw [hclosing] at hone
      cases hone
    · exact hended
  · next hclosing => exact ⟨h.next he, hends.resolve_right fun hended => hclosing hended.1⟩

private theorem kept_abort {c : LanClient} {remoteId : NetworkId} (h : c.service.Dialed c.session remoteId)
    (hopen : c.service.Open) : c.abort.Kept remoteId := by
  obtain ⟨l, hl, _⟩ := h.session
  exact kept_closing h (Service.timely_aclose _) (Service.aclose_ends hopen hl)

private theorem kept_abandon {c : LanClient} {remoteId : NetworkId} (h : c.service.Dialed c.session remoteId)
    (hopen : c.service.Open) (j : ConnRef) : (c.abandon j).Kept remoteId :=
  have he : c.service.Timely (.connection j .abandon) := trivial
  have hopen' := Service.open_next hopen h.prompt he ServiceEvent.noConfusion
  kept_abort (c := { c with service := c.service.next (.connection j .abandon) }) (h.next he) hopen'

omit [Aiortc] in
private theorem external_ne {e : ServiceEvent} (h : e.isExternal = true) : e ≠ .manager .aclose := by
  rintro rfl
  cases h

private theorem kept_serve {c : LanClient} {remoteId : NetworkId} {e : ServiceEvent} (hk : c.Kept remoteId)
    (he : c.service.Timely e) (hext : (∃ j, c.stage = .returned j) ∨ e.isExternal = true) : (c.serve e).Kept remoteId := by
  obtain ⟨service, session, stage, interrupted⟩ := c
  obtain ⟨hd, hstage⟩ := hk
  have hdialed := hd.next he
  have hopens : (∀ j, stage ≠ .returned j) → e ≠ .manager .aclose := by
    intro hne
    refine external_ne (hext.resolve_left ?_)
    rintro ⟨j, hj⟩
    exact hne j hj
  cases stage with
  | dialing =>
    obtain ⟨hopen, hconnects⟩ := hstage
    have hopen' := Service.open_next hopen hd.prompt he (hopens fun _ => LanDialing.noConfusion)
    simp only [serve]
    split
    · next hconnected => exact ⟨hdialed, hopen', Service.connected_registers hd.prompt hconnected⟩
    · next hconnected =>
      split
      · exact kept_abort hdialed hopen'
      · next hraised =>
        refine ⟨hdialed, hopen', (Service.next_connects e hconnects).resolve_right ?_⟩
        rintro (hmem | hmem)
        · exact hconnected hmem
        · exact hraised hmem
  | waiting j =>
    obtain ⟨hopen, conn, hconn, hsession⟩ := hstage
    obtain ⟨conn', hconn', hlasts⟩ := Service.connection_lasts hd.prompt e hconn
    have hopen' := Service.open_next hopen hd.prompt he (hopens fun _ => LanDialing.noConfusion)
    exact ⟨hdialed, hopen', conn', hconn', hlasts.session.trans hsession⟩
  | aborting =>
    obtain ⟨l, hl, _⟩ := hd.session
    exact kept_closing hd he (hstage.next he hl (hopens fun _ => LanDialing.noConfusion))
  | raised =>
    refine ⟨hdialed, hstage.imp_right ?_⟩
    rintro ⟨hlan, hclosed⟩
    exact ⟨Service.unbound_next e hlan, Service.closed_next he hclosed⟩
  | returned j =>
    obtain ⟨conn, hconn, hsession, hconnected⟩ := hstage
    obtain ⟨conn', hconn', hlasts⟩ := Service.connection_lasts hd.prompt e hconn
    refine ⟨hdialed, conn', hconn', hlasts.session.trans hsession, ?_⟩
    rw [hlasts.done (by rw [hconnected]; exact Future.noConfusion), hconnected]

private theorem kept_cancel {c : LanClient} {remoteId : NetworkId} (hk : c.Kept remoteId) : c.cancel.Kept remoteId := by
  obtain ⟨service, session, stage, interrupted⟩ := c
  cases stage with
  | dialing =>
    exact kept_serve hk ⟨fun _ _ => id, fun _ hk => by cases hk⟩ (Or.inr rfl)
  | waiting j => exact kept_abandon hk.dialed hk.stage.1 j
  | aborting =>
    obtain ⟨l, hl, _⟩ := hk.dialed.session
    have he : service.Timely (.manager (.teardown 0 false)) := ⟨trivial, fun _ hk => by cases hk⟩
    exact kept_closing hk.dialed he (hk.stage.next he hl (by simp))
  | raised => exact hk
  | returned j => exact hk

private theorem kept_woken {c : LanClient} {remoteId : NetworkId} (hk : c.Kept remoteId) {j : ConnRef}
    (hj : c.stage = .waiting j) : (c.woken j).Kept remoteId := by
  obtain ⟨hd, hstage⟩ := hk
  rw [hj] at hstage
  obtain ⟨hopen, conn, hconn, hsession⟩ := hstage
  simp only [woken, hconn]
  cases hfuture : conn.connected with
  | pending =>
    refine ⟨hd, ?_⟩
    simp only [hj]
    exact ⟨hopen, conn, hconn, hsession⟩
  | connected => exact ⟨hd, conn, hconn, hsession, hfuture⟩
  | failed e => exact kept_abort hd hopen
  | cancelled => exact kept_abort hd hopen

theorem kept_next {c : LanClient} {remoteId : NetworkId} {e : LanClientEvent} (hk : c.Kept remoteId) (he : c.Timely e) :
    (c.next e).Kept remoteId := by
  cases e with
  | service e =>
    simp only [next]
    split
    · next j hj => exact kept_serve hk he (Or.inl ⟨j, hj⟩)
    · split
      · next hext => exact kept_serve hk he (Or.inr hext)
      · exact hk
  | woken =>
    simp only [next]
    split
    · next j hj => exact kept_woken hk hj
    · exact hk
  | timeout =>
    simp only [next]
    split
    · next j hj =>
      have hstage := hk.stage
      rw [hj] at hstage
      exact kept_abandon hk.dialed hstage.1 j
    · exact hk
  | cancel => exact kept_cancel hk

/-- The session of the call is made, and its `start` has been called. -/
theorem kept_new {s : Service} {remoteId : NetworkId} {k : Nat} (hprompt : s.Prompt) (hquiet : s.Quiet) (hopen : s.Open)
    (he : s.Timely (.manager (.connect remoteId k))) : (new s remoteId k).Kept remoteId := by
  have hadmits : s.manager.Admits (.connect remoteId k) k remoteId true .start .connect := Manager.Admits.dial k remoteId rfl
  have hmade : (new s remoteId k).service.manager.heap[s.manager.heap.length]? =
      some ((SessionLoop.fresh (Session.new k s.manager.localId remoteId true s.manager.relayOnly)).next (.call .start .connect)) := by
    have hrun := Manager.createSession_run s.manager hadmits
    show ((s.manager.createSession k remoteId true).1.run _ _).1.heap[_]? = _
    rw [hrun, Manager.enroll_heap, if_pos rfl]
  refine ⟨⟨Service.prompt_next hprompt he, Service.quiet_next hquiet (.manager (.connect remoteId k)), _, hmade, rfl, rfl⟩, ?_, _, hmade, ?_⟩
  · exact Service.open_next hopen hprompt he (by simp)
  · exact ⟨_, List.mem_singleton_self _, rfl⟩

/-- What can be said of a call at any time, by the place where it is. -/
structure Accounted (c : LanClient) (remoteId : NetworkId) : Prop where
  session : ∃ l, c.service.manager.heap[c.session]? = some l ∧ l.session.isDialer = true ∧ l.session.remoteId = remoteId
  dialing : c.stage = .dialing → c.service.manager.Connects c.session
  waiting : ∀ j, c.stage = .waiting j → ∃ conn, c.service.endpoint.connections[j]? = some conn ∧ conn.session = c.session ∧
    (conn.connected = .pending → c.service.Settles j conn)
  aborting : c.stage = .aborting → c.service.Shuts c.session
  raised : c.stage = .raised → c.interrupted = true ∨ c.service.lan = .closed ∧ c.service.manager.IsClosed c.session
  returned : ∀ j, c.stage = .returned j → ∃ conn l, c.service.endpoint.connections[j]? = some conn ∧ conn.session = c.session ∧
    conn.connected = .connected ∧ c.service.manager.heap[c.session]? = some l ∧ .onOpen ∈ l.callbacks

private theorem Kept.accounted {c : LanClient} {remoteId : NetworkId} (hk : c.Kept remoteId) : c.Accounted remoteId := by
  obtain ⟨hd, hstage⟩ := hk
  refine ⟨hd.session, fun h => ?_, fun j h => ?_, fun h => ?_, fun h => ?_, fun j h => ?_⟩ <;> rw [h] at hstage
  · exact hstage.2
  · obtain ⟨_, conn, hconn, hsession⟩ := hstage
    exact ⟨conn, hconn, hsession, hd.prompt.settles hconn⟩
  · exact hstage
  · exact hstage.imp_right (And.imp_left hd.quiet.closed)
  · obtain ⟨conn, hconn, hsession, hconnected⟩ := hstage
    obtain ⟨l, hl, _⟩ := hd.session
    have hagrees := hd.prompt.futures j conn l hconn (by rw [hsession]; exact hl)
    exact ⟨conn, l, hconn, hsession, hconnected, hl, hagrees.connected hconnected⟩

end LanClient
end NetherNet
