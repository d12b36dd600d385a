import NetherNet.Api.Ending
import NetherNet.Api.Server

/-! Every run of a server: in which order connections are handed to the handler, what is
closed when a handler has ended, and what is left after `aclose`. -/
namespace NetherNet
open Library

namespace Endpoint

/-- Incoming connections are queued as they are made. -/
structure Queued (e : Endpoint) : Prop where
  order : (e.handled ++ e.incoming).Pairwise (· < ·)
  made : ∀ c ∈ e.handled ++ e.incoming, c < e.connections.length

theorem queued_same {e e' : Endpoint} (h : e.Queued) (hqueue : e'.handled ++ e'.incoming = e.handled ++ e.incoming)
    (hlength : e.connections.length ≤ e'.connections.length) : e'.Queued := by
  refine ⟨hqueue ▸ h.order, fun c hc => ?_⟩
  rw [hqueue] at hc
  exact Nat.lt_of_lt_of_le (h.made c hc) hlength

theorem queued_update {e : Endpoint} (h : e.Queued) (c : ConnRef) (f : Connection → Connection) : (e.update c f).Queued :=
  queued_same h rfl (Nat.le_of_eq (List.length_modify ..).symm)

theorem queued_accept {e : Endpoint} (h : e.Queued) : e.accept.Queued := by
  refine queued_same h e.accept_queue ?_
  unfold accept
  split <;> exact Nat.le_refl _

private theorem queued_register {e : Endpoint} (h : e.Queued) (r : Ref) (k : Nat) : (e.register r k).1.Queued :=
  queued_same h rfl (by simp [register])

theorem queued_output {e : Endpoint} (connectionId : Ref → Nat) (o : Output) (h : e.Queued) : (e.output connectionId o).Queued := by
  cases o with
  | effect r f =>
    cases f with
    | onOpen =>
      simp only [output, onSessionOpen]
      split
      · exact queued_update h _ _
      · -- the new connection comes after all others
        have hmade := queued_register h r (connectionId r)
        refine queued_update ⟨?_, ?_⟩ _ _
        · show (e.handled ++ (e.incoming ++ [e.connections.length])).Pairwise (· < ·)
          rw [← List.append_assoc, List.pairwise_append]
          refine ⟨h.order, List.pairwise_singleton _ _, fun c hc c' hc' => ?_⟩
          rw [List.mem_singleton.mp hc']
          exact h.made c hc
        · intro c hc
          rw [← List.append_assoc] at hc
          rcases List.mem_append.mp hc with hc | hc
          · exact hmade.made c hc
          · rw [List.mem_singleton.mp hc]
            simp [register]
    | onClose error =>
      simp only [output, onSessionClose]
      split
      · exact queued_same h rfl (Nat.le_refl _)
      · exact queued_same h rfl (Nat.le_of_eq (List.length_set ..).symm)
    | onPacket data =>
      simp only [output, onPacket]
      split
      · exact queued_update h _ _
      · exact queued_same h rfl (Nat.le_refl _)
    | _ => exact h
  | connected r => exact queued_register h r _
  | _ => exact h

end Endpoint

namespace Manager

/-- Nobody has dialed: every session answers. -/
def Listens (m : Manager) : Prop := ∀ (r : Ref) (l : SessionLoop Caller), m.heap[r]? = some l → l.session.isDialer = false

theorem listens_next [Aiortc] {m : Manager} {e : ManagerEvent} (h : m.Listens) (he : ∀ remoteId k, e ≠ .connect remoteId k) :
    (m.next e).Listens := by
  have keeps : ∀ (l : SessionLoop Caller) (ev : SessionEvent Caller), l.session.isDialer = false → (l.next ev).session.isDialer = false :=
    fun l ev hl => (l.next_identity ev).2.2.trans hl
  refine Acts.sessions h ?_ ?_ ?_ ?_ ?_ (step_acts m e)
  · exact fun r ev l _ _ hl => keeps l ev (h r l hl)
  · intro k remoteId isDialer c caller hk
    cases hk with
    | dial hdial => exact absurd hdial (he remoteId k)
    | listen sdp hs hk => rfl
  · exact fun senderId parsed r l _ _ hl => keeps l _ (h r l hl)
  · exact fun r l senderId parsed c rest _ hl => keeps l _ hl
  · exact fun _ r l hl => keeps l _ hl

end Manager

namespace Service

/-- Where nobody dials, the connections are the incoming ones, in the order in which they were made. -/
theorem queue_eq {s : Service} (hp : s.Prompt) (hq : s.endpoint.Queued) (hl : s.manager.Listens) :
    s.endpoint.handled ++ s.endpoint.incoming = List.range s.endpoint.connections.length := by
  have hmem : ∀ c, c ∈ s.endpoint.handled ++ s.endpoint.incoming ↔ c ∈ List.range s.endpoint.connections.length := by
    intro c
    rw [List.mem_range]
    refine ⟨hq.made c, fun hlt => ?_⟩
    obtain ⟨l, hl', _⟩ := hp.routes.registry.connection c _ (List.getElem?_eq_getElem hlt)
    have hone := hp.routes.registry.handed c _ l (List.getElem?_eq_getElem hlt) hl'
    rw [hl _ l hl', if_neg Bool.false_ne_true] at hone
    exact List.count_pos_iff.mp (by omega)
  have hperm := (List.perm_ext_iff_of_nodup (hq.order.imp Nat.ne_of_lt) List.nodup_range).mpr hmem
  refine List.Perm.eq_of_pairwise (fun a b _ _ hab hba => ?_) hq.order List.pairwise_lt_range hperm
  exact absurd hab (Nat.lt_asymm hba)

variable [Aiortc]

theorem queued_next {s : Service} (h : s.endpoint.Queued) (e : ServiceEvent) : (s.next e).endpoint.Queued := by
  refine @next_invariant _ (fun _ e => e.Queued) s e h (fun e' _ => ?_) (fun c ev => Endpoint.queued_update h c _) (Endpoint.queued_accept h)
  exact Endpoint.outputs_invariant h (fun e o he => Endpoint.queued_output _ o he) _

/-- The accept loop alone hands connections over. -/
theorem handled_next (s : Service) {e : ServiceEvent} (he : e ≠ .accept) : (s.next e).endpoint.handled = s.endpoint.handled := by
  cases e with
  | manager e =>
    rcases s.next_manager e with ⟨hsame, _⟩ | habsorb
    · rw [hsame]
    · rw [habsorb]
      apply Endpoint.outputs_invariant (P := fun e => e.handled = s.endpoint.handled) rfl
      intro e o hsame
      refine Eq.trans ?_ hsame
      cases o with
      | effect r f =>
        cases f with
        | onOpen =>
          simp only [Endpoint.output, Endpoint.onSessionOpen]
          split <;> rfl
        | onClose error =>
          simp only [Endpoint.output, Endpoint.onSessionClose]
          split <;> rfl
        | onPacket data =>
          simp only [Endpoint.output, Endpoint.onPacket]
          split <;> rfl
        | _ => rfl
      | _ => rfl
  | connection c ev => rfl
  | accept => exact absurd rfl he
  | lanClosed =>
    simp only [next]
    split <;> rfl

/-- After `conn.close()` the session is closed. -/
theorem closeConnection_closes {s : Service} {c : ConnRef} {conn : Connection} (hprompt : s.Prompt)
    (hc : s.endpoint.connections[c]? = some conn) : (s.closeConnection c).HasClosed c := by
  obtain ⟨l, hl, _⟩ := hprompt.routes.registry.connection c conn hc
  have hnext : s.closeConnection c = s.next (.manager (.session conn.session (.aclose (.member .none)))) := by
    rw [closeConnection, hc]
  obtain ⟨conn', hconn', hlasts⟩ := connection_lasts hprompt (.manager (.session conn.session (.aclose (.member .none)))) hc
  rw [hnext]
  refine ⟨conn', hconn', l.next (.aclose (.member .none)), ?_, SessionLoop.aclose_closes l _⟩
  rw [hlasts.session]
  have houtcome : (s.manager.onSession conn.session (.aclose (.member .none))).2.2 = .none := by
    rw [Manager.onSession_some _ hl]
    rfl
  show (s.manager.run conn.session (.aclose (.member .none))).1.heap[conn.session]? = _
  rw [Manager.run_of_outcome _ _ _ houtcome]
  simp only [Manager.afterCall]
  rw [Manager.onSession_heap _ hl, if_pos rfl]

end Service
namespace Server

/-- What holds in every run in which sessions end once. -/
structure Kept (s : Server) : Prop where
  prompt : s.service.Prompt
  listens : s.service.manager.Listens
  queued : s.service.endpoint.Queued
  tasks : HandlerTask.Tended s.tasks s.service.endpoint.handled s.closed s.service.HasClosed
  opened : s.closed = false → s.service.Open
  shut : s.closed = true → ∀ c ∈ s.service.endpoint.handled,
    ∃ conn, s.service.endpoint.connections[c]? = some conn ∧ s.service.Ends conn.session s.interrupted

theorem kept_new (localId : NetworkId) (relayOnly broadcast : Bool) : (new localId relayOnly broadcast).Kept := by
  refine ⟨Service.prompt_new localId relayOnly broadcast, fun r l hl => ?_, ⟨List.Pairwise.nil, fun c hc => ?_⟩,
    HandlerTask.tended_nil, fun _ => ⟨rfl, rfl, fun r l hl => ?_⟩, fun _ c hc => ?_⟩
  · cases hl
  · cases hc
  · cases hl
  · cases hc

/-- The tasks alone go on. -/
private theorem Kept.retask {s : Server} (h : s.Kept) {tasks : List HandlerTask}
    (ht : HandlerTask.Tended tasks s.service.endpoint.handled s.closed s.service.HasClosed) : ({ s with tasks := tasks } : Server).Kept :=
  ⟨h.prompt, h.listens, h.queued, ht, h.opened, h.shut⟩

/-- A connection that was handed over. -/
private theorem Kept.connection {s : Server} (h : s.Kept) {c : ConnRef} (hc : c ∈ s.service.endpoint.handled) :
    ∃ conn, s.service.endpoint.connections[c]? = some conn :=
  ⟨_, List.getElem?_eq_getElem (h.queued.made c (List.mem_append_left _ hc))⟩

private theorem serving_ne {e : ServiceEvent} (h : e.isServing = true) :
    e ≠ .accept ∧ e ≠ .manager .aclose ∧ ∀ remoteId k, e ≠ .manager (.connect remoteId k) := by
  refine ⟨?_, ?_, fun remoteId k => ?_⟩
  all_goals
    rintro rfl
    cases h

variable [Aiortc]

private theorem Kept.serve {s : Server} (h : s.Kept) {e : ServiceEvent} (he : s.service.Timely e) (hserving : e.isServing = true) :
    (s.serve e).Kept := by
  obtain ⟨haccept, haclose, hdial⟩ := serving_ne hserving
  have hhandled := s.service.handled_next haccept
  refine ⟨Service.prompt_next h.prompt he, ?_, Service.queued_next h.queued e, ?_,
    fun hclosed => Service.open_next (h.opened hclosed) h.prompt he haclose, fun hclosed c hc => ?_⟩
  · refine Service.manager_rule e h.listens ?_
    rintro e' rfl
    exact Manager.listens_next h.listens fun remoteId k heq => hdial remoteId k (congrArg _ heq)
  · have htasks := h.tasks.mono fun c _ => Service.hasClosed_next h.prompt he
    rw [← hhandled] at htasks
    exact htasks
  · obtain ⟨conn, hconn, hends⟩ := h.shut hclosed c (hhandled ▸ hc)
    obtain ⟨conn', hconn', hlasts⟩ := Service.connection_lasts h.prompt e hconn
    obtain ⟨l, hl, _⟩ := h.prompt.routes.registry.connection c conn hconn
    refine ⟨conn', hconn', ?_⟩
    rw [hlasts.session]
    exact hends.next he hl haclose

private theorem Kept.ends {s : Server} (h : s.Kept) (i : Nat) (ending : Ending) : (s.ended i ending).Kept := by
  unfold Server.ended
  split
  · exact h
  · next t ht =>
    split
    · obtain ⟨conn, hconn⟩ := h.connection (h.tasks.mem (List.mem_of_getElem? ht))
      have he : s.service.Timely (.manager (.session conn.session (.aclose (.member .none)))) := ⟨fun _ _ => id, fun k hk => by cases hk⟩
      have hserved : s.serve (.manager (.session conn.session (.aclose (.member .none)))) =
          { s with service := s.service.closeConnection t.conn } := by
        simp [Server.serve, Service.closeConnection, hconn, ServiceEvent.interrupts]
      have hkept := h.serve he rfl
      rw [hserved] at hkept
      exact hkept.retask (hkept.tasks.finish ht (Service.closeConnection_closes h.prompt hconn) ending)
    · exact h

private theorem Kept.accept {s : Server} (h : s.Kept) (hclosed : s.closed = false) : s.accept.Kept := by
  unfold Server.accept
  split
  · exact h
  · next c rest hincoming =>
    have hhandled : (s.service.next .accept).endpoint.handled = s.service.endpoint.handled ++ [c] := by
      simp [Service.next, Endpoint.accept, hincoming]
    have he : s.service.Timely .accept := trivial
    refine ⟨Service.prompt_next h.prompt he, h.listens, Service.queued_next h.queued .accept, ?_,
      fun _ => Service.open_next (h.opened hclosed) h.prompt he ServiceEvent.noConfusion, fun hc => ?_⟩
    · have htasks := h.tasks.mono fun c _ => Service.hasClosed_next h.prompt he
      rw [hclosed] at htasks
      show HandlerTask.Tended (s.tasks ++ [{ conn := c }]) (s.service.next .accept).endpoint.handled s.closed (s.service.next .accept).HasClosed
      rw [hhandled, hclosed]
      exact htasks.append [c]
    · rw [hclosed] at hc
      cases hc

private theorem Kept.aclose {s : Server} (h : s.Kept) (hclosed : s.closed = false) : s.aclose.Kept := by
  have he := s.service.timely_aclose
  have hhandled : (s.service.next (.manager .aclose)).endpoint.handled = s.service.endpoint.handled :=
    s.service.handled_next ServiceEvent.noConfusion
  refine ⟨Service.prompt_next h.prompt he, ?_, Service.queued_next h.queued _, ?_, fun hc => (by cases hc), fun _ c hc => ?_⟩
  · exact Manager.listens_next h.listens fun remoteId k heq => by cases heq
  · have htasks := (h.tasks.mono fun c _ => Service.hasClosed_next h.prompt he).cancel
    rw [← hhandled] at htasks
    exact htasks
  · obtain ⟨conn, hconn⟩ := h.connection (hhandled ▸ hc)
    obtain ⟨conn', hconn', hlasts⟩ := Service.connection_lasts h.prompt (.manager .aclose) hconn
    obtain ⟨l, hl, _⟩ := h.prompt.routes.registry.connection c conn hconn
    refine ⟨conn', hconn', ?_⟩
    rw [hlasts.session]
    exact (Service.aclose_ends (h.opened hclosed) hl).mono fun hi => by cases hi

/-- The condition on one event: that on the event of the endpoint it is. -/
def Timely (s : Server) : ServerEvent → Prop
  | .service e => s.service.Timely e
  | _ => True

omit [Aiortc] in
instance (s : Server) (e : ServerEvent) : Decidable (s.Timely e) :=
  match e with
  | .service e => inferInstanceAs (Decidable (s.service.Timely e))
  | .accept | .run _ | .ended _ _ | .torn _ _ | .aclose => .isTrue trivial

theorem kept_next {s : Server} {e : ServerEvent} (h : s.Kept) (he : s.Timely e) : (s.next e).Kept := by
  cases e with
  | service e =>
    simp only [next]
    split
    · next hserving => exact h.serve he hserving
    · exact h
  | accept =>
    simp only [next]
    split
    · exact h
    · next hclosed => exact h.accept (Bool.eq_false_iff.mpr hclosed)
  | run i => exact h.retask (h.tasks.run i)
  | ended i ending => exact h.ends i ending
  | torn i raised => exact h.retask (h.tasks.torn i raised)
  | aclose =>
    simp only [next]
    split
    · exact h
    · next hclosed => exact h.aclose (Bool.eq_false_iff.mpr hclosed)

/-! ### Runs -/

/-- The tasks go forward, and once `_closed` is set it stays so and no task is created. -/
structure Goes (s s' : Server) : Prop where
  tasks : HandlerTask.Follow s.tasks s'.tasks
  closed : s.closed = true → s'.closed = true ∧ s'.tasks.length = s.tasks.length

omit [Aiortc] in
theorem Goes.refl (s : Server) : s.Goes s := ⟨HandlerTask.Follow.refl _, fun h => ⟨h, rfl⟩⟩

omit [Aiortc] in
theorem Goes.trans {s s' s'' : Server} (h : s.Goes s') (h' : s'.Goes s'') : s.Goes s'' := by
  refine ⟨h.tasks.trans h'.tasks, fun hclosed => ?_⟩
  obtain ⟨hclosed', hlength⟩ := h.closed hclosed
  obtain ⟨hclosed'', hlength'⟩ := h'.closed hclosed'
  exact ⟨hclosed'', hlength'.trans hlength⟩

theorem goes_next (s : Server) (e : ServerEvent) : s.Goes (s.next e) := by
  have retasked : ∀ (i : Nat) (f : HandlerTask → HandlerTask) (service : Service), (∀ t : HandlerTask, t.Onward (f t)) →
      s.Goes { s with tasks := s.tasks.modify i f, service := service } := by
    intro i f service hf
    exact ⟨HandlerTask.follow_modify _ _ hf, fun h => ⟨h, List.length_modify ..⟩⟩
  cases e with
  | service e =>
    simp only [next]
    split
    · exact ⟨HandlerTask.Follow.refl _, fun h => ⟨h, rfl⟩⟩
    · exact Goes.refl s
  | accept =>
    simp only [next]
    split
    · exact Goes.refl s
    · next hopen =>
      unfold accept
      split
      · exact Goes.refl s
      · exact ⟨HandlerTask.follow_append _ _, fun h => absurd h hopen⟩
  | run i => exact retasked i _ s.service HandlerTask.onward_run
  | ended i ending =>
    simp only [next, ended]
    split
    · exact Goes.refl s
    · split
      · exact retasked i _ _ fun t => t.onward_ended ending
      · exact Goes.refl s
  | torn i raised => exact retasked i _ s.service fun t => t.onward_torn raised
  | aclose =>
    simp only [next]
    split
    · exact Goes.refl s
    · next hopen => exact ⟨HandlerTask.follow_map _ HandlerTask.onward_cancel, fun h => absurd h hopen⟩

theorem goes_run (s : Server) (events : List ServerEvent) : s.Goes (Machine.run next s events) :=
  @Machine.run_invariant_always _ _ next (fun s' => s.Goes s') (fun s' e h => h.trans (goes_next s' e)) s (Goes.refl s) events

/-- What can be said of a server at any time. -/
structure Accounted (s : Server) : Prop where
  tasks : s.tasks.map HandlerTask.conn ++ s.service.endpoint.incoming = List.range s.service.endpoint.connections.length
  opened : ∀ (c : ConnRef) (conn : Connection), s.service.endpoint.connections[c]? = some conn →
    ∃ l, s.service.manager.heap[conn.session]? = some l ∧ .onOpen ∈ l.callbacks
  ended : ∀ t ∈ s.tasks, t.HasEnded → s.service.HasClosed t.conn
  cancelled : ∀ t ∈ s.tasks, t.cancelled = true ∨ t.stage = .dropped → s.closed = true
  shut : s.closed = true → s.service.manager.closing = [] → s.interrupted = true ∨ ∀ t ∈ s.tasks, s.service.HasClosed t.conn

omit [Aiortc] in
private theorem Kept.accounted {s : Server} (h : s.Kept) : s.Accounted := by
  refine ⟨?_, fun c conn hc => ?_, h.tasks.ended, h.tasks.cancelled, fun hclosed hclosing => ?_⟩
  · rw [h.tasks.conns]
    exact Service.queue_eq h.prompt h.queued h.listens
  · obtain ⟨l, hl, _, hjoined, _⟩ := h.prompt.routes.registry.connection c conn hc
    exact ⟨l, hl, (SessionLoop.joined_listener (h.listens _ l hl)).mp hjoined⟩
  · cases hi : s.interrupted with
    | true => exact Or.inl rfl
    | false =>
      refine Or.inr fun t ht => ?_
      obtain ⟨conn, hconn, hends⟩ := h.shut hclosed t.conn (h.tasks.mem ht)
      rcases hends with hshuts | ⟨_, hended⟩
      · obtain ⟨x, hone, _⟩ := hshuts.closing
        rw [hclosing] at hone
        cases hone
      · obtain ⟨_, hsession⟩ := hended.resolve_left (by rw [hi]; exact Bool.false_ne_true)
        exact ⟨conn, hconn, hsession⟩

/-- In every run of a server in which sessions end once: each connection that opened has one
task, or waits for it, in the order in which they opened; a task goes forward only; once the
handler of a task has ended the session of its connection is closed; and once `aclose` has
been called no task is created or begins to run, and when it has ended, uninterrupted, the
sessions of all tasks are closed. -/
theorem serve_accounted (localId : NetworkId) (relayOnly broadcast : Bool) (events later : List ServerEvent)
    (h : Machine.Along Timely next (new localId relayOnly broadcast) (events ++ later)) :
    let s := Machine.run next (new localId relayOnly broadcast) events
    let s' := Machine.run next s later
    s'.Accounted ∧ HandlerTask.Follow s.tasks s'.tasks ∧ (s.closed = true → HandlerTask.Held s.tasks s'.tasks) := by
  intro s s'
  obtain ⟨hevents, hlater⟩ := (Machine.along_append _ _ _ _ _).mp h
  have hkept : s.Kept := Machine.run_invariant (fun (s : Server) e hs he => kept_next hs he) (kept_new localId relayOnly broadcast) hevents
  have hkept' : s'.Kept := Machine.run_invariant (fun (s : Server) e hs he => kept_next hs he) hkept hlater
  have hgoes := goes_run s later
  refine ⟨hkept'.accounted, hgoes.tasks, fun hclosed => ?_⟩
  exact hgoes.tasks.held (hgoes.closed hclosed).2 (hkept.tasks.reaped hclosed)

/-- One connection opens, is accepted, and its handler runs while the server is closed. -/
private def acceptOne : List ServerEvent :=
  let session (e : SessionEvent Caller) : ServerEvent := .service (.manager (.session 0 e))
  [.service (.manager (.deliver (.p2p 2) "CONNECTREQUEST 7 v=0".toList)), .service (.manager (.start 0)), session (.resume 0 (.ok [])),
    session (.resume 0 (.ok [])), session (.resume 0 (.ok [])), session (.dataChannel reliableLabel true),
    session (.dataChannel unreliableLabel true), .accept, .run 0, .aclose]

omit [Aiortc] in
/-- The handler ends after that. -/
theorem serve_accounted_one :
    letI : Aiortc := ⟨fun _ => true⟩
    let s' := Machine.run next (Machine.run next (new (.p2p 1) false true) acceptOne)
      [.service (.manager (.teardown 0 true)), .ended 0 .connectionClosed, .torn 0 false]
    s'.tasks = [{ conn := 0, stage := .done false, cancelled := true }] ∧ s'.service.HasClosed 0 := by
  let _ : Aiortc := ⟨fun _ => true⟩
  intro s'
  have htasks : s'.tasks = [{ conn := 0, stage := .done false, cancelled := true }] := by decide +kernel
  have hover : s'.closed = true ∧ s'.service.manager.closing = [] ∧ s'.interrupted = false := by decide +kernel
  have haccounted : s'.Accounted := (serve_accounted (.p2p 1) false true acceptOne
    [.service (.manager (.teardown 0 true)), .ended 0 .connectionClosed, .torn 0 false] (by decide +kernel)).1
  refine ⟨htasks, ?_⟩
  rcases haccounted.shut hover.1 hover.2.1 with hinterrupted | hclosed
  · rw [hover.2.2] at hinterrupted
    cases hinterrupted
  · have hmem : { conn := 0, stage := .done false, cancelled := true } ∈ s'.tasks := htasks ▸ List.mem_singleton_self _
    exact hclosed _ hmem

end Server
end NetherNet
