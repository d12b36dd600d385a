import NetherNet.Api.Shutdown
import NetherNet.Session.Timing

/-! Whoever awaits a connection: as long as its future is pending its session is open, and
has a timer armed that fails the future. -/
namespace NetherNet
open Library

/-- A move never goes back to IDLE, and calls `on_open` when it connects the session. -/
theorem Session.Move.onwards {late : Prop} {s s' : Session} {effects : List Effect} (h : Session.Move late s s' effects) :
    (s.state ≠ .idle → s'.state ≠ .idle) ∧ (s'.state = .connected → s.state = .connected ∨ .onOpen ∈ effects) := by
  cases h with
  | quiet pc scheduled _ _ _ _ => exact ⟨id, Or.inl⟩
  | opens pc _ _ _ _ => exact ⟨fun _ => by simp, fun _ => Or.inr (List.mem_singleton_self _)⟩
  | arms pc state error _ hw _ _ _ => cases hw <;> exact ⟨fun _ => by simp, fun hs => by simp at hs⟩
  | closes scheduled error notice _ _ _ => exact ⟨fun _ => by simp, fun hs => by simp at hs⟩

namespace Connection

/-- A future that a close finds pending is failed with the code of the close, where it is a member. -/
theorem markClosed_fails {c : Connection} (error : SessionError) (h : c.connected = .pending) :
    ∃ e, (c.markClosed (.member error)).1.connected = .failed e ∧ e.FailedWith error.toInt := by
  refine ⟨Exn.raising (Exn.ofFailed (.member error)), ?_, error, _, rfl, rfl⟩
  rw [markClosed, h]
  rfl

theorem markClosed_done {c : Connection} {error : ErrorCode} (h : error.IsMember ∨ c.connected ≠ .pending) :
    (c.markClosed error).1.connected ≠ .pending := by
  rcases h with ⟨m, rfl⟩ | hdone
  · cases hc : c.connected with
    | pending =>
      obtain ⟨e, hfailed, _⟩ := markClosed_fails m hc
      rw [hfailed]
      exact Future.noConfusion
    | _ => simp [markClosed, failedWith, hc]
  · cases hc : c.connected with
    | pending => exact absurd hc hdone
    | _ => simp [markClosed, failedWith, hc]

end Connection

namespace SessionLoop

/-- The timer goes with the state, the state goes with what was called, and a dialer that has
its local description is no longer idle. -/
structure Punctual (l : SessionLoop Caller) : Prop where
  opening : l.Opening
  timer : TimerKept l.session
  opened : l.session.state = .connected → .onOpen ∈ l.callbacks
  begun : l.session.isDialer = true → l.session.pc.localDescription.isSome = true → l.session.state ≠ .idle

theorem punctual_step [Aiortc] {l : SessionLoop Caller} {ev : SessionEvent Caller} (h : l.Punctual) (he : Signalled ev) :
    (l.next ev).Punctual := by
  obtain ⟨honwards, hopens⟩ := (l.step_move ev).onwards
  refine ⟨opening_step l ev h.opening he, timerKept_step l ev h.timer, fun hs => ?_, fun hd hdescribed => ?_⟩
  · rw [callbacks_next, List.mem_append]
    rcases hopens hs with hold | hnew
    · exact Or.inl (h.opened hold)
    · exact Or.inr (List.mem_filter.mpr ⟨hnew, rfl⟩)
  · rw [(l.next_identity ev).2.2] at hd
    rcases h.opening.description he hd with hsame | ⟨caller, hoffered⟩
    · rw [hsame] at hdescribed
      exact honwards (h.begun hd hdescribed)
    · obtain ⟨_, _, hstate, _⟩ := hoffered.step
      rw [hstate]
      exact SessionState.noConfusion

/-- A dialer that has its connection and has neither opened nor closed waits for a message. -/
theorem Punctual.waits {l : SessionLoop Caller} (h : l.Punctual) (hd : l.session.isDialer = true) (hj : l.Joined)
    (hopen : .onOpen ∉ l.callbacks) (hs : l.session.state ≠ .closed) :
    ∃ handle error, Waits l.session.state error ∧ l.session.scheduled = [(handle, .member error)] := by
  have hbegun := h.begun hd ((joined_dialer hd).mp hj)
  cases h.timer with
  | armed handle error hw _ hscheduled => exact ⟨handle, error, timerError_eq_some.mp hw, hscheduled⟩
  | unarmed hw _ _ =>
    cases hstate : l.session.state with
    | idle => exact absurd hstate hbegun
    | connected => exact absurd (h.opened hstate) hopen
    | closed => exact absurd hstate hs
    | offerSent | answerSent | negotiating =>
      rw [hstate] at hw
      cases hw

end SessionLoop

namespace Manager

/-- Every session keeps its timer. -/
def Punctual (m : Manager) : Prop := ∀ (r : Ref) (l : SessionLoop Caller), m.heap[r]? = some l → l.Punctual

theorem punctual_next [Aiortc] {m : Manager} (e : ManagerEvent) (h : m.Punctual) : (m.next e).Punctual := by
  refine Acts.sessions h ?_ ?_ ?_ ?_ ?_ (step_acts m e)
  · rintro r ev l rfl hcall hl
    refine SessionLoop.punctual_step (h r l hl) ?_
    cases ev with
    | call c caller => cases hcall
    | _ => trivial
  · intro k remoteId isDialer c caller hk
    cases hk with
    | dial he =>
      refine ⟨SessionLoop.opening_started _ _ _ _ _ _ (Or.inl ⟨rfl, rfl⟩), ?_, fun hs => ?_, fun _ hdescribed => ?_⟩
      · exact SessionLoop.timerKept_step _ _ (.unarmed rfl rfl rfl)
      · cases hs
      · cases hdescribed
    | listen sdp hs hk =>
      refine ⟨SessionLoop.opening_started _ _ _ _ _ _ (Or.inr ⟨rfl, k, sdp, rfl⟩), ?_, fun hs => ?_, fun hd => ?_⟩
      · exact SessionLoop.timerKept_step _ _ (.unarmed rfl rfl rfl)
      · cases hs
      · cases hd
  · exact fun senderId parsed r l _ _ hl => SessionLoop.punctual_step (h r l hl) trivial
  · exact fun r l senderId parsed c rest _ hl => SessionLoop.punctual_step hl trivial
  · exact fun _ r l hl => SessionLoop.punctual_step hl trivial

end Manager

namespace Endpoint

/-! ### Futures -/

/-- A future is pending for a dialer that has not opened, and connected for a session that has. -/
structure Agrees (future : Future) (l : SessionLoop Caller) : Prop where
  pending : future = .pending → l.session.isDialer = true ∧ .onOpen ∉ l.callbacks
  connected : future = .connected → .onOpen ∈ l.callbacks

theorem agrees_done {future : Future} (l : SessionLoop Caller) (hp : future ≠ .pending) (hc : future ≠ .connected) :
    Agrees future l := ⟨fun h => absurd h hp, fun h => absurd h hc⟩

/-- Every connection has the future that its session calls for. -/
def Futures (m : Manager) (e : Endpoint) : Prop :=
  ∀ (c : ConnRef) (conn : Connection) (l : SessionLoop Caller), e.connections[c]? = some conn → m.heap[conn.session]? = some l →
    Agrees conn.connected l

/-- The connection has the session and the future it had. -/
def Was (e : Endpoint) (c : ConnRef) (conn' : Connection) : Prop :=
  ∃ conn, e.connections[c]? = some conn ∧ conn.session = conn'.session ∧ conn.connected = conn'.connected

private theorem was_onPacket {e : Endpoint} {k : Nat} {data : Bytes} {c : ConnRef} {conn' : Connection}
    (hc : (e.onPacket k data).connections[c]? = some conn') : e.Was c conn' := by
  unfold onPacket at hc
  split at hc
  · next c₀ hc₀ =>
    rw [update_connections] at hc
    obtain ⟨conn, hconn, rfl⟩ := Option.map_eq_some_iff.mp hc
    refine ⟨conn, hconn, ?_⟩
    split <;> exact ⟨rfl, rfl⟩
  · exact ⟨conn', hc, rfl, rfl⟩

private theorem was_onPackets {e : Endpoint} {k : Nat} {c : ConnRef} {conn' : Connection} (packets : List Bytes)
    (hc : (packets.foldl (fun e data => e.onPacket k data) e).connections[c]? = some conn') : e.Was c conn' := by
  induction packets generalizing e with
  | nil => exact ⟨conn', hc, rfl, rfl⟩
  | cons data rest ih =>
    obtain ⟨conn, hconn, hsession, hfuture⟩ := ih hc
    obtain ⟨conn₀, hconn₀, hsession₀, hfuture₀⟩ := was_onPacket hconn
    exact ⟨conn₀, hconn₀, hsession₀.trans hsession, hfuture₀.trans hfuture⟩

private theorem enqueueAll_connected (conn : Connection) (packets : List Bytes) :
    (packets.foldl Connection.enqueue conn).connected = conn.connected := by
  induction packets generalizing conn with
  | nil => rfl
  | cons data rest ih => exact ih (conn.enqueue data)

private theorem was_register {e : Endpoint} {r : Ref} {k : Nat} {c : ConnRef} {conn' : Connection}
    (hc : (e.register r k).1.connections[c]? = some conn') :
    c = e.connections.length ∧ conn'.session = r ∧ conn'.connected = .pending ∨ e.Was c conn' := by
  rw [register_connections] at hc
  split at hc
  · next heq =>
    obtain rfl := Option.some.inj hc
    exact Or.inl ⟨heq, (Connection.foldl_enqueue _ _).1, enqueueAll_connected _ _⟩
  · exact Or.inr ⟨conn', hc, rfl, rfl⟩

private theorem markConnected_cases (c : Connection) : c.markConnected.session = c.session ∧
    (c.markConnected.connected = .connected ∨ c.connected ≠ .pending ∧ c.markConnected.connected = c.connected) := by
  unfold Connection.markConnected
  split
  · exact ⟨rfl, Or.inl rfl⟩
  · next hdone => exact ⟨rfl, Or.inr ⟨hdone, rfl⟩⟩

/-- Where a session opens, its connection is the one that stands under its id, or is made. -/
private theorem was_onSessionOpen {e : Endpoint} {r : Ref} {k : Nat} {c : ConnRef} {conn' : Connection}
    (hc : (e.onSessionOpen r k).connections[c]? = some conn') :
    e.Was c conn' ∧ (e.conns.get? k = some c → conn'.connected ≠ .pending) ∨
      conn'.connected = .connected ∧
        (conn'.session = r ∨ e.conns.get? k = some c ∧ ∃ conn, e.connections[c]? = some conn ∧ conn.session = conn'.session) := by
  unfold onSessionOpen at hc
  split at hc
  · next c₀ hc₀ =>
    rw [update_connections] at hc
    obtain ⟨conn, hconn, heq⟩ := Option.map_eq_some_iff.mp hc
    split at heq
    · next hself =>
      obtain ⟨hsession, hmarked⟩ := markConnected_cases conn
      rw [heq] at hsession hmarked
      rcases hmarked with hconnected | ⟨hdone, hsame⟩
      · exact Or.inr ⟨hconnected, Or.inr ⟨hself ▸ hc₀, conn, hconn, hsession.symm⟩⟩
      · exact Or.inl ⟨⟨conn, hconn, hsession.symm, hsame.symm⟩, fun _ => hsame ▸ hdone⟩
    · next hne => exact Or.inl ⟨⟨conn, hconn, by rw [heq], by rw [heq]⟩, fun h => absurd (Option.some.inj (hc₀.symm.trans h)) hne⟩
  · next hnone =>
    have hfree : e.conns.get? k = some c → conn'.connected ≠ .pending := fun h => by rw [hnone] at h; cases h
    rw [update_connections] at hc
    obtain ⟨conn, hconn, heq⟩ := Option.map_eq_some_iff.mp hc
    have hmade := was_register hconn
    split at heq
    · next hself =>
      obtain ⟨hsession, hmarked⟩ := markConnected_cases conn
      rw [heq] at hsession hmarked
      rcases hmade with ⟨_, hnew, hpending⟩ | ⟨conn₀, hconn₀, _⟩
      · rcases hmarked with hconnected | ⟨hdone, _⟩
        · exact Or.inr ⟨hconnected, Or.inl (hsession.trans hnew)⟩
        · exact absurd hpending hdone
      · -- the new connection's place was free
        have hlt := (List.getElem?_eq_some_iff.mp hconn₀).1
        exact absurd hself (Nat.ne_of_gt hlt)
    · next hne =>
      subst heq
      rcases hmade with ⟨hself, _⟩ | hold
      · exact absurd hself.symm hne
      · exact Or.inl ⟨hold, hfree⟩

private theorem was_onSessionClose {e : Endpoint} {r : Ref} {k : Nat} {error : ErrorCode} {c : ConnRef} {conn' : Connection}
    (hc : (e.onSessionClose r k error).connections[c]? = some conn') :
    e.Was c conn' ∨ conn'.connected ≠ .pending ∧ conn'.connected ≠ .connected := by
  unfold onSessionClose at hc
  split at hc
  · exact Or.inl ⟨conn', hc, rfl, rfl⟩
  · next c₀ conn₀ hfind =>
    obtain ⟨_, hconn₀⟩ := find?_some hfind
    by_cases h : c₀ = c
    · subst h
      rw [List.getElem?_set_self (List.getElem?_eq_some_iff.mp hconn₀).1] at hc
      obtain rfl := Option.some.inj hc
      rcases conn₀.markClosed_cases error with ⟨future, hfuture, heq⟩ | ⟨x, _, heq⟩
      · rw [heq]
        cases hbefore : conn₀.connected with
        | pending =>
          rw [hbefore] at hfuture
          cases error with
          | member m =>
            cases hfuture
            exact Or.inr ⟨Future.noConfusion, Future.noConfusion⟩
          | unknown n => cases hfuture
        | _ =>
          rw [hbefore] at hfuture
          exact Or.inl ⟨conn₀, hconn₀, rfl, hbefore.trans (Except.ok.inj hfuture)⟩
      · rw [heq]
        exact Or.inl ⟨conn₀, hconn₀, rfl, rfl⟩
    · rw [List.getElem?_set_ne h] at hc
      exact Or.inl ⟨conn', hc, rfl, rfl⟩

section Steps
variable {m m' : Manager} {e e' : Endpoint} {r : Ref} {l l' : SessionLoop Caller}

/-- A connection that keeps its future still agrees with its session, unless this event opened it. -/
private theorem Futures.carry (h : Futures m e) (hg : Goes m m' r l l') {more : List Effect} (hc : l'.callbacks = l.callbacks ++ more)
    {c : ConnRef} {conn' : Connection} {x : SessionLoop Caller} (hwas : e.Was c conn')
    (hopen : conn'.session = r → conn'.connected = .pending → .onOpen ∉ more) (hx : m'.heap[conn'.session]? = some x) :
    Agrees conn'.connected x := by
  obtain ⟨conn, hconn, hsession, hfuture⟩ := hwas
  by_cases hr : conn'.session = r
  · rw [hr, hg.self] at hx
    obtain rfl := Option.some.inj hx
    have hbefore := h c conn l hconn (by rw [hsession, hr]; exact hg.before)
    rw [hfuture] at hbefore
    refine ⟨fun hp => ?_, fun hconnected => ?_⟩
    · obtain ⟨hd, hunopened⟩ := hbefore.pending hp
      refine ⟨hg.isDialer.trans hd, fun hmem => ?_⟩
      rw [hc] at hmem
      exact (List.mem_append.mp hmem).elim hunopened (hopen hr hp)
    · rw [hc]
      exact List.mem_append_left _ (hbefore.connected hconnected)
  · rw [hg.other hr] at hx
    rw [← hfuture]
    exact h c conn x hconn (by rw [hsession]; exact hx)

private theorem Futures.sees (h : Futures m e) (hroutes : Routes m e) (hg : Goes m m' r l l') (hsees : Sees r l l' e e') :
    Futures m' e' := by
  intro c conn' x hconn hx
  cases hsees with
  | silent _ _ hc =>
    exact h.carry hg (hc.trans (List.append_nil _).symm) ⟨conn', hconn, rfl, rfl⟩ (fun _ _ => List.not_mem_nil) hx
  | connected hd _ _ hj _ hc =>
    rcases was_register hconn with ⟨_, hsession, hp⟩ | hold
    · rw [hsession, hg.self] at hx
      obtain rfl := Option.some.inj hx
      refine ⟨fun _ => ⟨hg.isDialer.trans hd, fun hmem => ?_⟩, fun h => by rw [hp] at h; cases h⟩
      -- before its local description is set it calls `on_close` alone
      have hnone : l.session.pc.localDescription = none := by
        cases hdescription : l.session.pc.localDescription with
        | none => rfl
        | some sdp => exact absurd ((SessionLoop.joined_dialer hd).mpr (by rw [hdescription]; rfl)) hj
      rw [hc] at hmem
      cases (hroutes.attached r l hg.before).opening.silent hnone _ (List.mem_filter.mp hmem).1 rfl
    · exact h.carry hg (hc.trans (List.append_nil _).symm) hold (fun _ _ => List.not_mem_nil) hx
  | opened hs _ _ _ hc =>
    -- the connection of an open session stands in the map
    have hstands : ∀ conn, e.connections[c]? = some conn → conn.session = r → e.conns.get? l.session.connectionId = some c := by
      intro conn hconn₀ hr
      obtain ⟨l₀, hl₀, hid, _, hstands⟩ := hroutes.registry.connection c conn hconn₀
      rw [hr, hg.before] at hl₀
      obtain rfl := Option.some.inj hl₀
      rw [hid]
      exact hstands hs
    rcases was_onSessionOpen hconn with ⟨hold, hmarked⟩ | ⟨hconnected, howner⟩
    · refine h.carry hg hc hold (fun hr hp => ?_) hx
      obtain ⟨conn, hconn₀, hsession, _⟩ := hold
      exact absurd hp (hmarked (hstands conn hconn₀ (hsession.trans hr)))
    · have hr : conn'.session = r := by
        rcases howner with hr | ⟨hget, conn, hconn₀, hsession⟩
        · exact hr
        · obtain ⟨_, conn₁, hconn₁, hr⟩ := hroutes.registry.owner hroutes.sound hg.before hs hget
          obtain rfl := Option.some.inj (hconn₁.symm.trans hconn₀)
          exact hsession.symm.trans hr
      rw [hr, hg.self] at hx
      obtain rfl := Option.some.inj hx
      refine ⟨fun hp => Future.noConfusion (hconnected.symm.trans hp), fun _ => ?_⟩
      rw [hc]
      exact List.mem_append_right _ (List.mem_singleton_self _)
  | closed error _ _ _ hc =>
    rcases was_onSessionClose hconn with hold | ⟨hpending, hconnected⟩
    · exact h.carry hg hc hold (fun _ _ => by simp) hx
    · exact agrees_done x hpending hconnected
  | packets packets _ _ _ hc =>
    exact h.carry hg hc (was_onPackets packets hconn) (fun _ _ => by simp) hx

private theorem Futures.enrolls (h : Futures m e) (hreg : Registry m e) (hn : Enrolls m m' l) : Futures m' e := by
  intro c conn x hconn hx
  obtain ⟨x₀, hx₀, _⟩ := hreg.connection c conn hconn
  obtain rfl := Option.some.inj ((hn.older hx₀).symm.trans hx)
  exact h c conn x₀ hconn hx₀

/-- The application's coroutines cancel a pending future, if they change it. -/
private theorem next_future (c : Connection) (ev : ConnectionEvent) :
    (c.next ev).connected = c.connected ∨ (c.next ev).connected = .cancelled := by
  have received : ∀ r, (c.received r).1.connected = c.connected := by
    rintro ⟨o, q⟩
    cases o with
    | none => rfl
    | some item => cases item <;> rfl
  cases ev with
  | recv getter => exact Or.inl (received _)
  | resume index =>
    simp only [Connection.next, Connection.resume]
    split
    · exact Or.inl rfl
    · exact Or.inl (received _)
  | cancelWaiting index => exact Or.inl rfl
  | cancelWoken index => exact Or.inl rfl
  | abandon =>
    simp only [Connection.next, Connection.abandon]
    split
    · exact Or.inr rfl
    · exact Or.inl rfl

private theorem Futures.update (h : Futures m e) (c₀ : ConnRef) (ev : ConnectionEvent) : Futures m (e.update c₀ (·.next ev)) := by
  intro c conn' l hc hl
  rw [update_connections] at hc
  obtain ⟨conn, hconn, heq⟩ := Option.map_eq_some_iff.mp hc
  split at heq
  · have hsession : conn.session = conn'.session := heq ▸ (conn.next_kept ev).session.symm
    rw [← hsession] at hl
    rcases next_future conn ev with hsame | hcancelled
    · rw [← heq, hsame]
      exact h c conn l hconn hl
    · rw [← heq, hcancelled]
      exact agrees_done l Future.noConfusion Future.noConfusion
  · rw [heq] at hconn
    exact h c conn' l hconn hl

private theorem Futures.accept (h : Futures m e) : Futures m e.accept := by
  intro c conn l hc hl
  have hsame : e.accept.connections = e.connections := by
    unfold Endpoint.accept
    split <;> rfl
  rw [hsame] at hc
  exact h c conn l hc hl

end Steps
end Endpoint

namespace Service

/-- The session of a pending connection waits for a message, and has the timer armed that
fails the future with the error of that message. -/
structure Expires [Aiortc] (s : Service) (c : ConnRef) (conn : Connection) (l : SessionLoop Caller) (handle : Nat)
    (error : SessionError) : Prop where
  session : s.manager.heap[conn.session]? = some l
  dials : l.session.isDialer = true
  waits : Waits l.session.state error
  armed : l.session.scheduled = [(handle, .member error)]
  fails : ∃ conn' e, (s.next (.manager (.session conn.session (.timer handle)))).endpoint.connections[c]? = some conn' ∧
    conn'.connected = .failed e ∧ e.FailedWith error.toInt ∧ conn'.closed = true

/-- An armed timer that goes off fails the future of its session's connection. -/
private theorem timer_fails [Aiortc] {s : Service} (h : Endpoint.Routes s.manager s.endpoint) {c : ConnRef} {conn : Connection}
    {l : SessionLoop Caller} {handle : Nat} {error : SessionError} (hc : s.endpoint.connections[c]? = some conn)
    (hl : s.manager.heap[conn.session]? = some l) (hp : conn.connected = .pending) (hs : l.session.state ≠ .closed)
    (harmed : l.session.scheduled = [(handle, .member error)]) :
    ∃ conn' e, (s.next (.manager (.session conn.session (.timer handle)))).endpoint.connections[c]? = some conn' ∧
      conn'.connected = .failed e ∧ e.FailedWith error.toInt ∧ conn'.closed = true := by
  obtain ⟨l₀, hl₀, hid, _, hstands⟩ := h.registry.connection c conn hc
  obtain rfl := Option.some.inj (hl₀.symm.trans hl)
  have heffects : (l₀.step (.timer handle)).effects = [.onClose (.member error)] := by
    simp [SessionLoop.step, SessionLoop.ran, Session.fireTimer, Session.close, harmed, hs]
  have hstep : s.manager.step (.session conn.session (.timer handle)) =
      ((s.manager.onSession conn.session (.timer handle)).1, [.effect conn.session (.onClose (.member error))]) := by
    rw [Manager.step_session _ _ rfl, Manager.run, Manager.onSession_some _ hl, heffects]
    rfl
  have hnames := Endpoint.names_connectionId (s.manager.onSession conn.session (.timer handle)).1 conn.session
    (l₀.next (.timer handle)) (by rw [Manager.onSession_heap _ hl, if_pos rfl])
  rw [(l₀.next_identity (.timer handle)).1, hid] at hnames
  have hendpoint : (s.next (.manager (.session conn.session (.timer handle)))).endpoint =
      s.endpoint.onSessionClose conn.session conn.connectionId (.member error) := by
    show s.endpoint.outputs (s.manager.step _).1.connectionId (s.manager.step _).2 = _
    rw [hstep, ← hnames]
    rfl
  have hfind : s.endpoint.find? conn.connectionId = some (c, conn) := by
    simp [Endpoint.find?, hstands hs, hc]
  obtain ⟨e, hfailed, hwith⟩ := Connection.markClosed_fails error hp
  refine ⟨(conn.markClosed (.member error)).1, e, ?_, hfailed, hwith, Connection.markClosed_closed (Or.inl ⟨error, rfl⟩)⟩
  rw [hendpoint]
  simp only [Endpoint.onSessionClose, hfind]
  exact List.getElem?_set_self (List.getElem?_eq_some_iff.mp hc).1

/-- What holds in every run in which sessions end once: connections are those of their
sessions, their futures agree with them, and the sessions keep their timers. -/
structure Prompt (s : Service) : Prop where
  routes : Endpoint.Routes s.manager s.endpoint
  futures : Endpoint.Futures s.manager s.endpoint
  punctual : s.manager.Punctual

theorem prompt_new (localId : NetworkId) (relayOnly broadcasting : Bool) : (new localId relayOnly broadcasting).Prompt := by
  refine ⟨Endpoint.routes_new localId relayOnly, fun c conn l hc => ?_, fun r l hl => ?_⟩
  · cases hc
  · cases hl

theorem prompt_next [Aiortc] {s : Service} {e : ServiceEvent} (h : s.Prompt) (he : s.Timely e) : (s.next e).Prompt := by
  obtain ⟨hroutes, hfutures⟩ := routes_invariant he h.routes h.futures
    (fun m m' e heap hinv c conn l hc hl => hinv c conn l hc (heap ▸ hl))
    (fun m m' e l hroutes _ hn hinv => hinv.enrolls hroutes.registry hn)
    (fun m m' e e' r l l' hroutes _ hg hsees hinv => hinv.sees hroutes hg hsees)
    (fun c ev => h.futures.update c ev) h.futures.accept
  refine ⟨hroutes, hfutures, ?_⟩
  exact @next_invariant _ (fun m _ => m.Punctual) s e h.punctual (fun e' _ => Manager.punctual_next e' h.punctual)
    (fun _ _ => h.punctual) h.punctual

/-- The connection expires, or a close has found it with a code it cannot be marked with. -/
def Settles [Aiortc] (s : Service) (c : ConnRef) (conn : Connection) : Prop :=
  (∃ l handle error, s.Expires c conn l handle error) ∨
    ∃ x ∈ s.endpoint.closes, ∃ before, x.found = some (c, before) ∧ ¬ x.Marks

theorem Prompt.settles [Aiortc] {s : Service} (h : s.Prompt) {c : ConnRef} {conn : Connection}
    (hc : s.endpoint.connections[c]? = some conn) (hp : conn.connected = .pending) : s.Settles c conn := by
  obtain ⟨l, hl, hid, hjoined, hstands⟩ := h.routes.registry.connection c conn hc
  obtain ⟨hd, hunopened⟩ := (h.futures c conn l hc hl).pending hp
  by_cases hs : l.session.state = .closed
  · refine Or.inr ?_
    rcases h.routes.registry.held c conn hc with ⟨k, hk⟩ | ⟨x, hx, before, hfound⟩
    · obtain ⟨conn₀, l₀, hconn₀, hl₀, _, hopen⟩ := h.routes.registry.registered k c hk
      obtain rfl := Option.some.inj (hconn₀.symm.trans hc)
      obtain rfl := Option.some.inj (hl₀.symm.trans hl)
      exact absurd hs hopen
    · refine ⟨x, hx, before, hfound, fun hmarks => ?_⟩
      obtain ⟨_, _, now, hnow, hafter⟩ := h.routes.registry.accounted.closes x hx c before hfound
      obtain rfl := Option.some.inj (hnow.symm.trans hc)
      have hdone := Connection.markClosed_done (hmarks (c, before) hfound)
      rcases hafter.connected with hsame | hpending
      · exact hdone (hsame.symm.trans hp)
      · exact hdone hpending
  · obtain ⟨handle, error, hwaits, harmed⟩ := (h.punctual conn.session l hl).waits hd hjoined hunopened hs
    exact Or.inl ⟨l, handle, error, hl, hd, hwaits, harmed, timer_fails h.routes hc hl hp hs harmed⟩

/-- In every run in which sessions end once, nobody waits for a connection for ever: its
session is open and has a timer armed that fails the future, unless the session was closed
with a code that the connection cannot be marked with. -/
theorem pending_connections_expire [Aiortc] (localId : NetworkId) (relayOnly broadcasting : Bool) (events : List ServiceEvent)
    (h : Machine.Along Timely next (new localId relayOnly broadcasting) events) :
    let s := Machine.run next (new localId relayOnly broadcasting) events
    ∀ (c : ConnRef) (conn : Connection), s.endpoint.connections[c]? = some conn → conn.connected = .pending → s.Settles c conn := by
  intro s c conn hc hp
  have hprompt : s.Prompt := Machine.run_invariant (fun (s : Service) e hs he => prompt_next hs he)
    (prompt_new localId relayOnly broadcasting) h
  exact hprompt.settles hc hp

/-- A session is dialed, and nobody answers. -/
theorem pending_connections_expire_dialing :
    letI : Aiortc := ⟨fun _ => true⟩
    let s := Machine.run next (new (.p2p 1) false false)
      [.manager (.connect (.p2p 2) 7), .manager (.session 0 (.resume 0 (.ok []))), .manager (.session 0 (.resume 0 (.ok [])))]
    ∃ conn l handle error, s.endpoint.connections = [conn] ∧ s.Expires 0 conn l handle error := by
  let _ : Aiortc := ⟨fun _ => true⟩
  intro s
  have hone : ∃ conn ∈ s.endpoint.connections[0]?, s.endpoint.connections = [conn] ∧ conn.connected = .pending := by
    decide +kernel
  obtain ⟨conn, hc, honly, hp⟩ := hone
  have hcloses : s.endpoint.closes = [] := by decide +kernel
  obtain ⟨l, handle, error, hexpires⟩ | ⟨x, hx, _⟩ :=
    pending_connections_expire (.p2p 1) false false _ (by decide +kernel) 0 conn hc hp
  · exact ⟨conn, l, handle, error, honly, hexpires⟩
  · rw [hcloses] at hx
    cases hx

end Service
end NetherNet
