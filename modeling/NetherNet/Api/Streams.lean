import Mathlib.Logic.Relation
import NetherNet.Api.Http
import NetherNet.Api.Settling
import NetherNet.Session.Opening

/-! What the readers of a connection get: the packets in the order they arrived, and
after a close nothing but the exception. -/
namespace NetherNet
open Library

namespace Connection

/-- A `recv` that is called now, or goes on now, comes to `r`. -/
def Gives (c : Connection) (r : Received) : Prop :=
  (∃ getter, (c.recv getter).2 = r) ∨ ∃ index, (c.resume index).2 = r

/-- Packets are returned in the order they arrived, each once. -/
structure InOrder (c : Connection) : Prop where
  returned : c.yielded <+: c.enqueued
  next : ∀ data, c.Gives (.packet data) → c.enqueued[c.yielded.length]? = some data

/-- From `c` to a later `now`: before a `recv` raises, what had arrived is returned, and
once one has raised, every later one raises the same, none waits and none returns a packet. -/
structure Continues (c now : Connection) : Prop where
  returned : c.yielded <+: now.yielded
  drained : ∀ e, now.Gives (.raised e) → c.enqueued <+: now.yielded
  ended : ∀ e, c.Gives (.raised e) → now.yielded = c.yielded ∧ (∀ getter, (now.recv getter).2 = .raised e) ∧
    (∀ index, index < now.recvQueue.woken.length → (now.resume index).2 = .raised e) ∧
    (now.recvQueue.waiting ≠ [] → now.recvQueue.woken ≠ [])

/-- What can happen to a connection while its session lives, and after that. -/
inductive Lives : Bool × Connection → Bool × Connection → Prop
  | reader (live : Bool) (c : Connection) (e : ConnectionEvent) : Lives (live, c) (live, c.next e)
  | connected (c : Connection) : Lives (true, c) (true, c.markConnected)
  | packet (c : Connection) (data : Bytes) : Lives (true, c) (true, c.enqueue data)
  | closed (c : Connection) (error : ErrorCode) : Lives (true, c) (false, (c.markClosed error).1)
  | displaced (c : Connection) : Lives (true, c) (false, c)

/-- A new connection has come to this. -/
def Begun (p : Bool × Connection) : Prop :=
  ∃ session k, Relation.ReflTransGen Lives (true, { session := session, connectionId := k }) p

/-- A living connection has no sentinel in its queue; another one has at most one, at the end. -/
private def Flows (p : Bool × Connection) : Prop :=
  p.2.recvQueue.Served ∧ ∃ tail, Tail tail ∧ p.2.Holds tail ∧ (p.1 = true → tail = [])

private theorem flows_step {p p' : Bool × Connection} (h : Flows p) (hstep : Lives p p') : Flows p' := by
  obtain ⟨hserved, tail, ht, hholds, hlive⟩ := h
  cases hstep with
  | reader live c e => exact ⟨next_served hserved e, tail, ht, next_holds hholds ht e, hlive⟩
  | connected c =>
    unfold markConnected
    split <;> exact ⟨hserved, tail, ht, hholds, hlive⟩
  | packet c data =>
    obtain rfl := hlive rfl
    exact ⟨hserved.put _, [], Or.inl rfl, enqueue_holds hholds data, fun _ => rfl⟩
  | displaced c => exact ⟨hserved, tail, ht, hholds, fun h => nomatch h⟩
  | closed c error =>
    obtain rfl := hlive rfl
    rcases c.markClosed_cases error with ⟨future, _, heq⟩ | ⟨e, _, heq⟩
    · obtain ⟨packets, hitems, hpackets⟩ := hholds
      have hitems : c.recvQueue.items = packets.map .packet := hitems.trans (List.append_nil _)
      rw [heq]
      exact ⟨hserved.put _, [.closed], Or.inr rfl, ⟨packets, by simp [hitems], hpackets⟩, fun h => nomatch h⟩
    · rw [heq]
      exact ⟨hserved, [], Or.inl rfl, hholds, fun h => nomatch h⟩

private theorem flows_begun {p : Bool × Connection} (h : Begun p) : Flows p := by
  obtain ⟨session, k, hsteps⟩ := h
  induction hsteps with
  | refl => exact ⟨AsyncQueue.served_empty, [], Or.inl rfl, ⟨[], rfl, rfl⟩, fun _ => rfl⟩
  | tail _ hstep ih => exact flows_step ih hstep

/-- What a `recv` comes to: the next packet, or at the sentinel the exception. -/
private theorem gives_holds {c : Connection} {tail : List Item} (h : c.Holds tail) (ht : Tail tail) {r : Received}
    (hr : c.Gives r) (hw : r ≠ .waits) :
    (∃ data, r = .packet data ∧ c.enqueued[c.yielded.length]? = some data) ∨
      r = .raised c.closedExn ∧ tail = [.closed] ∧ c.yielded = c.enqueued := by
  obtain ⟨packets, hitems, hpackets⟩ := h
  -- both ways end with a `get` of the same items
  have hget : ∃ (q : AsyncQueue Item) (getter : Nat), q.items = c.recvQueue.items ∧ (c.received (q.get getter)).2 = r := by
    rcases hr with ⟨getter, hr⟩ | ⟨index, hr⟩
    · exact ⟨c.recvQueue, getter, rfl, hr⟩
    · unfold resume at hr
      split at hr
      · exact absurd hr.symm hw
      · next getter _ => exact ⟨_, getter, AsyncQueue.leave_items _ _, hr⟩
  obtain ⟨q, getter, hq, rfl⟩ := hget
  rw [← hq] at hitems
  cases packets with
  | cons data packets =>
    refine Or.inl ⟨data, ?_, ?_⟩
    · simp only [List.map_cons, List.cons_append] at hitems
      simp only [AsyncQueue.get, hitems, received]
    · rw [← hpackets]
      simp
  | nil =>
    rw [List.append_nil] at hpackets
    rcases ht with rfl | rfl
    · simp only [List.map_nil, List.append_nil] at hitems
      simp only [AsyncQueue.get, hitems, received] at hw
      exact absurd rfl hw
    · simp only [List.map_nil, List.nil_append] at hitems
      exact Or.inr ⟨by simp only [AsyncQueue.get, hitems, received], rfl, hpackets⟩

private theorem Holds.returned {c : Connection} {tail : List Item} (h : c.Holds tail) : c.yielded <+: c.enqueued := by
  obtain ⟨packets, _, hpackets⟩ := h
  exact ⟨packets, hpackets⟩

theorem Begun.inOrder {p : Bool × Connection} (h : Begun p) : p.2.InOrder := by
  obtain ⟨_, tail, ht, hholds, _⟩ := flows_begun h
  refine ⟨hholds.returned, fun data hdata => ?_⟩
  rcases gives_holds hholds ht hdata (by simp) with ⟨data', heq, hnext⟩ | ⟨heq, _⟩
  · cases heq
    exact hnext
  · cases heq

/-- What has happened to a connection in the meantime. -/
private structure Grown (p p' : Bool × Connection) : Prop where
  enqueued : p.2.enqueued <+: p'.2.enqueued
  yielded : p.2.yielded <+: p'.2.yielded
  settled : p.1 = false → p'.1 = false ∧ p'.2.enqueued = p.2.enqueued ∧ p'.2.closedError = p.2.closedError ∧
    (p.2.Holds [.closed] → p'.2.Holds [.closed])

private theorem received_yielded (c : Connection) (r : Option Item × AsyncQueue Item) : c.yielded <+: (c.received r).1.yielded := by
  obtain ⟨o, q⟩ := r
  cases o with
  | none => exact List.prefix_refl _
  | some item =>
    cases item with
    | packet data => exact List.prefix_append _ _
    | closed => exact List.prefix_refl _

private theorem next_yielded (c : Connection) (e : ConnectionEvent) : c.yielded <+: (c.next e).yielded := by
  cases e with
  | recv getter => exact received_yielded c _
  | resume index =>
    simp only [next, resume]
    split
    · exact List.prefix_refl _
    · exact received_yielded c _
  | cancelWaiting index => exact List.prefix_refl _
  | cancelWoken index => exact List.prefix_refl _
  | abandon =>
    simp only [next, abandon]
    split <;> exact List.prefix_refl _

private theorem grown_step {p p' : Bool × Connection} (h : Lives p p') : Grown p p' := by
  cases h with
  | reader live c e =>
    have hkept := c.next_kept e
    refine ⟨?_, next_yielded c e, fun hlive => ⟨hlive, hkept.enqueued, hkept.closedError, fun hholds => ?_⟩⟩
    · exact hkept.enqueued.symm ▸ List.prefix_refl c.enqueued
    · exact next_holds hholds (Or.inr rfl) e
  | connected c =>
    unfold markConnected
    split <;> exact ⟨List.prefix_refl _, List.prefix_refl _, fun h => nomatch h⟩
  | packet c data => exact ⟨List.prefix_append _ _, List.prefix_refl _, fun h => nomatch h⟩
  | displaced c => exact ⟨List.prefix_refl _, List.prefix_refl _, fun h => nomatch h⟩
  | closed c error =>
    rcases c.markClosed_cases error with ⟨future, _, heq⟩ | ⟨e, _, heq⟩ <;> rw [heq] <;>
      exact ⟨List.prefix_refl _, List.prefix_refl _, fun h => nomatch h⟩

private theorem grown_steps {p p' : Bool × Connection} (h : Relation.ReflTransGen Lives p p') : Grown p p' := by
  induction h with
  | refl => exact ⟨List.prefix_refl _, List.prefix_refl _, fun h => ⟨h, rfl, rfl, id⟩⟩
  | tail _ hstep ih =>
    have hgrown := grown_step hstep
    refine ⟨ih.enqueued.trans hgrown.enqueued, ih.yielded.trans hgrown.yielded, fun hover => ?_⟩
    obtain ⟨hover₁, henqueued₁, herror₁, hholds₁⟩ := ih.settled hover
    obtain ⟨hover₂, henqueued₂, herror₂, hholds₂⟩ := hgrown.settled hover₁
    exact ⟨hover₂, henqueued₂.trans henqueued₁, herror₂.trans herror₁, fun h => hholds₂ (hholds₁ h)⟩

theorem Begun.continues {p p' : Bool × Connection} (h : Begun p) (hsteps : Relation.ReflTransGen Lives p p') :
    p.2.Continues p'.2 := by
  have hgrown := grown_steps hsteps
  have hbegun : Begun p' := by
    obtain ⟨session, k, hbefore⟩ := h
    exact ⟨session, k, hbefore.trans hsteps⟩
  obtain ⟨_, tail, ht, hholds, hlive⟩ := flows_begun h
  obtain ⟨hserved', tail', ht', hholds', _⟩ := flows_begun hbegun
  refine ⟨hgrown.yielded, fun e he => ?_, fun e he => ?_⟩
  · rcases gives_holds hholds' ht' he (by simp) with ⟨_, hpacket, _⟩ | ⟨_, _, hall⟩
    · cases hpacket
    · rw [hall]
      exact hgrown.enqueued
  · rcases gives_holds hholds ht he (by simp) with ⟨_, hpacket, _⟩ | ⟨heq, rfl, hall⟩
    · cases hpacket
    · -- the sentinel is the only item left, and stays so
      have hover : p.1 = false := by
        cases hp : p.1 with
        | false => rfl
        | true => cases hlive hp
      obtain ⟨_, henqueued, herror, hclosed⟩ := hgrown.settled hover
      have hyielded : p'.2.yielded = p.2.yielded := by
        refine (List.IsPrefix.eq_of_length_le hgrown.yielded ?_).symm
        rw [hall, ← henqueued]
        exact hholds'.returned.length_le
      have hexn : p'.2.closedExn = p.2.closedExn := by
        rw [closedExn, closedExn, closedOr, closedOr, herror]
      have hrest : p'.2.enqueued.drop p'.2.yielded.length = [] := by
        rw [hyielded, henqueued, hall, List.drop_length]
      cases heq
      refine ⟨hyielded, fun getter => ?_, fun index hi => ?_, hserved'.woken ?_⟩
      · rw [recv_holds (hclosed hholds), hrest, hexn]
      · rw [resume_holds (hclosed hholds) hi, hrest, hexn]
      · obtain ⟨packets, hitems, _⟩ := hclosed hholds
        rw [hitems]
        simp

end Connection
namespace HttpConnection

/-- The session of a connection that `p` describes lives or is closed. -/
private def Stands (h : HttpConnection) (p : Bool × Connection) : Prop :=
  p.2 = h.conn ∧ (p.1 = true ↔ h.loop.session.state ≠ .closed)

private theorem callbacks_silent (c : Connection) {effects : List Effect} (h : ∀ f ∈ effects, f.isCallback = false) :
    effects.foldl callback c = c := by
  induction effects with
  | nil => rfl
  | cons f rest ih =>
    have hf := h f List.mem_cons_self
    have hrest := ih fun g hg => h g (List.mem_cons_of_mem _ hg)
    rw [List.foldl_cons]
    cases f <;> first | exact hrest | cases hf

private theorem callbacks_packets (c : Connection) (packets : List Bytes) :
    Relation.ReflTransGen Connection.Lives (true, c) (true, (packets.map Effect.onPacket).foldl callback c) := by
  induction packets generalizing c with
  | nil => exact .refl
  | cons data packets ih => exact (Relation.ReflTransGen.single (.packet c data)).trans (ih (c.enqueue data))

/-- What a step of the session means to its connection. -/
private theorem absorb_lives [Aiortc] {h : HttpConnection} {p : Bool × Connection} (hp : h.Stands p) (e : SessionEvent Unit)
    (he : h.Timely (.session e)) :
    ∃ p', (h.absorb (h.loop.step e)).Stands p' ∧ Relation.ReflTransGen Connection.Lives p p' := by
  obtain ⟨live, c⟩ := p
  obtain ⟨rfl, hlive⟩ := hp
  have hcalls := h.loop.step_calls e
  have hlate : h.loop.Timely e := by
    cases e with
    | channelMessage isReliable data => exact id
    | _ => exact he
  have hclosing := (h.loop.step_move e).closing
  have hstays := h.loop.closed_step e
  have hpackets := fun data (hd : .onPacket data ∈ (h.loop.step e).effects) => h.loop.step_packet e hd
  unfold Stands absorb
  simp only [SessionLoop.next] at hcalls hstays ⊢
  generalize hstepped : h.loop.step e = stepped at hcalls hclosing hstays hpackets ⊢
  generalize heffects : stepped.effects = effects at hcalls hclosing hstays hpackets
  cases hcalls with
  | silent _ hsilent =>
    refine ⟨(live, h.conn), ⟨(callbacks_silent h.conn hsilent).symm, hlive.trans ⟨fun hs => ?_, fun hs hc => hs ?_⟩⟩, .refl⟩
    · rcases hclosing with ⟨_, hkeeps⟩ | ⟨_, _, notice, error, rfl, _⟩
      · exact hkeeps hs
      · cases hsilent (.onClose error) (List.mem_append_right _ (List.mem_singleton_self _))
    · exact (hstays hc hlate).1
  | opens _ hs hs' =>
    obtain rfl : live = true := hlive.mpr hs
    exact ⟨(true, h.conn.markConnected), ⟨rfl, by simp [hs']⟩, .single (.connected h.conn)⟩
  | closes notice error hnotice hs hs' =>
    obtain rfl : live = true := hlive.mpr hs
    refine ⟨(false, (h.conn.markClosed error).1), ⟨?_, by simp [hs']⟩, .single (.closed h.conn error)⟩
    rw [List.foldl_append, callbacks_silent h.conn hnotice]
    rfl
  | packets packets hn hs' =>
    rw [hs']
    cases live with
    | true => exact ⟨(true, (packets.map .onPacket).foldl callback h.conn), ⟨rfl, hlive⟩, callbacks_packets h.conn packets⟩
    | false =>
      have hclosed : h.loop.session.state = .closed := Classical.byContradiction fun hs => Bool.noConfusion (hlive.mpr hs)
      -- no packet is delivered to a closed session
      have hnone : packets = [] := by
        cases packets with
        | nil => rfl
        | cons data packets =>
          obtain ⟨isReliable, message, rfl, hdata⟩ := hpackets data List.mem_cons_self
          rw [he hclosed] at hdata
          cases hdata
      subst hnone
      exact ⟨(false, h.conn), ⟨rfl, hlive⟩, .refl⟩

private theorem next_lives [Aiortc] {h : HttpConnection} {p : Bool × Connection} (hp : h.Stands p) (e : HttpEvent)
    (he : h.Timely e) : ∃ p', (h.next e).Stands p' ∧ Relation.ReflTransGen Connection.Lives p p' := by
  have same : ∃ p', h.Stands p' ∧ Relation.ReflTransGen Connection.Lives p p' := ⟨p, hp, .refl⟩
  cases e with
  | connection e =>
    obtain ⟨live, c⟩ := p
    obtain ⟨rfl, hlive⟩ := hp
    exact ⟨(live, h.conn.next e), ⟨rfl, hlive⟩, .single (.reader live h.conn e)⟩
  | session e =>
    cases e with
    | call c caller =>
      cases c with
      | start => exact same
      | handleSignal message => exact same
      | _ => exact absorb_lives hp _ he
    | _ => exact absorb_lives hp _ he

private theorem run_lives [Aiortc] {h : HttpConnection} {p : Bool × Connection} (hp : h.Stands p) {events : List HttpEvent}
    (he : Machine.Along Timely next h events) :
    ∃ p', (Machine.run next h events).Stands p' ∧ Relation.ReflTransGen Connection.Lives p p' := by
  induction events generalizing h p with
  | nil => exact ⟨p, hp, .refl⟩
  | cons e rest ih =>
    obtain ⟨p₁, hp₁, hsteps₁⟩ := next_lives hp e he.1
    obtain ⟨p₂, hp₂, hsteps₂⟩ := ih hp₁ he.2
    exact ⟨p₂, hp₂, hsteps₁.trans hsteps₂⟩

private theorem run_in_order [Aiortc] (connectionId : Nat) (localId remoteId : NetworkId) (isDialer relayOnly : Bool)
    (events later : List HttpEvent)
    (h : Machine.Along Timely next (new connectionId localId remoteId isDialer relayOnly) (events ++ later)) :
    let c := (Machine.run next (new connectionId localId remoteId isDialer relayOnly) events).conn
    c.InOrder ∧
      c.Continues (Machine.run next (new connectionId localId remoteId isDialer relayOnly) (events ++ later)).conn := by
  intro c
  obtain ⟨hbefore, hafter⟩ := (Machine.along_append _ _ _ _ _).mp h
  have hnew : (new connectionId localId remoteId isDialer relayOnly).Stands
      (true, { session := 0, connectionId := connectionId }) := ⟨rfl, iff_of_true rfl (by simp [new, SessionLoop.fresh, Session.new])⟩
  obtain ⟨p, hp, hsteps⟩ := run_lives hnew hbefore
  obtain ⟨p', hp', hsteps'⟩ := run_lives hp hafter
  have hbegun : Connection.Begun p := ⟨0, connectionId, hsteps⟩
  rw [← Machine.run_append] at hp'
  rw [show c = p.2 from hp.1.symm, ← hp'.1]
  exact ⟨hbegun.inOrder, hbegun.continues hsteps'⟩

end HttpConnection
namespace Endpoint

/-- The connection `c` is as `p` says; it lives while it is registered. -/
def Stands (e : Endpoint) (c : ConnRef) (p : Bool × Connection) : Prop :=
  e.connections[c]? = some p.2 ∧ (p.1 = true ↔ ∃ k, e.conns.get? k = some c)

/-- Every connection goes on, and new ones begin. -/
structure Evolves (e e' : Endpoint) : Prop where
  goes : ∀ c p, e.Stands c p → ∃ p', e'.Stands c p' ∧ Relation.ReflTransGen Connection.Lives p p'
  begins : ∀ c conn, e'.connections[c]? = some conn → (∃ conn', e.connections[c]? = some conn') ∨
    ∃ p, e'.Stands c p ∧ Connection.Begun p

private theorem evolves_refl (e : Endpoint) : e.Evolves e := ⟨fun _ p hp => ⟨p, hp, .refl⟩, fun _ conn h => Or.inl ⟨conn, h⟩⟩

private theorem Evolves.trans {e e₁ e₂ : Endpoint} (h₁ : e.Evolves e₁) (h₂ : e₁.Evolves e₂) : e.Evolves e₂ := by
  refine ⟨fun c p hp => ?_, fun c conn hconn => ?_⟩
  · obtain ⟨p₁, hp₁, hsteps₁⟩ := h₁.goes c p hp
    obtain ⟨p₂, hp₂, hsteps₂⟩ := h₂.goes c p₁ hp₁
    exact ⟨p₂, hp₂, hsteps₁.trans hsteps₂⟩
  · rcases h₂.begins c conn hconn with ⟨conn₁, hconn₁⟩ | hbegun
    · rcases h₁.begins c conn₁ hconn₁ with hold | ⟨p₁, hp₁, session, k, hbefore⟩
      · exact Or.inl hold
      · obtain ⟨p₂, hp₂, hsteps₂⟩ := h₂.goes c p₁ hp₁
        exact Or.inr ⟨p₂, hp₂, session, k, hbefore.trans hsteps₂⟩
    · exact Or.inr hbegun

/-- The map and the connections as they were. -/
private theorem evolves_same {e e' : Endpoint} (hc : e'.connections = e.connections) (hm : e'.conns = e.conns) : e.Evolves e' := by
  refine ⟨fun c p hp => ⟨p, ?_, .refl⟩, fun c conn hconn => Or.inl ⟨conn, hc ▸ hconn⟩⟩
  rw [Stands, hc, hm]
  exact hp

private theorem evolves_update {e : Endpoint} (c : ConnRef) (f : Connection → Connection)
    (hf : ∀ p, e.Stands c p → Connection.Lives p (p.1, f p.2)) : e.Evolves (e.update c f) := by
  refine ⟨fun j p hp => ?_, fun j conn hconn => ?_⟩
  · obtain ⟨hconn, hlive⟩ := hp
    by_cases hj : c = j
    · subst hj
      refine ⟨(p.1, f p.2), ⟨?_, hlive⟩, .single (hf p ⟨hconn, hlive⟩)⟩
      rw [update_connections, hconn, Option.map_some, if_pos rfl]
    · refine ⟨p, ⟨?_, hlive⟩, .refl⟩
      rw [update_connections, hconn, Option.map_some, if_neg hj]
  · rw [update_connections] at hconn
    obtain ⟨conn', hconn', _⟩ := Option.map_eq_some_iff.mp hconn
    exact Or.inl ⟨conn', hconn'⟩

/-- A registered connection lives. -/
private theorem evolves_registered {e : Endpoint} {k : Nat} {c : ConnRef} (hk : e.conns.get? k = some c) (f : Connection → Connection)
    (hf : ∀ conn, Connection.Lives (true, conn) (true, f conn)) : e.Evolves (e.update c f) := by
  refine evolves_update c f fun p hp => ?_
  obtain ⟨live, conn⟩ := p
  obtain rfl : live = true := hp.2.mpr ⟨k, hk⟩
  exact hf conn

/-- Under one id one connection is registered, and under no other. -/
private theorem registered_once {e : Endpoint} (h : e.Accounted) {j k : Nat} {c : ConnRef} (hj : e.conns.get? j = some c)
    (hk : e.conns.get? k = some c) : j = k := by
  obtain ⟨conn, hconn, hid, _⟩ := h.registered j c hj
  obtain ⟨conn', hconn', hid', _⟩ := h.registered k c hk
  rw [hconn] at hconn'
  obtain rfl := Option.some.inj hconn'
  exact hid.symm.trans hid'

private theorem evolves_register {e : Endpoint} (h : e.Accounted) (session : Ref) (k : Nat) : e.Evolves (e.register session k).1 := by
  have hconns : ∀ j, (e.register session k).1.conns.get? j = if j = k then some e.connections.length else e.conns.get? j :=
    fun j => Dict.get?_set _ _ _ _
  refine ⟨fun c p hp => ?_, fun c conn hconn => ?_⟩
  · obtain ⟨hconn, hlive⟩ := hp
    obtain ⟨hlt, _⟩ := List.getElem?_eq_some_iff.mp hconn
    have hkept : (e.register session k).1.connections[c]? = some p.2 := by
      rw [register_connections, if_neg (Nat.ne_of_lt hlt), hconn]
    have hother : ∀ j, (e.register session k).1.conns.get? j = some c → j ≠ k ∧ e.conns.get? j = some c := by
      intro j hj
      rw [hconns] at hj
      split at hj
      · exact absurd (Option.some.inj hj).symm (Nat.ne_of_lt hlt)
      · next hjk => exact ⟨hjk, hj⟩
    by_cases hk : e.conns.get? k = some c
    · -- the newer connection takes the place of this one
      obtain ⟨live, conn⟩ := p
      obtain rfl : live = true := hlive.mpr ⟨k, hk⟩
      refine ⟨(false, conn), ⟨hkept, iff_of_false (by simp) ?_⟩, .single (.displaced conn)⟩
      rintro ⟨j, hj⟩
      obtain ⟨hne, hold⟩ := hother j hj
      exact hne (registered_once h hold hk)
    · refine ⟨p, ⟨hkept, hlive.trans ⟨?_, ?_⟩⟩, .refl⟩
      · rintro ⟨j, hj⟩
        refine ⟨j, ?_⟩
        have hne : j ≠ k := fun hjk => hk (hjk ▸ hj)
        rw [hconns, if_neg hne]
        exact hj
      · rintro ⟨j, hj⟩
        exact ⟨j, (hother j hj).2⟩
  · rw [register_connections] at hconn
    split at hconn
    · next hc =>
      refine Or.inr ⟨(true, conn), ⟨by rw [register_connections, if_pos hc, hconn], iff_of_true rfl ⟨k, by rw [hconns, if_pos rfl, hc]⟩⟩,
        session, k, ?_⟩
      obtain rfl := Option.some.inj hconn
      generalize (e.pendingPackets.get? k).getD [] = packets
      generalize ({ session := session, connectionId := k } : Connection) = fresh
      induction packets generalizing fresh with
      | nil => exact .refl
      | cons data packets ih => exact (Relation.ReflTransGen.single (.packet fresh data)).trans (ih (fresh.enqueue data))
    · exact Or.inl ⟨conn, hconn⟩

private theorem evolves_onSessionClose {e : Endpoint} (h : e.Accounted) (session : Ref) (k : Nat) (error : ErrorCode) :
    e.Evolves (e.onSessionClose session k error) := by
  unfold onSessionClose
  split
  · next hnone =>
    have habsent := h.absent hnone
    refine ⟨fun c p hp => ⟨p, ⟨hp.1, hp.2.trans ⟨?_, ?_⟩⟩, .refl⟩, fun c conn hconn => Or.inl ⟨conn, hconn⟩⟩
    · rintro ⟨j, hj⟩
      exact ⟨j, (Dict.get?_pop_ne _ fun hk => by rw [hk, habsent] at hj; cases hj).trans hj⟩
    · rintro ⟨j, hj⟩
      exact ⟨j, (Dict.get?_of_pop _ hj).2⟩
  · next c₀ conn₀ hfind =>
    obtain ⟨hreg, hconn₀⟩ := find?_some hfind
    obtain ⟨hlt, _⟩ := List.getElem?_eq_some_iff.mp hconn₀
    refine ⟨fun c p hp => ?_, fun c conn hconn => ?_⟩
    · by_cases hc : c = c₀
      · subst hc
        obtain ⟨live, conn⟩ := p
        obtain rfl : live = true := hp.2.mpr ⟨k, hreg⟩
        obtain rfl : conn₀ = conn := Option.some.inj (hconn₀.symm.trans hp.1)
        refine ⟨(false, (conn₀.markClosed error).1), ⟨List.getElem?_set_self hlt, iff_of_false (by simp) ?_⟩,
          .single (.closed conn₀ error)⟩
        rintro ⟨j, hj⟩
        obtain ⟨hne, hold⟩ := Dict.get?_of_pop _ hj
        exact hne (registered_once h hold hreg)
      · refine ⟨p, ⟨(List.getElem?_set_ne fun hc' => hc hc'.symm).trans hp.1, hp.2.trans ⟨?_, ?_⟩⟩, .refl⟩
        · rintro ⟨j, hj⟩
          exact ⟨j, (Dict.get?_pop_ne _ fun hk => hc (Option.some.inj ((hk ▸ hj).symm.trans hreg))).trans hj⟩
        · rintro ⟨j, hj⟩
          exact ⟨j, (Dict.get?_of_pop _ hj).2⟩
    · by_cases hc : c = c₀
      · exact Or.inl ⟨conn₀, hc ▸ hconn₀⟩
      · exact Or.inl ⟨conn, (List.getElem?_set_ne fun hc' => hc hc'.symm).symm.trans hconn⟩

private theorem evolves_output {connectionId : Ref → Nat} {e : Endpoint} (h : e.Accounted) (o : Output) :
    e.Evolves (e.output connectionId o) := by
  cases o with
  | effect r f =>
    cases f with
    | onOpen =>
      simp only [output, onSessionOpen]
      split
      · next c hc => exact evolves_registered hc _ .connected
      · next hc =>
        have hqueued : (e.register r (connectionId r)).1.Evolves { (e.register r (connectionId r)).1 with
            incoming := (e.register r (connectionId r)).1.incoming ++ [(e.register r (connectionId r)).2] } :=
          evolves_same rfl rfl
        exact (evolves_register h r (connectionId r)).trans
          (hqueued.trans (evolves_registered (Dict.get?_set_self _ _ _) _ .connected))
    | onClose error => exact evolves_onSessionClose h r _ error
    | onPacket data =>
      simp only [output, onPacket]
      split
      · next c hc => exact evolves_registered hc _ fun conn => .packet conn data
      · exact evolves_same rfl rfl
    | _ => exact evolves_refl e
  | connected r => exact evolves_register h r _
  | raised r caller => exact evolves_refl e
  | aclosed => exact evolves_refl e

private theorem evolves_outputs {connectionId : Ref → Nat} {e : Endpoint} (h : e.Accounted) (outs : List Output) :
    e.Evolves (e.outputs connectionId outs) := by
  induction outs generalizing e with
  | nil => exact evolves_refl e
  | cons o rest ih => exact (evolves_output h o).trans (ih (accounted_output e o h))

end Endpoint

namespace Service

theorem next_evolves [Aiortc] (s : Service) (e : ServiceEvent) (h : s.endpoint.Accounted) :
    (s.next e).endpoint.Accounted ∧ s.endpoint.Evolves (s.next e).endpoint := by
  refine @next_invariant _ (fun _ e' => e'.Accounted ∧ s.endpoint.Evolves e') s e ⟨h, Endpoint.evolves_refl _⟩ ?_ ?_ ?_
  · exact fun e' _ => ⟨Endpoint.outputs_invariant h (fun e o => e.accounted_output o) _, Endpoint.evolves_outputs h _⟩
  · intro c ev
    refine ⟨Endpoint.accounted_connection h c ev, Endpoint.evolves_update c _ ?_⟩
    rintro ⟨live, conn⟩ _
    exact .reader live conn ev
  · refine ⟨Endpoint.accounted_accept h, Endpoint.evolves_same ?_ ?_⟩ <;> unfold Endpoint.accept <;> split <;> rfl

private theorem run_evolves [Aiortc] (s : Service) (events : List ServiceEvent) (h : s.endpoint.Accounted) :
    (Machine.run next s events).endpoint.Accounted ∧ s.endpoint.Evolves (Machine.run next s events).endpoint :=
  @Machine.run_invariant_always _ _ next (fun s' => s'.endpoint.Accounted ∧ s.endpoint.Evolves s'.endpoint)
    (fun s' e hs' => ⟨(next_evolves s' e hs'.1).1, hs'.2.trans (next_evolves s' e hs'.1).2⟩) s ⟨h, Endpoint.evolves_refl _⟩ events

theorem run_in_order [Aiortc] (localId : NetworkId) (relayOnly broadcasting : Bool) (events later : List ServiceEvent)
    {c : ConnRef} {conn : Connection}
    (hc : (Machine.run next (new localId relayOnly broadcasting) events).endpoint.connections[c]? = some conn) :
    conn.InOrder ∧ ∃ conn', (Machine.run next (new localId relayOnly broadcasting) (events ++ later)).endpoint.connections[c]? =
      some conn' ∧ conn.Continues conn' := by
  obtain ⟨haccounted, hbegins⟩ := run_evolves (new localId relayOnly broadcasting) events Endpoint.accounted_empty
  obtain ⟨_, hgoes⟩ := run_evolves _ later haccounted
  rw [← Machine.run_append] at hgoes
  rcases hbegins.begins c conn hc with ⟨conn₀, hnone⟩ | ⟨⟨live, conn₀⟩, hstands, hbegun⟩
  · simp [new] at hnone
  · obtain rfl : conn₀ = conn := Option.some.inj (hstands.1.symm.trans hc)
    obtain ⟨p', hp', hsteps⟩ := hgoes.goes c _ hstands
    exact ⟨hbegun.inOrder, p'.2, hp'.1, hbegun.continues hsteps⟩

end Service

/-- In every run of an endpoint, and in every run of a connection over HTTP signaling in
which no packet is delivered once the session has closed, and none of its coroutines
revives it: the readers of each connection get its packets in order, each once, those
that arrived before the close before any `recv` raises, and once one has raised, all
later ones raise the same. -/
theorem connections_read_in_order [Aiortc] (localId : NetworkId) (relayOnly : Bool) :
    (∀ (broadcasting : Bool) (events later : List ServiceEvent) (c : ConnRef) (conn : Connection),
      (Machine.run Service.next (Service.new localId relayOnly broadcasting) events).endpoint.connections[c]? = some conn →
      conn.InOrder ∧ ∃ conn', (Machine.run Service.next (Service.new localId relayOnly broadcasting)
        (events ++ later)).endpoint.connections[c]? = some conn' ∧ conn.Continues conn') ∧
    ∀ (connectionId : Nat) (remoteId : NetworkId) (isDialer : Bool) (events later : List HttpEvent),
      Machine.Along HttpConnection.Timely HttpConnection.next
        (HttpConnection.new connectionId localId remoteId isDialer relayOnly) (events ++ later) →
      let c := (Machine.run HttpConnection.next (HttpConnection.new connectionId localId remoteId isDialer relayOnly) events).conn
      c.InOrder ∧ c.Continues (Machine.run HttpConnection.next
        (HttpConnection.new connectionId localId remoteId isDialer relayOnly) (events ++ later)).conn :=
  ⟨fun broadcasting events later _ _ hc => Service.run_in_order localId relayOnly broadcasting events later hc,
    fun connectionId remoteId isDialer events later => HttpConnection.run_in_order connectionId localId remoteId isDialer relayOnly
      events later⟩

/-- An HTTP dialer gets its answer, its channels open, and a packet arrives. -/
private def joined : List HttpEvent :=
  [.session (.call .offer ()), .session (.resume 0 (.ok [])), .session (.resume 0 (.ok [])),
    .session (.call (.acceptAnswer []) ()), .session (.resume 0 (.ok [])), .session (.channelOpen true),
    .session (.channelOpen false), .session (.channelMessage true [0, 65])]

/-- The connection is closed with the packet in its queue, and read after that. -/
theorem connections_read_in_order_closed :
    letI : Aiortc := ⟨fun _ => true⟩
    let c := (Machine.run HttpConnection.next (.new 7 (.p2p 1) .unset true false) joined).conn
    let c' := (Machine.run HttpConnection.next (.new 7 (.p2p 1) .unset true false)
      (joined ++ [.session (.aclose (.member .none)), .connection (.recv 0), .connection (.recv 1)])).conn
    c.enqueued = [[65]] ∧ c.Continues c' ∧ c'.yielded = [[65]] := by
  let _ : Aiortc := ⟨fun _ => true⟩
  intro c c'
  exact ⟨by decide +kernel, ((connections_read_in_order (.p2p 1) false).2 7 .unset true joined
    [.session (.aclose (.member .none)), .connection (.recv 0), .connection (.recv 1)] (by decide +kernel)).2, by decide +kernel⟩

/-- A packet is delivered after the close: one `recv` raises, and the next returns it. -/
theorem late_packet_read_after_close :
    letI : Aiortc := ⟨fun _ => true⟩
    let late := joined ++ [.connection (.recv 0), .session (.aclose (.member .none)), .session (.channelMessage true [0, 66])]
    let c := (Machine.run HttpConnection.next (.new 7 (.p2p 1) .unset true false) late).conn
    let c' := (Machine.run HttpConnection.next (.new 7 (.p2p 1) .unset true false) (late ++ [.connection (.recv 1)])).conn
    (c.recv 1).2 = .raised (.connectionClosed .none "connection closed: NONE (0)") ∧ (c'.recv 2).2 = .packet [66] ∧
      ¬ c.Continues c' := by
  let _ : Aiortc := ⟨fun _ => true⟩
  intro late c c'
  have hraised : (c.recv 1).2 = .raised (.connectionClosed .none "connection closed: NONE (0)") := by decide +kernel
  have hpacket : (c'.recv 2).2 = .packet [66] := by decide +kernel
  refine ⟨hraised, hpacket, fun h => ?_⟩
  have hagain := (h.ended _ (Or.inl ⟨1, hraised⟩)).2.1 2
  rw [hpacket] at hagain
  cases hagain

end NetherNet
