import NetherNet.Api.Settling
import NetherNet.Session.Opening

/-! Which session a connection belongs to: the map of an endpoint holds the connections of
the open sessions that have come up, each under its session's id. -/
namespace NetherNet
open Library

namespace SessionLoop

/-- The calls of the application's callbacks, in order. -/
def callbacks {κ : Type} (l : SessionLoop κ) : List Effect := l.trace.filter Effect.isCallback

theorem callbacks_next [Aiortc] {κ : Type} (l : SessionLoop κ) (ev : SessionEvent κ) :
    (l.next ev).callbacks = l.callbacks ++ (l.step ev).effects.filter Effect.isCallback := by
  rw [callbacks, next, step_trace, List.filter_append]
  rfl

/-- A session under the manager, whose offer `connect` awaits, and nobody else. -/
structure Attached (l : SessionLoop Caller) : Prop where
  opening : l.Opening
  callers : ∀ t ∈ l.tasks, t.coroutine.handler.isOffering = true ↔ t.caller = .connect

/-- What the manager does with a session after its first call. -/
def Routed : SessionEvent Caller → Prop
  | .call (.handleSignal _) caller => caller ≠ .connect
  | .call _ _ => False
  | _ => True

theorem Routed.signalled {ev : SessionEvent Caller} (h : Routed ev) : Signalled ev := by
  cases ev with
  | call c caller =>
    cases c with
    | handleSignal message => trivial
    | _ => exact h.elim
  | _ => trivial

theorem attached_step [Aiortc] {l : SessionLoop Caller} {ev : SessionEvent Caller} (h : l.Attached) (he : Routed ev) :
    (l.next ev).Attached := by
  refine ⟨opening_step l ev h.opening he.signalled, fun t' ht' => ?_⟩
  rcases signalled_task he.signalled ht' with ⟨t, ht, hcaller, hhandler⟩ | ⟨⟨message, rfl⟩, hoffering, _⟩
  · rw [hhandler, hcaller]
    exact h.callers t ht
  · rw [hoffering]
    exact iff_of_false Bool.false_ne_true he

/-- The session has a connection: a dialer since its `start` has returned, a listener since it opened. -/
def Joined (l : SessionLoop Caller) : Prop :=
  if l.session.isDialer then l.session.pc.localDescription.isSome = true else .onOpen ∈ l.callbacks

theorem joined_dialer {l : SessionLoop Caller} (h : l.session.isDialer = true) :
    l.Joined ↔ l.session.pc.localDescription.isSome = true := by
  rw [Joined, if_pos h]

theorem joined_listener {l : SessionLoop Caller} (h : l.session.isDialer = false) : l.Joined ↔ .onOpen ∈ l.callbacks := by
  rw [Joined, if_neg (by simp [h])]

/-- `on_close` was called once if the session is closed, and else not at all. -/
def Ended (l : SessionLoop Caller) : Prop := l.callbacks.countP Effect.isClose = if l.session.state = .closed then 1 else 0

theorem Ended.closed {l : SessionLoop Caller} (h : l.Ended) (hs : l.session.state = .closed) :
    ∃ error, .onClose error ∈ l.callbacks := by
  rw [Ended, if_pos hs] at h
  have hpos : 0 < l.callbacks.countP Effect.isClose := by rw [h]; exact Nat.one_pos
  obtain ⟨f, hmem, hclose⟩ := List.countP_pos_iff.mp hpos
  cases f with
  | onClose error => exact ⟨error, hmem⟩
  | _ => cases hclose

theorem Ended.opened {l : SessionLoop Caller} (h : l.Ended) (hs : l.session.state ≠ .closed) (error : ErrorCode) :
    .onClose error ∉ l.callbacks := by
  rw [Ended, if_neg hs] at h
  exact fun hmem => List.countP_eq_zero.mp h _ hmem rfl

end SessionLoop

namespace Endpoint

/-- What one event of session `r` means to the endpoint. -/
inductive Sees (r : Ref) (l l' : SessionLoop Caller) (e : Endpoint) : Endpoint → Prop where
  | silent (hs : l'.session.state = .closed ↔ l.session.state = .closed) (hj : l'.Joined ↔ l.Joined)
      (hc : l'.callbacks = l.callbacks) : Sees r l l' e e
  | connected (hd : l.session.isDialer = true) (hs : l.session.state ≠ .closed) (hs' : l'.session.state ≠ .closed)
      (hj : ¬ l.Joined) (hj' : l'.Joined) (hc : l'.callbacks = l.callbacks) :
      Sees r l l' e (e.register r l.session.connectionId).1
  | opened (hs : l.session.state ≠ .closed) (hs' : l'.session.state ≠ .closed) (hd : l.session.isDialer = true → l.Joined)
      (hj' : l'.Joined) (hc : l'.callbacks = l.callbacks ++ [.onOpen]) :
      Sees r l l' e (e.onSessionOpen r l.session.connectionId)
  | closed (error : ErrorCode) (hs : l.session.state ≠ .closed) (hs' : l'.session.state = .closed)
      (hj : l'.Joined ↔ l.Joined) (hc : l'.callbacks = l.callbacks ++ [.onClose error]) :
      Sees r l l' e (e.onSessionClose r l.session.connectionId error)
  | packets (packets : List Bytes) (hs : l'.session.state = l.session.state) (hj : l'.Joined ↔ l.Joined)
      (hd : l.session.isDialer = true → packets ≠ [] → l.Joined) (hc : l'.callbacks = l.callbacks ++ packets.map .onPacket) :
      Sees r l l' e (packets.foldl (fun e data => e.onPacket l.session.connectionId data) e)

theorem Sees.ended {r : Ref} {l l' : SessionLoop Caller} {e e' : Endpoint} (h : Sees r l l' e e') (hl : l.Ended) : l'.Ended := by
  unfold SessionLoop.Ended at hl ⊢
  cases h with
  | silent hs _ hc => simp only [hc, hl, hs]
  | connected _ hs hs' _ _ hc => rw [hc, hl, if_neg hs, if_neg hs']
  | opened hs hs' _ _ hc =>
    rw [if_neg hs] at hl
    rw [hc, List.countP_append, hl, if_neg hs']
    rfl
  | closed error hs hs' _ hc =>
    rw [if_neg hs] at hl
    rw [hc, List.countP_append, hl, if_pos hs']
    rfl
  | packets packets hs _ _ hc =>
    have hnone : (packets.map Effect.onPacket).countP Effect.isClose = 0 := by
      rw [List.countP_eq_zero]
      intro f hf
      obtain ⟨data, _, rfl⟩ := List.mem_map.mp hf
      exact Bool.false_ne_true
    rw [hc, List.countP_append, hnone, hl, hs]
    rfl

theorem outputs_append (connectionId : Ref → Nat) (e : Endpoint) (outs more : List Output) :
    e.outputs connectionId (outs ++ more) = (e.outputs connectionId outs).outputs connectionId more := List.foldl_append

theorem outputs_silent (connectionId : Ref → Nat) (e : Endpoint) (r : Ref) {effects : List Effect}
    (h : ∀ f ∈ effects, f.isCallback = false) : e.outputs connectionId (effects.map (.effect r)) = e := by
  induction effects with
  | nil => rfl
  | cons f rest ih =>
    have hf := h f List.mem_cons_self
    have hrest := ih fun g hg => h g (List.mem_cons_of_mem _ hg)
    cases f <;> first | exact hrest | cases hf

private theorem outputs_packets (connectionId : Ref → Nat) (e : Endpoint) (r : Ref) (packets : List Bytes) :
    e.outputs connectionId ((packets.map Effect.onPacket).map (.effect r)) =
      packets.foldl (fun e data => e.onPacket (connectionId r) data) e := by
  induction packets generalizing e with
  | nil => rfl
  | cons data rest ih => exact ih (e.onPacket (connectionId r) data)

private theorem outputs_reports (connectionId : Ref → Nat) (e : Endpoint) (r : Ref) {o : Outcome Caller}
    (h : ∀ value, o ≠ .returned .connect value) : e.outputs connectionId (Manager.reports r o) = e := by
  cases o with
  | none => rfl
  | raised caller => rfl
  | returned caller value =>
    cases caller with
    | connect => exact absurd rfl (h value)
    | _ => rfl

/-- `connect` returns when the one offer of its session does. -/
theorem connect_offered [Aiortc] {l : SessionLoop Caller} {ev : SessionEvent Caller} (ha : l.Attached)
    (he : SessionLoop.Routed ev) {value : Option Text} (h : (l.step ev).outcome = .returned .connect value) :
    l.Offered ev .connect ∧ l.session.isDialer = true := by
  have hcall : ev.isCall = false := by
    cases ev with
    | call c caller =>
      cases c with
      | handleSignal message =>
        refine absurd ?_ he
        simp only [SessionLoop.step, SessionLoop.segment] at h
        split at h <;> cases h
        rfl
      | _ => exact he.elim
    | _ => rfl
  obtain ⟨index, reply, t, rfl, ht, hcaller⟩ := Manager.outcome_caller l ev hcall .connect value h
  have hmem := List.mem_of_getElem? ht
  have hoffering := (ha.callers t hmem).mpr hcaller
  exact ⟨SessionLoop.returned_offered ht hoffering h, (ha.opening.roles t hmem).1 hoffering⟩

/-- Unless `connect` returns, a dialer's local description stays as it is. -/
private theorem description_kept [Aiortc] {l : SessionLoop Caller} {ev : SessionEvent Caller} (ha : l.Attached)
    (he : SessionLoop.Routed ev) (h : ∀ value, (l.step ev).outcome ≠ .returned .connect value) (hd : l.session.isDialer = true) :
    (l.next ev).session.pc.localDescription = l.session.pc.localDescription := by
  rcases ha.opening.description he.signalled hd with hsame | ⟨caller, hoffered⟩
  · exact hsame
  · obtain ⟨_, _, _, _, ⟨value, hreturn⟩, _⟩ := hoffered.step
    obtain ⟨index, sdp, t, handler, _, ht, hcoroutine, rfl⟩ := hoffered
    have hconnect := (ha.callers t (List.mem_of_getElem? ht)).mp (by rw [hcoroutine]; rfl)
    rw [hconnect] at hreturn
    exact absurd hreturn (h value)

theorem onSession_sees [Aiortc] {m : Manager} {r : Ref} {l : SessionLoop Caller} {ev : SessionEvent Caller}
    (hl : m.heap[r]? = some l) (ha : l.Attached) (he : SessionLoop.Routed ev) (ht : l.Timely ev) (e : Endpoint)
    {connectionId : Ref → Nat} (hid : connectionId r = l.session.connectionId) :
    Sees r l (l.next ev) e (e.outputs connectionId (m.onSession r ev).2.1) := by
  have hdialer := (l.next_identity ev).2.2
  have hcallbacks := l.callbacks_next ev
  rw [Manager.onSession_some ev hl, outputs_append]
  by_cases hconnect : ∃ value, (l.step ev).outcome = .returned .connect value
  · obtain ⟨value, hreturn⟩ := hconnect
    obtain ⟨hoffered, hd⟩ := connect_offered ha he hreturn
    obtain ⟨hpos, hdescribed, hstate, _, _, hsilent, hlate⟩ := hoffered.step
    rw [outputs_silent connectionId e r hsilent, hreturn]
    show Sees r l (l.next ev) e (e.register r (connectionId r)).1
    rw [hid]
    refine .connected hd (fun hs => ht (hlate hs)) ?_ ?_ ?_ ?_
    · rw [hstate]
      exact SessionState.noConfusion
    · rw [SessionLoop.joined_dialer hd, ha.opening.undescribed hpos]
      exact Bool.false_ne_true
    · rw [SessionLoop.joined_dialer (hdialer.trans hd)]
      exact hdescribed
    · rw [hcallbacks, List.filter_eq_nil_iff.mpr fun f hf => by simp [hsilent f hf], List.append_nil]
  · have hnever : ∀ value, (l.step ev).outcome ≠ .returned .connect value := fun value h => hconnect ⟨value, h⟩
    rw [outputs_reports connectionId _ r hnever]
    have hkept := description_kept ha he hnever
    have hjoined : ∀ {more : List Effect}, (l.next ev).callbacks = l.callbacks ++ more → .onOpen ∉ more →
        ((l.next ev).Joined ↔ l.Joined) := by
      intro more hc hopen
      cases hd : l.session.isDialer with
      | true => rw [SessionLoop.joined_dialer hd, SessionLoop.joined_dialer (hdialer.trans hd), hkept hd]
      | false =>
        rw [SessionLoop.joined_listener hd, SessionLoop.joined_listener (hdialer.trans hd), hc, List.mem_append]
        exact or_iff_left hopen
    have hnegotiated : l.session.pc.negotiated = true → l.session.isDialer = true → l.Joined := by
      intro hn hd
      rw [SessionLoop.joined_dialer hd]
      exact (Bool.and_eq_true_iff.mp hn).2
    have hclosing := (l.step_move ev).closing
    have hstays := fun hs => (l.closed_step ev hs ht).1
    have hcalls := l.step_calls ev
    generalize (l.step ev).effects = effects at hcalls hcallbacks hclosing
    cases hcalls with
    | silent _ hsilent =>
      have hnone : effects.filter Effect.isCallback = [] := List.filter_eq_nil_iff.mpr fun f hf => by simp [hsilent f hf]
      rw [hnone] at hcallbacks
      rw [outputs_silent connectionId e r hsilent]
      refine .silent ⟨fun hs' => ?_, hstays⟩ (hjoined hcallbacks List.not_mem_nil) (hcallbacks.trans (List.append_nil _))
      by_contra hs
      rcases hclosing with ⟨_, hopen⟩ | ⟨_, _, notice, error, rfl, _⟩
      · exact hopen hs hs'
      · cases hsilent (.onClose error) (List.mem_append_right _ (List.mem_singleton_self _))
    | opens hn hs hs' =>
      show Sees r l (l.next ev) e (e.onSessionOpen r (connectionId r))
      rw [hid]
      refine .opened hs ?_ (hnegotiated hn) ?_ hcallbacks
      · rw [hs']
        exact SessionState.noConfusion
      · cases hd : l.session.isDialer with
        | true =>
          rw [SessionLoop.joined_dialer (hdialer.trans hd), hkept hd]
          exact (Bool.and_eq_true_iff.mp hn).2
        | false =>
          rw [SessionLoop.joined_listener (hdialer.trans hd), hcallbacks]
          exact List.mem_append_right _ (List.mem_singleton_self _)
    | closes notice error hnotice hs hs' =>
      have hone : (notice ++ [Effect.onClose error]).filter Effect.isCallback = [.onClose error] := by
        rw [List.filter_append, List.filter_eq_nil_iff.mpr fun f hf => by simp [hnotice f hf]]
        rfl
      rw [hone] at hcallbacks
      rw [List.map_append, outputs_append, outputs_silent connectionId e r hnotice]
      show Sees r l (l.next ev) e (e.onSessionClose r (connectionId r) error)
      rw [hid]
      exact .closed error hs hs' (hjoined hcallbacks (by simp)) hcallbacks
    | packets packets hn hs' =>
      have hall : (packets.map Effect.onPacket).filter Effect.isCallback = packets.map .onPacket := by
        rw [List.filter_eq_self]
        intro f hf
        obtain ⟨data, _, rfl⟩ := List.mem_map.mp hf
        rfl
      rw [hall] at hcallbacks
      rw [outputs_packets, hid]
      exact .packets packets hs' (hjoined hcallbacks (by simp)) (fun hd _ => hnegotiated hn hd) hcallbacks

/-! ### Connections and their sessions -/

/-- The same connections, whatever has happened to each. -/
def Same (e e' : Endpoint) : Prop :=
  ∀ c : ConnRef, (e'.connections[c]?).map (fun conn => (conn.session, conn.connectionId)) =
    (e.connections[c]?).map fun conn => (conn.session, conn.connectionId)

theorem Same.before {e e' : Endpoint} (h : e.Same e') {c : ConnRef} {conn' : Connection} (hc : e'.connections[c]? = some conn') :
    ∃ conn, e.connections[c]? = some conn ∧ conn.session = conn'.session ∧ conn.connectionId = conn'.connectionId := by
  have hsame := h c
  rw [hc, Option.map_some] at hsame
  obtain ⟨conn, hconn, heq⟩ := Option.map_eq_some_iff.mp hsame.symm
  exact ⟨conn, hconn, (Prod.mk.inj heq).1, (Prod.mk.inj heq).2⟩

theorem Same.after {e e' : Endpoint} (h : e.Same e') {c : ConnRef} {conn : Connection} (hc : e.connections[c]? = some conn) :
    ∃ conn', e'.connections[c]? = some conn' ∧ conn'.session = conn.session ∧ conn'.connectionId = conn.connectionId := by
  have hback : e'.Same e := fun c => (h c).symm
  exact hback.before hc

theorem Same.none {e e' : Endpoint} (h : e.Same e') {c : ConnRef} (hc : e'.connections[c]? = none) : e.connections[c]? = none := by
  have hsame := h c
  rw [hc, Option.map_none] at hsame
  exact Option.map_eq_none_iff.mp hsame.symm

theorem same_update (e : Endpoint) (c : ConnRef) {f : Connection → Connection}
    (h : ∀ conn, (f conn).session = conn.session ∧ (f conn).connectionId = conn.connectionId) : e.Same (e.update c f) := by
  intro j
  rw [update_connections, Option.map_map]
  refine congrArg (Option.map · e.connections[j]?) (funext fun conn => ?_)
  simp only [Function.comp_def]
  split
  · rw [(h conn).1, (h conn).2]
  · rfl

/-- The map holds the connections of the open sessions that have come up; each session has one
connection at most, and a listener's is handed to the handler, or waits for that. -/
structure Registry (m : Manager) (e : Endpoint) : Prop where
  accounted : e.Accounted
  connection : ∀ (c : ConnRef) (conn : Connection), e.connections[c]? = some conn → ∃ l, m.heap[conn.session]? = some l ∧
    l.session.connectionId = conn.connectionId ∧ l.Joined ∧
      (l.session.state ≠ .closed → e.conns.get? conn.connectionId = some c)
  registered : ∀ (k : Nat) (c : ConnRef), e.conns.get? k = some c → ∃ conn l, e.connections[c]? = some conn ∧
    m.heap[conn.session]? = some l ∧ l.session.connectionId = k ∧ l.session.state ≠ .closed
  joined : ∀ (r : Ref) (l : SessionLoop Caller), m.heap[r]? = some l → l.Joined →
    ∃ (c : ConnRef) (conn : Connection), e.connections[c]? = some conn ∧ conn.session = r
  once : ∀ (c c' : ConnRef) (conn conn' : Connection), e.connections[c]? = some conn → e.connections[c']? = some conn' →
    conn.session = conn'.session → c = c'
  held : ∀ (c : ConnRef) (conn : Connection), e.connections[c]? = some conn →
    (∃ k, e.conns.get? k = some c) ∨ ∃ x ∈ e.closes, ∃ before, x.found = some (c, before)
  handed : ∀ (c : ConnRef) (conn : Connection) (l : SessionLoop Caller), e.connections[c]? = some conn →
    m.heap[conn.session]? = some l → (e.handled ++ e.incoming).count c = if l.session.isDialer then 0 else 1
  unmade : ∀ c : ConnRef, e.connections[c]? = none → (e.handled ++ e.incoming).count c = 0

/-- The open session of an id that stands in the map is the one of the connection there. -/
theorem Registry.owner {m : Manager} {e : Endpoint} (h : Registry m e) (hm : m.Sound) {r : Ref} {l : SessionLoop Caller}
    (hl : m.heap[r]? = some l) (hs : l.session.state ≠ .closed) {c : ConnRef} (hc : e.conns.get? l.session.connectionId = some c) :
    l.Joined ∧ ∃ conn, e.connections[c]? = some conn ∧ conn.session = r := by
  obtain ⟨conn, l₀, hconn, hl₀, hid, hopen⟩ := h.registered _ c hc
  obtain rfl := hm.unique conn.session r l₀ l hl₀ hl hopen hs hid
  obtain ⟨l₁, hl₁, _, hjoined, _⟩ := h.connection c conn hconn
  obtain rfl := Option.some.inj (hl₁.symm.trans hl)
  exact ⟨hjoined, conn, hconn, rfl⟩

/-- A session without a connection that is open leaves its id free in the map. -/
theorem Registry.free {m : Manager} {e : Endpoint} (h : Registry m e) (hm : m.Sound) {r : Ref} {l : SessionLoop Caller}
    (hl : m.heap[r]? = some l) (hs : l.session.state ≠ .closed) (hj : ¬ l.Joined) : e.conns.get? l.session.connectionId = none := by
  cases hc : e.conns.get? l.session.connectionId with
  | none => rfl
  | some c => exact absurd (h.owner hm hl hs hc).1 hj

/-- One session of the manager goes on from `l` to `l'`. -/
structure Goes (m m' : Manager) (r : Ref) (l l' : SessionLoop Caller) : Prop where
  before : m.heap[r]? = some l
  heap : ∀ j : Ref, m'.heap[j]? = if j = r then some l' else m.heap[j]?
  connectionId : l'.session.connectionId = l.session.connectionId
  isDialer : l'.session.isDialer = l.session.isDialer

section Moves
variable {m m' : Manager} {e e' : Endpoint} {r : Ref} {l l' : SessionLoop Caller}

theorem Goes.other (hg : Goes m m' r l l') {j : Ref} (hj : j ≠ r) : m'.heap[j]? = m.heap[j]? := by rw [hg.heap, if_neg hj]

theorem Goes.self (hg : Goes m m' r l l') : m'.heap[r]? = some l' := by rw [hg.heap, if_pos rfl]

/-- A change that leaves the sessions of the connections alone, the map and what is handed on. -/
theorem Registry.same (h : Registry m e) (hsame : e.Same e') (hconns : e'.conns = e.conns) (hcloses : e'.closes = e.closes)
    (hqueue : e'.handled ++ e'.incoming = e.handled ++ e.incoming) (haccounted : e'.Accounted) : Registry m e' := by
  refine ⟨haccounted, ?_, ?_, ?_, ?_, ?_, ?_, ?_⟩
  · intro c conn' hc
    obtain ⟨conn, hconn, hsession, hid⟩ := hsame.before hc
    rw [hconns, ← hsession, ← hid]
    exact h.connection c conn hconn
  · intro k c hc
    rw [hconns] at hc
    obtain ⟨conn, x, hconn, hx, hrest⟩ := h.registered k c hc
    obtain ⟨conn', hconn', hsession, _⟩ := hsame.after hconn
    exact ⟨conn', x, hconn', by rw [hsession, hx], hrest⟩
  · intro j x hx hjoined
    obtain ⟨c, conn, hconn, hsession⟩ := h.joined j x hx hjoined
    obtain ⟨conn', hconn', hsession', _⟩ := hsame.after hconn
    exact ⟨c, conn', hconn', hsession'.trans hsession⟩
  · intro c c' conn₁ conn₂ hc hc' hsessions
    obtain ⟨conn, hconn, hsession, _⟩ := hsame.before hc
    obtain ⟨conn', hconn', hsession', _⟩ := hsame.before hc'
    exact h.once c c' conn conn' hconn hconn' (hsession.trans (hsessions.trans hsession'.symm))
  · intro c conn' hc
    obtain ⟨conn, hconn, _⟩ := hsame.before hc
    rw [hconns, hcloses]
    exact h.held c conn hconn
  · intro c conn' x hc hx
    obtain ⟨conn, hconn, hsession, _⟩ := hsame.before hc
    rw [hqueue]
    exact h.handed c conn x hconn (hsession ▸ hx)
  · intro c hc
    rw [hqueue]
    exact h.unmade c (hsame.none hc)

/-- A session that stays open or closed, and with or without its connection. -/
private theorem Registry.goes (h : Registry m e) (hg : Goes m m' r l l') (hs : l'.session.state = .closed ↔ l.session.state = .closed)
    (hj : l'.Joined ↔ l.Joined) : Registry m' e := by
  refine ⟨h.accounted, ?_, ?_, ?_, h.once, h.held, ?_, h.unmade⟩
  · intro c conn hc
    obtain ⟨x, hx, hid, hjoined, hopen⟩ := h.connection c conn hc
    by_cases hr : conn.session = r
    · rw [hr] at hx ⊢
      obtain rfl := Option.some.inj (hg.before.symm.trans hx)
      exact ⟨l', hg.self, hg.connectionId.trans hid, hj.mpr hjoined, fun hne => hopen fun hclosed => hne (hs.mpr hclosed)⟩
    · exact ⟨x, (hg.other hr).trans hx, hid, hjoined, hopen⟩
  · intro k c hc
    obtain ⟨conn, x, hconn, hx, hid, hopen⟩ := h.registered k c hc
    by_cases hr : conn.session = r
    · rw [hr] at hx
      obtain rfl := Option.some.inj (hg.before.symm.trans hx)
      exact ⟨conn, l', hconn, by rw [hr, hg.self], hg.connectionId.trans hid, fun hclosed => hopen (hs.mp hclosed)⟩
    · exact ⟨conn, x, hconn, (hg.other hr).trans hx, hid, hopen⟩
  · intro j x' hx' hjoined
    by_cases hr : j = r
    · subst hr
      obtain rfl := Option.some.inj (hg.self.symm.trans hx')
      exact h.joined j l hg.before (hj.mp hjoined)
    · exact h.joined j x' ((hg.other hr).symm.trans hx') hjoined
  · intro c conn x' hc hx'
    by_cases hr : conn.session = r
    · rw [hr] at hx'
      obtain rfl := Option.some.inj (hg.self.symm.trans hx')
      rw [hg.isDialer]
      exact h.handed c conn l hc (by rw [hr, hg.before])
    · exact h.handed c conn x' hc ((hg.other hr).symm.trans hx')

/-- A session that closes: nothing stands under its id any more. -/
private theorem Registry.popped (h : Registry m e) (hm : m.Sound) (hg : Goes m m' r l l') (hs : l.session.state ≠ .closed)
    (hs' : l'.session.state = .closed) (hj : l'.Joined ↔ l.Joined) (hsame : e.Same e')
    (hconns : ∀ k, e'.conns.get? k = if k = l.session.connectionId then none else e.conns.get? k)
    (hcloses : ∀ x ∈ e.closes, x ∈ e'.closes)
    (hfound : ∀ c, e.conns.get? l.session.connectionId = some c → ∃ x ∈ e'.closes, ∃ before, x.found = some (c, before))
    (hqueue : e'.handled ++ e'.incoming = e.handled ++ e.incoming) (haccounted : e'.Accounted) : Registry m' e' := by
  refine ⟨haccounted, ?_, ?_, ?_, ?_, ?_, ?_, ?_⟩
  · intro c conn' hc
    obtain ⟨conn, hconn, hsession, hid⟩ := hsame.before hc
    obtain ⟨x, hx, hxid, hjoined, hopen⟩ := h.connection c conn hconn
    rw [← hsession, ← hid]
    by_cases hr : conn.session = r
    · rw [hr] at hx ⊢
      obtain rfl := Option.some.inj (hg.before.symm.trans hx)
      exact ⟨l', hg.self, hg.connectionId.trans hxid, hj.mpr hjoined, fun hne => absurd hs' hne⟩
    · refine ⟨x, (hg.other hr).trans hx, hxid, hjoined, fun hne => ?_⟩
      rw [hconns, if_neg]
      · exact hopen hne
      · intro hk
        obtain ⟨_, conn₁, hconn₁, hsession₁⟩ := h.owner hm hg.before hs (hk ▸ hopen hne)
        obtain rfl := Option.some.inj (hconn₁.symm.trans hconn)
        exact hr hsession₁
  · intro k c hc
    rw [hconns] at hc
    split at hc
    · cases hc
    · next hk =>
      obtain ⟨conn, x, hconn, hx, hid, hopen⟩ := h.registered k c hc
      obtain ⟨conn', hconn', hsession, _⟩ := hsame.after hconn
      have hr : conn.session ≠ r := by
        intro hr
        rw [hr] at hx
        obtain rfl := Option.some.inj (hg.before.symm.trans hx)
        exact hk hid.symm
      exact ⟨conn', x, hconn', by rw [hsession, hg.other hr, hx], hid, hopen⟩
  · intro j x' hx' hjoined
    have hbefore : ∃ (c : ConnRef) (conn : Connection), e.connections[c]? = some conn ∧ conn.session = j := by
      by_cases hr : j = r
      · subst hr
        obtain rfl := Option.some.inj (hg.self.symm.trans hx')
        exact h.joined j l hg.before (hj.mp hjoined)
      · exact h.joined j x' ((hg.other hr).symm.trans hx') hjoined
    obtain ⟨c, conn, hconn, hsession⟩ := hbefore
    obtain ⟨conn', hconn', hsession', _⟩ := hsame.after hconn
    exact ⟨c, conn', hconn', hsession'.trans hsession⟩
  · intro c c' conn₁ conn₂ hc hc' hsessions
    obtain ⟨conn, hconn, hsession, _⟩ := hsame.before hc
    obtain ⟨conn', hconn', hsession', _⟩ := hsame.before hc'
    exact h.once c c' conn conn' hconn hconn' (hsession.trans (hsessions.trans hsession'.symm))
  · intro c conn' hc
    obtain ⟨conn, hconn, _⟩ := hsame.before hc
    rcases h.held c conn hconn with ⟨k, hk⟩ | ⟨x, hx, before, hx'⟩
    · by_cases hkl : k = l.session.connectionId
      · exact Or.inr (hfound c (hkl ▸ hk))
      · exact Or.inl ⟨k, by rw [hconns, if_neg hkl, hk]⟩
    · exact Or.inr ⟨x, hcloses x hx, before, hx'⟩
  · intro c conn' x' hc hx'
    obtain ⟨conn, hconn, hsession, _⟩ := hsame.before hc
    rw [hqueue]
    by_cases hr : conn'.session = r
    · rw [hr] at hx'
      obtain rfl := Option.some.inj (hg.self.symm.trans hx')
      rw [hg.isDialer]
      exact h.handed c conn l hconn (by rw [hsession, hr, hg.before])
    · exact h.handed c conn x' hconn (by rw [hsession, ← hg.other hr, hx'])
  · intro c hc
    rw [hqueue]
    exact h.unmade c (hsame.none hc)

/-- A session gets its connection. -/
private theorem Registry.made (h : Registry m e) (hm : m.Sound) (hg : Goes m m' r l l') (hs : l.session.state ≠ .closed)
    (hs' : l'.session.state ≠ .closed) (hj : ¬ l.Joined) (hj' : l'.Joined) {conn : Connection} (hsession : conn.session = r)
    (hid : conn.connectionId = l.session.connectionId)
    (hconnections : ∀ c : ConnRef, e'.connections[c]? = if c = e.connections.length then some conn else e.connections[c]?)
    (hconns : ∀ k, e'.conns.get? k = if k = l.session.connectionId then some e.connections.length else e.conns.get? k)
    (hcloses : e'.closes = e.closes)
    (hqueue : e'.handled ++ e'.incoming = e.handled ++ e.incoming ++ if l.session.isDialer then [] else [e.connections.length])
    (haccounted : e'.Accounted) : Registry m' e' := by
  have hnew : e'.connections[e.connections.length]? = some conn := by rw [hconnections, if_pos rfl]
  have hnewConns : e'.conns.get? l.session.connectionId = some e.connections.length := by rw [hconns, if_pos rfl]
  -- the connections there were belong to other sessions
  have older : ∀ {c : ConnRef} {conn₀ : Connection}, e.connections[c]? = some conn₀ →
      conn₀.session ≠ r ∧ c ≠ e.connections.length ∧ e'.connections[c]? = some conn₀ := by
    intro c conn₀ hc
    have hne : c ≠ e.connections.length := Nat.ne_of_lt (List.getElem?_eq_some_iff.mp hc).1
    refine ⟨fun hr => ?_, hne, by rw [hconnections, if_neg hne, hc]⟩
    obtain ⟨x, hx, _, hjoined, _⟩ := h.connection c conn₀ hc
    rw [hr] at hx
    obtain rfl := Option.some.inj (hg.before.symm.trans hx)
    exact hj hjoined
  have either : ∀ {c : ConnRef} {conn₀ : Connection}, e'.connections[c]? = some conn₀ →
      c = e.connections.length ∧ conn₀ = conn ∨ e.connections[c]? = some conn₀ := by
    intro c conn₀ hc
    rw [hconnections] at hc
    split at hc
    · next hnew => exact Or.inl ⟨hnew, (Option.some.inj hc).symm⟩
    · exact Or.inr hc
  have hfree := h.free hm hg.before hs hj
  have keeps : ∀ {k : Nat} {c : ConnRef}, e.conns.get? k = some c → e'.conns.get? k = some c := by
    intro k c hc
    rw [hconns, if_neg, hc]
    rintro rfl
    cases hfree.symm.trans hc
  refine ⟨haccounted, ?_, ?_, ?_, ?_, ?_, ?_, ?_⟩
  · intro c conn₀ hc
    rcases either hc with ⟨rfl, rfl⟩ | hold
    · exact ⟨l', by rw [hsession, hg.self], by rw [hid, hg.connectionId], hj', fun _ => by rw [hid]; exact hnewConns⟩
    · obtain ⟨x, hx, hxid, hjoined, hopen⟩ := h.connection c conn₀ hold
      exact ⟨x, (hg.other (older hold).1).trans hx, hxid, hjoined, fun hne => keeps (hopen hne)⟩
  · intro k c hc
    rw [hconns] at hc
    split at hc
    · next hk =>
      obtain rfl := Option.some.inj hc
      exact ⟨conn, l', hnew, by rw [hsession, hg.self], hg.connectionId.trans hk.symm, hs'⟩
    · obtain ⟨conn₀, x, hconn₀, hx, hxid, hopen⟩ := h.registered k c hc
      obtain ⟨hr, _, hkept⟩ := older hconn₀
      exact ⟨conn₀, x, hkept, (hg.other hr).trans hx, hxid, hopen⟩
  · intro j x' hx' hjoined
    by_cases hr : j = r
    · exact ⟨_, conn, hnew, hsession.trans hr.symm⟩
    · obtain ⟨c, conn₀, hconn₀, hsession₀⟩ := h.joined j x' ((hg.other hr).symm.trans hx') hjoined
      exact ⟨c, conn₀, (older hconn₀).2.2, hsession₀⟩
  · intro c c' conn₁ conn₂ hc hc' hsessions
    rcases either hc with ⟨rfl, rfl⟩ | hold
    · rcases either hc' with ⟨rfl, _⟩ | hold'
      · rfl
      · exact absurd (hsessions.symm.trans hsession) (older hold').1
    · rcases either hc' with ⟨rfl, rfl⟩ | hold'
      · exact absurd (hsessions.trans hsession) (older hold).1
      · exact h.once c c' conn₁ conn₂ hold hold' hsessions
  · intro c conn₀ hc
    rw [hcloses]
    rcases either hc with ⟨rfl, _⟩ | hold
    · exact Or.inl ⟨_, hnewConns⟩
    · rcases h.held c conn₀ hold with ⟨k, hk⟩ | hfound
      · exact Or.inl ⟨k, keeps hk⟩
      · exact Or.inr hfound
  · intro c conn₀ x' hc hx'
    rw [hqueue, List.count_append]
    rcases either hc with ⟨rfl, rfl⟩ | hold
    · rw [hsession] at hx'
      obtain rfl := Option.some.inj (hg.self.symm.trans hx')
      rw [hg.isDialer, h.unmade _ (List.getElem?_eq_none (Nat.le_refl _)), Nat.zero_add]
      cases l.session.isDialer with
      | true => rfl
      | false => exact List.count_singleton_self
    · obtain ⟨hr, hne, _⟩ := older hold
      rw [h.handed c conn₀ x' hold ((hg.other hr).symm.trans hx')]
      refine Nat.add_eq_left.mpr ?_
      split
      · rfl
      · exact List.count_eq_zero.mpr fun hmem => hne (List.mem_singleton.mp hmem)
  · intro c hc
    rw [hconnections] at hc
    split at hc
    · cases hc
    · next hne =>
      rw [hqueue, List.count_append, h.unmade c hc, Nat.zero_add]
      split
      · rfl
      · exact List.count_eq_zero.mpr fun hmem => hne (List.mem_singleton.mp hmem)

/-! ### What an event of a session does to it -/

private theorem markConnected_owner (c : Connection) :
    c.markConnected.session = c.session ∧ c.markConnected.connectionId = c.connectionId := by
  unfold Connection.markConnected
  split <;> exact ⟨rfl, rfl⟩

private theorem markClosed_owner (c : Connection) (error : ErrorCode) :
    (c.markClosed error).1.session = c.session ∧ (c.markClosed error).1.connectionId = c.connectionId := by
  rcases c.markClosed_cases error with ⟨future, _, heq⟩ | ⟨e, _, heq⟩ <;> rw [heq] <;> exact ⟨rfl, rfl⟩

private theorem onPacket_frame (e : Endpoint) (k : Nat) (data : Bytes) :
    e.Same (e.onPacket k data) ∧ (e.onPacket k data).conns = e.conns ∧ (e.onPacket k data).closes = e.closes ∧
      (e.onPacket k data).handled = e.handled ∧ (e.onPacket k data).incoming = e.incoming := by
  unfold onPacket
  split
  · next c _ => exact ⟨same_update e c fun _ => ⟨rfl, rfl⟩, rfl, rfl, rfl, rfl⟩
  · exact ⟨fun _ => rfl, rfl, rfl, rfl, rfl⟩

private theorem onPackets_frame (e : Endpoint) (k : Nat) (packets : List Bytes) (haccounted : e.Accounted) :
    let e' := packets.foldl (fun e data => e.onPacket k data) e
    e.Same e' ∧ e'.conns = e.conns ∧ e'.closes = e.closes ∧ e'.handled = e.handled ∧ e'.incoming = e.incoming ∧ e'.Accounted := by
  induction packets generalizing e with
  | nil => exact ⟨fun _ => rfl, rfl, rfl, rfl, rfl, haccounted⟩
  | cons data packets ih =>
    obtain ⟨hsame, hconns, hcloses, hhandled, hincoming⟩ := e.onPacket_frame k data
    have hone : (e.onPacket k data).Accounted := @accounted_output (fun _ => k) e (.effect 0 (.onPacket data)) haccounted
    obtain ⟨hsame', hconns', hcloses', hhandled', hincoming', hall⟩ := ih (e.onPacket k data) hone
    exact ⟨fun c => (hsame' c).trans (hsame c), hconns'.trans hconns, hcloses'.trans hcloses, hhandled'.trans hhandled,
      hincoming'.trans hincoming, hall⟩

/-- Whether or not a connection stands there, nothing stands under the id after a close. -/
private theorem onSessionClose_frame {e : Endpoint} (h : e.Accounted) (r : Ref) (k : Nat) (error : ErrorCode) :
    e.Same (e.onSessionClose r k error) ∧
      (∀ j, (e.onSessionClose r k error).conns.get? j = if j = k then none else e.conns.get? j) ∧
      (∀ x ∈ e.closes, x ∈ (e.onSessionClose r k error).closes) ∧
      (∀ c, e.conns.get? k = some c → ∃ x ∈ (e.onSessionClose r k error).closes, ∃ before, x.found = some (c, before)) ∧
      (e.onSessionClose r k error).handled = e.handled ∧ (e.onSessionClose r k error).incoming = e.incoming := by
  unfold onSessionClose
  split
  · next hnone =>
    refine ⟨fun _ => rfl, fun j => Dict.get?_pop _ _ _, fun x hx => List.mem_append_left _ hx, fun c hc => ?_, rfl, rfl⟩
    obtain ⟨conn, hconn, _⟩ := h.registered k c hc
    simp [find?, hc, hconn] at hnone
  · next c conn hfind =>
    obtain ⟨hreg, hconn⟩ := find?_some hfind
    refine ⟨fun j => ?_, fun j => Dict.get?_pop _ _ _, fun x hx => List.mem_append_left _ hx, fun c' hc' => ?_, rfl, rfl⟩
    · by_cases hj : j = c
      · obtain ⟨hlt, _⟩ := List.getElem?_eq_some_iff.mp hconn
        rw [hj, hconn]
        simp only
        rw [List.getElem?_set_self hlt, Option.map_some, Option.map_some, (markClosed_owner conn error).1, (markClosed_owner conn error).2]
      · simp only
        rw [List.getElem?_set_ne fun h => hj h.symm]
    · obtain rfl := Option.some.inj (hc'.symm.trans hreg)
      exact ⟨_, List.mem_append_right _ (List.mem_singleton_self _), conn, rfl⟩

theorem Registry.sees (h : Registry m e) (hm : m.Sound) (hg : Goes m m' r l l') (hsees : Sees r l l' e e') : Registry m' e' := by
  cases hsees with
  | silent hs hj _ => exact h.goes hg hs hj
  | packets packets hs hj _ _ =>
    obtain ⟨hsame, hconns, hcloses, hhandled, hincoming, haccounted⟩ := e.onPackets_frame l.session.connectionId packets h.accounted
    exact (h.goes hg (by rw [hs]) hj).same hsame hconns hcloses (by rw [hhandled, hincoming]) haccounted
  | closed error hs hs' hj _ =>
    obtain ⟨hsame, hconns, hcloses, hfound, hhandled, hincoming⟩ := onSessionClose_frame h.accounted r l.session.connectionId error
    exact h.popped hm hg hs hs' hj hsame hconns hcloses hfound (by rw [hhandled, hincoming])
      (@accounted_output (fun _ => l.session.connectionId) e (.effect r (.onClose error)) h.accounted)
  | connected hd hs hs' hj hj' _ =>
    obtain ⟨hsession, hid, _⟩ := Connection.foldl_enqueue { session := r, connectionId := l.session.connectionId }
      ((e.pendingPackets.get? l.session.connectionId).getD [])
    refine h.made hm hg hs hs' hj hj' hsession hid (e.register_connections r l.session.connectionId) (fun k => Dict.get?_set _ _ _ _)
      rfl ?_ (@accounted_output (fun _ => l.session.connectionId) e (.connected r) h.accounted)
    rw [hd, if_pos rfl, List.append_nil]
    rfl
  | opened hs hs' hd hj' _ =>
    have haccounted := @accounted_output (fun _ => l.session.connectionId) e (.effect r .onOpen) h.accounted
    simp only [output, onSessionOpen] at haccounted ⊢
    cases hc : e.conns.get? l.session.connectionId with
    | some c =>
      rw [hc] at haccounted
      have hj := (h.owner hm hg.before hs hc).1
      exact (h.goes hg (iff_of_false hs' hs) (iff_of_true hj' hj)).same (same_update e c markConnected_owner) rfl rfl rfl haccounted
    | none =>
      rw [hc] at haccounted
      have hj : ¬ l.Joined := by
        intro hj
        obtain ⟨c, conn, hconn, hsession⟩ := h.joined r l hg.before hj
        obtain ⟨x, hx, hid, _, hopen⟩ := h.connection c conn hconn
        rw [hsession] at hx
        obtain rfl := Option.some.inj (hg.before.symm.trans hx)
        rw [← hid, hc] at hopen
        cases hopen hs
      have hlistener : l.session.isDialer = false := Bool.eq_false_iff.mpr fun hdialer => hj (hd hdialer)
      obtain ⟨hsession, hid, _⟩ := Connection.foldl_enqueue { session := r, connectionId := l.session.connectionId }
        ((e.pendingPackets.get? l.session.connectionId).getD [])
      -- the new connection waits in `_incoming`, and is marked connected
      have hregistered := @accounted_output (fun _ => l.session.connectionId) e (.connected r) h.accounted
      let queued : Endpoint := { (e.register r l.session.connectionId).1 with
        incoming := (e.register r l.session.connectionId).1.incoming ++ [(e.register r l.session.connectionId).2] }
      have hmade : Registry m' queued := by
        refine h.made hm hg hs hs' hj hj' hsession hid (e.register_connections r l.session.connectionId)
          (fun k => Dict.get?_set _ _ _ _) rfl ?_ ⟨hregistered.registered, hregistered.closes, hregistered.kept⟩
        rw [hlistener]
        exact (List.append_assoc _ _ _).symm
      exact hmade.same (same_update _ _ markConnected_owner) rfl rfl rfl haccounted

end Moves

/-! ### A step of the manager -/

/-- What holds of a manager and its endpoint in every run in which sessions end once. -/
structure Routes (m : Manager) (e : Endpoint) : Prop where
  sound : m.Sound
  attached : ∀ (r : Ref) (l : SessionLoop Caller), m.heap[r]? = some l → l.Attached
  ended : ∀ (r : Ref) (l : SessionLoop Caller), m.heap[r]? = some l → l.Ended
  registry : Registry m e

/-- A session is put under an id that no open session has, and is called. -/
structure Enrolls (m m' : Manager) (l : SessionLoop Caller) : Prop where
  heap : ∀ r : Ref, m'.heap[r]? = if r = m.heap.length then some l else m.heap[r]?
  state : l.session.state = .idle
  callbacks : l.callbacks = []
  unjoined : ¬ l.Joined
  attached : l.Attached

theorem Enrolls.older {m m' : Manager} {l : SessionLoop Caller} (h : Enrolls m m' l) {r : Ref} {x : SessionLoop Caller}
    (hx : m.heap[r]? = some x) : m'.heap[r]? = some x := by
  rw [h.heap, if_neg (Nat.ne_of_lt (List.getElem?_eq_some_iff.mp hx).1), hx]

theorem Enrolls.either {m m' : Manager} {l : SessionLoop Caller} (h : Enrolls m m' l) {r : Ref} {x : SessionLoop Caller}
    (hx : m'.heap[r]? = some x) : r = m.heap.length ∧ x = l ∨ m.heap[r]? = some x := by
  rw [h.heap] at hx
  split at hx
  · next hr => exact Or.inl ⟨hr, (Option.some.inj hx).symm⟩
  · exact Or.inr hx

private theorem enroll_enrolls [Aiortc] {m₀ : Manager} {ev : ManagerEvent} (created : List (NetworkId × Text)) {k : Nat}
    {remoteId : NetworkId} {isDialer : Bool} {c : Call} {caller : Caller} (hk : m₀.Admits ev k remoteId isDialer c caller) :
    Enrolls m₀ (Manager.enroll { m₀ with created := created } k remoteId isDialer c caller).1
      ((SessionLoop.fresh (Session.new k m₀.localId remoteId isDialer m₀.relayOnly)).next (.call c caller)) := by
  have hheap := fun r => Manager.enroll_heap { m₀ with created := created } k remoteId isDialer c caller r
  cases hk with
  | dial he =>
    refine ⟨hheap, rfl, rfl, ?_, SessionLoop.opening_started _ _ _ _ _ _ (Or.inl ⟨rfl, rfl⟩), fun t ht => ?_⟩
    · rw [SessionLoop.joined_dialer rfl]
      exact Bool.false_ne_true
    · obtain rfl := List.mem_singleton.mp ht
      exact iff_of_true rfl rfl
  | listen sdp hs hk =>
    refine ⟨hheap, rfl, rfl, ?_, SessionLoop.opening_started _ _ _ _ _ _ (Or.inr ⟨rfl, k, sdp, rfl⟩), fun t ht => ?_⟩
    · rw [SessionLoop.joined_listener rfl]
      exact List.not_mem_nil
    · obtain rfl := List.mem_singleton.mp ht
      exact iff_of_false Bool.false_ne_true Caller.noConfusion

private theorem enroll_outputs [Aiortc] {m₀ : Manager} {ev : ManagerEvent} (m : Manager) {k : Nat} {remoteId : NetworkId}
    {isDialer : Bool} {c : Call} {caller : Caller} (hk : m₀.Admits ev k remoteId isDialer c caller) (e : Endpoint)
    (connectionId : Ref → Nat) : e.outputs connectionId (m.enroll k remoteId isDialer c caller).2 = e := by
  have hnew : (m.createSession k remoteId isDialer).1.heap[(m.createSession k remoteId isDialer).2]? =
      some (.fresh (Session.new k m.localId remoteId isDialer m.relayOnly)) := by
    simp [Manager.createSession]
  simp only [Manager.enroll]
  rw [Manager.onSession_some _ hnew]
  cases hk <;> rfl

private theorem registry_enroll {m m' : Manager} {l : SessionLoop Caller} {e : Endpoint} (h : Registry m e) (hn : Enrolls m m' l) :
    Registry m' e := by
  refine ⟨h.accounted, ?_, ?_, ?_, h.once, h.held, ?_, h.unmade⟩
  · intro c conn hc
    obtain ⟨x, hx, hrest⟩ := h.connection c conn hc
    exact ⟨x, hn.older hx, hrest⟩
  · intro k c hc
    obtain ⟨conn, x, hconn, hx, hrest⟩ := h.registered k c hc
    exact ⟨conn, x, hconn, hn.older hx, hrest⟩
  · intro r x hx hjoined
    rcases hn.either hx with ⟨_, rfl⟩ | hold
    · exact absurd hjoined hn.unjoined
    · exact h.joined r x hold hjoined
  · intro c conn x hc hx
    obtain ⟨x₀, hx₀, _⟩ := h.connection c conn hc
    obtain rfl := Option.some.inj ((hn.older hx₀).symm.trans hx)
    exact h.handed c conn x₀ hc hx₀

/-- The endpoint looks up the ids of the sessions there are. -/
def Names (m : Manager) (connectionId : Ref → Nat) : Prop :=
  ∀ (r : Ref) (l : SessionLoop Caller), m.heap[r]? = some l → connectionId r = l.session.connectionId

private theorem names_before [Aiortc] {m : Manager} {r : Ref} {ev : SessionEvent Caller} {connectionId : Ref → Nat}
    (h : Names (m.onSession r ev).1 connectionId) : Names m connectionId := by
  intro j x hx
  cases hl : m.heap[r]? with
  | none =>
    rw [Manager.onSession_none ev hl] at h
    exact h j x hx
  | some l =>
    by_cases hj : j = r
    · subst hj
      obtain rfl := Option.some.inj (hl.symm.trans hx)
      have hnext := h j (l.next ev) (by rw [Manager.onSession_heap ev hl, if_pos rfl])
      exact hnext.trans (l.next_identity ev).1
    · exact h j x (by rw [Manager.onSession_heap ev hl, if_neg hj, hx])

private theorem onSession_routes [Aiortc] {m : Manager} {e : Endpoint} {r : Ref} {ev : SessionEvent Caller} (h : Routes m e)
    (hsound : (m.onSession r ev).1.Sound) (he : SessionLoop.Routed ev)
    (ht : ∀ l, m.heap[r]? = some l → l.Timely ev) {connectionId : Ref → Nat} (hnames : Names m connectionId) :
    Routes (m.onSession r ev).1 (e.outputs connectionId (m.onSession r ev).2.1) ∧
      (m.onSession r ev = (m, [], .none) ∨ ∃ l, Goes m (m.onSession r ev).1 r l (l.next ev) ∧
        Sees r l (l.next ev) e (e.outputs connectionId (m.onSession r ev).2.1)) := by
  cases hl : m.heap[r]? with
  | none =>
    have hsame := Manager.onSession_none ev hl
    refine ⟨?_, Or.inl hsame⟩
    rw [hsame]
    exact h
  | some l =>
    have hattached := h.attached r l hl
    obtain ⟨hid, _, hd⟩ := l.next_identity ev
    have hg : Goes m (m.onSession r ev).1 r l (l.next ev) := ⟨hl, Manager.onSession_heap ev hl, hid, hd⟩
    have hsees := onSession_sees hl hattached he (ht l hl) e (hnames r l hl)
    refine ⟨⟨hsound, fun j x hx => ?_, fun j x hx => ?_, h.registry.sees h.sound hg hsees⟩, Or.inr ⟨l, hg, hsees⟩⟩
    · by_cases hj : j = r
      · subst hj
        obtain rfl := Option.some.inj (hg.self.symm.trans hx)
        exact SessionLoop.attached_step hattached he
      · exact h.attached j x ((hg.other hj).symm.trans hx)
    · by_cases hj : j = r
      · subst hj
        obtain rfl := Option.some.inj (hg.self.symm.trans hx)
        exact hsees.ended (h.ended j l hl)
      · exact h.ended j x ((hg.other hj).symm.trans hx)

private theorem Routes.books {m m' : Manager} {e : Endpoint} (h : Routes m e) (heap : m'.heap = m.heap) (hsound : m'.Sound) :
    Routes m' e := by
  refine ⟨hsound, by rw [heap]; exact h.attached, by rw [heap]; exact h.ended, ⟨h.registry.accounted, ?_, ?_, ?_, h.registry.once,
    h.registry.held, ?_, h.registry.unmade⟩⟩ <;> rw [heap]
  · exact h.registry.connection
  · exact h.registry.registered
  · exact h.registry.joined
  · exact h.registry.handed

private theorem routed_direct {sev : SessionEvent Caller} (h : sev.isCall = false) : SessionLoop.Routed sev := by
  cases sev with
  | call c caller => cases h
  | _ => trivial

/-- The rule for what relates the manager and its endpoint within a step: a new session and
one event of one session keep it. -/
theorem acts_invariant [Aiortc] {m₀ m : Manager} {ev : ManagerEvent} {e₀ : Endpoint} {outs : List Output}
    (h : Manager.Acts m₀ ev m outs) {Inv : Manager → Endpoint → Prop} (hroutes : Routes m₀ e₀) (ht : m₀.Timely ev)
    (hnew : m₀.NewId ev) (before : Inv m₀ e₀)
    (books : ∀ m m' e, m'.heap = m.heap → Inv m e → Inv m' e)
    (enroll : ∀ m m' e l, Routes m e → Routes m' e → Enrolls m m' l → Inv m e → Inv m' e)
    (session : ∀ m m' e e' r l l', Routes m e → Routes m' e' → Goes m m' r l l' → Sees r l l' e e' → Inv m e → Inv m' e') :
    ∀ connectionId : Ref → Nat, Names m connectionId →
      Routes m (e₀.outputs connectionId outs) ∧ Inv m (e₀.outputs connectionId outs) := by
  have sound : ∀ {m outs}, Manager.Acts m₀ ev m outs → m.Sound := fun h => h.sound hroutes.sound ht hnew
  have stepped : ∀ (m : Manager) (e : Endpoint) (r : Ref) (sev : SessionEvent Caller) (connectionId : Ref → Nat),
      (m.onSession r sev).1.Sound → SessionLoop.Routed sev → (∀ l, m.heap[r]? = some l → l.Timely sev) →
      Names m connectionId → Routes m e ∧ Inv m e → Routes (m.onSession r sev).1 (e.outputs connectionId (m.onSession r sev).2.1) ∧
        Inv (m.onSession r sev).1 (e.outputs connectionId (m.onSession r sev).2.1) := by
    rintro m e r sev connectionId hsound he ht hnames ⟨hroutes, hinv⟩
    obtain ⟨hafter, hsame | ⟨l, hg, hsees⟩⟩ := onSession_routes hroutes hsound he ht hnames
    · rw [hsame]
      exact ⟨hroutes, hinv⟩
    · exact ⟨hafter, session _ _ _ _ r l _ hroutes hafter hg hsees hinv⟩
  have called : ∀ (l : SessionLoop Caller) (c : Call) (caller : Caller), l.Timely (.call c caller) := fun l c caller => id
  induction h with
  | tasks created closing hc =>
    exact fun connectionId _ => ⟨hroutes.books rfl (sound (.tasks created closing hc)), books m₀ _ _ rfl before⟩
  | direct r sev he hc =>
    intro connectionId hnames
    refine stepped m₀ e₀ r sev connectionId (sound (.direct r sev he hc)) (routed_direct hc) ?_ (names_before hnames)
      ⟨hroutes, before⟩
    subst he
    exact ht
  | enroll created k remoteId isDialer c caller hk hc =>
    intro connectionId _
    rw [enroll_outputs _ hk]
    have hsound := sound (.enroll created k remoteId isDialer c caller hk hc)
    have hn := enroll_enrolls created hk
    have hafter : Routes (Manager.enroll { m₀ with created := created } k remoteId isDialer c caller).1 e₀ := by
      refine ⟨hsound, fun r x hx => ?_, fun r x hx => ?_, registry_enroll hroutes.registry hn⟩
      · rcases hn.either hx with ⟨_, rfl⟩ | hold
        · exact hn.attached
        · exact hroutes.attached r x hold
      · rcases hn.either hx with ⟨_, rfl⟩ | hold
        · rw [SessionLoop.Ended, hn.callbacks, hn.state]
          rfl
        · exact hroutes.ended r x hold
    exact ⟨hafter, enroll m₀ _ e₀ _ hroutes hafter hn before⟩
  | route created senderId parsed r hs hr hc =>
    intro connectionId hnames
    have hskip : Routes { m₀ with created := created } e₀ := hroutes.books rfl (sound (.tasks created m₀.closing hc))
    exact stepped { m₀ with created := created } e₀ r _ connectionId (sound (.route created senderId parsed r hs hr hc))
      Caller.noConfusion (fun l _ => called l _ _) (names_before hnames) ⟨hskip, books m₀ _ _ rfl before⟩
  | buffer created senderId k candidate hs hk hc =>
    exact fun connectionId _ => ⟨hroutes.books rfl (sound (.buffer created senderId k candidate hs hk hc)), books m₀ _ _ rfl before⟩
  | take m outs h k ih =>
    intro connectionId hnames
    obtain ⟨hm, hinv⟩ := ih connectionId hnames
    exact ⟨hm.books rfl (sound (.take m outs h k)), books m _ _ rfl hinv⟩
  | flush m outs h r senderId parsed c rest hf ih =>
    intro connectionId hnames
    rw [outputs_append]
    have hbefore := names_before hnames
    exact stepped m _ r _ connectionId (sound (.flush m outs h r senderId parsed c rest hf)) Caller.noConfusion
      (fun l _ => called l _ _) hbefore (ih connectionId hbefore)
  | shut m outs h r closing he ih =>
    intro connectionId hnames
    rw [outputs_append]
    have hbefore : Names m connectionId := names_before hnames
    have hsound := sound (.shut m outs h r closing he)
    obtain ⟨hm, hinv⟩ := stepped m _ r (.aclose (.member .none)) connectionId
      ⟨hsound.mapped, hsound.unique, hsound.popped⟩ trivial (fun l _ => id) hbefore (ih connectionId hbefore)
    exact ⟨hm.books rfl hsound, books (m.onSession r (.aclose (.member .none))).1 _ _ rfl hinv⟩
  | clear m outs h he ih =>
    intro connectionId hnames
    rw [outputs_append]
    obtain ⟨hm, hinv⟩ := ih connectionId hnames
    exact ⟨hm.books rfl (sound (.clear m outs h he)), books m _ _ rfl hinv⟩

theorem names_connectionId (m : Manager) : Names m m.connectionId := by
  intro r l hl
  rw [Manager.connectionId, hl]
  rfl

theorem Routes.update {m : Manager} {e : Endpoint} (h : Routes m e) (c : ConnRef) (ev : ConnectionEvent) :
    Routes m (e.update c (·.next ev)) :=
  ⟨h.sound, h.attached, h.ended,
    h.registry.same (same_update e c fun conn => ⟨(conn.next_kept ev).session, (conn.next_kept ev).connectionId⟩) rfl rfl rfl
      (accounted_connection h.registry.accounted c ev)⟩

theorem accept_queue (e : Endpoint) : e.accept.handled ++ e.accept.incoming = e.handled ++ e.incoming := by
  unfold accept
  split
  · rfl
  · next c rest hincoming =>
    rw [hincoming]
    exact List.append_assoc _ _ _

theorem Routes.accept {m : Manager} {e : Endpoint} (h : Routes m e) : Routes m e.accept := by
  refine ⟨h.sound, h.attached, h.ended, h.registry.same ?_ ?_ ?_ e.accept_queue (accounted_accept h.registry.accounted)⟩
  · intro c
    unfold Endpoint.accept
    split <;> rfl
  · unfold Endpoint.accept
    split <;> rfl
  · unfold Endpoint.accept
    split <;> rfl

theorem routes_new (localId : NetworkId) (relayOnly : Bool) : Routes (Manager.new localId relayOnly) {} := by
  refine ⟨Manager.sound_new localId relayOnly, ?_, ?_, accounted_empty, ?_, ?_, ?_, ?_, ?_, ?_, fun c _ => rfl⟩
  · intro r l hl
    cases hl
  · intro r l hl
    cases hl
  · intro c conn hc
    cases hc
  · intro k c hc
    cases hc
  · intro r l hl
    cases hl
  · intro c c' conn conn' hc
    cases hc
  · intro c conn hc
    cases hc
  · intro c conn l hc
    cases hc

end Endpoint

namespace Service

/-- No `create_offer` or `create_answer` returns to a closed session, and no session is created
under the id of an open one. -/
def Timely (s : Service) : ServiceEvent → Prop
  | .manager e => s.manager.Timely e ∧ s.manager.NewId e
  | _ => True

instance (s : Service) (e : ServiceEvent) : Decidable (s.Timely e) :=
  match e with
  | .manager e => inferInstanceAs (Decidable (s.manager.Timely e ∧ s.manager.NewId e))
  | .connection _ _ | .accept | .lanClosed => .isTrue trivial

/-- The rule for what relates the manager and its endpoint, in a step of the service. -/
theorem routes_invariant [Aiortc] {Inv : Manager → Endpoint → Prop} {s : Service} {e : ServiceEvent} (he : s.Timely e)
    (hroutes : Endpoint.Routes s.manager s.endpoint) (before : Inv s.manager s.endpoint)
    (books : ∀ m m' e, m'.heap = m.heap → Inv m e → Inv m' e)
    (enroll : ∀ m m' e l, Endpoint.Routes m e → Endpoint.Routes m' e → Endpoint.Enrolls m m' l → Inv m e → Inv m' e)
    (session : ∀ m m' e e' r l l', Endpoint.Routes m e → Endpoint.Routes m' e' → Endpoint.Goes m m' r l l' →
      Endpoint.Sees r l l' e e' → Inv m e → Inv m' e')
    (connection : ∀ c ev, Inv s.manager (s.endpoint.update c (·.next ev))) (accept : Inv s.manager s.endpoint.accept) :
    Endpoint.Routes (s.next e).manager (s.next e).endpoint ∧ Inv (s.next e).manager (s.next e).endpoint := by
  refine @next_invariant _ (fun m e => Endpoint.Routes m e ∧ Inv m e) s e ⟨hroutes, before⟩ ?_ ?_ ?_
  · rintro e' rfl
    exact Endpoint.acts_invariant (Manager.step_acts s.manager e') hroutes he.1 he.2 before books enroll session _
      (Endpoint.names_connectionId _)
  · exact fun c ev => ⟨hroutes.update c ev, connection c ev⟩
  · exact ⟨hroutes.accept, accept⟩

end Service
end NetherNet
