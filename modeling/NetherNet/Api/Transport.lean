import NetherNet.Discovery.LanEvents
import NetherNet.Manager.Histories

/-! The transport façade: the signals of the sessions go out in datagrams, and what
arrives in datagrams goes to the manager. -/
namespace NetherNet
open Library

structure Transport where
  manager : Manager
  lan : LanTransport
  discovered : Dict NetworkId Bytes := Dict.empty
  /-- The calls of `aclose` that wait for the broadcast task in `LanTransport.close`. -/
  closing : Nat := 0

/-- What happens to a transport: its signal tasks, its sessions and its application
act on the manager, and signals come in datagrams only. -/
inductive TransportEvent where
  | manager (e : ManagerEvent)
  | datagramReceived (data : Bytes) (addr : Address)
  | rememberPeer (networkId : NetworkId) (addr : Address)
  | setAdvertisement (advertisement : Option Bytes)
  | started
  | broadcast
  | discover
  | lanClosed
  deriving DecidableEq, Repr

namespace Transport

/-- `Transport(local_id, ..)`, or nothing where it raises. Until `start` there is no socket. -/
def new (localId : NetworkId) (applicationId : Nat) (broadcastAddr : Address) (relayOnly : Bool)
    (advertisement : Option Bytes) : Option Transport :=
  match localId with
  | .p2p value => some
      { manager := Manager.new localId relayOnly
        lan := { localId := value, applicationId := applicationId, broadcastAddr := broadcastAddr, isOpen := false,
                 advertisement := advertisement } }
  | _ => none

/-- The string that a session of the manager sends, and the peer it sends it to. -/
def signalOf (m : Manager) : Output → Option (NetworkId × Text)
  | .effect r (.sendSignal text) => (m.heap[r]?).map fun l => (l.session.remoteId, text)
  | _ => none

/-- What `_send_signal` is called with in one step of the manager, in order. -/
def signals [Aiortc] (m : Manager) (e : ManagerEvent) : List (NetworkId × Text) :=
  (m.step e).2.filterMap (signalOf (m.next e))

/-- What the application or the event loop does to the manager, `_send_signal` for each
signal, and `LanTransport.close` once an `aclose` of the manager has returned. -/
def onManager [Aiortc] [Primitives] (t : Transport) (e : ManagerEvent) : Transport × List (Option LanOutput) :=
  ({ t with manager := t.manager.next e, closing := t.closing + (t.manager.step e).2.count .aclosed },
    (signals t.manager e).flatMap fun signal => LanTransport.shown (t.lan.sendSignal signal.1 signal.2))

/-- `_on_lan_signal` and `_handle_host_discovered`, up to the application's callback. -/
def callback [Aiortc] (t : Transport) : LanOutput → Transport
  | .onSignal senderId message => { t with manager := t.manager.next (.deliver senderId message) }
  | .onHostDiscovered networkId data _ => { t with discovered := t.discovered.set networkId data }
  | .sendto _ _ => t

/-- A call on the LAN transport. -/
def callLan [Primitives] (t : Transport) (c : LanCall) : Transport × List (Option LanOutput) :=
  ({ t with lan := (t.lan.call c).1 }, LanTransport.shown (t.lan.call c).2)

/-- One event, and what the LAN transport sends and calls back on it. -/
def react [Aiortc] [Primitives] (t : Transport) : TransportEvent → Transport × List (Option LanOutput)
  | .manager (.deliver _ _) => (t, [])
  | .manager e => t.onManager e
  | .datagramReceived data addr =>
    let out := t.lan.onDatagram data addr
    ((out.2.getD []).foldl callback { t with lan := out.1 }, LanTransport.shown out.2)
  | .rememberPeer networkId addr => t.callLan (.rememberPeer networkId addr)
  | .setAdvertisement advertisement => t.callLan (.setAdvertisement advertisement)
  | .started => t.callLan .connectionMade
  | .broadcast => t.callLan .broadcastRequest
  | .discover => { t with discovered := Dict.empty }.callLan .broadcastRequest
  | .lanClosed => if t.closing = 0 then (t, []) else { t with closing := t.closing - 1 }.callLan .close

def next [Aiortc] [Primitives] (t : Transport) (e : TransportEvent) : Transport := (t.react e).1

def shows [Aiortc] [Primitives] (t : Transport) (e : TransportEvent) : List (Option LanOutput) := (t.react e).2

/-! ### What becomes of the manager, of the LAN transport and of the discovered hosts -/

/-- What an output of the LAN transport does to the manager. -/
def told : LanOutput → Option ManagerEvent
  | .onSignal senderId message => some (.deliver senderId message)
  | _ => none

/-- The host that an output of the LAN transport tells of. -/
def announced : LanOutput → Option (NetworkId × Bytes)
  | .onHostDiscovered networkId data _ => some (networkId, data)
  | _ => none

private theorem callbacks_manager [Aiortc] (t : Transport) (outputs : List LanOutput) :
    (outputs.foldl callback t).manager = Machine.run Manager.next t.manager (outputs.filterMap told) := by
  induction outputs generalizing t with
  | nil => rfl
  | cons output rest ih =>
    rw [List.foldl_cons, ih]
    cases output <;> rfl

private theorem callbacks_lan [Aiortc] (t : Transport) (outputs : List LanOutput) :
    (outputs.foldl callback t).lan = t.lan := by
  induction outputs generalizing t with
  | nil => rfl
  | cons output rest ih =>
    rw [List.foldl_cons, ih]
    cases output <;> rfl

private theorem callbacks_discovered [Aiortc] (t : Transport) (outputs : List LanOutput) :
    (outputs.foldl callback t).discovered = (outputs.filterMap announced).foldl (fun d e => d.set e.1 e.2) t.discovered := by
  induction outputs generalizing t with
  | nil => rfl
  | cons output rest ih =>
    rw [List.foldl_cons, ih]
    cases output <;> rfl

private theorem run_signals [Primitives] (lan : LanTransport) (sent : List (NetworkId × Text)) :
    Machine.run LanTransport.next lan (sent.map fun signal => .call (.sendSignal signal.1 signal.2)) = lan ∧
      Machine.collect LanTransport.next LanTransport.shows lan (sent.map fun signal => .call (.sendSignal signal.1 signal.2)) =
        sent.flatMap fun signal => LanTransport.shown (lan.sendSignal signal.1 signal.2) := by
  induction sent with
  | nil => exact ⟨rfl, rfl⟩
  | cons signal rest ih =>
    obtain ⟨hrun, hcollect⟩ := ih
    refine ⟨hrun, ?_⟩
    rw [List.map_cons, Machine.collect, List.flatMap_cons, ← hcollect]
    rfl

/-- What is sent to a peer is sent by a session for it. -/
theorem sentTo_of_signals [Aiortc] {m : Manager} {e : ManagerEvent} {remoteId : NetworkId} {text : Text}
    (h : (remoteId, text) ∈ signals m e) : (m.next e).SentTo remoteId text := by
  obtain ⟨output, houtput, hsignal⟩ := List.mem_filterMap.mp h
  cases output with
  | effect r f =>
    cases f with
    | sendSignal text' =>
      obtain ⟨l, hl, hpair⟩ := Option.map_eq_some_iff.mp hsignal
      cases hpair
      have hshown : Effect.sendSignal text ∈ (m.step e).2.filterMap (Output.of r) :=
        List.mem_filterMap.mpr ⟨_, houtput, if_pos rfl⟩
      have htrace := m.step_trace e r
      rw [Manager.trace_of_heap hl] at htrace
      exact ⟨r, l, hl, rfl, htrace ▸ List.mem_append_right _ hshown⟩
    | _ => cases hsignal
  | _ => cases hsignal

private theorem sendPacket_returns [Primitives] {lan : LanTransport} {packet : DiscoveryPacket} (addr : Address) (h : packet.HasU64Ids) :
    none ∉ LanTransport.shown (lan.sendPacket packet addr) := by
  obtain ⟨plaintext, hserialize, _⟩ := DiscoveryPacket.serialize_u64 h
  rw [LanTransport.sendPacket, hserialize]
  split
  · simp [LanTransport.shown]
  · simp [LanTransport.shown]

section Events
variable [Aiortc] [Primitives] (t : Transport)

/-- What an event does to the manager, in order. -/
def calls (t : Transport) : TransportEvent → List ManagerEvent
  | .manager (.deliver _ _) => []
  | .manager e => [e]
  | .datagramReceived data addr => ((t.lan.onDatagram data addr).2.getD []).filterMap told
  | _ => []

/-- The host that an event tells of. -/
def announces (t : Transport) : TransportEvent → Option (NetworkId × Bytes)
  | .datagramReceived data _ =>
    match t.lan.received data with
    | some (.response senderId applicationData) => some (.p2p senderId, applicationData)
    | _ => none
  | _ => none

omit [Aiortc] in
private theorem announced_eq (data : Bytes) (addr : Address) :
    ((t.lan.onDatagram data addr).2.getD []).filterMap announced = (t.announces (.datagramReceived data addr)).toList := by
  cases hreceived : t.lan.received data with
  | none => simp [LanTransport.onDatagram_dropped hreceived, announces, hreceived]
  | some packet =>
    rw [LanTransport.onDatagram_received hreceived]
    cases packet with
    | response senderId applicationData => simp [LanTransport.respond, announced, announces, hreceived]
    | request senderId =>
      rw [announces, hreceived, Option.toList_none, List.filterMap_eq_nil_iff]
      intro output houtput
      obtain ⟨_, _, rfl⟩ := LanTransport.mem_handleRequest (LanTransport.mem_shown.mpr houtput)
      rfl
    | message senderId recipientId messageData =>
      rw [announces, hreceived, Option.toList_none, List.filterMap_eq_nil_iff]
      intro output houtput
      obtain ⟨_, _, _, _, rfl⟩ := LanTransport.mem_handleMessage.mp houtput
      rfl

theorem next_manager (e : TransportEvent) : (t.next e).manager = Machine.run Manager.next t.manager (t.calls e) := by
  cases e with
  | manager e => cases e <;> rfl
  | datagramReceived data addr => exact callbacks_manager _ _
  | lanClosed =>
    rw [next, react]
    split <;> rfl
  | _ => rfl

theorem next_discovered {e : TransportEvent} (h : e ≠ .discover) :
    (t.next e).discovered = (t.announces e).toList.foldl (fun d e => d.set e.1 e.2) t.discovered := by
  cases e with
  | manager e => cases e <;> rfl
  | datagramReceived data addr =>
    rw [← t.announced_eq data addr]
    exact callbacks_discovered _ _
  | lanClosed =>
    rw [next, react]
    split <;> rfl
  | discover => exact absurd rfl h
  | _ => rfl

/-- What an event does to the LAN transport, in order. -/
def lanEvents (t : Transport) : TransportEvent → List LanEvent
  | .manager (.deliver _ _) => []
  | .manager e => (signals t.manager e).map fun signal => .call (.sendSignal signal.1 signal.2)
  | .datagramReceived data addr => [.datagramReceived data addr]
  | .rememberPeer networkId addr => [.call (.rememberPeer networkId addr)]
  | .setAdvertisement advertisement => [.call (.setAdvertisement advertisement)]
  | .started => [.call .connectionMade]
  | .broadcast | .discover => [.call .broadcastRequest]
  | .lanClosed => if t.closing = 0 then [] else [.call .close]

/-- The LAN transport runs on what the event does to it, and nothing else is sent. -/
theorem next_lan (e : TransportEvent) : (t.next e).lan = Machine.run LanTransport.next t.lan (t.lanEvents e) ∧
    t.shows e = Machine.collect LanTransport.next LanTransport.shows t.lan (t.lanEvents e) := by
  cases e with
  | manager e =>
    cases e with
    | deliver senderId message => exact ⟨rfl, rfl⟩
    | _ => exact ⟨(run_signals t.lan _).1.symm, (run_signals t.lan _).2.symm⟩
  | datagramReceived data addr => exact ⟨callbacks_lan _ _, (List.append_nil _).symm⟩
  | lanClosed =>
    rw [next, shows, react, lanEvents]
    split
    · exact ⟨rfl, rfl⟩
    · exact ⟨rfl, (List.append_nil _).symm⟩
  | _ => exact ⟨rfl, (List.append_nil _).symm⟩

theorem next_same (e : TransportEvent) : t.lan.SameArguments (t.next e).lan := by
  rw [(t.next_lan e).1]
  exact LanTransport.run_same t.lan _

/-- Only the application sets the advertisement. -/
theorem next_advertisement {e : TransportEvent} {advertisement : Bytes} (h : (t.next e).lan.advertisement = some advertisement) :
    t.lan.advertisement = some advertisement ∨ e = .setAdvertisement (some advertisement) := by
  cases e with
  | manager e => cases e <;> exact .inl h
  | datagramReceived data addr =>
    rw [(t.next_lan _).1] at h
    refine .inl (Eq.trans ?_ h)
    exact (LanTransport.onDatagram_advertisement t.lan data addr).symm
  | setAdvertisement other => exact .inr (congrArg _ h)
  | lanClosed =>
    rw [next, react] at h
    split at h <;> exact .inl h
  | _ => exact .inl h

/-- A packet that an event makes the LAN transport send. -/
inductive Sends (t : Transport) (e : TransportEvent) : DiscoveryPacket → Prop where
  | request : Sends t e (.request t.lan.localId)
  | response (advertisement : Bytes) (h : t.lan.advertisement = some advertisement) :
      Sends t e (.response t.lan.localId advertisement)
  | message (remoteId : NetworkId) (text : Text) (e' : ManagerEvent) (he : e' ∈ t.calls e)
      (h : (remoteId, text) ∈ signals t.manager e') :
      Sends t e (.message t.lan.localId remoteId.value (encodeUtf8 text))

private theorem sends_broadcast {e : TransportEvent} {datagram : Bytes} {addr : Address}
    (h : some (.sendto datagram addr) ∈ LanTransport.shown t.lan.broadcastRequest) :
    ∃ packet plaintext, t.Sends e packet ∧ packet.serialize = some plaintext ∧
      datagram = Envelope.sealPlaintext (deriveKey t.lan.applicationId) plaintext := by
  obtain ⟨plaintext, hserialize, houtput⟩ := LanTransport.mem_sendPacket h
  cases houtput
  exact ⟨_, plaintext, .request, hserialize, rfl⟩

/-- Whatever is sent is such a packet, sealed. -/
theorem sends_of_shows {e : TransportEvent} {datagram : Bytes} {addr : Address} (h : some (.sendto datagram addr) ∈ t.shows e) :
    ∃ packet plaintext, t.Sends e packet ∧ packet.serialize = some plaintext ∧
      datagram = Envelope.sealPlaintext (deriveKey t.lan.applicationId) plaintext := by
  -- the signals of one step of the manager
  have signalled : ∀ e', e' ∈ t.calls e → some (.sendto datagram addr) ∈ (t.onManager e').2 →
      ∃ packet plaintext, t.Sends e packet ∧ packet.serialize = some plaintext ∧
        datagram = Envelope.sealPlaintext (deriveKey t.lan.applicationId) plaintext := by
    intro e' he' hmem
    obtain ⟨⟨remoteId, text⟩, hsignal, hmem⟩ := List.mem_flatMap.mp hmem
    obtain ⟨plaintext, hserialize, houtput⟩ := LanTransport.mem_sendPacket hmem
    cases houtput
    exact ⟨_, plaintext, .message remoteId text e' he' hsignal, hserialize, rfl⟩
  cases e with
  | manager e =>
    cases e with
    | deliver senderId message => cases h
    | _ => exact signalled _ (List.mem_singleton_self _) h
  | datagramReceived data source =>
    cases hreceived : t.lan.received data with
    | none =>
      have hnone : t.shows (.datagramReceived data source) = [] := by
        rw [shows, react, LanTransport.onDatagram_dropped hreceived]
        rfl
      rw [hnone] at h
      cases h
    | some packet =>
      have hhandles := LanTransport.handles_received hreceived source
      obtain ⟨_, _, advertisement, plaintext, hadvertisement, hserialize, hdata⟩ := hhandles.replies datagram addr h
      exact ⟨_, plaintext, .response advertisement hadvertisement, hserialize, hdata⟩
  | broadcast => exact t.sends_broadcast h
  | discover => exact t.sends_broadcast h
  | lanClosed =>
    rw [shows, react] at h
    split at h <;> cases h
  | _ => cases h

/-! ### No send raises -/

/-- The own id and those of the peers are u64, as `NetworkID.p2p` has them. -/
structure HasU64Ids (t : Transport) : Prop where
  localId : t.lan.localId ≤ u64Max
  peers : t.manager.Knows fun id => id.value ≤ u64Max

/-- The application dials peers with u64 ids. -/
def DialsU64 : TransportEvent → Prop
  | .manager (.connect remoteId _) => remoteId.value ≤ u64Max
  | _ => True

omit [Aiortc] in
/-- A signal comes to the manager from a datagram, and only the application and the event loop do anything else to it. -/
theorem calls_cases {e : TransportEvent} {e' : ManagerEvent} (h : e' ∈ t.calls e) :
    (e = .manager e' ∧ ∀ senderId text, e' ≠ .deliver senderId text) ∨ ∃ data addr senderId text,
      e = .datagramReceived data addr ∧ e' = .deliver senderId text ∧
      some (.onSignal senderId text) ∈ t.lan.shows (.datagramReceived data addr) := by
  cases e with
  | manager e =>
    cases e with
    | deliver senderId text => cases h
    | _ =>
      obtain rfl := List.mem_singleton.mp h
      exact .inl ⟨rfl, fun _ _ => nofun⟩
  | datagramReceived data addr =>
    obtain ⟨output, houtput, htold⟩ := List.mem_filterMap.mp h
    cases output with
    | onSignal senderId text =>
      cases htold
      refine .inr ⟨data, addr, senderId, text, rfl, rfl, ?_⟩
      exact LanTransport.mem_shown.mpr houtput
    | _ => cases htold
  | _ => cases h

omit [Aiortc] in
/-- A signal that a transport calls back is the text of a Message to it, from another one. -/
theorem signal_of_shows {lan : LanTransport} {data : Bytes} {addr : Address} {senderId : NetworkId} {text : Text}
    (h : some (.onSignal senderId text) ∈ lan.shows (.datagramReceived data addr)) :
    ∃ sender messageData, senderId = .p2p sender ∧ lan.received data = some (.message sender lan.localId messageData) ∧
      decodeUtf8 messageData = some text := by
  cases hreceived : lan.received data with
  | none =>
    rw [LanTransport.shows, LanTransport.react, LanTransport.onDatagram_dropped hreceived] at h
    cases h
  | some packet =>
    obtain ⟨rfl, messageData, hpacket, _, hdecode⟩ := ((LanTransport.handles_received hreceived addr).signals senderId text).mp h
    exact ⟨_, messageData, rfl, congrArg some hpacket, hdecode⟩

omit [Aiortc] in
private theorem names_u64 {e : TransportEvent} (h : DialsU64 e) {e' : ManagerEvent} (he' : e' ∈ t.calls e) :
    Manager.Names (fun id => id.value ≤ u64Max) e' := by
  obtain ⟨rfl, hother⟩ | ⟨data, addr, senderId, text, rfl, rfl, hshown⟩ := t.calls_cases he'
  · cases e' with
    | connect remoteId k => exact h
    | deliver senderId text => exact absurd rfl (hother senderId text)
    | _ => trivial
  · obtain ⟨sender, messageData, rfl, hreceived, _⟩ := signal_of_shows hshown
    obtain ⟨_, plaintext, _, hparse⟩ := LanTransport.received_eq_some.mp hreceived
    exact DiscoveryPacket.senderId_of_parse hparse

private theorem knows_next {P : NetworkId → Prop} {e : TransportEvent} (ht : t.manager.Knows P)
    (h : ∀ e' ∈ t.calls e, Manager.Names P e') : (t.next e).manager.Knows P := by
  rw [next_manager]
  exact Machine.run_invariant (fun m e' hm he' => Manager.Knows.next e' hm he') ht (Machine.along_of_forall _ _ h)

theorem hasU64Ids_next {e : TransportEvent} (ht : t.HasU64Ids) (he : DialsU64 e) : (t.next e).HasU64Ids := by
  refine ⟨?_, t.knows_next ht.peers fun e' he' => t.names_u64 he he'⟩
  rw [(t.next_same e).localId]
  exact ht.localId

omit [Aiortc] in
private theorem datagram_returns (ht : t.HasU64Ids) (data : Bytes) (addr : Address) :
    none ∉ t.lan.shows (.datagramReceived data addr) := by
  rw [LanTransport.shows, LanTransport.react]
  cases hreceived : t.lan.received data with
  | none =>
    rw [LanTransport.onDatagram_dropped hreceived]
    exact List.not_mem_nil
  | some packet =>
    rw [LanTransport.onDatagram_received hreceived]
    cases packet with
    | request senderId =>
      show none ∉ LanTransport.shown (t.lan.handleRequest addr)
      cases hadvertisement : t.lan.advertisement with
      | none => simp [LanTransport.handleRequest, hadvertisement, LanTransport.shown]
      | some advertisement =>
        rw [LanTransport.handleRequest, hadvertisement]
        exact sendPacket_returns addr ht.localId
    | response senderId applicationData => simp [LanTransport.respond, LanTransport.shown]
    | message senderId recipientId messageData => simp [LanTransport.respond, LanTransport.shown]

theorem shows_returns {e : TransportEvent} (ht : t.HasU64Ids) (he : DialsU64 e) : none ∉ t.shows e := by
  have broadcast : none ∉ LanTransport.shown t.lan.broadcastRequest := sendPacket_returns _ ht.localId
  -- the peers of the signals are those of sessions there are after the step
  have signalled : ∀ e', e' ∈ t.calls e → none ∉ (t.onManager e').2 := by
    intro e' he' hmem
    obtain ⟨⟨remoteId, text⟩, hsignal, hmem⟩ := List.mem_flatMap.mp hmem
    obtain ⟨r, l, hl, hremote, _⟩ := sentTo_of_signals hsignal
    have hpeer := (ht.peers.next e' (t.names_u64 he he')).remotes r l hl
    rw [hremote] at hpeer
    have hids : (DiscoveryPacket.message t.lan.localId remoteId.value (encodeUtf8 text)).HasU64Ids := ⟨ht.localId, hpeer⟩
    exact sendPacket_returns _ hids hmem
  cases e with
  | manager e =>
    cases e with
    | deliver senderId message => exact List.not_mem_nil
    | _ => exact signalled _ (List.mem_singleton_self _)
  | datagramReceived data addr => exact t.datagram_returns ht data addr
  | broadcast => exact broadcast
  | discover => exact broadcast
  | lanClosed =>
    rw [shows, react]
    split <;> exact List.not_mem_nil
  | _ => exact List.not_mem_nil

/-! ### Runs -/

omit [Aiortc] in
theorem announces_same {u : Transport} (h : t.lan.SameArguments u.lan) : u.announces = t.announces := by
  funext e
  cases e with
  | datagramReceived data addr => rw [announces, announces, h.received]
  | _ => rfl

theorem run_same (events : List TransportEvent) : t.lan.SameArguments (Machine.run next t events).lan :=
  Machine.run_invariant_always (fun (u : Transport) e (h : t.lan.SameArguments u.lan) => h.trans (u.next_same e)) ⟨rfl, rfl, rfl⟩ events

theorem discovered_run {events : List TransportEvent} (h : ∀ e ∈ events, e ≠ .discover) :
    (Machine.run next t events).discovered = (events.filterMap t.announces).foldl (fun d e => d.set e.1 e.2) t.discovered := by
  induction events generalizing t with
  | nil => rfl
  | cons e rest ih =>
    have hrest := ih (t.next e) fun e' he' => h e' (List.mem_cons_of_mem _ he')
    rw [Machine.run_cons, hrest, t.announces_same (t.next_same e), t.next_discovered (h e (List.mem_cons_self ..)),
      ← List.foldl_append, List.filterMap_cons]
    cases t.announces e <;> rfl

/-- What is discovered is what was announced last of each host since `discover` was called. -/
theorem discovered_since (first : List TransportEvent) {rest : List TransportEvent} (h : ∀ e ∈ rest, e ≠ .discover)
    (id : NetworkId) : (Machine.run next t (first ++ .discover :: rest)).discovered.get? id =
      ((rest.reverse.filterMap t.announces).find? fun host => host.1 = id).map Prod.snd := by
  have hsame := t.run_same first
  rw [Machine.run_append, Machine.run_cons, discovered_run _ h, Dict.get?_assigned,
    announces_same _ (hsame.trans ((Machine.run next t first).next_same .discover)), List.filterMap_reverse]
  exact Option.or_none

end Events

/-- Whatever arrives and whatever the application does, a transport is a session manager and a
LAN transport side by side: the manager is handed the signals that the other calls back,
the other sends the signals of the manager's sessions and answers datagrams, and nothing
else happens to either; and as long as the ids dialed are u64 no send raises. -/
theorem composes_planes [Aiortc] [Primitives] (localId : NetworkId) (applicationId : Nat) (broadcastAddr : Address)
    (relayOnly : Bool) (advertisement : Option Bytes) (t : Transport)
    (hnew : new localId applicationId broadcastAddr relayOnly advertisement = some t) (events : List TransportEvent) :
    (Machine.run next t events).manager =
      Machine.run Manager.next (Manager.new localId relayOnly) (Machine.collect next calls t events) ∧
    (Machine.run next t events).lan = Machine.run LanTransport.next t.lan (Machine.collect next lanEvents t events) ∧
    Machine.collect next shows t events =
      Machine.collect LanTransport.next LanTransport.shows t.lan (Machine.collect next lanEvents t events) ∧
    (localId.value ≤ u64Max → (∀ e ∈ events, DialsU64 e) → none ∉ Machine.collect next shows t events) := by
  cases localId with
  | p2p value =>
    have hmade := Option.some.inj hnew
    have hmanager : ∀ (u : Transport) m e, u.manager = m → True →
        (u.next e).manager = Machine.run Manager.next m (u.calls e) ∧
          Machine.Along (fun _ _ => True) Manager.next m (u.calls e) := by
      rintro u m e rfl _
      exact ⟨u.next_manager e, Machine.along_of_forall _ _ fun _ _ => trivial⟩
    have hlan : ∀ (u : Transport) lan e, u.lan = lan →
        (u.next e).lan = Machine.run LanTransport.next lan (u.lanEvents e) ∧
          u.shows e = Machine.collect LanTransport.next LanTransport.shows lan (u.lanEvents e) := by
      rintro u lan e rfl
      exact u.next_lan e
    have hevery : Machine.Along (fun _ _ => True) next t events := Machine.along_of_forall _ _ fun _ _ => trivial
    obtain ⟨hcalled, _⟩ := Machine.along_simulated hmanager rfl hevery
    obtain ⟨hsame, hshown⟩ := Machine.run_simulated hlan rfl events
    refine ⟨?_, hsame, hshown, fun hid hdials => ?_⟩
    · rw [hcalled, ← hmade]
    · have hstart : t.HasU64Ids := by
        rw [← hmade]
        exact ⟨hid, Manager.knows_new _ _ _⟩
      have hkept : ∀ (u : Transport) sent e, u.HasU64Ids ∧ none ∉ sent → DialsU64 e →
          (u.next e).HasU64Ids ∧ none ∉ sent ++ u.shows e := by
        intro u sent e ⟨hids, hsent⟩ he
        exact ⟨u.hasU64Ids_next hids he, fun hmem => (List.mem_append.mp hmem).elim hsent (u.shows_returns hids he)⟩
      exact (Machine.collect_invariant hkept ⟨hstart, List.not_mem_nil⟩ (Machine.along_of_forall next t hdials)).2
  | _ => cases hnew

/-- A transport that broadcasts and dials does not raise. -/
theorem composes_planes_dialing :
    letI := recorded
    letI : Aiortc := ⟨fun _ => true⟩
    let addr : Address := ("255.255.255.255".toList, 7551)
    let goOn : TransportEvent := .manager (.session 0 (.resume 0 (.ok [])))
    ∃ t, new (.p2p 1) 0xDEADBEEF addr false none = some t ∧
      none ∉ Machine.collect next shows t [.started, .broadcast, .manager (.connect (.p2p 2) 7), goOn, goOn] := by
  intro addr goOn
  refine ⟨_, rfl, ?_⟩
  refine (@composes_planes ⟨fun _ => true⟩ recorded (.p2p 1) 0xDEADBEEF addr false none _ rfl _).2.2.2 (by decide) ?_
  intro e he
  simp only [List.mem_cons, List.not_mem_nil, or_false] at he
  obtain rfl | rfl | rfl | rfl | rfl := he
  · trivial
  · trivial
  · exact (by decide : (2 : Nat) ≤ u64Max)
  · trivial
  · trivial

end Transport
end NetherNet
