import Mathlib.Logic.Equiv.Basic
import NetherNet.Discovery.Lan
import NetherNet.Library.Machine

/-! Runs of a LAN transport: which datagrams it attends to, what it makes of them, and
where the signals it sends go. -/
namespace NetherNet
open Library

/-- What the application does with a transport. What `_get_advertisement` returns is set by a call of its own. -/
inductive LanCall where
  | sendSignal (remoteId : NetworkId) (message : Text)
  | rememberPeer (networkId : NetworkId) (addr : Address)
  | broadcastRequest
  | setAdvertisement (advertisement : Option Bytes)
  | connectionMade
  | close
  deriving DecidableEq, Repr

/-- What happens to a transport. What a callback does comes after the datagram it was made for. -/
inductive LanEvent where
  | datagramReceived (data : Bytes) (addr : Address)
  | call (c : LanCall)
  deriving DecidableEq, Repr

namespace LanTransport

def rememberPeer (t : LanTransport) (networkId : NetworkId) (addr : Address) : LanTransport :=
  { t with peers := t.peers.set networkId.value addr }

/-- What becomes of the peer table: a zero sender is not a new peer. -/
def learn (t : LanTransport) (senderId : Nat) (addr : Address) : LanTransport :=
  if senderId ≠ 0 then { t with peers := t.peers.set senderId addr } else t

/-- A transport made with the same arguments: what no event changes. -/
structure SameArguments (t u : LanTransport) : Prop where
  localId : u.localId = t.localId
  applicationId : u.applicationId = t.applicationId
  broadcastAddr : u.broadcastAddr = t.broadcastAddr

theorem SameArguments.trans {t u v : LanTransport} (h : t.SameArguments u) (h' : u.SameArguments v) : t.SameArguments v :=
  ⟨h'.localId.trans h.localId, h'.applicationId.trans h.applicationId, h'.broadcastAddr.trans h.broadcastAddr⟩

theorem learn_same (t : LanTransport) (senderId : Nat) (addr : Address) : t.SameArguments (t.learn senderId addr) := by
  unfold learn
  split <;> exact ⟨rfl, rfl, rfl⟩

private theorem get?_learned (peers : Dict Nat Address) (peer : NetworkId × Address) (value : Nat) :
    (peers.set peer.1.value peer.2).get? value =
      (([peer].find? fun peer => peer.1.value = value).map Prod.snd).or (peers.get? value) := by
  by_cases hvalue : peer.1.value = value
  · rw [hvalue, Dict.get?_set_self, List.find?_cons_of_pos (by simpa using hvalue)]
    rfl
  · rw [Dict.get?_set_ne _ _ fun h => hvalue h.symm, List.find?_cons_of_neg (by simpa using hvalue)]
    rfl

theorem mem_handleMessage {t : LanTransport} {senderId recipientId : Nat} {messageData : Bytes} {output : LanOutput} :
    output ∈ t.handleMessage senderId recipientId messageData ↔ recipientId = t.localId ∧ messageData ≠ [] ∧
      ∃ text, decodeUtf8 messageData = some text ∧ output = .onSignal (.p2p senderId) text := by
  unfold handleMessage
  split
  · next hother => simp [hother]
  · next hown =>
    rw [ne_eq, not_not] at hown
    split
    · next hempty => simp [hempty]
    · next hdata =>
      cases hdecode : decodeUtf8 messageData with
      | none => simp
      | some text => simp [hown, hdata]

theorem length_handleMessage (t : LanTransport) (senderId recipientId : Nat) (messageData : Bytes) :
    (t.handleMessage senderId recipientId messageData).length ≤ 1 := by
  unfold handleMessage
  split
  · exact Nat.zero_le 1
  · split
    · exact Nat.zero_le 1
    · split
      · exact Nat.zero_le 1
      · exact Nat.le_refl 1

variable [Primitives]

def broadcastRequest (t : LanTransport) : Option (List LanOutput) := t.sendPacket (.request t.localId) t.broadcastAddr

def call (t : LanTransport) : LanCall → LanTransport × Option (List LanOutput)
  | .sendSignal remoteId message => (t, t.sendSignal remoteId message)
  | .rememberPeer networkId addr => (t.rememberPeer networkId addr, some [])
  | .broadcastRequest => (t, t.broadcastRequest)
  | .setAdvertisement advertisement => ({ t with advertisement := advertisement }, some [])
  | .connectionMade => ({ t with isOpen := true }, some [])
  | .close => ({ t with isOpen := false }, some [])

def react (t : LanTransport) : LanEvent → LanTransport × Option (List LanOutput)
  | .datagramReceived data addr => t.onDatagram data addr
  | .call c => t.call c

def next (t : LanTransport) (e : LanEvent) : LanTransport := (t.react e).1

/-- What a transport sends and calls back, in order. Nothing in place of an output is an exception. -/
def shown : Option (List LanOutput) → List (Option LanOutput)
  | none => [none]
  | some outputs => outputs.map some

def shows (t : LanTransport) (e : LanEvent) : List (Option LanOutput) := shown (t.react e).2

/-! ### The datagrams a transport attends to -/

/-- The packet of a datagram that opens, parses and is from another transport. -/
def received (t : LanTransport) (data : Bytes) : Option DiscoveryPacket :=
  match Envelope.openEnvelope (deriveKey t.applicationId) data with
  | none => none
  | some plaintext =>
    match DiscoveryPacket.parse plaintext with
    | some (some packet) => if packet.senderId = t.localId then none else some packet
    | _ => none

/-- A datagram that fails to open, fails to parse, or carries the own id as its sender. -/
def dropped (t : LanTransport) : LanEvent → Bool
  | .datagramReceived data _ => (t.received data).isNone
  | .call _ => false

/-- What a received packet is answered with, or calls back. -/
def respond (t : LanTransport) (packet : DiscoveryPacket) (addr : Address) : Option (List LanOutput) :=
  match packet with
  | .request _ => t.handleRequest addr
  | .response senderId applicationData => some [.onHostDiscovered (.p2p senderId) applicationData addr]
  | .message senderId recipientId messageData => some (t.handleMessage senderId recipientId messageData)

/-- The peer table has no part in what a packet is answered with. -/
theorem respond_learn (t : LanTransport) (packet : DiscoveryPacket) (senderId : Nat) (addr source : Address) :
    (t.learn senderId source).respond packet addr = t.respond packet addr := by
  unfold learn
  split <;> rfl

theorem onDatagram_dropped {t : LanTransport} {data : Bytes} (h : t.received data = none) (addr : Address) :
    t.onDatagram data addr = (t, some []) := by
  rw [received] at h
  rw [onDatagram]
  cases hopen : Envelope.openEnvelope (deriveKey t.applicationId) data with
  | none => rfl
  | some plaintext =>
    obtain ⟨packet, hpacket⟩ := DiscoveryPacket.parse_total plaintext
    simp only [hopen, hpacket] at h
    simp only [hpacket]
    cases packet with
    | none => rfl
    | some packet =>
      by_cases hown : packet.senderId = t.localId
      · exact if_pos hown
      · have hsome : some packet = none := (if_neg hown).symm.trans h
        cases hsome

/-- A received packet as it stands in the datagram. -/
theorem received_eq_some {t : LanTransport} {data : Bytes} {packet : DiscoveryPacket} :
    t.received data = some packet ↔ packet.senderId ≠ t.localId ∧ ∃ plaintext,
      Envelope.openEnvelope (deriveKey t.applicationId) data = some plaintext ∧
      DiscoveryPacket.parse plaintext = some (some packet) := by
  unfold received
  constructor
  · intro h
    split at h
    · cases h
    · next hopen =>
      split at h
      · next hparse =>
        split at h
        · cases h
        · next hother =>
          cases h
          exact ⟨hother, _, hopen, hparse⟩
      · cases h
  · rintro ⟨hother, plaintext, hopen, hparse⟩
    simp only [hopen, hparse]
    exact if_neg hother

theorem onDatagram_received {t : LanTransport} {data : Bytes} {packet : DiscoveryPacket}
    (h : t.received data = some packet) (addr : Address) :
    t.onDatagram data addr = (t.learn packet.senderId addr, t.respond packet addr) := by
  obtain ⟨hother, plaintext, hopen, hparse⟩ := received_eq_some.mp h
  rw [← respond_learn t packet packet.senderId addr addr]
  unfold onDatagram
  simp only [hopen, hparse]
  rw [if_neg hother]
  cases packet <;> rfl

theorem onDatagram_advertisement (t : LanTransport) (data : Bytes) (addr : Address) :
    (t.onDatagram data addr).1.advertisement = t.advertisement := by
  cases hreceived : t.received data with
  | none => rw [onDatagram_dropped hreceived]
  | some packet =>
    rw [onDatagram_received hreceived, learn]
    split <;> rfl

theorem next_same (t : LanTransport) (e : LanEvent) : t.SameArguments (t.next e) := by
  cases e with
  | call c => cases c <;> exact ⟨rfl, rfl, rfl⟩
  | datagramReceived data addr =>
    rw [next, react]
    cases hreceived : t.received data with
    | none =>
      rw [onDatagram_dropped hreceived]
      exact ⟨rfl, rfl, rfl⟩
    | some packet =>
      rw [onDatagram_received hreceived]
      exact learn_same ..

theorem run_same (t : LanTransport) (events : List LanEvent) : t.SameArguments (Machine.run next t events) :=
  Machine.run_invariant_always (fun u e (h : t.SameArguments u) => h.trans (next_same u e)) ⟨rfl, rfl, rfl⟩ events

theorem SameArguments.received {t u : LanTransport} (h : t.SameArguments u) (data : Bytes) : u.received data = t.received data := by
  rw [LanTransport.received, LanTransport.received, h.localId, h.applicationId]

/-- A run may leave out the datagrams that are dropped. -/
theorem run_attended (t : LanTransport) (events : List LanEvent) :
    Machine.run next t (events.filter (!t.dropped ·)) = Machine.run next t events ∧
      Machine.collect next shows t (events.filter (!t.dropped ·)) = Machine.collect next shows t events := by
  refine Machine.run_filter (fun u e (h : t.SameArguments u) => h.trans (next_same u e)) (fun u e h hidle => ?_)
    ⟨rfl, rfl, rfl⟩ events
  cases e with
  | call c => cases hidle
  | datagramReceived data addr =>
    have hnone : u.received data = none := by
      rw [h.received]
      exact Option.isNone_iff_eq_none.mp hidle
    rw [next, shows, react, onDatagram_dropped hnone]
    exact ⟨rfl, rfl⟩

/-! ### What is made of a packet -/

/-- What a transport puts out on a packet from an address: a signal exactly for the Messages
to it with text in them, and a packet only as the Response to a Request. -/
structure Handles (t : LanTransport) (packet : DiscoveryPacket) (addr : Address) (outputs : List (Option LanOutput)) : Prop where
  signals : ∀ senderId text, some (.onSignal senderId text) ∈ outputs ↔
    senderId = .p2p packet.senderId ∧ ∃ messageData, packet = .message packet.senderId t.localId messageData ∧
      messageData ≠ [] ∧ decodeUtf8 messageData = some text
  replies : ∀ datagram target, some (.sendto datagram target) ∈ outputs →
    target = addr ∧ packet = .request packet.senderId ∧ ∃ advertisement plaintext, t.advertisement = some advertisement ∧
      (DiscoveryPacket.response t.localId advertisement).serialize = some plaintext ∧
      datagram = Envelope.sealPlaintext (deriveKey t.applicationId) plaintext
  atMostOne : outputs.length ≤ 1

/-- What is sent is one sealed packet, and nothing is called back. -/
theorem mem_sendPacket {t : LanTransport} {packet : DiscoveryPacket} {addr : Address} {output : LanOutput}
    (h : some output ∈ shown (t.sendPacket packet addr)) :
    ∃ plaintext, packet.serialize = some plaintext ∧
      output = .sendto (Envelope.sealPlaintext (deriveKey t.applicationId) plaintext) addr := by
  unfold sendPacket at h
  split at h
  · cases hserialize : packet.serialize with
    | none => simp [hserialize, shown] at h
    | some plaintext =>
      refine ⟨plaintext, rfl, ?_⟩
      simpa [hserialize, shown] using h
  · simp [shown] at h

omit [Primitives] in
theorem mem_shown {outputs : Option (List LanOutput)} {output : LanOutput} :
    some output ∈ shown outputs ↔ output ∈ outputs.getD [] := by
  cases outputs <;> simp [shown]

/-- A Request is answered with a datagram or not at all. -/
theorem mem_handleRequest {t : LanTransport} {addr : Address} {output : LanOutput} (h : some output ∈ shown (t.handleRequest addr)) :
    ∃ datagram target, output = .sendto datagram target := by
  cases hadvertisement : t.advertisement with
  | none => simp [handleRequest, hadvertisement, shown] at h
  | some advertisement =>
    rw [handleRequest, hadvertisement] at h
    obtain ⟨plaintext, _, rfl⟩ := mem_sendPacket h
    exact ⟨_, _, rfl⟩

theorem length_sendPacket (t : LanTransport) (packet : DiscoveryPacket) (addr : Address) :
    (shown (t.sendPacket packet addr)).length ≤ 1 := by
  unfold sendPacket
  split
  · cases packet.serialize <;> simp [shown]
  · exact Nat.zero_le 1

private theorem handles_request (t : LanTransport) (senderId : Nat) (addr : Address) :
    t.Handles (.request senderId) addr (shown (t.handleRequest addr)) := by
  cases hadvertisement : t.advertisement with
  | none =>
    have hnone : shown (t.handleRequest addr) = [] := by simp [handleRequest, hadvertisement, shown]
    rw [hnone]
    exact ⟨fun _ _ => by simp, fun _ _ h => by simp at h, Nat.zero_le 1⟩
  | some advertisement =>
    have hsend : t.handleRequest addr = t.sendPacket (.response t.localId advertisement) addr := by
      simp [handleRequest, hadvertisement]
    rw [hsend]
    refine ⟨fun id text => ⟨fun h => ?_, fun h => ?_⟩, fun datagram target h => ?_, length_sendPacket ..⟩
    · obtain ⟨_, _, houtput⟩ := mem_sendPacket h
      cases houtput
    · obtain ⟨_, _, hpacket, _⟩ := h
      cases hpacket
    · obtain ⟨plaintext, hserialize, houtput⟩ := mem_sendPacket h
      cases houtput
      exact ⟨rfl, rfl, advertisement, plaintext, hadvertisement, hserialize, rfl⟩

private theorem handles_message (t : LanTransport) (senderId recipientId : Nat) (messageData : Bytes) (addr : Address) :
    t.Handles (.message senderId recipientId messageData) addr
      (shown (some (t.handleMessage senderId recipientId messageData))) := by
  have hmem : ∀ output, some output ∈ shown (some (t.handleMessage senderId recipientId messageData)) ↔
      output ∈ t.handleMessage senderId recipientId messageData := fun output => by simp [shown]
  refine ⟨fun id text => ?_, fun datagram target h => ?_, ?_⟩
  · rw [hmem, mem_handleMessage]
    constructor
    · rintro ⟨rfl, hdata, text', hdecode, houtput⟩
      cases houtput
      exact ⟨rfl, messageData, rfl, hdata, hdecode⟩
    · rintro ⟨rfl, messageData', hpacket, hdata, hdecode⟩
      cases hpacket
      exact ⟨rfl, hdata, text, hdecode, rfl⟩
  · rw [hmem, mem_handleMessage] at h
    obtain ⟨_, _, _, _, houtput⟩ := h
    cases houtput
  · rw [shown, List.length_map]
    exact length_handleMessage ..

theorem handles_received {t : LanTransport} {data : Bytes} {packet : DiscoveryPacket} (h : t.received data = some packet)
    (addr : Address) : t.Handles packet addr (t.shows (.datagramReceived data addr)) := by
  rw [shows, react, onDatagram_received h]
  cases packet with
  | request senderId => exact handles_request t senderId addr
  | response senderId applicationData => exact ⟨fun _ _ => by simp [respond, shown], fun _ _ h => by simp [respond, shown] at h, Nat.le_refl 1⟩
  | message senderId recipientId messageData => exact handles_message t senderId recipientId messageData addr

/-! ### The peer table -/

/-- The peer an event tells the address of. -/
def learns (t : LanTransport) : LanEvent → Option (NetworkId × Address)
  | .datagramReceived data addr =>
    match t.received data with
    | some packet => if packet.senderId = 0 then none else some (.p2p packet.senderId, addr)
    | none => none
  | .call (.rememberPeer networkId addr) => some (networkId, addr)
  | .call _ => none

/-- The address told last of a peer with a value. -/
def lastAddress (t : LanTransport) (events : List LanEvent) (value : Nat) : Option Address :=
  ((events.reverse.filterMap t.learns).find? fun peer => peer.1.value = value).map Prod.snd
theorem SameArguments.learns {t u : LanTransport} (h : t.SameArguments u) : u.learns = t.learns := by
  funext e
  cases e with
  | call c => cases c <;> rfl
  | datagramReceived data addr => rw [LanTransport.learns, LanTransport.learns, h.received]

/-- One event changes the table where it tells of a peer, and there only. -/
private theorem peers_next (t : LanTransport) (e : LanEvent) (value : Nat) :
    (t.next e).peers.get? value = (t.lastAddress [e] value).or (t.peers.get? value) := by
  cases e with
  | call c =>
    cases c with
    | rememberPeer networkId addr => exact get?_learned t.peers (networkId, addr) value
    | _ => rfl
  | datagramReceived data addr =>
    rw [next, react]
    cases hreceived : t.received data with
    | none =>
      rw [onDatagram_dropped hreceived]
      simp [lastAddress, learns, hreceived]
    | some packet =>
      rw [onDatagram_received hreceived]
      by_cases hzero : packet.senderId = 0
      · simp [learn, lastAddress, learns, hreceived, hzero]
      · have hlearns : [LanEvent.datagramReceived data addr].reverse.filterMap t.learns =
            [(.p2p packet.senderId, addr)] := by
          simp [learns, hreceived, hzero]
        rw [lastAddress, hlearns, learn, if_pos hzero]
        exact get?_learned t.peers (.p2p packet.senderId, addr) value

private theorem lastAddress_cons (t : LanTransport) (e : LanEvent) (rest : List LanEvent) (value : Nat) :
    t.lastAddress (e :: rest) value = (t.lastAddress rest value).or (t.lastAddress [e] value) := by
  simp only [lastAddress, List.reverse_cons, List.filterMap_append, List.find?_append, List.reverse_nil, List.nil_append]
  exact Option.map_or

/-- After a run the table has what was told last of each value, else what it had. -/
theorem peers_run (t : LanTransport) (events : List LanEvent) (value : Nat) :
    (Machine.run next t events).peers.get? value = (t.lastAddress events value).or (t.peers.get? value) := by
  induction events generalizing t with
  | nil => rfl
  | cons e rest ih =>
    have hsame : (t.next e).lastAddress rest value = t.lastAddress rest value := by
      rw [lastAddress, lastAddress, (next_same t e).learns]
    rw [Machine.run_cons, ih, hsame, peers_next, lastAddress_cons t e rest, Option.or_assoc]

/-- No datagram is learned from the own id or from id 0. -/
theorem peers_onDatagram (t : LanTransport) (data : Bytes) (addr : Address) {value : Nat} (h : value = 0 ∨ value = t.localId) :
    (t.next (.datagramReceived data addr)).peers.get? value = t.peers.get? value := by
  rw [next, react]
  cases hreceived : t.received data with
  | none => rw [onDatagram_dropped hreceived]
  | some packet =>
    have hother := (received_eq_some.mp hreceived).1
    rw [onDatagram_received hreceived, learn]
    split
    · next hzero =>
      refine Dict.get?_set_ne _ _ ?_
      rintro rfl
      exact h.elim hzero hother
    · rfl

/-- Where a signal goes after a run. -/
theorem sendSignal_run (t : LanTransport) (events : List LanEvent) (remoteId : NetworkId) (message : Text) :
    (Machine.run next t events).sendSignal remoteId message = (Machine.run next t events).sendPacket
      (.message t.localId remoteId.value (encodeUtf8 message))
      (((t.lastAddress events remoteId.value).or (t.peers.get? remoteId.value)).getD t.broadcastAddr) := by
  have hsame := run_same t events
  rw [sendSignal, peers_run, hsame.localId, hsame.broadcastAddr]

end LanTransport
end NetherNet
