import NetherNet.Api.Transport
import NetherNet.Peers.Agreement

/-! Transports and the datagrams between them, each of which may be lost, or arrive late,
repeatedly, at any of them and from any address. -/
namespace NetherNet
open Library

structure LanSegment (ι : Type) where
  node : ι → Transport
  /-- Every datagram that was sent, and who sent it. -/
  wire : List (ι × Bytes) := []

namespace LanSegment
variable {ι : Type}

def localId (s : LanSegment ι) (i : ι) : Nat := (s.node i).lan.localId

def datagram? : Option LanOutput → Option Bytes
  | some (.sendto data _) => some data
  | _ => none

/-- No transport has done anything yet. -/
structure Fresh (s : LanSegment ι) : Prop where
  made : ∀ i, ∃ localId applicationId broadcastAddr relayOnly advertisement,
    Transport.new localId applicationId broadcastAddr relayOnly advertisement = some (s.node i)
  silent : s.wire = []

section Runs
variable [Aiortc] [Primitives]

def key (s : LanSegment ι) (i : ι) : Bytes := deriveKey (s.node i).lan.applicationId

/-- What a transport sends on an event. -/
def sends (s : LanSegment ι) (e : ι × TransportEvent) : List (ι × Bytes) :=
  (((s.node e.1).shows e.2).filterMap datagram?).map fun data => (e.1, data)

def next [DecidableEq ι] (s : LanSegment ι) (e : ι × TransportEvent) : LanSegment ι :=
  { node := Function.update s.node e.1 ((s.node e.1).next e.2), wire := s.wire ++ s.sends e }

/-- What arrives at a transport was sent by one with the same key, or does not open. This is
what the MAC is for. -/
def Authentic (s : LanSegment ι) : ι × TransportEvent → Prop
  | (i, .datagramReceived data _) =>
    (∃ j, (j, data) ∈ s.wire ∧ s.key j = s.key i) ∨ Envelope.openEnvelope (s.key i) data = none
  | _ => True

/-! ### Where the datagrams come from -/

/-- A packet of a transport: its signals are those of sessions, and it advertises what it was told to. -/
def Vouched (advertised : Bytes → Prop) (signalled : Text → Prop) (t : Transport) : DiscoveryPacket → Prop
  | .request senderId => senderId = t.lan.localId
  | .response senderId applicationData => senderId = t.lan.localId ∧ advertised applicationData
  | .message senderId recipientId messageData => senderId = t.lan.localId ∧ ∃ remoteId text,
      t.manager.SentTo remoteId text ∧ signalled text ∧ remoteId.value = recipientId ∧ messageData = encodeUtf8 text

/-- Every datagram is a sealed packet of its sender, and every host that was discovered
is another transport, with what that one advertised. -/
structure Wired (advertised : ι → Bytes → Prop) (signalled : Text → Prop) (s : LanSegment ι) : Prop where
  wire : ∀ j data, (j, data) ∈ s.wire → ∃ packet plaintext, Vouched (advertised j) signalled (s.node j) packet ∧
    packet.serialize = some plaintext ∧ data = Envelope.sealPlaintext (s.key j) plaintext
  advertising : ∀ i advertisement, (s.node i).lan.advertisement = some advertisement → advertised i advertisement
  discovered : ∀ i id data, (s.node i).discovered.get? id = some data → ∃ j advertisement,
    id = .p2p (s.localId j) ∧ s.localId j ≠ s.localId i ∧ advertised j advertisement ∧
    data = advertisement.take DiscoveryPacket.responsePayloadMax

/-- The event sets an advertisement, and lets sessions send signals, with the properties only. -/
def Within (advertised : ι → Bytes → Prop) (signalled : Text → Prop) (s : LanSegment ι) (e : ι × TransportEvent) : Prop :=
  (∀ advertisement, e.2 = .setAdvertisement (some advertisement) → advertised e.1 advertisement) ∧
  ∀ e' ∈ (s.node e.1).calls e.2, ∀ signal ∈ Transport.signals (s.node e.1).manager e', signalled signal.2

omit [Aiortc] in
theorem wired_fresh {advertised : ι → Bytes → Prop} {signalled : Text → Prop} {s : LanSegment ι} (hs : s.Fresh)
    (h : ∀ i advertisement, (s.node i).lan.advertisement = some advertisement → advertised i advertisement) :
    s.Wired advertised signalled := by
  refine ⟨?_, h, ?_⟩
  · intro j data hmem
    rw [hs.silent] at hmem
    cases hmem
  · intro i id data hget
    obtain ⟨localId, applicationId, broadcastAddr, relayOnly, advertisement, hmade⟩ := hs.made i
    cases localId with
    | p2p value =>
      rw [← Option.some.inj hmade] at hget
      cases hget
    | _ => cases hmade

section Steps
variable [DecidableEq ι]

theorem next_node (s : LanSegment ι) (i j : ι) (e : TransportEvent) :
    (s.next (i, e)).node j = if j = i then (s.node j).next e else s.node j := by
  by_cases h : j = i
  · subst h
    simp [next]
  · simp [next, h]

theorem next_same (s : LanSegment ι) (e : ι × TransportEvent) (j : ι) : (s.node j).lan.SameArguments ((s.next e).node j).lan := by
  obtain ⟨i, e⟩ := e
  rw [next_node]
  split
  · exact (s.node j).next_same e
  · exact ⟨rfl, rfl, rfl⟩

theorem next_localId (s : LanSegment ι) (e : ι × TransportEvent) (j : ι) : (s.next e).localId j = s.localId j := (s.next_same e j).localId

theorem next_key (s : LanSegment ι) (e : ι × TransportEvent) (j : ι) : (s.next e).key j = s.key j := by
  rw [key, key, (s.next_same e j).applicationId]

/-- A transport stands by its packets. -/
theorem Vouched.next {advertised : Bytes → Prop} {signalled : Text → Prop} {t : Transport} {packet : DiscoveryPacket}
    (e : TransportEvent) (h : Vouched advertised signalled t packet) : Vouched advertised signalled (t.next e) packet := by
  have hid := (t.next_same e).localId
  cases packet with
  | request senderId => exact h.trans hid.symm
  | response senderId applicationData => exact ⟨h.1.trans hid.symm, h.2⟩
  | message senderId recipientId messageData =>
    obtain ⟨hsender, remoteId, text, hsent, hrest⟩ := h
    refine ⟨hsender.trans hid.symm, remoteId, text, ?_, hrest⟩
    rw [t.next_manager e]
    exact hsent.run _

/-- A transport vouches for what it sends. -/
private theorem vouched_of_sends {advertised : Bytes → Prop} {signalled : Text → Prop} {t : Transport} {e : TransportEvent}
    {packet : DiscoveryPacket} (h : t.Sends e packet)
    (hadvertised : ∀ advertisement, t.lan.advertisement = some advertisement → advertised advertisement)
    (hsignalled : ∀ e' ∈ t.calls e, ∀ signal ∈ Transport.signals t.manager e', signalled signal.2) :
    Vouched advertised signalled (t.next e) packet := by
  have hid := (t.next_same e).localId
  cases h with
  | request => exact hid.symm
  | response advertisement hadvertisement => exact ⟨hid.symm, hadvertised _ hadvertisement⟩
  | message remoteId text e' he' hsignal =>
    refine ⟨hid.symm, remoteId, text, ?_, hsignalled e' he' _ hsignal, rfl, rfl⟩
    obtain ⟨rfl, hother⟩ | ⟨_, _, senderId, text', _, rfl, _⟩ := t.calls_cases he'
    · rw [t.next_manager]
      cases e' with
      | deliver senderId text' => exact absurd rfl (hother senderId text')
      | _ => exact Transport.sentTo_of_signals hsignal
    · cases hsignal

variable [LawfulPrimitives] {advertised : ι → Bytes → Prop} {signalled : Text → Prop}

omit [Aiortc] [DecidableEq ι] in
/-- Behind a packet that is received stands the one that another transport sent. -/
theorem received_wired {s : LanSegment ι} (hs : s.Wired advertised signalled) {i : ι} {data : Bytes} {addr : Address}
    (ha : s.Authentic (i, .datagramReceived data addr)) {packet : DiscoveryPacket}
    (hreceived : (s.node i).lan.received data = some packet) :
    ∃ j sent, Vouched (advertised j) signalled (s.node j) sent ∧ packet = sent.capped ∧ s.localId j = packet.senderId ∧
      s.localId j ≠ s.localId i := by
  obtain ⟨hother, plaintext, hopen, hparse⟩ := LanTransport.received_eq_some.mp hreceived
  obtain ⟨j, hmem, hkey⟩ | hclosed := ha
  · obtain ⟨sent, plaintext', hvouched, hserialize, rfl⟩ := hs.wire j data hmem
    have hplaintext : plaintext' = plaintext := by
      rw [hkey, key, Envelope.openEnvelope_sealPlaintext] at hopen
      exact Option.some.inj hopen
    subst hplaintext
    rw [DiscoveryPacket.parse_serialize hserialize, Option.some.injEq, Option.some.injEq] at hparse
    have hsender : s.localId j = packet.senderId := by
      subst hparse
      cases sent with
      | request senderId => exact hvouched.symm
      | response senderId applicationData => exact hvouched.1.symm
      | message senderId recipientId messageData => exact hvouched.1.symm
    refine ⟨j, sent, hvouched, hparse.symm, hsender, ?_⟩
    rw [hsender]
    exact hother
  · rw [key, hopen] at hclosed
    cases hclosed

omit [Aiortc] [DecidableEq ι] in
/-- A signal that comes to a manager is what the payload of a packet holds of one that a
session of another transport sent to it. -/
theorem signal_wired {s : LanSegment ι} (hs : s.Wired advertised signalled) {i : ι} {data : Bytes} {addr : Address}
    (ha : s.Authentic (i, .datagramReceived data addr)) {senderId : NetworkId} {text : Text}
    (h : .deliver senderId text ∈ (s.node i).calls (.datagramReceived data addr)) :
    ∃ j remoteId sent, senderId = .p2p (s.localId j) ∧ s.localId j ≠ s.localId i ∧
      (s.node j).manager.SentTo remoteId sent ∧ signalled sent ∧ remoteId.value = s.localId i ∧
      decodeUtf8 ((encodeUtf8 sent).take DiscoveryPacket.messagePayloadMax) = some text := by
  obtain ⟨heq, _⟩ | ⟨_, _, _, _, heq, heq', hshown⟩ := (s.node i).calls_cases h
  · cases heq
  · cases heq
    cases heq'
    obtain ⟨sender, messageData, rfl, hreceived, hdecode⟩ := Transport.signal_of_shows hshown
    obtain ⟨j, packet, hvouched, hpacket, hsender, hother⟩ := received_wired hs ha hreceived
    cases packet with
    | message _ recipientId messageData' =>
      cases hpacket
      obtain ⟨_, remoteId, sent, hsent, hsignalled, hrecipient, rfl⟩ := hvouched
      exact ⟨j, remoteId, sent, congrArg _ hsender.symm, hother, hsent, hsignalled, hrecipient, hdecode⟩
    | _ => cases hpacket

omit [DecidableEq ι] in
private theorem discovered_next {s : LanSegment ι} (hs : s.Wired advertised signalled) {i : ι} {e : TransportEvent}
    (ha : s.Authentic (i, e)) {id : NetworkId} {data : Bytes} (h : ((s.node i).next e).discovered.get? id = some data) :
    ∃ j advertisement, id = .p2p (s.localId j) ∧ s.localId j ≠ s.localId i ∧ advertised j advertisement ∧
      data = advertisement.take DiscoveryPacket.responsePayloadMax := by
  by_cases hdiscover : e = .discover
  · subst hdiscover
    cases h
  · rw [Transport.next_discovered _ hdiscover] at h
    cases hannounces : (s.node i).announces e with
    | none =>
      rw [hannounces] at h
      exact hs.discovered i id data h
    | some host =>
      obtain ⟨id', data'⟩ := host
      rw [hannounces, Option.toList_some, List.foldl_cons, List.foldl_nil, Dict.get?_set] at h
      split at h
      · next hid =>
        cases h
        subst hid
        cases e with
        | datagramReceived datagram addr =>
          rw [Transport.announces] at hannounces
          split at hannounces
          · next sender applicationData hreceived =>
            cases hannounces
            obtain ⟨j, packet, hvouched, hpacket, hsender, hother⟩ := received_wired hs ha hreceived
            cases packet with
            | response _ advertisement =>
              cases hpacket
              exact ⟨j, advertisement, congrArg _ hsender.symm, hother, hvouched.2, rfl⟩
            | _ => cases hpacket
          · cases hannounces
        | _ => cases hannounces
      · exact hs.discovered i id data h

theorem wired_next {s : LanSegment ι} (hs : s.Wired advertised signalled) (e : ι × TransportEvent) (ha : s.Authentic e)
    (he : s.Within advertised signalled e) : (s.next e).Wired advertised signalled := by
  obtain ⟨i, e⟩ := e
  refine ⟨?_, ?_, ?_⟩
  · intro j data hmem
    rw [next_key, next_node]
    rcases List.mem_append.mp hmem with hold | hnew
    · obtain ⟨packet, plaintext, hvouched, hserialize, hdata⟩ := hs.wire j data hold
      refine ⟨packet, plaintext, ?_, hserialize, hdata⟩
      split
      · exact hvouched.next e
      · exact hvouched
    · obtain ⟨datagram, hdatagram, hpair⟩ := List.mem_map.mp hnew
      cases hpair
      obtain ⟨output, houtput, hsent⟩ := List.mem_filterMap.mp hdatagram
      rw [if_pos rfl]
      match output, hsent with
      | some (.sendto _ _), rfl =>
        obtain ⟨packet, plaintext, hsends, hserialize, hdata⟩ := Transport.sends_of_shows _ houtput
        exact ⟨packet, plaintext, vouched_of_sends hsends (hs.advertising i) he.2, hserialize, hdata⟩
  · intro j advertisement hadvertisement
    rw [next_node] at hadvertisement
    split at hadvertisement
    · next hj =>
      subst hj
      rcases Transport.next_advertisement _ hadvertisement with hold | hset
      · exact hs.advertising j advertisement hold
      · exact he.1 advertisement hset
    · exact hs.advertising j advertisement hadvertisement
  · intro j id data hget
    simp only [next_localId]
    rw [next_node] at hget
    split at hget
    · next hj =>
      subst hj
      exact discovered_next hs ha hget
    · exact hs.discovered j id data hget

/-! ### Runs -/

omit [LawfulPrimitives] in
theorem run_localId (s : LanSegment ι) (events : List (ι × TransportEvent)) (i : ι) :
    (Machine.run next s events).localId i = s.localId i :=
  Machine.run_invariant_always (fun (s' : LanSegment ι) e (h : s'.localId i = s.localId i) => (next_localId s' e i).trans h)
    rfl events

theorem wired_run {s : LanSegment ι} {events : List (ι × TransportEvent)} (hs : s.Wired advertised signalled)
    (h : Machine.Along (fun s e => s.Authentic e ∧ s.Within advertised signalled e) next s events) :
    (Machine.run next s events).Wired advertised signalled :=
  Machine.run_invariant (fun (s : LanSegment ι) e (hs : s.Wired advertised signalled) he => wired_next hs e he.1 he.2) hs h

end Steps
end Runs

/-- The transport was made with the advertisement, or told to advertise it in the run. -/
def Advertises (s : LanSegment ι) (events : List (ι × TransportEvent)) (i : ι) (advertisement : Bytes) : Prop :=
  (s.node i).lan.advertisement = some advertisement ∨ (i, .setAdvertisement (some advertisement)) ∈ events

/-- In every run of transports a manager is handed only signals that another transport's session
has sent to a peer with its id, under the id of that transport, and each as it was sent, or
as the text of the bytes that fit a packet. -/
theorem signals_sent [Aiortc] [Primitives] [LawfulPrimitives] [DecidableEq ι] (s : LanSegment ι)
    (events : List (ι × TransportEvent)) (hs : s.Fresh) (h : Machine.Along Authentic next s events) (i : ι) (data : Bytes)
    (addr : Address) (ha : (Machine.run next s events).Authentic (i, .datagramReceived data addr)) (senderId : NetworkId)
    (text : Text)
    (hcalled : .deliver senderId text ∈ ((Machine.run next s events).node i).calls (.datagramReceived data addr)) :
    ∃ j remoteId sent, senderId = .p2p (s.localId j) ∧ s.localId j ≠ s.localId i ∧
      ((Machine.run next s events).node j).manager.SentTo remoteId sent ∧ remoteId.value = s.localId i ∧
      decodeUtf8 ((encodeUtf8 sent).take DiscoveryPacket.messagePayloadMax) = some text ∧ text <+: sent ∧
      ((encodeUtf8 sent).length ≤ DiscoveryPacket.messagePayloadMax → text = sent) := by
  have hwithin : Machine.Along (fun s e => s.Authentic e ∧ s.Within (fun _ _ => True) (fun _ => True) e) next s events :=
    h.mono fun _ _ ha => ⟨ha, fun _ _ => trivial, fun _ _ _ _ => trivial⟩
  have hwired := wired_run (wired_fresh hs fun _ _ _ => trivial) hwithin
  obtain ⟨j, remoteId, sent, hid, hother, hsent, _, hremote, hdecode⟩ := signal_wired hwired ha hcalled
  simp only [run_localId] at hid hother hremote
  refine ⟨j, remoteId, sent, hid, hother, hsent, hremote, hdecode, ?_, fun hfits => ?_⟩
  · apply isPrefix_of_encodeUtf8 ((encodeUtf8 sent).drop DiscoveryPacket.messagePayloadMax)
    rw [encodeUtf8_of_decodeUtf8 hdecode, List.take_append_drop]
  · rw [List.take_of_length_le hfits, decodeUtf8_encodeUtf8, Option.some.injEq] at hdecode
    exact hdecode.symm

/-! ### Two transports under the default application id -/

/-- Two transports, the right one advertising a host. -/
def pair : LanSegment Side where
  node side := ((Transport.new (.p2p (if side = .left then 1 else 2)) 0xDEADBEEF ("255.255.255.255".toList, 7551) false
    (if side = .left then none else some [1]))).getD ⟨Manager.new .unset false, .onDefaultPort 0, Dict.empty, 0⟩

theorem fresh_pair : pair.Fresh := by
  refine ⟨fun side => ?_, rfl⟩
  exact ⟨.p2p (if side = .left then 1 else 2), 0xDEADBEEF, ("255.255.255.255".toList, 7551), false,
    if side = .left then none else some [1], rfl⟩

def source : Address := ("10.0.0.1".toList, 7551)

@[reducible] def anyCandidate : Aiortc := ⟨fun _ => true⟩

/-- The datagram sent last. -/
def newest (events : List (Side × TransportEvent)) : Bytes :=
  letI := recorded
  letI := anyCandidate
  ((Machine.run next pair events).wire.map Prod.snd).getLastD []

def dialing : List (Side × TransportEvent) :=
  [(.left, .started), (.right, .started), (.left, .manager (.connect (.p2p 2) 7)),
    (.left, .manager (.session 0 (.resume 0 (.ok [])))), (.left, .manager (.session 0 (.resume 0 (.ok []))))]

/-- The request of a dialer reaches the other manager. -/
theorem signals_sent_request :
    letI := recorded
    letI := anyCandidate
    let request := (SignalingMessage.connectRequest 7 []).serialize
    .deliver (.p2p 1) request ∈ ((Machine.run next pair dialing).node .right).calls (.datagramReceived (newest dialing) source) ∧
      ∃ j remoteId sent, ((Machine.run next pair dialing).node j).manager.SentTo remoteId sent ∧ remoteId.value = 2 ∧
        request <+: sent := by
  have hcalled : .deliver (.p2p 1) (SignalingMessage.connectRequest 7 []).serialize ∈
      @Transport.calls recorded ((@Machine.run _ _ (@next Side anyCandidate recorded _) pair dialing).node .right)
        (.datagramReceived (newest dialing) source) := by decide +kernel
  obtain ⟨j, remoteId, sent, _, _, hsent, hremote, _, hprefix, _⟩ := @signals_sent Side anyCandidate recorded lawful_recorded _
    pair dialing fresh_pair ⟨trivial, trivial, trivial, trivial, trivial, trivial⟩ Side.right (newest dialing) source
    (Or.inl ⟨.left, by decide +kernel, by decide +kernel⟩) _ _ hcalled
  exact ⟨hcalled, j, remoteId, sent, hsent, hremote, hprefix⟩

/-- The events at one transport. -/
def eventsAt [DecidableEq ι] (i : ι) (events : List (ι × TransportEvent)) : List TransportEvent :=
  events.filterMap fun e => if e.1 = i then some e.2 else none

theorem run_node [Aiortc] [Primitives] [DecidableEq ι] (s : LanSegment ι) (events : List (ι × TransportEvent)) (i : ι) :
    (Machine.run next s events).node i = Machine.run Transport.next (s.node i) (eventsAt i events) := by
  induction events generalizing s with
  | nil => rfl
  | cons e rest ih =>
    obtain ⟨j, e⟩ := e
    rw [Machine.run_cons, ih, next_node, eventsAt, eventsAt, List.filterMap_cons]
    by_cases h : j = i
    · rw [if_pos h.symm, if_pos h]
      rfl
    · rw [if_neg fun heq => h heq.symm, if_neg h]

/-- In every run of transports what is discovered at one of them under an id is, cut to the
cap, an advertisement of another transport with that id; and what `discover` returns is
the last Response from each id since it was called, and nothing of any other. -/
theorem discovers_advertised [Aiortc] [Primitives] [LawfulPrimitives] [DecidableEq ι] (s : LanSegment ι)
    (events : List (ι × TransportEvent)) (hs : s.Fresh) (h : Machine.Along Authentic next s events) (i : ι) :
    (∀ id data, ((Machine.run next s events).node i).discovered.get? id = some data →
      ∃ j advertisement, id = .p2p (s.localId j) ∧ s.localId j ≠ s.localId i ∧ s.Advertises events j advertisement ∧
        data = advertisement.take DiscoveryPacket.responsePayloadMax) ∧
    ∀ first rest, events = first ++ (i, .discover) :: rest → (i, .discover) ∉ rest →
      ∀ id, ((Machine.run next s events).node i).discovered.get? id =
        (((eventsAt i rest).reverse.filterMap (s.node i).announces).find? fun host => host.1 = id).map Prod.snd := by
  refine ⟨fun id data hget => ?_, fun first rest hevents hlast id => ?_⟩
  · have hwithin : Machine.Along (fun s' e => s'.Authentic e ∧ s'.Within (s.Advertises events) (fun _ => True) e) next s events := by
      have hset := Machine.along_of_forall next s (p := fun e => ∀ advertisement,
        e.2 = .setAdvertisement (some advertisement) → s.Advertises events e.1 advertisement) fun e he advertisement heq =>
          .inr (heq ▸ he)
      exact (h.and hset).mono fun _ _ hboth => ⟨hboth.1, hboth.2, fun _ _ _ _ => trivial⟩
    have hwired := wired_run (wired_fresh hs fun _ _ hadvertisement => .inl hadvertisement) hwithin
    have hfound := hwired.discovered i id data hget
    simpa only [run_localId] using hfound
  · have hsplit : eventsAt i events = eventsAt i first ++ .discover :: eventsAt i rest := by
      simp [hevents, eventsAt]
    rw [run_node, hsplit]
    refine Transport.discovered_since _ _ (fun e he heq => hlast ?_) id
    obtain ⟨⟨j, e'⟩, hmem, hat⟩ := List.mem_filterMap.mp he
    split at hat
    · next hj =>
      cases hat
      cases hj
      exact heq ▸ hmem
    · cases hat

private def asked : List (Side × TransportEvent) := [(.left, .started), (.right, .started), (.left, .discover)]

private def told : List (Side × TransportEvent) := asked ++ [(.right, .datagramReceived (newest asked) source)]

private theorem authentic_asked : @Machine.Along _ _ (@Authentic Side recorded) (@next Side anyCandidate recorded _) pair
    (told ++ [(.left, .datagramReceived (newest told) source)]) := by
  refine ⟨trivial, trivial, trivial, Or.inl ⟨.left, ?_, ?_⟩, Or.inl ⟨.right, ?_, ?_⟩, trivial⟩
  all_goals decide +kernel

/-- A call of `discover` finds the host. -/
theorem discovers_advertised_pair :
    letI := recorded
    letI := anyCandidate
    ((Machine.run next pair (told ++ [(.left, .datagramReceived (newest told) source)])).node .left).discovered.get? (.p2p 2) =
      some [1] := by
  obtain ⟨_, hsince⟩ := @discovers_advertised Side anyCandidate recorded lawful_recorded _ pair _ fresh_pair authentic_asked .left
  rw [hsince [(.left, .started), (.right, .started)] [(.right, .datagramReceived (newest asked) source),
    (.left, .datagramReceived (newest told) source)] rfl (by decide +kernel)]
  decide +kernel

end LanSegment
end NetherNet
