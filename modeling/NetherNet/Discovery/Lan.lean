import Mathlib.Logic.Equiv.Basic
import NetherNet.Discovery.Crypto
import NetherNet.Discovery.Packets
import NetherNet.Library.Dict
import NetherNet.Signaling.Messages

/-! The LAN transport: signaling strings inside sealed discovery packets. -/
namespace NetherNet
open Library

/-- `str.encode("utf-8")`. -/
def encodeUtf8 (text : Text) : Bytes := text.flatMap String.utf8EncodeChar

/-- `bytes.decode("utf-8")`, or nothing where it raises. -/
def decodeUtf8 (data : Bytes) : Option Text := data.toByteArray.utf8Decode?.map Array.toList

theorem decodeUtf8_encodeUtf8 (text : Text) : decodeUtf8 (encodeUtf8 text) = some text := by
  have h : (encodeUtf8 text).toByteArray = text.utf8Encode := rfl
  rw [decodeUtf8, h, List.utf8Decode?_utf8Encode, Option.map_some, List.toList_toArray]

/-- What decodes was encoded. -/
theorem encodeUtf8_of_decodeUtf8 {data : Bytes} {text : Text} (h : decodeUtf8 data = some text) : encodeUtf8 text = data := by
  obtain ⟨chars, hchars, rfl⟩ := Option.map_eq_some_iff.mp h
  have hget : (data.toByteArray.utf8Decode?.get (by rw [hchars]; rfl)).toList.utf8Encode = data.toByteArray :=
    ByteArray.utf8Encode_get_utf8Decode?
  simp only [hchars, Option.get_some] at hget
  exact List.toByteArray_inj.mp hget

/-- A text whose bytes start another one starts it. -/
theorem isPrefix_of_encodeUtf8 {text m : Text} (rest : Bytes) (h : encodeUtf8 text ++ rest = encodeUtf8 m) : text <+: m := by
  apply List.isPrefix_of_utf8Encode_append_eq_utf8Encode rest.toByteArray
  show (encodeUtf8 text).toByteArray ++ rest.toByteArray = (encodeUtf8 m).toByteArray
  rw [← List.toByteArray_append, h]

theorem encodeUtf8_eq_nil {text : Text} : encodeUtf8 text = [] ↔ text = [] := by
  cases text with
  | nil => simp [encodeUtf8]
  | cons c rest => simp [encodeUtf8]

/-- A socket address: host and port. -/
abbrev Address := Text × Nat

structure LanTransport where
  localId : Nat
  applicationId : Nat
  broadcastAddr : Address
  /-- The socket is bound and not closed. -/
  isOpen : Bool := true
  peers : Dict Nat Address := Dict.empty
  advertisement : Option Bytes := none

/-- What the transport sends, and the callbacks it makes. -/
inductive LanOutput where
  | sendto (data : Bytes) (addr : Address)
  | onSignal (senderId : NetworkId) (message : Text)
  | onHostDiscovered (networkId : NetworkId) (applicationData : Bytes) (addr : Address)
  deriving DecidableEq, Repr

namespace LanTransport

/-- `_handle_message`. -/
def handleMessage (t : LanTransport) (senderId recipientId : Nat) (messageData : Bytes) : List LanOutput :=
  if recipientId ≠ t.localId then []
  else if messageData = [] then []
  else
    match decodeUtf8 messageData with
    | none => []
    | some message => [.onSignal (.p2p senderId) message]

private theorem handleMessage_data (u : LanTransport) (senderId : Nat) {data : Bytes} (h : data ≠ []) :
    u.handleMessage senderId u.localId data =
      match decodeUtf8 data with
      | none => []
      | some message => [.onSignal (.p2p senderId) message] := by
  rw [handleMessage, if_neg (by simp), if_neg h]

variable [Primitives]

/-- `_send_packet`, or nothing where it raises. -/
def sendPacket (t : LanTransport) (packet : DiscoveryPacket) (addr : Address) : Option (List LanOutput) :=
  if t.isOpen then
    packet.serialize.map fun plaintext => [.sendto (Envelope.sealPlaintext (deriveKey t.applicationId) plaintext) addr]
  else some []

def sendSignal (t : LanTransport) (remoteId : NetworkId) (message : Text) : Option (List LanOutput) :=
  t.sendPacket (.message t.localId remoteId.value (encodeUtf8 message)) ((t.peers.get? remoteId.value).getD t.broadcastAddr)

/-- `_handle_request`. -/
def handleRequest (t : LanTransport) (addr : Address) : Option (List LanOutput) :=
  match t.advertisement with
  | none => some []
  | some advertisement => t.sendPacket (.response t.localId advertisement) addr

/-- `_on_datagram`; the outputs are nothing where it raises. -/
def onDatagram (t : LanTransport) (data : Bytes) (addr : Address) : LanTransport × Option (List LanOutput) :=
  match Envelope.openEnvelope (deriveKey t.applicationId) data with
  | none => (t, some [])
  | some plaintext =>
    match DiscoveryPacket.parse plaintext with
    | none => (t, none)
    | some none => (t, some [])
    | some (some packet) =>
      if packet.senderId = t.localId then (t, some [])
      else
        let t := if packet.senderId ≠ 0 then { t with peers := t.peers.set packet.senderId addr } else t
        match packet with
        | .request _ => (t, t.handleRequest addr)
        | .response senderId applicationData => (t, some [.onHostDiscovered (.p2p senderId) applicationData addr])
        | .message senderId recipientId messageData => (t, some (t.handleMessage senderId recipientId messageData))

/-! ### What a signal becomes on the way -/

variable [LawfulPrimitives]

/-- A packet for the receiver arrives as it was sealed, with its payload cut. -/
private theorem sealed_received {t u : LanTransport} (source : Address) (happ : u.applicationId = t.applicationId)
    {recipientId : Nat} {messageData datagram : Bytes} {addr target : Address} {outputs : List LanOutput}
    (hsend : t.sendPacket (.message t.localId recipientId messageData) target = some outputs)
    (hmem : .sendto datagram addr ∈ outputs) :
    (u.onDatagram datagram source).2 = some (if t.localId = u.localId then [] else
      u.handleMessage t.localId recipientId (messageData.take DiscoveryPacket.messagePayloadMax)) := by
  unfold sendPacket at hsend
  split at hsend
  · obtain ⟨plaintext, hplaintext, rfl⟩ := Option.map_eq_some_iff.mp hsend
    cases List.mem_singleton.mp hmem
    have hparse := DiscoveryPacket.parse_serialize hplaintext
    simp only [onDatagram, happ, Envelope.openEnvelope_sealPlaintext, hparse, DiscoveryPacket.capped,
      DiscoveryPacket.senderId]
    by_cases hown : t.localId = u.localId
    · rw [if_pos hown, if_pos hown]
    · rw [if_neg hown, if_neg hown]
      split <;> rfl
  · cases hsend
    cases hmem

/-- A signal that is sent reaches the transport it is addressed to as it was, if its
UTF-8 encoding fits the payload of a packet; else as the text of the bytes that fit where
these end between two characters, and not at all where they do not. -/
theorem signal_received (t u : LanTransport) (remoteId : NetworkId) (message : Text) (datagram : Bytes)
    (addr source : Address) (outputs : List LanOutput) (happ : u.applicationId = t.applicationId)
    (hid : u.localId = remoteId.value) (hsend : t.sendSignal remoteId message = some outputs)
    (hmem : .sendto datagram addr ∈ outputs) :
    (t.localId = u.localId ∨ message = [] → (u.onDatagram datagram source).2 = some []) ∧
    (t.localId ≠ u.localId → message ≠ [] → (encodeUtf8 message).length ≤ DiscoveryPacket.messagePayloadMax →
      (u.onDatagram datagram source).2 = some [.onSignal (.p2p t.localId) message]) ∧
    (t.localId ≠ u.localId → DiscoveryPacket.messagePayloadMax < (encodeUtf8 message).length →
      (decodeUtf8 ((encodeUtf8 message).take DiscoveryPacket.messagePayloadMax) = none →
        (u.onDatagram datagram source).2 = some []) ∧
      ∀ text, decodeUtf8 ((encodeUtf8 message).take DiscoveryPacket.messagePayloadMax) = some text →
        (u.onDatagram datagram source).2 = some [.onSignal (.p2p t.localId) text] ∧ text <+: message ∧ text ≠ message) := by
  have hreceived := sealed_received source happ hsend hmem
  rw [← hid] at hreceived
  refine ⟨?_, fun hne hm hfits => ?_, fun hne hlong => ?_⟩
  · rintro (hown | rfl)
    · rw [hreceived, if_pos hown]
    · rw [hreceived, show u.handleMessage t.localId u.localId ((encodeUtf8 []).take DiscoveryPacket.messagePayloadMax) = [] by
        simp [handleMessage, encodeUtf8], ite_self]
  · have hdata : encodeUtf8 message ≠ [] := fun h => hm (encodeUtf8_eq_nil.mp h)
    rw [hreceived, if_neg hne, List.take_of_length_le hfits, handleMessage_data u _ hdata, decodeUtf8_encodeUtf8]
  · -- as many bytes as fit are left, so the payload is not empty
    have hlen : ((encodeUtf8 message).take DiscoveryPacket.messagePayloadMax).length = DiscoveryPacket.messagePayloadMax :=
      List.length_take_of_le (Nat.le_of_lt hlong)
    have hdata : (encodeUtf8 message).take DiscoveryPacket.messagePayloadMax ≠ [] := by
      intro h
      rw [h] at hlen
      cases hlen
    rw [hreceived, if_neg hne, handleMessage_data u _ hdata]
    refine ⟨fun hnone => by rw [hnone], fun text htext => ?_⟩
    have hencode := encodeUtf8_of_decodeUtf8 htext
    refine ⟨by rw [htext], isPrefix_of_encodeUtf8 ((encodeUtf8 message).drop DiscoveryPacket.messagePayloadMax) ?_, ?_⟩
    · rw [hencode, List.take_append_drop]
    · rintro rfl
      rw [← hencode] at hlen
      omega

end LanTransport

/-! ### Two signals under the default application id -/

namespace LanTransport

/-- A transport under the default application id and port. -/
def onDefaultPort (localId : Nat) : LanTransport :=
  { localId := localId, applicationId := 0xDEADBEEF, broadcastAddr := ("255.255.255.255".toList, 7551) }

theorem sendPacket_onDefaultPort [Primitives] (remoteId : NetworkId) (hremote : remoteId.value ≤ u64Max) (message : Text)
    (addr : Address) : ∃ datagram, (onDefaultPort 1).sendPacket (.message 1 remoteId.value (encodeUtf8 message)) addr =
      some [.sendto datagram addr] := by
  obtain ⟨plaintext, hplaintext, _⟩ := DiscoveryPacket.serialize_u64 (p := .message 1 remoteId.value (encodeUtf8 message))
    ⟨by decide, hremote⟩
  exact ⟨_, by rw [sendPacket, hplaintext]; rfl⟩

/-- A short CANDIDATEADD arrives as it was sent. -/
theorem signal_received_short :
    letI := recorded
    let message := "CANDIDATEADD 7 c".toList
    ∃ datagram, (onDefaultPort 1).sendSignal (.p2p 2) message =
        some [.sendto datagram ("255.255.255.255".toList, 7551)] ∧
      ((onDefaultPort 2).onDatagram datagram ("10.0.0.1".toList, 7551)).2 = some [.onSignal (.p2p 1) message] := by
  let _ := recorded
  have _ := lawful_recorded
  intro message
  obtain ⟨datagram, hsend⟩ := sendPacket_onDefaultPort (.p2p 2) (by decide) message ("255.255.255.255".toList, 7551)
  refine ⟨_, hsend, ?_⟩
  exact (signal_received (onDefaultPort 1) (onDefaultPort 2) (.p2p 2) message _ _ _ _ rfl rfl hsend
    (List.mem_singleton_self _)).2.1 (by decide) (by decide) (by decide +kernel)

/-- A CANDIDATEADD of 1141 characters arrives, and parses, with one character less. -/
theorem long_signal_shortened :
    letI := recorded
    let message := "CANDIDATEADD 7 ".toList ++ List.replicate 1126 'x'
    let shorter := "CANDIDATEADD 7 ".toList ++ List.replicate 1125 'x'
    (∃ datagram, (onDefaultPort 1).sendSignal (.p2p 2) message =
        some [.sendto datagram ("255.255.255.255".toList, 7551)] ∧
      ((onDefaultPort 2).onDatagram datagram ("10.0.0.1".toList, 7551)).2 = some [.onSignal (.p2p 1) shorter]) ∧
    SignalingMessage.parse message = some (some (.candidateAdd 7 (List.replicate 1126 'x'))) ∧
    SignalingMessage.parse shorter = some (some (.candidateAdd 7 (List.replicate 1125 'x'))) := by
  let _ := recorded
  have _ := lawful_recorded
  intro message shorter
  obtain ⟨datagram, hsend⟩ := sendPacket_onDefaultPort (.p2p 2) (by decide) message ("255.255.255.255".toList, 7551)
  have hcut : (encodeUtf8 message).take DiscoveryPacket.messagePayloadMax = encodeUtf8 shorter := by decide +kernel
  refine ⟨⟨_, hsend, ?_⟩, by decide +kernel, by decide +kernel⟩
  rw [sealed_received (t := onDefaultPort 1) (u := onDefaultPort 2) _ rfl hsend (List.mem_singleton_self _), if_neg (by decide),
    hcut]
  have hdata : encodeUtf8 shorter ≠ [] := by decide +kernel
  exact congrArg some ((handleMessage_data (onDefaultPort 2) 1 hdata).trans (by rw [decodeUtf8_encodeUtf8]))

end LanTransport
end NetherNet
