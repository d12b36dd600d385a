import NetherNet.Library.Bytes
import NetherNet.Protocol.NetworkId

/-! The discovery packets: a packed 20-byte base header, and the payload of each kind with its cap. -/
namespace NetherNet
open Library

inductive DiscoveryPacket where
  | request (senderId : Nat)
  | response (senderId : Nat) (applicationData : Bytes)
  | message (senderId recipientId : Nat) (messageData : Bytes)
  deriving DecidableEq, Repr

namespace DiscoveryPacket

def baseHeaderSize : Nat := 20
def responseHeaderSize : Nat := 24
def messageHeaderSize : Nat := 32
def responsePayloadMax : Nat := 1148
def messagePayloadMax : Nat := 1140

def senderId : DiscoveryPacket → Nat
  | request s | response s _ | message s _ _ => s

/-- `DiscoveryPacketType`. -/
def packetType : DiscoveryPacket → Nat
  | request _ => 0
  | response _ _ => 1
  | message _ _ _ => 2

/-- One unsigned field of `struct.pack`, or nothing where it raises. -/
def packField (width value : Nat) : Option Bytes := if value < 256 ^ width then some (packLE width value) else none

/-- `_BASE.pack`. -/
def packBase (packetLength packetType senderId : Nat) : Option Bytes :=
  (packField 2 packetLength).bind fun l => (packField 2 packetType).bind fun t => (packField 8 senderId).map fun s =>
    l ++ t ++ s ++ List.replicate 8 0

def serialize (p : DiscoveryPacket) : Option Bytes :=
  match p with
  | request senderId => packBase baseHeaderSize p.packetType senderId
  | response senderId applicationData =>
    let payload := applicationData.take responsePayloadMax
    (packBase (responseHeaderSize + payload.length) p.packetType senderId).bind fun header =>
      (packField 4 payload.length).map fun length => header ++ length ++ payload
  | message senderId recipientId messageData =>
    let payload := messageData.take messagePayloadMax
    (packBase (messageHeaderSize + payload.length) p.packetType senderId).bind fun header =>
      (packField 8 recipientId).bind fun recipient =>
        (packField 4 payload.length).map fun length => header ++ recipient ++ length ++ payload

/-- The bytes that `unpack_from` reads, or nothing where it raises. -/
def unpackFrom (data : Bytes) (offset size : Nat) : Option Bytes :=
  if data.length < offset + size then none else some ((data.drop offset).take size)

/-- One unsigned field. -/
def unpackField (data : Bytes) (offset width : Nat) : Nat := unpackLE ((data.drop offset).take width)

/-- `parse`: nothing where it raises, `some none` where the packet is malformed. -/
def parse (data : Bytes) : Option (Option DiscoveryPacket) :=
  if data.length < baseHeaderSize then some none
  else
    (unpackFrom data 0 baseHeaderSize).bind fun base =>
      let packetType := unpackField base 2 2
      let senderId := unpackField base 4 8
      if packetType = 0 then some (some (request senderId))
      else if packetType = 1 then
        if data.length < responseHeaderSize then some none
        else
          (unpackFrom data baseHeaderSize 4).map fun extra =>
            let appLen := unpackField extra 0 4
            if data.length < responseHeaderSize + appLen then none
            else some (response senderId ((data.drop responseHeaderSize).take appLen))
      else if packetType = 2 then
        if data.length < messageHeaderSize then some none
        else
          (unpackFrom data baseHeaderSize 12).map fun extra =>
            let recipientId := unpackField extra 0 8
            let msgLen := unpackField extra 8 4
            if data.length < messageHeaderSize + msgLen then none
            else some (message senderId recipientId ((data.drop messageHeaderSize).take msgLen))
      else some none

/-- The packet as it goes over the wire, its payload cut at the cap. -/
def capped : DiscoveryPacket → DiscoveryPacket
  | request s => request s
  | response s d => response s (d.take responsePayloadMax)
  | message s r d => message s r (d.take messagePayloadMax)

/-! ### No field is read past the end -/

private theorem unpackField_take (data : Bytes) (start size offset width : Nat) (h : offset + width ≤ size) :
    unpackField ((data.drop start).take size) offset width = unpackField data (start + offset) width := by
  rw [unpackField, unpackField, List.drop_take, List.take_take, List.drop_drop, Nat.min_eq_left (by omega)]

private theorem unpackFrom_eq (data : Bytes) (offset size : Nat) (h : offset + size ≤ data.length) :
    unpackFrom data offset size = some ((data.drop offset).take size) := by
  rw [unpackFrom, if_neg (by omega)]

/-- What the fields of a datagram say, as `parse` returns it. -/
private def packetOf (data : Bytes) : Option DiscoveryPacket :=
  if data.length < 20 then none
  else if unpackField data 2 2 = 0 then some (request (unpackField data 4 8))
  else if unpackField data 2 2 = 1 then
    if data.length < 24 ∨ data.length < 24 + unpackField data 20 4 then none
    else some (response (unpackField data 4 8) ((data.drop 24).take (unpackField data 20 4)))
  else if unpackField data 2 2 = 2 then
    if data.length < 32 ∨ data.length < 32 + unpackField data 28 4 then none
    else some (message (unpackField data 4 8) (unpackField data 20 8) ((data.drop 32).take (unpackField data 28 4)))
  else none

private theorem parse_eq (data : Bytes) : parse data = some (packetOf data) := by
  unfold parse packetOf baseHeaderSize responseHeaderSize messageHeaderSize
  split
  · rfl
  · next hbase =>
    simp only [unpackFrom_eq data 0 20 (by omega), Option.bind_some,
      unpackField_take data 0 20 2 2 (by decide),
      unpackField_take data 0 20 4 8 (by decide), Nat.zero_add]
    split
    · rfl
    · split
      · by_cases hlen : data.length < 24
        · rw [if_pos hlen, if_pos (Or.inl hlen)]
        · rw [if_neg hlen, unpackFrom_eq data 20 4 (by omega), Option.map_some, unpackField_take data 20 4 0 4 (by decide),
            Nat.add_zero]
          simp only [hlen, false_or]
      · split
        · by_cases hlen : data.length < 32
          · rw [if_pos hlen, if_pos (Or.inl hlen)]
          · rw [if_neg hlen, unpackFrom_eq data 20 12 (by omega), Option.map_some, unpackField_take data 20 12 0 8 (by decide),
              unpackField_take data 20 12 8 4 (by decide), Nat.add_zero]
            simp only [hlen, false_or]
        · rfl

/-- No datagram makes `parse` raise. -/
theorem parse_total (data : Bytes) : ∃ packet, parse data = some packet := ⟨_, parse_eq data⟩

/-! ### What is serialized reads back, with its payload cut -/

private theorem packField_eq {width value : Nat} {field : Bytes} (h : packField width value = some field) :
    field.length = width ∧ unpackLE field = value := by
  unfold packField at h
  split at h
  · next hlt =>
    cases h
    exact ⟨length_packLE width value, unpackLE_packLE hlt⟩
  · cases h

/-- A field between what stands before it and what stands after it. -/
private theorem unpackField_append (front rest : Bytes) {field : Bytes} {offset width value : Nat} (ho : front.length = offset)
    (hf : field.length = width ∧ unpackLE field = value) : unpackField (front ++ (field ++ rest)) offset width = value := by
  rw [unpackField, List.drop_left' ho, List.take_left' hf.1, hf.2]

/-- The base header and how it is read. -/
private theorem packBase_eq {packetLength packetType senderId : Nat} {header : Bytes}
    (h : packBase packetLength packetType senderId = some header) (rest : Bytes) :
    header.length = 20 ∧ unpackField (header ++ rest) 2 2 = packetType ∧ unpackField (header ++ rest) 4 8 = senderId := by
  unfold packBase at h
  obtain ⟨l, hl, h⟩ := Option.bind_eq_some_iff.mp h
  obtain ⟨t, ht, h⟩ := Option.bind_eq_some_iff.mp h
  obtain ⟨s, hs, rfl⟩ := Option.map_eq_some_iff.mp h
  have hl := packField_eq hl
  have ht := packField_eq ht
  have hs := packField_eq hs
  refine ⟨by simp [hl.1, ht.1, hs.1], ?_, ?_⟩
  · have hread := unpackField_append l (s ++ (List.replicate 8 0 ++ rest)) hl.1 ht
    simpa only [List.append_assoc] using hread
  · have hread := unpackField_append (l ++ t) (List.replicate 8 0 ++ rest)
      (by rw [List.length_append, hl.1, ht.1]) hs
    simpa only [List.append_assoc] using hread

private theorem packetOf_request {senderId : Nat} {bytes : Bytes} (h : (request senderId).serialize = some bytes) :
    packetOf bytes = some (request senderId) := by
  obtain ⟨hlen, htype, hsender⟩ := packBase_eq h []
  rw [List.append_nil] at htype hsender
  simp only [packetOf, hlen, hsender, htype, packetType, if_neg (Nat.lt_irrefl 20), if_true]

private theorem packetOf_response {senderId : Nat} {applicationData bytes : Bytes}
    (h : (response senderId applicationData).serialize = some bytes) :
    packetOf bytes = some (response senderId (applicationData.take responsePayloadMax)) := by
  unfold serialize at h
  obtain ⟨header, hheader, h⟩ := Option.bind_eq_some_iff.mp h
  obtain ⟨length, hlength, rfl⟩ := Option.map_eq_some_iff.mp h
  generalize hpayload : applicationData.take responsePayloadMax = payload at hheader hlength ⊢
  obtain ⟨hlen, htype, hsender⟩ := packBase_eq hheader (length ++ payload)
  have hlength := packField_eq hlength
  have happ := unpackField_append header payload hlen hlength
  have hfront : (header ++ length).length = 24 := by rw [List.length_append, hlen, hlength.1]
  have htotal : (header ++ length ++ payload).length = 24 + payload.length := by rw [List.length_append, hfront]
  rw [← List.append_assoc] at htype hsender happ
  simp only [packetOf, htotal, htype, hsender, happ, packetType]
  rw [if_neg (by omega), if_neg (by decide), if_pos trivial, if_neg (by omega), List.drop_left' hfront, List.take_length]

private theorem packetOf_message {senderId recipientId : Nat} {messageData bytes : Bytes}
    (h : (message senderId recipientId messageData).serialize = some bytes) :
    packetOf bytes = some (message senderId recipientId (messageData.take messagePayloadMax)) := by
  unfold serialize at h
  obtain ⟨header, hheader, h⟩ := Option.bind_eq_some_iff.mp h
  obtain ⟨recipient, hrecipient, h⟩ := Option.bind_eq_some_iff.mp h
  obtain ⟨length, hlength, rfl⟩ := Option.map_eq_some_iff.mp h
  generalize hpayload : messageData.take messagePayloadMax = payload at hheader hlength ⊢
  obtain ⟨hlen, htype, hsender⟩ := packBase_eq hheader (recipient ++ (length ++ payload))
  have hrecipient := packField_eq hrecipient
  have hlength := packField_eq hlength
  have hto := unpackField_append header (length ++ payload) hlen hrecipient
  have hmsg := unpackField_append (header ++ recipient) payload
    (by rw [List.length_append, hlen, hrecipient.1]) hlength
  have hfront : (header ++ recipient ++ length).length = 32 := by
    rw [List.length_append, List.length_append, hlen, hrecipient.1, hlength.1]
  have htotal : (header ++ recipient ++ length ++ payload).length = 32 + payload.length := by
    rw [List.length_append, hfront]
  simp only [← List.append_assoc] at htype hsender hto hmsg
  simp only [packetOf, htotal, htype, hsender, hto, hmsg, packetType]
  rw [if_neg (by omega), if_neg (by decide), if_neg (by decide), if_pos trivial, if_neg (by omega), List.drop_left' hfront,
    List.take_length]

/-- Every packet that can be serialized reads back as itself, its payload cut at the cap. -/
theorem parse_serialize {p : DiscoveryPacket} {bytes : Bytes} (h : p.serialize = some bytes) :
    parse bytes = some (some p.capped) := by
  rw [parse_eq]
  cases p with
  | request senderId => rw [packetOf_request h, capped]
  | response senderId applicationData => rw [packetOf_response h, capped]
  | message senderId recipientId messageData => rw [packetOf_message h, capped]

/-! ### What can be serialized -/

/-- The ids are u64. -/
def HasU64Ids : DiscoveryPacket → Prop
  | request s | response s _ => s ≤ u64Max
  | message s r _ => s ≤ u64Max ∧ r ≤ u64Max

private theorem packField_u64 {value : Nat} (h : value ≤ u64Max) : packField 8 value = some (packLE 8 value) :=
  if_pos (Nat.lt_of_le_of_lt h (by decide))

private theorem packBase_u64 {packetLength packetType senderId : Nat} (hl : packetLength ≤ 1172) (ht : packetType ≤ 2)
    (hs : senderId ≤ u64Max) : packBase packetLength packetType senderId =
      some (packLE 2 packetLength ++ packLE 2 packetType ++ packLE 8 senderId ++ List.replicate 8 0) := by
  rw [packBase, packField, packField, if_pos (by omega), if_pos (by omega), packField_u64 hs]
  rfl

/-- The length field of a base header. -/
private theorem unpackField_packLE {packetLength : Nat} (hl : packetLength ≤ 1172) (rest : Bytes) :
    unpackField (packLE 2 packetLength ++ rest) 0 2 = packetLength := by
  rw [unpackField, List.drop_zero, List.take_left' (length_packLE _ _), unpackLE_packLE (by omega)]

/-- A packet with u64 ids can be serialized, and its length field has the number of the bytes. -/
theorem serialize_u64 {p : DiscoveryPacket} (h : p.HasU64Ids) :
    ∃ bytes, p.serialize = some bytes ∧ unpackField bytes 0 2 = bytes.length ∧ bytes.length ≤ 1172 := by
  cases p with
  | request senderId =>
    refine ⟨_, packBase_u64 (by decide) (show 0 ≤ 2 by decide) h, ?_, by simp⟩
    rw [List.append_assoc, List.append_assoc, unpackField_packLE (by decide)]
    simp [baseHeaderSize]
  | response senderId applicationData =>
    have hpayload : (applicationData.take responsePayloadMax).length ≤ 1148 := List.length_take_le _ _
    have htotal : responseHeaderSize + (applicationData.take responsePayloadMax).length ≤ 1172 := by
      rw [responseHeaderSize]
      omega
    have hfield : packField 4 (applicationData.take responsePayloadMax).length =
        some (packLE 4 (applicationData.take responsePayloadMax).length) := if_pos (by omega)
    simp only [serialize, packetType, packBase_u64 htotal (show 1 ≤ 2 by decide) h, hfield, Option.bind_some, Option.map_some]
    refine ⟨_, rfl, ?_, ?_⟩
    · simp only [List.append_assoc, unpackField_packLE htotal]
      simp only [responseHeaderSize, List.length_append, length_packLE, List.length_replicate]
      omega
    · simp only [List.length_append, length_packLE, List.length_replicate]
      omega
  | message senderId recipientId messageData =>
    have hpayload : (messageData.take messagePayloadMax).length ≤ 1140 := List.length_take_le _ _
    have htotal : messageHeaderSize + (messageData.take messagePayloadMax).length ≤ 1172 := by
      rw [messageHeaderSize]
      omega
    have hfield : packField 4 (messageData.take messagePayloadMax).length =
        some (packLE 4 (messageData.take messagePayloadMax).length) := if_pos (by omega)
    simp only [serialize, packetType, packBase_u64 htotal (show 2 ≤ 2 by decide) h.1, packField_u64 h.2, hfield,
      Option.bind_some, Option.map_some]
    refine ⟨_, rfl, ?_, ?_⟩
    · simp only [List.append_assoc, unpackField_packLE htotal]
      simp only [messageHeaderSize, List.length_append, length_packLE, List.length_replicate]
      omega
    · simp only [List.length_append, length_packLE, List.length_replicate]
      omega

/-! ### What is accepted is a serialized packet but for its length field, its pad and what trails -/

/-- A full header of a known type, and as many bytes after it as it declares. -/
def Complete (data : Bytes) : Prop :=
  baseHeaderSize ≤ data.length ∧
  (unpackField data 2 2 = 0 ∨
   unpackField data 2 2 = 1 ∧ responseHeaderSize ≤ data.length ∧
     unpackField data 20 4 ≤ (data.drop responseHeaderSize).length ∨
   unpackField data 2 2 = 2 ∧ messageHeaderSize ≤ data.length ∧
     unpackField data 28 4 ≤ (data.drop messageHeaderSize).length)

instance (data : Bytes) : Decidable (Complete data) := inferInstanceAs (Decidable (_ ∧ _))

/-- Type, ids, declared length and payload of the serialized bytes stand in the datagram as they are. -/
def AgreesWith (bytes data : Bytes) : Prop :=
  ∃ length padding trailing : Bytes, length.length = 2 ∧ padding.length = 8 ∧
    data = length ++ (bytes.drop 2).take 10 ++ padding ++ bytes.drop 20 ++ trailing

private theorem packetOf_isSome (data : Bytes) : (∃ p, packetOf data = some p) ↔ Complete data := by
  unfold packetOf Complete baseHeaderSize responseHeaderSize messageHeaderSize
  simp only [List.length_drop]
  split
  · simp
    omega
  · split
    · simp_all
    · split
      · split <;> simp_all <;> omega
      · split
        · split <;> simp_all <;> omega
        · simp_all

/-- The three forms of an accepted packet. -/
private theorem packetOf_cases {data : Bytes} {p : DiscoveryPacket} (h : packetOf data = some p) :
    20 ≤ data.length ∧
    (unpackField data 2 2 = 0 ∧ p = request (unpackField data 4 8) ∨
     unpackField data 2 2 = 1 ∧ 24 + unpackField data 20 4 ≤ data.length ∧
       p = response (unpackField data 4 8) ((data.drop 24).take (unpackField data 20 4)) ∨
     unpackField data 2 2 = 2 ∧ 32 + unpackField data 28 4 ≤ data.length ∧
       p = message (unpackField data 4 8) (unpackField data 20 8) ((data.drop 32).take (unpackField data 28 4))) := by
  unfold packetOf at h
  split at h
  · cases h
  · next hbase =>
    refine ⟨by omega, ?_⟩
    split at h
    · next htype => exact .inl ⟨htype, (Option.some.inj h).symm⟩
    · split at h
      · next htype =>
        split at h
        · cases h
        · exact .inr (.inl ⟨htype, by omega, (Option.some.inj h).symm⟩)
      · split at h
        · next htype =>
          split at h
          · cases h
          · exact .inr (.inr ⟨htype, by omega, (Option.some.inj h).symm⟩)
        · cases h

/-- A field that is read is packed to the bytes it was read from. -/
private theorem packField_unpackField (data : Bytes) (offset width : Nat) (h : offset + width ≤ data.length) :
    packField width (unpackField data offset width) = some ((data.drop offset).take width) := by
  have hlen : ((data.drop offset).take width).length = width := by
    rw [List.length_take, List.length_drop]
    omega
  have hlt := unpackLE_lt ((data.drop offset).take width)
  have hpack := packLE_unpackLE ((data.drop offset).take width)
  rw [hlen] at hlt hpack
  rw [packField, unpackField, if_pos hlt, hpack]

/-- The base header of the fields of a datagram, before what follows them there. -/
private theorem packBase_agrees {data : Bytes} (packetLength : Nat) (hl : packetLength ≤ 1172) (hd : 20 ≤ data.length)
    (rest : Bytes) (hrest : rest <+: data.drop 20) : ∃ header, packBase packetLength (unpackField data 2 2) (unpackField data 4 8) = some header ∧
      AgreesWith (header ++ rest) data := by
  obtain ⟨trailing, htrailing⟩ := hrest
  have hmid : ((data.drop 2).take 2 ++ (data.drop 4).take 8).length = 10 := by
    simp only [List.length_append, List.length_take, List.length_drop]
    omega
  refine ⟨packLE 2 packetLength ++ (data.drop 2).take 2 ++ (data.drop 4).take 8 ++ List.replicate 8 0, ?_, data.take 2,
    (data.drop 12).take 8, trailing, ?_, ?_, ?_⟩
  · rw [packBase, packField_unpackField data 2 2 (by omega), packField_unpackField data 4 8 (by omega), packField,
      if_pos (by omega)]
    rfl
  · rw [List.length_take]
    omega
  · rw [List.length_take, List.length_drop]
    omega
  · have hmiddle : ((packLE 2 packetLength ++ (data.drop 2).take 2 ++ (data.drop 4).take 8 ++ List.replicate 8 0 ++ rest).drop 2).take
        10 = (data.drop 2).take 2 ++ (data.drop 4).take 8 := by
      rw [List.append_assoc, List.append_assoc, List.append_assoc, List.drop_left' (length_packLE _ _), ← List.append_assoc,
        List.take_left' hmid]
    have hafter : (packLE 2 packetLength ++ (data.drop 2).take 2 ++ (data.drop 4).take 8 ++ List.replicate 8 0 ++ rest).drop 20 =
        rest := by
      refine List.drop_left' ?_
      simp only [List.append_assoc, List.length_append, length_packLE, List.length_replicate] at hmid ⊢
      omega
    rw [hmiddle, hafter, List.append_assoc, htrailing]
    -- the datagram is cut at 2, 4, 12 and 20
    have h12 := List.take_append_drop 8 (data.drop 12)
    have h4 := List.take_append_drop 8 (data.drop 4)
    have h2 := List.take_append_drop 2 (data.drop 2)
    rw [List.drop_drop] at h12 h4 h2
    rw [List.append_assoc, h12, List.append_assoc, List.append_assoc, h4, h2, List.take_append_drop]

/-- An accepted packet whose payload is within the cap is serialized to what was accepted. -/
private theorem serialize_agrees {data : Bytes} {p : DiscoveryPacket} (h : packetOf data = some p) (hcap : p.capped = p) :
    ∃ bytes, p.serialize = some bytes ∧ AgreesWith bytes data := by
  obtain ⟨hbase, ⟨htype, rfl⟩ | ⟨htype, hlen, rfl⟩ | ⟨htype, hlen, rfl⟩⟩ := packetOf_cases h
  · obtain ⟨header, hheader, hagrees⟩ := packBase_agrees 20 (by decide) hbase [] List.nil_prefix
    rw [List.append_nil] at hagrees
    rw [htype] at hheader
    exact ⟨header, hheader, hagrees⟩
  · have hpayload : ((data.drop 24).take (unpackField data 20 4)).length = unpackField data 20 4 := by
      rw [List.length_take, List.length_drop]
      omega
    have hfits : ((data.drop 24).take (unpackField data 20 4)).take responsePayloadMax =
        (data.drop 24).take (unpackField data 20 4) := by
      simpa only [capped, response.injEq, true_and] using hcap
    have hle : unpackField data 20 4 ≤ 1148 := by
      have := congrArg List.length hfits
      rw [List.length_take, hpayload, responsePayloadMax] at this
      omega
    obtain ⟨header, hheader, hagrees⟩ := packBase_agrees (24 + unpackField data 20 4) (by omega) hbase
      ((data.drop 20).take 4 ++ (data.drop 24).take (unpackField data 20 4))
      (by rw [show data.drop 24 = (data.drop 20).drop 4 by rw [List.drop_drop], ← List.take_add]; exact List.take_prefix _ _)
    rw [htype] at hheader
    refine ⟨_, ?_, hagrees⟩
    simp only [serialize, hfits, hpayload, responseHeaderSize, packetType, hheader, Option.bind_some,
      packField_unpackField data 20 4 (by omega), Option.map_some, List.append_assoc]
  · have hpayload : ((data.drop 32).take (unpackField data 28 4)).length = unpackField data 28 4 := by
      rw [List.length_take, List.length_drop]
      omega
    have hfits : ((data.drop 32).take (unpackField data 28 4)).take messagePayloadMax =
        (data.drop 32).take (unpackField data 28 4) := by
      simpa only [capped, message.injEq, true_and] using hcap
    have hle : unpackField data 28 4 ≤ 1140 := by
      have := congrArg List.length hfits
      rw [List.length_take, hpayload, messagePayloadMax] at this
      omega
    obtain ⟨header, hheader, hagrees⟩ := packBase_agrees (32 + unpackField data 28 4) (by omega) hbase
      ((data.drop 20).take 8 ++ ((data.drop 28).take 4 ++ (data.drop 32).take (unpackField data 28 4)))
      (by
        rw [show data.drop 32 = (data.drop 28).drop 4 by rw [List.drop_drop], ← List.take_add,
          show data.drop 28 = (data.drop 20).drop 8 by rw [List.drop_drop], ← List.take_add]
        exact List.take_prefix _ _)
    rw [htype] at hheader
    refine ⟨_, ?_, hagrees⟩
    simp only [serialize, hfits, hpayload, messageHeaderSize, packetType, hheader, Option.bind_some,
      packField_unpackField data 20 8 (by omega),
      packField_unpackField data 28 4 (by omega), Option.map_some, List.append_assoc]

/-- A sender is read from eight bytes. -/
theorem senderId_of_parse {data : Bytes} {p : DiscoveryPacket} (h : parse data = some (some p)) : p.senderId ≤ u64Max := by
  rw [parse_eq, Option.some.injEq] at h
  have hfield : unpackField data 4 8 ≤ u64Max := by
    have hlt := unpackLE_lt ((data.drop 4).take 8)
    have hwidth : ((data.drop 4).take 8).length ≤ 8 := List.length_take_le _ _
    have hpow : 256 ^ ((data.drop 4).take 8).length ≤ 256 ^ 8 := Nat.pow_le_pow_right (by decide) hwidth
    rw [unpackField, u64Max]
    omega
  obtain ⟨_, ⟨_, rfl⟩ | ⟨_, _, rfl⟩ | ⟨_, _, rfl⟩⟩ := packetOf_cases h <;> exact hfield

/-- Every packet with u64 ids is serialized to as many bytes as its length field says and
reads back with its payload cut at the cap. A byte string is never more than rejected, is
accepted exactly if it is complete, and what it is accepted as is serialized, if the
payload is within the cap, to the same bytes but for the length field, the pad and what trails. -/
theorem serialize_parse_agree :
    (∀ p : DiscoveryPacket, p.HasU64Ids → ∃ bytes, p.serialize = some bytes ∧ unpackField bytes 0 2 = bytes.length ∧
      bytes.length ≤ 1172 ∧ parse bytes = some (some p.capped)) ∧
    (∀ data, parse data ≠ none) ∧
    (∀ data, (∃ p, parse data = some (some p)) ↔ Complete data) ∧
    ∀ data p, parse data = some (some p) → p.capped = p → ∃ bytes, p.serialize = some bytes ∧ AgreesWith bytes data := by
  refine ⟨fun p hp => ?_, fun data => ?_, fun data => ?_, fun data p h hcap => ?_⟩
  · obtain ⟨bytes, hbytes, hfield, hlen⟩ := serialize_u64 hp
    exact ⟨bytes, hbytes, hfield, hlen, parse_serialize hbytes⟩
  · rw [parse_eq]
    exact Option.some_ne_none _
  · simp only [parse_eq, Option.some.injEq]
    exact packetOf_isSome data
  · rw [parse_eq, Option.some.injEq] at h
    exact serialize_agrees h hcap

end DiscoveryPacket
end NetherNet
