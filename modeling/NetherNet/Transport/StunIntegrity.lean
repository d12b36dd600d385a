import Mathlib.Data.List.Perm.Basic
import NetherNet.Library.Dict
import NetherNet.Library.Machine
import NetherNet.Protocol.NetworkId

/-! The filter in front of aioice: a reply to a request with an integrity key is withheld
unless it is authentic under that key. -/
namespace NetherNet
open Library

inductive StunClass where
  | request | indication | response | error
  deriving DecidableEq, Repr

/-- A parsed message; of its attributes only the names matter. -/
structure StunMessage where
  messageClass : StunClass
  transactionId : Bytes
  attributes : List Text
  deriving DecidableEq, Repr

/-- What the filter leaves to aioice: `stun.parse_message`, which raises `ValueError` or returns a message. -/
class Stun where
  parseMessage : (data : Bytes) → (integrityKey : Option Bytes) → Option StunMessage

/-- An argument pair of `StunProtocol.request`. -/
structure StunRequest where
  transactionId : Bytes
  integrityKey : Option Bytes
  deriving DecidableEq, Repr

/-- A protocol: its `integrity_keys`, and the requests that await aioice's own `request`. -/
structure StunProtocol where
  integrityKeys : Dict Bytes Bytes := Dict.empty
  inFlight : List StunRequest := []

/-- A request starts; one of those in flight returns, raises or is cancelled; a datagram comes in. -/
inductive StunEvent (α : Type) where
  | request (r : StunRequest)
  | ended (index : Nat)
  | datagram (data : Bytes) (addr : α)
  deriving DecidableEq, Repr

def messageIntegrity : Text := "MESSAGE-INTEGRITY".toList

/-- `data[8:20]`. -/
def datagramId (data : Bytes) : Bytes := (data.drop 8).take 12

/-- The message is a reply: a STUN response or error. -/
def StunMessage.isReply (m : StunMessage) : Bool := m.messageClass ∈ [StunClass.response, StunClass.error]

namespace StunProtocol
section Replies
variable {α : Type} [Stun]

def isAuthentic (data key : Bytes) : Bool :=
  match Stun.parseMessage data none with
  | none => true
  | some message =>
    if ¬ message.isReply then true
    else if messageIntegrity ∉ message.attributes then false
    else (Stun.parseMessage data (some key)).isSome

/-- `_request` up to its await. -/
def request (p : StunProtocol) (r : StunRequest) : StunProtocol :=
  { integrityKeys := match r.integrityKey with
      | some key => p.integrityKeys.set r.transactionId key
      | none => p.integrityKeys,
    inFlight := p.inFlight ++ [r] }

/-- The `finally` of `_request`. -/
def ended (p : StunProtocol) (index : Nat) : StunProtocol :=
  match p.inFlight[index]? with
  | none => p
  | some r => { integrityKeys := p.integrityKeys.pop r.transactionId, inFlight := p.inFlight.eraseIdx index }

/-- `_datagram_received`: what it hands to aioice's own. -/
def datagramReceived (p : StunProtocol) (data : Bytes) (addr : α) : List (Bytes × α) :=
  match p.integrityKeys.get? (datagramId data) with
  | some key => if isAuthentic data key then [(data, addr)] else []
  | none => [(data, addr)]

def next (p : StunProtocol) : StunEvent α → StunProtocol
  | .request r => p.request r
  | .ended index => p.ended index
  | .datagram _ _ => p

/-- No request in flight has the transaction id of one that starts. -/
def Distinct (p : StunProtocol) : StunEvent α → Prop
  | .request r => r.transactionId ∉ p.inFlight.map StunRequest.transactionId
  | _ => True

instance (p : StunProtocol) (e : StunEvent α) : Decidable (p.Distinct e) :=
  match e with
  | .request _ => inferInstanceAs (Decidable (_ ∉ _))
  | .ended _ | .datagram _ _ => .isTrue trivial

/-- The keys are those of the requests in flight. -/
structure Tracked (p : StunProtocol) : Prop where
  distinct : (p.inFlight.map StunRequest.transactionId).Nodup
  keys : ∀ id key, p.integrityKeys.get? id = some key ↔ ⟨id, some key⟩ ∈ p.inFlight

omit [Stun] in
private theorem tracked_request {p : StunProtocol} (h : p.Tracked) {r : StunRequest}
    (hr : r.transactionId ∉ p.inFlight.map StunRequest.transactionId) : (p.request r).Tracked := by
  have hno : ∀ key, ⟨r.transactionId, key⟩ ∉ p.inFlight := fun key hmem => hr (List.mem_map.mpr ⟨_, hmem, rfl⟩)
  refine ⟨?_, fun id key => ?_⟩
  · rw [request, List.map_append, List.nodup_append]
    refine ⟨h.distinct, List.nodup_singleton _, ?_⟩
    rintro a ha b hb rfl
    exact hr (List.mem_singleton.mp hb ▸ ha)
  · obtain ⟨transactionId, integrityKey⟩ := r
    cases integrityKey with
    | none => simp [request, h.keys]
    | some own =>
      simp only [request, Dict.get?_set, List.mem_append, List.mem_singleton, StunRequest.mk.injEq, Option.some.injEq]
      by_cases hid : id = transactionId
      · subst hid
        simp [hno (some key), eq_comm]
      · simp [hid, h.keys]

omit [Stun] in
private theorem tracked_ended {p : StunProtocol} (h : p.Tracked) (index : Nat) : (p.ended index).Tracked := by
  unfold ended
  split
  · exact h
  · next r hr =>
    obtain ⟨hlt, rfl⟩ := List.getElem?_eq_some_iff.mp hr
    have hperm := List.getElem_cons_eraseIdx_perm hlt
    have hnodup := (hperm.map StunRequest.transactionId).nodup_iff.mpr h.distinct
    rw [List.map_cons, List.nodup_cons] at hnodup
    refine ⟨hnodup.2, fun id key => ?_⟩
    rw [Dict.get?_pop]
    split
    · next hid =>
      subst hid
      exact iff_of_false (by simp) fun hmem => hnodup.1 (List.mem_map.mpr ⟨_, hmem, rfl⟩)
    · next hid =>
      rw [h.keys, ← hperm.mem_iff, List.mem_cons, or_iff_right]
      intro heq
      rw [← heq] at hid
      exact hid rfl

omit [Stun] in
theorem tracked_next (p : StunProtocol) (e : StunEvent α) (h : p.Tracked) (he : p.Distinct e) : (p.next e).Tracked := by
  cases e with
  | request r => exact tracked_request h he
  | ended index => exact tracked_ended h index
  | datagram data addr => exact h

/-- A datagram is withheld if it claims to be a reply and is not authentic. -/
theorem isAuthentic_eq_false {data key : Bytes} : isAuthentic data key = false ↔
    ∃ m, Stun.parseMessage data none = some m ∧ m.isReply = true ∧
      (messageIntegrity ∉ m.attributes ∨ Stun.parseMessage data (some key) = none) := by
  unfold isAuthentic
  cases hm : Stun.parseMessage data none with
  | none => simp
  | some m =>
    by_cases hreply : m.isReply = true
    · by_cases hattribute : messageIntegrity ∈ m.attributes
      · simp [hreply, hattribute]
      · simp [hreply, hattribute]
    · simp [hreply]

/-- In every run, whatever starts, ends and comes in: the keys are those of the keyed requests in
flight; exactly the replies to these that are not authentic are withheld, and all else is
passed on as it came. So a reply that is passed on to a keyed request is authentic. -/
theorem only_authentic_replies
    (hid : ∀ (data : Bytes) key m, Stun.parseMessage data key = some m → m.transactionId = datagramId data)
    (events : List (StunEvent α)) (h : Machine.Along Distinct next {} events) :
    let p := Machine.run next {} events
    (∀ id key, p.integrityKeys.get? id = some key ↔ ⟨id, some key⟩ ∈ p.inFlight) ∧
      ∀ (data : Bytes) (addr : α),
        (p.datagramReceived data addr = [] ↔ ∃ key m, ⟨datagramId data, some key⟩ ∈ p.inFlight ∧
          Stun.parseMessage data none = some m ∧ m.isReply = true ∧
            (messageIntegrity ∉ m.attributes ∨ Stun.parseMessage data (some key) = none)) ∧
        (p.datagramReceived data addr ≠ [] → p.datagramReceived data addr = [(data, addr)]) ∧
        ∀ r key m, r ∈ p.inFlight → r.integrityKey = some key → p.datagramReceived data addr ≠ [] →
          Stun.parseMessage data none = some m → m.isReply = true → m.transactionId = r.transactionId →
            messageIntegrity ∈ m.attributes ∧ (Stun.parseMessage data (some key)).isSome = true := by
  have htracked : (Machine.run next {} events).Tracked :=
    Machine.run_invariant tracked_next ⟨List.nodup_nil, by simp⟩ h
  generalize Machine.run next {} events = p at htracked
  have withheld : ∀ (data : Bytes) (addr : α), p.datagramReceived data addr = [] ↔
      ∃ key m, ⟨datagramId data, some key⟩ ∈ p.inFlight ∧ Stun.parseMessage data none = some m ∧ m.isReply = true ∧
        (messageIntegrity ∉ m.attributes ∨ Stun.parseMessage data (some key) = none) := by
    intro data addr
    simp only [← htracked.keys, datagramReceived]
    cases hkey : p.integrityKeys.get? (datagramId data) with
    | none => simp
    | some key =>
      have hauthentic := @isAuthentic_eq_false _ data key
      cases ha : isAuthentic data key with
      | false => simpa [ha] using hauthentic
      | true => simpa [ha] using hauthentic
  refine ⟨htracked.keys, fun data addr => ⟨withheld data addr, fun hpassed => ?_, ?_⟩⟩
  · unfold datagramReceived at hpassed ⊢
    cases hkey : p.integrityKeys.get? (datagramId data) with
    | none => rfl
    | some key =>
      rw [hkey] at hpassed
      by_cases ha : isAuthentic data key = true
      · simp [ha]
      · exact absurd (if_neg ha) hpassed
  · intro r key m hr hkey hpassed hm hreply heq
    obtain ⟨transactionId, _⟩ := r
    obtain rfl : _ = some key := hkey
    obtain rfl : m.transactionId = transactionId := heq
    rw [hid data none m hm] at hr
    by_contra hbad
    refine hpassed ((withheld data addr).mpr ⟨key, m, hr, hm, hreply, ?_⟩)
    by_cases hattribute : messageIntegrity ∈ m.attributes
    · refine .inr ?_
      rw [← Option.not_isSome_iff_eq_none]
      exact fun hsome => hbad ⟨hattribute, hsome⟩
    · exact .inl hattribute

end Replies

/-- A message that is a header alone. -/
def parseHeader (data : Bytes) : Option StunMessage :=
  match data with
  | high :: low :: 0 :: 0 :: rest =>
    if rest.length = 16 then
      let messageClass := match high &&& 1, low &&& 16 with
        | 0, 0 => StunClass.request
        | 0, _ => .indication
        | _, 0 => .response
        | _, _ => .error
      some ⟨messageClass, datagramId data, []⟩
    else none
  | _ => none

theorem parseHeader_id {data : Bytes} {m : StunMessage} (h : parseHeader data = some m) : m.transactionId = datagramId data := by
  unfold parseHeader at h
  split at h
  · split at h
    · rw [← Option.some.inj h]
    · cases h
  · cases h

@[reducible] def headerOnly : Stun := ⟨fun data _ => parseHeader data⟩

/-- A success response without attributes, to a request with a key and to one without. -/
theorem only_authentic_replies_unsigned :
    letI := headerOnly
    let cookie : Bytes := [0x21, 0x12, 0xA4, 0x42]
    let events : List (StunEvent Unit) := [.request ⟨List.replicate 12 7, some [1]⟩, .request ⟨List.replicate 12 8, none⟩]
    let p := Machine.run next {} events
    p.datagramReceived ([1, 1, 0, 0] ++ cookie ++ List.replicate 12 7) () = [] ∧
      p.datagramReceived ([1, 1, 0, 0] ++ cookie ++ List.replicate 12 8) () ≠ [] := by
  let _ := headerOnly
  intro cookie events p
  have hrun := (only_authentic_replies (fun _ _ _ => parseHeader_id) events (by decide)).2
  refine ⟨(hrun _ ()).1.mpr ⟨[1], ⟨.response, List.replicate 12 7, []⟩, by decide, by decide, by decide, .inl (by decide)⟩, ?_⟩
  decide

end StunProtocol
end NetherNet
