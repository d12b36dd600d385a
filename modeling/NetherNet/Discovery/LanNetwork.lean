import Mathlib.Data.List.Perm.Basic
import Mathlib.Logic.Equiv.Basic
import Mathlib.Logic.Function.Basic
import NetherNet.Discovery.LanEvents

/-! Transports and the datagrams between them. A reply is paid by a Request on its way, and
is no Request to whoever it reaches. -/
namespace NetherNet
open Library

/-- A datagram on its way to one transport. -/
structure Flight (ι : Type) where
  data : Bytes
  source : Address
  target : ι
  deriving DecidableEq, Repr

structure LanNetwork (ι : Type) where
  node : ι → LanTransport
  addressOf : ι → Address
  /-- The transports that what is sent to an address reaches. -/
  reach : Address → List ι
  flying : List (Flight ι) := []

/-- A datagram may be delivered in any order, lost or copied, and anyone may put one on the wire. -/
inductive NetworkEvent (ι : Type) where
  | deliver (n : Nat)
  | lose (n : Nat)
  | copy (n : Nat)
  | inject (flight : Flight ι)
  | call (i : ι) (c : LanCall)
  deriving DecidableEq, Repr

def LanOutput.isPacket : Option LanOutput → Bool
  | some (.sendto _ _) => true
  | _ => false

theorem LanOutput.eq_sendto {output : Option LanOutput} (h : isPacket output = true) :
    ∃ datagram target, output = some (.sendto datagram target) := by
  cases output with
  | none => cases h
  | some output =>
    cases output with
    | sendto datagram target => exact ⟨datagram, target, rfl⟩
    | _ => cases h

namespace LanNetwork
variable {ι : Type}

/-- The flights of an output of one transport. -/
def flightsOf (s : LanNetwork ι) (i : ι) : Option LanOutput → List (Flight ι)
  | some (.sendto data addr) => (s.reach addr).map fun j => ⟨data, s.addressOf i, j⟩
  | _ => []

theorem mem_flightsOf {s : LanNetwork ι} {i : ι} {output : Option LanOutput} {f : Flight ι} (h : f ∈ s.flightsOf i output) :
    ∃ datagram target, output = some (.sendto datagram target) ∧ f.data = datagram := by
  cases output with
  | none => cases h
  | some output =>
    cases output with
    | sendto datagram target =>
      obtain ⟨j, _, rfl⟩ := List.mem_map.mp h
      exact ⟨datagram, target, rfl, rfl⟩
    | _ => cases h

variable [Primitives]

/-- What one transport puts on the wire. -/
def puts (s : LanNetwork ι) (i : ι) (e : LanEvent) : List (Flight ι) := ((s.node i).shows e).flatMap (s.flightsOf i)

/-- An event at one transport. -/
def happens [DecidableEq ι] (s : LanNetwork ι) (i : ι) (e : LanEvent) : LanNetwork ι :=
  { s with node := Function.update s.node i ((s.node i).next e), flying := s.flying ++ s.puts i e }

def step [DecidableEq ι] (s : LanNetwork ι) : NetworkEvent ι → LanNetwork ι
  | .deliver n =>
    match s.flying[n]? with
    | none => s
    | some f => ({ s with flying := s.flying.eraseIdx n }).happens f.target (.datagramReceived f.data f.source)
  | .lose n => { s with flying := s.flying.eraseIdx n }
  | .copy n => { s with flying := s.flying ++ s.flying[n]?.toList }
  | .inject flight => { s with flying := s.flying ++ [flight] }
  | .call i c => s.happens i (.call c)

/-- The packets that a delivery makes its receiver send. -/
def replies (s : LanNetwork ι) : NetworkEvent ι → List (Option LanOutput)
  | .deliver n =>
    match s.flying[n]? with
    | none => []
    | some f => ((s.node f.target).shows (.datagramReceived f.data f.source)).filter LanOutput.isPacket
  | _ => []

/-- A datagram that its target takes as a Request. -/
def isRequest (s : LanNetwork ι) (f : Flight ι) : Bool :=
  match (s.node f.target).received f.data with
  | some (.request _) => true
  | _ => false

/-- The Requests that get on the wire otherwise than by a delivery. -/
def asked (s : LanNetwork ι) : NetworkEvent ι → List (Flight ι)
  | .deliver _ | .lose _ => []
  | .copy n => s.flying[n]?.toList.filter s.isRequest
  | .inject flight => [flight].filter s.isRequest
  | .call i c => (s.puts i (.call c)).filter s.isRequest

@[simp] theorem asked_deliver (s : LanNetwork ι) (n : Nat) : s.asked (.deliver n) = [] := rfl

def requests (s : LanNetwork ι) : Nat := s.flying.countP s.isRequest

/-- What a transport puts on the wire opens at no transport with another key. -/
def OpensAtHome (s : LanNetwork ι) (i : ι) (e : LanEvent) : Prop :=
  ∀ f ∈ s.puts i e, deriveKey (s.node i).applicationId ≠ deriveKey (s.node f.target).applicationId →
    Envelope.openEnvelope (deriveKey (s.node f.target).applicationId) f.data = none

/-- What the MAC is for: no envelope of a transport passes for one under another key. -/
def Unforged (s : LanNetwork ι) : NetworkEvent ι → Prop
  | .deliver n => ∀ f, s.flying[n]? = some f → s.OpensAtHome f.target (.datagramReceived f.data f.source)
  | .call i c => s.OpensAtHome i (.call c)
  | _ => True

/-! ### What no event changes -/

private theorem happens_same [DecidableEq ι] (s : LanNetwork ι) (i : ι) (e : LanEvent) (j : ι) :
    (s.node j).SameArguments ((s.happens i e).node j) := by
  show (s.node j).SameArguments (Function.update s.node i ((s.node i).next e) j)
  by_cases h : j = i
  · subst h
    rw [Function.update_self]
    exact LanTransport.next_same ..
  · rw [Function.update_of_ne h]
    exact ⟨rfl, rfl, rfl⟩

theorem step_same [DecidableEq ι] (s : LanNetwork ι) (e : NetworkEvent ι) (j : ι) : (s.node j).SameArguments ((s.step e).node j) := by
  cases e with
  | deliver n =>
    rw [step]
    split
    · exact ⟨rfl, rfl, rfl⟩
    · exact happens_same ..
  | call i c => exact happens_same ..
  | _ => exact ⟨rfl, rfl, rfl⟩

theorem step_reach [DecidableEq ι] (s : LanNetwork ι) (e : NetworkEvent ι) : (s.step e).reach = s.reach := by
  cases e with
  | deliver n =>
    rw [step]
    split <;> rfl
  | _ => rfl

theorem run_same [DecidableEq ι] (s : LanNetwork ι) (events : List (NetworkEvent ι)) (j : ι) :
    (s.node j).SameArguments ((Machine.run step s events).node j) := by
  induction events generalizing s with
  | nil => exact ⟨rfl, rfl, rfl⟩
  | cons e rest ih => exact (step_same s e j).trans (ih (s.step e))

theorem run_reach [DecidableEq ι] (s : LanNetwork ι) (events : List (NetworkEvent ι)) : (Machine.run step s events).reach = s.reach :=
  Machine.run_invariant_always (fun (s' : LanNetwork ι) e (h : s'.reach = s.reach) => (step_reach s' e).trans h) rfl events

theorem isRequest_step [DecidableEq ι] (s : LanNetwork ι) (e : NetworkEvent ι) : (s.step e).isRequest = s.isRequest := by
  funext f
  rw [isRequest, isRequest, (step_same s e f.target).received]

/-- In a network of one key there is no other to open under. -/
theorem unforged_of_one_key [DecidableEq ι] {s : LanNetwork ι}
    (h : ∀ i j, deriveKey (s.node i).applicationId = deriveKey (s.node j).applicationId) (events : List (NetworkEvent ι)) :
    Machine.Along Unforged step s events := by
  induction events generalizing s with
  | nil => trivial
  | cons e rest ih =>
    have hhome : ∀ i e, s.OpensAtHome i e := fun i e f _ hkey => absurd (h i f.target) hkey
    refine ⟨?_, ih fun i j => ?_⟩
    · cases e with
      | deliver n => exact fun f _ => hhome f.target _
      | call i c => exact hhome i _
      | _ => trivial
    · rw [(step_same s e i).applicationId, (step_same s e j).applicationId]
      exact h i j

/-! ### What is sent on a delivery, and on a broadcast -/

/-- A delivery makes its target send one packet at most, and none but on a Request. -/
private theorem length_replies (s : LanNetwork ι) (f : Flight ι) :
    (((s.node f.target).shows (.datagramReceived f.data f.source)).filter LanOutput.isPacket).length ≤
      if s.isRequest f then 1 else 0 := by
  cases hreceived : (s.node f.target).received f.data with
  | none =>
    rw [LanTransport.shows, LanTransport.react, LanTransport.onDatagram_dropped hreceived]
    exact Nat.zero_le _
  | some packet =>
    have hhandles := LanTransport.handles_received hreceived f.source
    split
    · exact Nat.le_trans (List.length_filter_le _ _) hhandles.atMostOne
    · next hother =>
      rw [Nat.le_zero, List.length_eq_zero_iff, List.filter_eq_nil_iff]
      intro output houtput hpacket
      obtain ⟨datagram, target, rfl⟩ := LanOutput.eq_sendto hpacket
      obtain ⟨_, hrequest, _⟩ := hhandles.replies datagram target houtput
      rw [isRequest, hreceived, hrequest] at hother
      exact hother rfl

/-- One broadcast is as many Requests on the wire as it reaches transports, at most. -/
theorem asked_broadcastRequest (s : LanNetwork ι) (i : ι) :
    (s.asked (.call i .broadcastRequest)).length ≤ (s.reach (s.node i).broadcastAddr).length := by
  refine Nat.le_trans (List.length_filter_le _ _) ?_
  rw [puts, LanTransport.shows, LanTransport.react, LanTransport.call, LanTransport.broadcastRequest, LanTransport.sendPacket]
  split
  · cases (DiscoveryPacket.request (s.node i).localId).serialize with
    | none => exact Nat.zero_le _
    | some plaintext => simp [LanTransport.shown, flightsOf]
  · exact Nat.zero_le _

/-- The flight that is delivered or lost, and the others. -/
private theorem countP_eraseIdx (s : LanNetwork ι) {n : Nat} {f : Flight ι} (h : s.flying[n]? = some f) :
    (s.flying.eraseIdx n).countP s.isRequest + (if s.isRequest f then 1 else 0) = s.requests := by
  obtain ⟨hn, rfl⟩ := List.getElem?_eq_some_iff.mp h
  rw [requests, ← (List.getElem_cons_eraseIdx_perm hn).countP_eq, List.countP_cons]

private theorem countP_added (s : LanNetwork ι) (added : List (Flight ι)) :
    (s.flying ++ added).countP s.isRequest = s.requests + (added.filter s.isRequest).length := by
  rw [List.countP_append, ← List.countP_eq_length_filter]
  rfl

/-! ### A reply is not a Request -/

variable [LawfulPrimitives]

/-- A sealed packet that is no Request is none to whom it reaches. -/
private theorem isRequest_sealed {s : LanNetwork ι} {i : ι} {e : LanEvent} {f : Flight ι} (hhome : s.OpensAtHome i e)
    (hf : f ∈ s.puts i e) {packet : DiscoveryPacket} {plaintext : Bytes} (hserialize : packet.serialize = some plaintext)
    (hpacket : packet ≠ .request packet.senderId)
    (hdata : f.data = Envelope.sealPlaintext (deriveKey (s.node i).applicationId) plaintext) : s.isRequest f = false := by
  rw [isRequest]
  split
  · next senderId hreceived =>
    obtain ⟨_, opened, hopen, hparse⟩ := LanTransport.received_eq_some.mp hreceived
    by_cases hkey : deriveKey (s.node i).applicationId = deriveKey (s.node f.target).applicationId
    · rw [hdata, hkey, Envelope.openEnvelope_sealPlaintext, Option.some.injEq] at hopen
      rw [← hopen, DiscoveryPacket.parse_serialize hserialize] at hparse
      cases packet with
      | request _ => exact absurd rfl hpacket
      | response _ _ => cases hparse
      | message _ _ _ => cases hparse
    · rw [hhome f hf hkey] at hopen
      cases hopen
  · rfl

/-- What a transport puts on the wire on a datagram is no Request to whom it reaches. -/
private theorem isRequest_puts {s : LanNetwork ι} {i : ι} {data : Bytes} {addr : Address}
    (hhome : s.OpensAtHome i (.datagramReceived data addr)) {f : Flight ι}
    (h : f ∈ s.puts i (.datagramReceived data addr)) : s.isRequest f = false := by
  obtain ⟨output, houtput, hf⟩ := List.mem_flatMap.mp h
  cases hreceived : (s.node i).received data with
  | none =>
    rw [LanTransport.shows, LanTransport.react, LanTransport.onDatagram_dropped hreceived] at houtput
    cases houtput
  | some packet =>
    obtain ⟨datagram, target, rfl, hdata⟩ := mem_flightsOf hf
    obtain ⟨_, _, _, plaintext, _, hserialize, rfl⟩ :=
      (LanTransport.handles_received hreceived addr).replies datagram target houtput
    exact isRequest_sealed hhome h hserialize (by rintro ⟨⟩) hdata

/-- A signal is no Request to whom it reaches. -/
theorem asked_sendSignal {s : LanNetwork ι} {i : ι} {remoteId : NetworkId} {message : Text}
    (hhome : s.OpensAtHome i (.call (.sendSignal remoteId message))) :
    s.asked (.call i (.sendSignal remoteId message)) = [] := by
  rw [asked, List.filter_eq_nil_iff]
  intro f h
  obtain ⟨output, houtput, hf⟩ := List.mem_flatMap.mp h
  obtain ⟨datagram, target, rfl, hdata⟩ := mem_flightsOf hf
  obtain ⟨plaintext, hserialize, hsent⟩ := LanTransport.mem_sendPacket houtput
  cases hsent
  rw [isRequest_sealed hhome h hserialize (by rintro ⟨⟩) hdata]
  exact Bool.false_ne_true

/-! ### Requests pay for replies -/

/-- Every event sends in reply no more than it takes off the Requests on the wire. -/
private theorem pays [DecidableEq ι] (s : LanNetwork ι) (e : NetworkEvent ι) (hunforged : s.Unforged e) :
    (s.replies e).length + (s.step e).requests ≤ s.requests + (s.asked e).length := by
  rw [requests, isRequest_step]
  cases e with
  | deliver n =>
    cases hn : s.flying[n]? with
    | none =>
      simp only [replies, step, asked, hn]
      exact Nat.le_of_eq (Nat.add_comm _ _)
    | some f =>
      have hnone : (s.puts f.target (.datagramReceived f.data f.source)).countP s.isRequest = 0 :=
        List.countP_eq_zero.mpr fun g hg => by simp [isRequest_puts (hunforged f hn) hg]
      have hreplies := length_replies s f
      have hrest := s.countP_eraseIdx hn
      have hflying : (s.step (.deliver n)).flying = s.flying.eraseIdx n ++ s.puts f.target (.datagramReceived f.data f.source) := by
        simp only [step, hn]
        rfl
      rw [hflying, List.countP_append, hnone]
      simp only [replies, asked, hn, List.length_nil]
      omega
  | lose n =>
    have hle : (s.flying.eraseIdx n).countP s.isRequest ≤ s.flying.countP s.isRequest :=
      (List.eraseIdx_sublist ..).countP_le
    simpa [replies, asked, step, requests] using hle
  | copy n => exact (Nat.zero_add _).trans_le (s.countP_added _).le
  | inject flight => exact (Nat.zero_add _).trans_le (s.countP_added _).le
  | call i c => exact (Nat.zero_add _).trans_le (s.countP_added _).le

/-- Over a run the replies are no more than the Requests on the wire at its start and those put there since. -/
theorem replies_run [DecidableEq ι] {s : LanNetwork ι} {events : List (NetworkEvent ι)}
    (hunforged : Machine.Along Unforged step s events) :
    (Machine.collect step replies s events).length + (Machine.run step s events).requests ≤
      s.requests + (Machine.collect step asked s events).length :=
  Machine.collect_potential pays hunforged

/-- A signal sent in a run puts no Request on the wire. -/
theorem asked_signals [DecidableEq ι] {s : LanNetwork ι} {events first rest : List (NetworkEvent ι)} {i : ι} {remoteId : NetworkId}
    {message : Text} (hunforged : Machine.Along Unforged step s events)
    (h : events = first ++ .call i (.sendSignal remoteId message) :: rest) :
    (Machine.run step s first).asked (.call i (.sendSignal remoteId message)) = [] := by
  rw [h, Machine.along_append] at hunforged
  exact asked_sendSignal hunforged.2.1

end LanNetwork

/-! ### What runs of transports come to -/

open LanTransport in
/-- A run may leave out the datagrams that are dropped. On the others a transport calls back with
a signal exactly for a Message to it with text in it, and sends at most one packet, the
Response to a Request; they write no address under id 0 or the own id; and a signal goes
where the last datagram or call told of a peer with the value of its id, else where the
table had it, else to all. Between any number of transports a broadcast is as many Requests
as it reaches transports, signals are none, and the packets that datagrams make the
transports send are no more than the Requests that got on the wire. -/
theorem lan_runs [Primitives] [LawfulPrimitives] {ι : Type} [DecidableEq ι] (t : LanTransport) (events : List LanEvent)
    (s : LanNetwork ι) (networkEvents : List (NetworkEvent ι)) :
    (Machine.run next t (events.filter (!t.dropped ·)) = Machine.run next t events ∧
      Machine.collect next shows t (events.filter (!t.dropped ·)) = Machine.collect next shows t events) ∧
    (∀ data packet addr, (Machine.run next t events).received data = some packet →
      (Machine.run next t events).Handles packet addr ((Machine.run next t events).shows (.datagramReceived data addr))) ∧
    (∀ data addr value, value = 0 ∨ value = (Machine.run next t events).localId →
      ((Machine.run next t events).next (.datagramReceived data addr)).peers.get? value =
        (Machine.run next t events).peers.get? value) ∧
    (∀ remoteId message, (Machine.run next t events).sendSignal remoteId message = (Machine.run next t events).sendPacket
      (.message t.localId remoteId.value (encodeUtf8 message))
      (((t.lastAddress events remoteId.value).or (t.peers.get? remoteId.value)).getD t.broadcastAddr)) ∧
    (∀ first i rest, networkEvents = first ++ .call i .broadcastRequest :: rest →
      ((Machine.run LanNetwork.step s first).asked (.call i .broadcastRequest)).length ≤
        (s.reach (s.node i).broadcastAddr).length) ∧
    (Machine.Along LanNetwork.Unforged LanNetwork.step s networkEvents →
      (∀ first i remoteId message rest, networkEvents = first ++ .call i (.sendSignal remoteId message) :: rest →
        (Machine.run LanNetwork.step s first).asked (.call i (.sendSignal remoteId message)) = []) ∧
      (Machine.collect LanNetwork.step LanNetwork.replies s networkEvents).length +
          (Machine.run LanNetwork.step s networkEvents).requests ≤
        s.requests + (Machine.collect LanNetwork.step LanNetwork.asked s networkEvents).length) := by
  refine ⟨run_attended t events, fun data packet addr h => handles_received h addr,
    fun data addr value h => peers_onDatagram _ data addr h, fun remoteId message => sendSignal_run t events remoteId message,
    fun first i rest _ => ?_, fun hunforged => ⟨?_, LanNetwork.replies_run hunforged⟩⟩
  · have hasked := LanNetwork.asked_broadcastRequest (Machine.run LanNetwork.step s first) i
    rwa [(LanNetwork.run_same s first i).broadcastAddr, LanNetwork.run_reach] at hasked
  · intro first i remoteId message rest h
    exact LanNetwork.asked_signals hunforged h

/-! ### A remembered peer, and two transports under the default application id -/

/-- Two transports on one segment, the second advertising a host. -/
private def twoTransports : LanNetwork Bool where
  node second := if second then { LanTransport.onDefaultPort 2 with advertisement := some [1] } else .onDefaultPort 1
  addressOf second := (if second then "10.0.0.2".toList else "10.0.0.1".toList, 7551)
  reach addr := if addr = ("10.0.0.1".toList, 7551) then [false] else [true]

/-- A Request from the first and a signal from the second, and three deliveries. -/
private def exchange : List (NetworkEvent Bool) :=
  [.call false .broadcastRequest, .deliver 0, .call true (.sendSignal (.p2p 1) "CANDIDATEADD 7 c".toList), .deliver 0, .deliver 0]

/-- A signal to a remembered peer goes to its address, and a Request that reaches one transport
is answered at most once. -/
theorem lan_runs_remembered :
    letI := recorded
    let addr : Address := ("10.0.0.2".toList, 7551)
    (∃ datagram, (Machine.run LanTransport.next (.onDefaultPort 1) [.call (.rememberPeer (.p2p 2) addr)]).sendSignal (.p2p 2)
      "CANDIDATEADD 7 c".toList = some [.sendto datagram addr]) ∧
    (Machine.collect LanNetwork.step LanNetwork.replies twoTransports exchange).length ≤ 1 := by
  intro addr
  have hunforged := @LanNetwork.unforged_of_one_key Bool recorded _ twoTransports (fun i j => by cases i <;> cases j <;> rfl) exchange
  obtain ⟨_, _, _, hsignal, hbroadcast, hnetwork⟩ := @lan_runs recorded lawful_recorded Bool _ (.onDefaultPort 1)
    [.call (.rememberPeer (.p2p 2) addr)] twoTransports exchange
  obtain ⟨hsignals, hreplies⟩ := hnetwork hunforged
  constructor
  · rw [hsignal]
    exact @LanTransport.sendPacket_onDefaultPort recorded (.p2p 2) (by decide) "CANDIDATEADD 7 c".toList addr
  · have hfirst := hbroadcast [] false _ rfl
    have hthird := hsignals [.call false .broadcastRequest, .deliver 0] true _ _ _ rfl
    rw [Machine.run_cons, Machine.run_cons, Machine.run_nil] at hthird
    rw [Machine.run_nil] at hfirst
    have hpaid : @Machine.collect _ _ _ (@LanNetwork.step _ recorded _) (@LanNetwork.asked _ recorded) twoTransports exchange =
        @LanNetwork.asked _ recorded twoTransports (.call false .broadcastRequest) := by
      simp only [exchange, Machine.collect, hthird, LanNetwork.asked_deliver, List.append_nil]
    rw [hpaid] at hreplies
    have hnone : @LanNetwork.requests _ recorded twoTransports = 0 := rfl
    have hreach : (twoTransports.reach (twoTransports.node false).broadcastAddr).length = 1 := rfl
    omega

/-- Realms ids all have the value 0: what is remembered for one is where signals to another go. -/
theorem signal_to_another_realms_id :
    letI := recorded
    let t := LanTransport.onDefaultPort 1
    let addr : Address := ("10.0.0.5".toList, 7551)
    let events : List LanEvent := [.call (.rememberPeer (.realms 1) addr)]
    (∀ peer ∈ events.filterMap t.learns, peer.1 ≠ .realms 2) ∧ t.peers.get? 0 = none ∧ addr ≠ t.broadcastAddr ∧
      ∃ datagram, (Machine.run LanTransport.next t events).sendSignal (.realms 2) "CANDIDATEADD 7 c".toList =
        some [.sendto datagram addr] := by
  let _ := recorded
  intro t addr events
  refine ⟨?_, rfl, by decide, ?_⟩
  · rintro peer hpeer
    cases List.mem_singleton.mp hpeer
    decide
  · exact LanTransport.sendPacket_onDefaultPort (.realms 2) (by decide) "CANDIDATEADD 7 c".toList addr

end NetherNet
