import NetherNet.Peers.LanSegment

/-! Two transports on a LAN are two managers that hand each other their signals. -/
namespace NetherNet
open Library

theorem Side.eq_other {side side' : Side} (h : side' ≠ side) : side' = side.other := by
  cases side <;> cases side' <;> first | rfl | exact absurd rfl h

theorem Side.other_ne (side : Side) : side.other ≠ side := by
  cases side <;> decide

theorem Manager.SentTo.sent {m : Manager} {remoteId : NetworkId} {text : Text} (h : m.SentTo remoteId text) : m.Sent text := by
  obtain ⟨r, l, hl, _, hsent⟩ := h
  exact ⟨r, l, hl, hsent⟩

namespace Peers
variable [Aiortc]

/-- Steps of one side are steps of its manager. -/
theorem run_side (w : Peers) (side : Side) (events : List ManagerEvent) :
    Machine.run next w (events.map fun e => (side, e)) =
      fun side' => if side' = side then Machine.run Manager.next (w side') events else w side' := by
  induction events generalizing w with
  | nil =>
    funext side'
    exact (ite_self _).symm
  | cons e rest ih =>
    rw [List.map_cons, Machine.run_cons, ih]
    funext side'
    by_cases h : side' = side
    · subst h
      simp [next]
    · simp [next, h]

/-- Signals of the other side may be handed over one after another. -/
theorem along_delivers (w : Peers) (side : Side) (events : List ManagerEvent)
    (h : ∀ e ∈ events, ∃ senderId text, e = .deliver senderId text ∧ senderId = (w side.other).localId ∧ (w side.other).Sent text) :
    Machine.Along Honest next w (events.map fun e => (side, e)) := by
  induction events generalizing w with
  | nil => trivial
  | cons e rest ih =>
    obtain ⟨senderId, text, rfl, hdelivered⟩ := h e (List.mem_cons_self ..)
    refine ⟨hdelivered, ih _ fun e' he' => ?_⟩
    have hsame : w.next (side, .deliver senderId text) side.other = w side.other := if_neg side.other_ne
    rw [hsame]
    exact h e' (List.mem_cons_of_mem _ he')

end Peers

namespace LanSegment

section Refinement
variable [Aiortc] [Primitives]

/-- The two managers behind the transports. -/
def managers (s : LanSegment Side) : Peers := fun side => (s.node side).manager

/-- What an event does to the managers. -/
def calls (s : LanSegment Side) (e : Side × TransportEvent) : List (Side × ManagerEvent) :=
  ((s.node e.1).calls e.2).map fun e' => (e.1, e')

/-- Every signal that the event lets sessions send fits the payload of a packet. -/
def Fits (s : LanSegment Side) (e : Side × TransportEvent) : Prop :=
  ∀ e' ∈ (s.node e.1).calls e.2, ∀ signal ∈ Transport.signals (s.node e.1).manager e',
    (encodeUtf8 signal.2).length ≤ DiscoveryPacket.messagePayloadMax

instance decidableFits (s : LanSegment Side) (e : Side × TransportEvent) : Decidable (s.Fits e) :=
  inferInstanceAs (Decidable (∀ e' ∈ (s.node e.1).calls e.2, ∀ signal ∈ Transport.signals (s.node e.1).manager e',
    (encodeUtf8 signal.2).length ≤ DiscoveryPacket.messagePayloadMax))

/-- The application dials the other transport, under an id that neither has dialed before. -/
def Dials (s : LanSegment Side) : Side × TransportEvent → Prop
  | (side, .manager (.connect remoteId k)) => s.managers.Honest (side, .connect remoteId k)
  | _ => True

structure Honest (s : LanSegment Side) (e : Side × TransportEvent) : Prop where
  authentic : s.Authentic e
  fits : s.Fits e
  dials : s.Dials e

/-- The managers are those of the two peers, and every datagram is a packet of its sender. -/
structure Refines (s : LanSegment Side) (w : Peers) : Prop where
  managers : s.managers = w
  wired : s.Wired (fun _ _ => True) fun text => (encodeUtf8 text).length ≤ DiscoveryPacket.messagePayloadMax
  localId : ∀ side, (s.node side).manager.localId = .p2p (s.localId side)

variable [LawfulPrimitives]

private theorem along_calls {s : LanSegment Side} {w : Peers} (hs : s.Refines w) (e : Side × TransportEvent) (he : s.Honest e) :
    Machine.Along Peers.Honest Peers.next w (s.calls e) := by
  obtain ⟨side, e⟩ := e
  have hw := hs.managers
  subst hw
  cases e with
  | datagramReceived data addr =>
    refine Peers.along_delivers _ side _ fun e' he' => ?_
    obtain ⟨heq, _⟩ | ⟨_, _, senderId, text, _, rfl, _⟩ := (s.node side).calls_cases he'
    · cases heq
    · obtain ⟨j, remoteId, sent, rfl, hother, hsent, hfits, _, hdecode⟩ := signal_wired hs.wired he.authentic he'
      -- what fits is handed over as it was sent
      rw [List.take_of_length_le hfits, decodeUtf8_encodeUtf8, Option.some.injEq] at hdecode
      subst hdecode
      have hj : j = side.other := Side.eq_other fun h => hother (by rw [h])
      subst hj
      exact ⟨_, sent, rfl, (hs.localId side.other).symm, hsent.sent⟩
  | manager e =>
    cases e with
    | deliver senderId text => trivial
    | connect remoteId k => exact ⟨he.dials, trivial⟩
    | _ => exact ⟨trivial, trivial⟩
  | _ => trivial

private theorem refines_next {s : LanSegment Side} {w : Peers} (hs : s.Refines w) (e : Side × TransportEvent) (he : s.Honest e) :
    (s.next e).Refines (Machine.run Peers.next w (s.calls e)) := by
  refine ⟨?_, wired_next hs.wired e he.authentic ⟨fun _ _ => trivial, he.fits⟩, fun side => ?_⟩
  · rw [calls, Peers.run_side, ← hs.managers]
    funext side
    rw [LanSegment.managers, LanSegment.managers, next_node]
    split
    · next h =>
      subst h
      exact Transport.next_manager _ _
    · rfl
  · rw [next_localId, next_node]
    split
    · rw [Transport.next_manager, Manager.run_localId]
      exact hs.localId side
    · exact hs.localId side

/-- Two transports whose datagrams are not forged and whose signals fit their packets refine
two managers that hand each other their signals: in every such run each manager is what
it is after the run of the managers alone on the calls made to it, and that run is one in
which a manager is handed only what the other has sent. -/
theorem refines_peers (s : LanSegment Side) (events : List (Side × TransportEvent)) (hs : s.Fresh)
    (h : Machine.Along Honest next s events) : ∃ localId relayOnly,
      (∀ side, localId side = .p2p (s.localId side)) ∧
      (∀ side, ((Machine.run next s events).node side).manager =
        Machine.run Peers.next (Peers.new localId relayOnly) (Machine.collect next calls s events) side) ∧
      Machine.Along Peers.Honest Peers.next (Peers.new localId relayOnly) (Machine.collect next calls s events) := by
  have hmade : ∀ side, ∃ relayOnly, (s.node side).manager = Manager.new (.p2p (s.localId side)) relayOnly := by
    intro side
    obtain ⟨localId, applicationId, broadcastAddr, relayOnly, advertisement, hmade⟩ := hs.made side
    cases localId with
    | p2p value =>
      rw [localId, ← Option.some.inj hmade]
      exact ⟨relayOnly, rfl⟩
    | _ => cases hmade
  choose relayOnly hmade using hmade
  have hstart : s.Refines (Peers.new (fun side => .p2p (s.localId side)) relayOnly) := by
    refine ⟨funext hmade, wired_fresh hs fun _ _ _ => trivial, fun side => ?_⟩
    rw [hmade]
    rfl
  obtain ⟨hrefines, halong⟩ := Machine.along_simulated (R := Refines) (fun s w e hs he => ⟨refines_next hs e he, along_calls hs e he⟩)
    hstart h
  exact ⟨_, relayOnly, fun _ => rfl, fun side => congrFun hrefines.managers side, halong⟩

end Refinement

/-- The request of the left side reaches the manager of the right side. -/
theorem refines_peers_request :
    letI := recorded
    letI := anyCandidate
    let goOn : ManagerEvent := .session 0 (.resume 0 (.ok []))
    let calls : List (Side × ManagerEvent) := [(.left, .connect (.p2p 2) 7), (.left, goOn), (.left, goOn),
      (.right, .deliver (.p2p 1) (SignalingMessage.connectRequest 7 []).serialize)]
    ∃ localId relayOnly, Machine.Along Peers.Honest Peers.next (Peers.new localId relayOnly) calls ∧
      ((Machine.run next pair (dialing ++ [(.right, .datagramReceived (newest dialing) source)])).node .right).manager =
        Machine.run Peers.next (Peers.new localId relayOnly) calls .right := by
  let _ := recorded
  have _ := lawful_recorded
  let _ := anyCandidate
  intro goOn calls
  have hcalls : Machine.collect next LanSegment.calls pair (dialing ++ [(.right, .datagramReceived (newest dialing) source)]) =
      calls := by decide +kernel
  have honest : Machine.Along Honest next pair (dialing ++ [(.right, .datagramReceived (newest dialing) source)]) := by
    refine ⟨⟨trivial, ?_, trivial⟩, ⟨trivial, ?_, trivial⟩, ⟨trivial, ?_, ?_⟩, ⟨trivial, ?_, trivial⟩, ⟨trivial, ?_, trivial⟩,
      ⟨Or.inl ⟨.left, ?_, ?_⟩, ?_, trivial⟩, trivial⟩
    case refine_4 =>
      refine ⟨rfl, fun side r l hl => ?_⟩
      cases side <;> simp [managers, pair, next, Transport.next, Transport.react, Transport.callLan, Transport.new, Manager.new] at hl
    all_goals decide +kernel
  obtain ⟨localId, relayOnly, _, hmanagers, halong⟩ := refines_peers pair _ fresh_pair honest
  rw [hcalls] at halong
  refine ⟨localId, relayOnly, halong, ?_⟩
  rw [hmanagers, hcalls]

end LanSegment
end NetherNet
