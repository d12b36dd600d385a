import NetherNet.Api.Connection

/-! The endpoint of the public API: the connections it makes for the sessions of its
manager, routed by connection id. A service is an endpoint at work, with its manager,
its LAN socket and the server's accept loop. -/
namespace NetherNet
open Library

/-- A connection object, by its place in the order of creation. -/
abbrev ConnRef := Nat

/-- A run of `_on_session_close`: what stood in `_conns`, and the exception that ended it. -/
structure Close where
  session : Ref
  error : ErrorCode
  found : Option (ConnRef × Connection)
  escaped : Option Exn
  deriving DecidableEq, Repr

structure Endpoint where
  conns : Dict Nat ConnRef := Dict.empty
  pendingPackets : Dict Nat (List Bytes) := Dict.empty
  incoming : List ConnRef := []
  connections : List Connection := []
  /-- The connections the accept loop has handed to the server's handler, in order. -/
  handled : List ConnRef := []
  closes : List Close := []

namespace Endpoint

def maxPendingPackets : Nat := 256

/-- `_conns.get(connection_id)`. -/
def find? (e : Endpoint) (connectionId : Nat) : Option (ConnRef × Connection) :=
  match e.conns.get? connectionId with
  | none => none
  | some c => (e.connections[c]?).map (c, ·)

/-- A method of the connection `c` changes it. -/
def update (e : Endpoint) (c : ConnRef) (f : Connection → Connection) : Endpoint :=
  { e with connections := e.connections.modify c f }

/-- `_register`: the endpoint, and the new connection. -/
def register (e : Endpoint) (session : Ref) (connectionId : Nat) : Endpoint × ConnRef :=
  let conn : Connection := { session := session, connectionId := connectionId }
  let packets := (e.pendingPackets.get? connectionId).getD []
  ({ e with
      connections := e.connections ++ [packets.foldl Connection.enqueue conn]
      conns := e.conns.set connectionId e.connections.length
      pendingPackets := e.pendingPackets.pop connectionId }, e.connections.length)

def onSessionOpen (e : Endpoint) (session : Ref) (connectionId : Nat) : Endpoint :=
  match e.conns.get? connectionId with
  | some c => e.update c Connection.markConnected
  | none =>
    let made := e.register session connectionId
    { made.1 with incoming := made.1.incoming ++ [made.2] }.update made.2 Connection.markConnected

def onSessionClose (e : Endpoint) (session : Ref) (connectionId : Nat) (error : ErrorCode) : Endpoint :=
  match e.find? connectionId with
  | none =>
    { e with
        conns := e.conns.pop connectionId
        closes := e.closes ++ [⟨session, error, none, none⟩] }
  | some (c, conn) =>
    let marked := conn.markClosed error
    { e with
        conns := e.conns.pop connectionId
        connections := e.connections.set c marked.1
        closes := e.closes ++ [⟨session, error, some (c, conn), marked.2⟩] }

def onPacket (e : Endpoint) (connectionId : Nat) (data : Bytes) : Endpoint :=
  match e.conns.get? connectionId with
  | some c => e.update c (·.enqueue data)
  | none =>
    let buffer := (e.pendingPackets.get? connectionId).getD []
    let buffer := if buffer.length < maxPendingPackets then buffer ++ [data] else buffer
    { e with pendingPackets := e.pendingPackets.set connectionId buffer }

/-- What the manager shows, in the endpoint's callbacks. `connect` registers the session it gets back. -/
def output (connectionId : Ref → Nat) (e : Endpoint) : Output → Endpoint
  | .effect r .onOpen => e.onSessionOpen r (connectionId r)
  | .effect r (.onClose error) => e.onSessionClose r (connectionId r) error
  | .effect r (.onPacket data) => e.onPacket (connectionId r) data
  | .connected r => (e.register r (connectionId r)).1
  | _ => e

def outputs (connectionId : Ref → Nat) (e : Endpoint) (outs : List Output) : Endpoint :=
  outs.foldl (output connectionId) e

theorem find?_some {e : Endpoint} {k : Nat} {c : ConnRef} {conn : Connection} (h : e.find? k = some (c, conn)) :
    e.conns.get? k = some c ∧ e.connections[c]? = some conn := by
  unfold find? at h
  split at h
  · cases h
  · next c' hc' =>
    obtain ⟨conn', hconn', heq⟩ := Option.map_eq_some_iff.mp h
    cases heq
    exact ⟨hc', hconn'⟩

/-- The rule for a property of the endpoint that every callback keeps. -/
theorem outputs_invariant {P : Endpoint → Prop} {connectionId : Ref → Nat} {e : Endpoint} (before : P e)
    (callback : ∀ e o, P e → P (e.output connectionId o)) (outs : List Output) : P (e.outputs connectionId outs) := by
  induction outs generalizing e with
  | nil => exact before
  | cons o rest ih => exact ih (callback e o before)

/-- The accept loop takes the next connection and creates its handler's task. -/
def accept (e : Endpoint) : Endpoint :=
  match e.incoming with
  | [] => e
  | c :: rest => { e with incoming := rest, handled := e.handled ++ [c] }

end Endpoint

/-- The LAN socket, from `start` on: bound, bound while `close` awaits the end of the broadcast task, closed. -/
inductive Lan where
  | bound | closing | closed
  deriving DecidableEq, Repr

structure Service where
  manager : Manager
  endpoint : Endpoint := {}
  broadcasting : Bool
  lan : Lan := .bound

inductive ServiceEvent where
  | manager (e : ManagerEvent)
  | connection (c : ConnRef) (e : ConnectionEvent)
  | accept
  | lanClosed
  deriving DecidableEq, Repr

namespace ServiceEvent

/-- What the event loop and the network do, as opposed to the application. -/
def isExternal : ServiceEvent → Bool
  | .manager (.deliver _ _) | .manager (.start _) | .manager (.teardown _ _) | .lanClosed => true
  | .manager (.session _ (.resume _ _)) | .manager (.session _ (.timer _)) => true
  | .manager (.session _ (.connectionState _)) | .manager (.session _ (.dataChannel _ _)) => true
  | .manager (.session _ (.channelOpen _)) | .manager (.session _ (.channelMessage _ _)) => true
  | _ => false

/-- A teardown raises. -/
def interrupts : ServiceEvent → Bool
  | .manager (.teardown _ false) => true
  | _ => false

end ServiceEvent

/-- The `connection_id` of a session. -/
def Manager.connectionId (m : Manager) (r : Ref) : Nat := ((m.heap[r]?).map (·.session.connectionId)).getD 0

namespace Service

/-- An endpoint that was started. -/
def new (localId : NetworkId) (relayOnly broadcasting : Bool) : Service :=
  { manager := Manager.new localId relayOnly, broadcasting := broadcasting }

/-- The first segment of `LanTransport.close`. -/
def closeLan (s : Service) : Lan :=
  match s.lan with
  | .closed => .closed
  | _ => if s.broadcasting then .closing else .closed

/-- The manager's step, its callbacks into the endpoint, and, once its `aclose` has
returned, the rest of the transport's. -/
def absorb (s : Service) (stepped : Manager × List Output) : Service :=
  { s with
    manager := stepped.1
    endpoint := s.endpoint.outputs stepped.1.connectionId stepped.2
    lan := if .aclosed ∈ stepped.2 then s.closeLan else s.lan }

/-- One event. A closed socket delivers no signal. -/
def next [Aiortc] (s : Service) : ServiceEvent → Service
  | .manager (.deliver senderId message) =>
    if s.lan = .closed then s else s.absorb (s.manager.step (.deliver senderId message))
  | .manager e => s.absorb (s.manager.step e)
  | .connection c e => { s with endpoint := s.endpoint.update c (·.next e) }
  | .accept => { s with endpoint := s.endpoint.accept }
  | .lanClosed => if s.lan = .closing then { s with lan := .closed } else s

/-- What the manager shows of an event. -/
def shows [Aiortc] (s : Service) : ServiceEvent → List Output
  | .manager e => (s.manager.step e).2
  | _ => []

/-- The rule for what relates the manager and the endpoint: a step of the manager with
its callbacks keeps it, and so do the application's coroutines and the accept loop. -/
theorem next_invariant [Aiortc] {Inv : Manager → Endpoint → Prop} {s : Service} {e : ServiceEvent}
    (before : Inv s.manager s.endpoint)
    (manager : ∀ e', e = .manager e' →
      Inv (s.manager.next e') (s.endpoint.outputs (s.manager.next e').connectionId (s.manager.step e').2))
    (connection : ∀ c ev, Inv s.manager (s.endpoint.update c (·.next ev)))
    (accept : Inv s.manager s.endpoint.accept) : Inv (s.next e).manager (s.next e).endpoint := by
  cases e with
  | manager e' =>
    cases e' with
    | deliver senderId message =>
      simp only [next]
      split
      · exact before
      · exact manager _ rfl
    | _ => exact manager _ rfl
  | connection c ev => exact connection c ev
  | accept => exact accept
  | lanClosed =>
    simp only [next]
    split <;> exact before

end Service
end NetherNet
