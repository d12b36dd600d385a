import NetherNet.Api.Endpoint

/-! `connect`: an endpoint that is made for one call dials a peer and waits for its
connection, and is closed before the call raises. One event is one atomic segment, from the
return of `endpoint.start` on. -/
namespace NetherNet
open Library

/-- Where `connect` is suspended; `aborting` is its `except` branch. -/
inductive LanDialing where
  | dialing
  | waiting (c : ConnRef)
  | aborting | raised
  | returned (c : ConnRef)
  deriving DecidableEq, Repr

structure LanClient where
  service : Service
  /-- The session that `transport.connect` has created. -/
  session : Ref
  stage : LanDialing := .dialing
  /-- A teardown that `endpoint.aclose` awaited has raised, or was cancelled. -/
  interrupted : Bool := false

/-- What can happen to a call. -/
inductive LanClientEvent where
  | service (e : ServiceEvent)
  | woken | timeout | cancel
  deriving DecidableEq, Repr

namespace LanClient

/-- `endpoint.aclose` in the `except` branch, which raises once that has ended. -/
def closing [Aiortc] (c : LanClient) (e : ServiceEvent) : LanClient :=
  let service := c.service.next e
  if service.manager.closing = [] then { c with service := service, stage := .raised, interrupted := e.interrupts }
  else { c with service := service, stage := .aborting }

def abort [Aiortc] (c : LanClient) : LanClient := c.closing (.manager .aclose)

/-- `wait_for` gives up the future. -/
def abandon [Aiortc] (c : LanClient) (conn : ConnRef) : LanClient :=
  { c with service := c.service.next (.connection conn .abandon) }.abort

/-- The endpoint goes on, and with the `start` of its session the call does. -/
def serve [Aiortc] (c : LanClient) (e : ServiceEvent) : LanClient :=
  let served := { c with service := c.service.next e }
  match c.stage with
  | .dialing =>
    if .connected c.session ∈ c.service.shows e then { served with stage := .waiting c.service.endpoint.connections.length }
    else if .raised c.session .connect ∈ c.service.shows e then served.abort
    else served
  | .aborting => c.closing e
  | _ => served

/-- `_await_connected` when its future is done. -/
def woken [Aiortc] (c : LanClient) (conn : ConnRef) : LanClient :=
  match c.service.endpoint.connections[conn]? with
  | none => c
  | some found =>
    match found.connected with
    | .pending => c
    | .connected => { c with stage := .returned conn }
    | .failed _ | .cancelled => c.abort

/-- The task of the session that `transport.connect` awaits. -/
def startTask (c : LanClient) : Nat :=
  match c.service.manager.heap[c.session]? with
  | some l => l.tasks.findIdx (·.caller = .connect)
  | none => 0

/-- The caller is cancelled: what it awaits raises. -/
def cancel [Aiortc] (c : LanClient) : LanClient :=
  match c.stage with
  | .dialing => c.serve (.manager (.session c.session (.resume c.startTask .raised)))
  | .waiting conn => c.abandon conn
  | .aborting => c.closing (.manager (.teardown 0 false))
  | .raised | .returned _ => c

/-- `transport.connect` up to its first await; `new_connection_id()` draws `connectionId`. -/
def new [Aiortc] (s : Service) (remoteId : NetworkId) (connectionId : Nat) : LanClient :=
  { service := s.next (.manager (.connect remoteId connectionId)), session := s.manager.heap.length }

/-- One event. The application has nothing to act on until it has the connection. -/
def next [Aiortc] (c : LanClient) : LanClientEvent → LanClient
  | .service e =>
    match c.stage with
    | .returned _ => c.serve e
    | _ => if e.isExternal then c.serve e else c
  | .woken =>
    match c.stage with
    | .waiting conn => c.woken conn
    | _ => c
  | .timeout =>
    match c.stage with
    | .waiting conn => c.abandon conn
    | _ => c
  | .cancel => c.cancel

end LanClient
end NetherNet
