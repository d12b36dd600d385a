import NetherNet.Api.Handlers

/-! `Server`: an endpoint with an accept loop, a task for each connection it accepts, and its
shutdown. One event is one atomic segment, from the return of `start` on. -/
namespace NetherNet
open Library

structure Server where
  service : Service
  tasks : List HandlerTask := []
  /-- `_closed` is set. -/
  closed : Bool := false
  /-- A teardown that `aclose` awaited has raised, or was cancelled. -/
  interrupted : Bool := false

inductive ServerEvent where
  | service (e : ServiceEvent)
  | accept
  | run (task : Nat)
  | ended (task : Nat) (ending : Ending)
  | torn (task : Nat) (raised : Bool)
  | aclose
  deriving DecidableEq, Repr

/-- What happens to the endpoint of a server other than through the server: nobody dials with it. -/
def ServiceEvent.isServing : ServiceEvent → Bool
  | .accept | .manager (.connect _ _) | .manager .aclose => false
  | _ => true

/-- `conn.close()` up to its await. The endpoint is not the connection's own. -/
def Service.closeConnection [Aiortc] (s : Service) (c : ConnRef) : Service :=
  match s.endpoint.connections[c]? with
  | some conn => s.next (.manager (.session conn.session (.aclose (.member .none))))
  | none => s

namespace Server

def new (localId : NetworkId) (relayOnly broadcast : Bool) : Server := { service := Service.new localId relayOnly broadcast }

def serve [Aiortc] (s : Server) (e : ServiceEvent) : Server :=
  { s with
    service := s.service.next e
    interrupted := s.interrupted || (e.interrupts && !s.service.manager.closing.isEmpty) }

/-- The accept loop takes a connection. -/
def accept [Aiortc] (s : Server) : Server :=
  match s.service.endpoint.incoming with
  | [] => s
  | c :: _ => { s with service := s.service.next .accept, tasks := s.tasks ++ [{ conn := c }] }

/-- The handler of a task has ended. -/
def ended [Aiortc] (s : Server) (task : Nat) (ending : Ending) : Server :=
  match s.tasks[task]? with
  | none => s
  | some t =>
    match t.stage with
    | .running => { s with tasks := s.tasks.modify task (·.ended ending), service := s.service.closeConnection t.conn }
    | _ => s

/-- `aclose`: the accept loop ends where it awaits its queue. -/
def aclose [Aiortc] (s : Server) : Server :=
  { s with service := s.service.next (.manager .aclose), tasks := s.tasks.map HandlerTask.cancel, closed := true }

def next [Aiortc] (s : Server) : ServerEvent → Server
  | .service e => if e.isServing then s.serve e else s
  | .accept => if s.closed then s else s.accept
  | .run task => { s with tasks := s.tasks.modify task HandlerTask.run }
  | .ended task ending => s.ended task ending
  | .torn task raised => { s with tasks := s.tasks.modify task (·.torn raised) }
  | .aclose => if s.closed then s else s.aclose

end Server
end NetherNet
