import NetherNet.Api.Handlers
import NetherNet.Api.HttpServer

/-! An `HttpServer` with the tasks that run its handler, which `aclose` cancels and awaits. -/
namespace NetherNet
open Library Identity

/-- `aclose` has closed the sessions, cleared the map and cancelled the tasks. -/
def Shutdown.isDone : Shutdown → Bool
  | .done => true
  | _ => false

structure HttpHost (F : Type) [Cryptography] [Runtime F] where
  server : HttpServer F
  /-- The tasks of `_handle_open`; the connection of a task is named by its call. -/
  tasks : List HandlerTask := []

inductive HttpHostEvent (F : Type) where
  | server (e : HttpServerEvent F)
  | run (task : Nat)
  | ended (task : Nat) (ending : Ending)
  | torn (task : Nat) (raised : Bool)

namespace HttpHost
variable [Cryptography] {F : Type} [Runtime F]

def new (localId : NetworkId) (identitySigner : Option (IdentitySigner F)) (relayOnly : Bool) : HttpHost F :=
  { server := HttpServer.new localId identitySigner relayOnly }

/-- Each run of `_handle_open` has created a task, and `aclose` cancels them all when it has cleared the map. -/
def serve [Aiortc] (s : HttpHost F) (e : HttpServerEvent F) : HttpHost F :=
  let server := s.server.next e
  let tasks := s.tasks ++ (server.handled.drop s.server.handled.length).map fun call => { conn := call }
  { server := server
    tasks := if server.shutdown.isDone && !s.server.shutdown.isDone then tasks.map HandlerTask.cancel else tasks }

/-- The handler of a task has ended. -/
def ended [Aiortc] (s : HttpHost F) (task : Nat) (ending : Ending) : HttpHost F :=
  match s.tasks[task]? with
  | none => s
  | some t =>
    match t.stage with
    | .running => { server := s.server.closeSession t.conn .none, tasks := s.tasks.modify task (·.ended ending) }
    | _ => s

def next [Aiortc] (s : HttpHost F) : HttpHostEvent F → HttpHost F
  | .server e => s.serve e
  | .run task => { s with tasks := s.tasks.modify task HandlerTask.run }
  | .ended task ending => s.ended task ending
  | .torn task raised => { s with tasks := s.tasks.modify task (·.torn raised) }

end HttpHost
end NetherNet
