import NetherNet.Api.Transport

/-! `discover`: an endpoint that is made for one call asks the LAN for hosts, and each is handed
to the caller once, as its Response comes. One event is one atomic segment of the generator. -/
namespace NetherNet

structure DiscoveredHost where
  networkId : NetworkId
  advertisement : Bytes
  address : Address
  deriving DecidableEq, Repr

/-- Where the generator is suspended; `leaving` is its `finally`, which has not raised. -/
inductive SearchStage where
  | starting | waiting | yielding | leaving | ended
  deriving DecidableEq, Repr

structure HostSearch where
  /-- `_discovered` of the endpoint. -/
  discovered : List DiscoveredHost := []
  seen : List NetworkId := []
  stage : SearchStage := .starting
  /-- What it has yielded so far. -/
  yielded : List DiscoveredHost := []
  deriving DecidableEq, Repr

/-- What can happen to the generator: `late` is whether the deadline has passed when the loop
looks. The caller asks for the next host, cancels the wait for it, or closes the generator. -/
inductive HostSearchEvent where
  | started (raises late : Bool)
  | got (late : Bool)
  | asked (late : Bool)
  | timeout | closed
  deriving DecidableEq, Repr

namespace HostSearch

/-- `_on_host_discovered`. -/
def onHostDiscovered (s : HostSearch) (host : DiscoveredHost) : HostSearch := { s with discovered := s.discovered ++ [host] }

/-- The `finally`, up to where it awaits `endpoint.aclose`. -/
def leave (s : HostSearch) : HostSearch × List TransportEvent := ({ s with stage := .leaving }, [.manager .aclose])

/-- From the head of the loop to `wait_for`. -/
def loop (s : HostSearch) (late : Bool) : HostSearch × List TransportEvent := if late then s.leave else ({ s with stage := .waiting }, [])

/-- `get` has returned the host. -/
def take (s : HostSearch) (host : DiscoveredHost) (rest : List DiscoveredHost) (late : Bool) : HostSearch × List TransportEvent :=
  if host.networkId ∈ s.seen then { s with discovered := rest }.loop late
  else ({ discovered := rest, seen := host.networkId :: s.seen, stage := .yielding, yielded := s.yielded ++ [host] }, [])

/-- One event, and what the generator does to its endpoint on it. -/
def react (s : HostSearch) : HostSearchEvent → HostSearch × List TransportEvent
  | .started raises late =>
    match s.stage with
    | .starting =>
      let out := if raises then s.leave else s.loop late
      (out.1, .broadcast :: out.2)
    | _ => (s, [])
  | .got late =>
    match s.stage, s.discovered with
    | .waiting, host :: rest => s.take host rest late
    | _, _ => (s, [])
  | .asked late =>
    match s.stage with
    | .yielding => s.loop late
    | _ => (s, [])
  | .timeout =>
    match s.stage with
    | .waiting => s.leave
    | _ => (s, [])
  | .closed =>
    match s.stage with
    | .waiting | .yielding => s.leave
    | _ => (s, [])

/-- `endpoint.aclose` has returned. -/
def finish (s : HostSearch) : HostSearch :=
  match s.stage with
  | .leaving => { s with stage := .ended }
  | _ => s

end HostSearch
end NetherNet
