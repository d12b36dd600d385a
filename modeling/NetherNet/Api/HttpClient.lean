import NetherNet.Api.Http
import NetherNet.Api.HttpServer
import NetherNet.Signaling.HttpAnswer

/-! `connect_http`: the offer of a session goes out with one POST, the reply is verified or
stripped of its identity, and the session takes it as its answer. One event is one atomic
segment; an exception closes the session before it is raised. -/
namespace NetherNet
open Library Identity

/-- What `connect_http` raises: what a coroutine of its session, its signer, the request, the
check of the identity or `on_server_identity` raised, or what the wait for the connection did. -/
inductive ConnectError where
  | session | callback | cancelled
  | signing (e : Raised)
  | request (e : RequestError)
  | identity (e : Raised)
  | connecting (e : Exn)
  deriving DecidableEq

/-- Where `connect_http` is suspended; `aborting` is its `except` branch. -/
inductive Dialing (F : Type) [Cryptography] where
  | offering
  | checking (offer : Str)
  | posting (offer : Str)
  | deciding (answer : Text) (identity : ServerIdentity F)
  | accepting | connecting
  | aborting (why : ConnectError)
  | raised (why : ConnectError)
  | returned

structure HttpClient (F : Type) [Cryptography] [Runtime F] where
  capabilityCheck : Bool
  /-- Whether `on_server_identity` is given. -/
  verifies : Bool
  identitySigner : Option (IdentitySigner F)
  stage : Dialing F := .offering
  h : HttpConnection
  /-- The bodies it has posted, the replies to them with the clock they were verified at, and the
  identities that `on_server_identity` has accepted. -/
  posts : List Str := []
  replies : List (F × HttpReply) := []
  approved : List (ServerIdentity F) := []

/-- What can happen to a call. `validation` is what `on_server_identity` comes to, if it is called. -/
inductive HttpClientEvent (F : Type) where
  | session (e : SessionEvent Unit) (clock : F) (nonces : Nat × Nat)
  | capability (reply : HttpReply)
  | reply (reply : HttpReply) (clock : F) (validation : Validation)
  | decided (accepted : Bool)
  | woken | timeout | cancel | tornDown
  | close (error : SessionError)
  | connection (e : ConnectionEvent)

namespace HttpClient
variable [Cryptography] {F : Type} [Runtime F]

/-- The `except` branch, up to the teardown that it awaits. -/
def fail [Aiortc] (c : HttpClient F) (why : ConnectError) : HttpClient F :=
  { c with stage := .aborting why, h := c.h.absorb (c.h.loop.step (.aclose (.member .genericFailure))) }

/-! ### `request_answer` -/

def post (c : HttpClient F) (offer : Str) : HttpClient F := { c with stage := .posting offer, posts := c.posts ++ [offer] }

/-- Up to its first await. -/
def request (c : HttpClient F) (offer : Str) : HttpClient F :=
  if c.capabilityCheck then { c with stage := .checking offer } else c.post offer

def checked [Aiortc] (c : HttpClient F) (offer : Str) (reply : HttpReply) : HttpClient F :=
  if capable reply then c.post offer else c.fail (.request (.failed .noSignalingChannel))

/-! ### `connect_http` between its awaits -/

/-- `session.offer` has returned. -/
def offered [Aiortc] (c : HttpClient F) (clock : F) (nonces : Nat × Nat) (sdp : Text) : HttpClient F :=
  match c.identitySigner with
  | none => c.request (Sdp.codes sdp)
  | some signer =>
    match signer.sign clock nonces (Sdp.codes sdp) with
    | .ok offer => c.request offer
    | .error e => c.fail (.signing e)

/-- `accept_answer` up to its first await, or to its end where the session awaits no answer. -/
def accept [Aiortc] (c : HttpClient F) (answer : Text) : HttpClient F :=
  let stepped := c.h.loop.step (.call (.acceptAnswer answer) ())
  let stage := match stepped.outcome with
    | .none => Dialing.accepting
    | _ => .connecting
  { c with stage := stage, h := c.h.absorb stepped }

/-- `on_server_identity(server_identity)`. -/
def approve [Aiortc] (c : HttpClient F) (answer : Text) (identity : ServerIdentity F) : Validation → HttpClient F
  | .accepts => { c with approved := c.approved ++ [identity] }.accept answer
  | .raises => c.fail .callback
  | .awaits => { c with stage := .deciding answer identity }

/-- `request_answer` has ended. -/
def answered [Aiortc] (c : HttpClient F) (reply : HttpReply) (clock : F) (validation : Validation) : HttpClient F :=
  let c := { c with replies := c.replies ++ [(clock, reply)] }
  match answerOf reply with
  | .error e => c.fail (.request e)
  | .ok answer =>
    if c.verifies then
      match verifyServerIdentity clock (Sdp.codes answer) with
      | .error e => c.fail (.identity e)
      | .ok (answer, identity) => c.approve (Sdp.chars answer) identity validation
    else c.accept (Sdp.chars (stripIdentity (Sdp.codes answer)))

/-- `_await_connected` when its future is done. -/
def woken [Aiortc] (c : HttpClient F) : HttpClient F :=
  match c.h.conn.connected with
  | .pending => c
  | .connected => { c with stage := .returned }
  | .failed e => c.fail (.connecting e)
  | .cancelled => c.fail .cancelled

/-- `wait_for` gives up the future. -/
def abandon [Aiortc] (c : HttpClient F) (why : ConnectError) : HttpClient F :=
  { c with h := { c.h with conn := c.h.conn.abandon } }.fail why

/-- A coroutine of the session has gone on. -/
def goOn [Aiortc] (c : HttpClient F) (outcome : Outcome Unit) (clock : F) (nonces : Nat × Nat) : HttpClient F :=
  match c.stage, outcome with
  | .offering, .returned _ (some sdp) => c.offered clock nonces sdp
  | .accepting, .returned _ _ => { c with stage := .connecting }
  | .offering, .raised _ | .accepting, .raised _ => c.fail .session
  | _, _ => c

def absorb (c : HttpClient F) (stepped : SessionStep Unit) : HttpClient F := { c with h := c.h.absorb stepped }

def sessionNext [Aiortc] (c : HttpClient F) (e : SessionEvent Unit) (clock : F) (nonces : Nat × Nat) : HttpClient F :=
  let stepped := c.h.loop.step e
  (c.absorb stepped).goOn stepped.outcome clock nonces

/-- The caller is cancelled: what it awaits raises. -/
def cancel [Aiortc] (c : HttpClient F) : HttpClient F :=
  match c.stage with
  | .offering | .accepting => (c.absorb (c.h.loop.step (.resume 0 .raised))).fail .cancelled
  | .checking _ | .posting _ | .deciding _ _ => c.fail .cancelled
  | .connecting => c.abandon .cancelled
  | .aborting _ => { c with stage := .raised .cancelled }
  | .raised _ | .returned => c

/-- From the call to its first await; `new_connection_id()` draws `connectionId`. -/
def new [Aiortc] (connectionId : Nat) (localId : NetworkId) (relayOnly capabilityCheck verifies : Bool)
    (identitySigner : Option (IdentitySigner F)) : HttpClient F :=
  let h := HttpConnection.new connectionId localId .unset true relayOnly
  { capabilityCheck := capabilityCheck, verifies := verifies, identitySigner := identitySigner
    h := h.absorb (h.loop.step (.call .offer ())) }

/-- One event. The application has the connection, to close it, once it is returned. -/
def next [Aiortc] (c : HttpClient F) : HttpClientEvent F → HttpClient F
  | .session (.call _ _) _ _ => c
  | .session (.close _ _) _ _ => c
  | .session (.aclose _) _ _ => c
  | .session e clock nonces => c.sessionNext e clock nonces
  | .capability reply =>
    match c.stage with
    | .checking offer => c.checked offer reply
    | _ => c
  | .reply reply clock validation =>
    match c.stage with
    | .posting _ => c.answered reply clock validation
    | _ => c
  | .decided accepted =>
    match c.stage with
    | .deciding answer identity => c.approve answer identity (if accepted then .accepts else .raises)
    | _ => c
  | .woken =>
    match c.stage with
    | .connecting => c.woken
    | _ => c
  | .timeout =>
    match c.stage with
    | .connecting => c.abandon (.connecting (Exn.raising (Exn.ofFailed (.member .negotiationTimeoutWaitingForResponse))))
    | _ => c
  | .cancel => c.cancel
  | .tornDown =>
    match c.stage with
    | .aborting why => { c with stage := .raised why }
    | _ => c
  | .close error =>
    match c.stage with
    | .returned => c.absorb (c.h.loop.step (.aclose (.member error)))
    | _ => c
  | .connection e =>
    match c.stage with
    | .returned => { c with h := { c.h with conn := c.h.conn.next e } }
    | _ => c

end HttpClient
end NetherNet
