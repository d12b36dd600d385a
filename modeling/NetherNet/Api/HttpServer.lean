import NetherNet.Api.Http
import NetherNet.Identity.Identity
import NetherNet.Protocol.Uuid
import NetherNet.Transport.SdpLines

/-! The server over HTTP signaling: its map of connections, the offers it is answering, and
its shutdown. One event is one atomic segment. -/
namespace NetherNet
open Library Identity

structure IncomingOffer where
  networkIdText : Text
  networkId : NetworkId
  sdp : Text
  identity : Option IdentityEnvelope

/-- What a call of `validate_offer` comes to; a server without one accepts every offer. -/
inductive Validation where
  | accepts | raises | awaits

/-- How far `_answer_offer` has come with the connection it made; `closing` is its `except` branch. -/
inductive Stage where
  | answering | closing | raised
  | returned (answer : Str)

/-- A call of `_answer_offer`; `refused` has raised before it made a connection. -/
inductive OfferCall where
  | validating (offer : IncomingOffer)
  | refused
  | serving (stage : Stage) (h : HttpConnection)

/-- How far `aclose` has come: it awaits its `HttpSignalingServer`, or the teardown of a
session, with the calls whose sessions come after it. -/
inductive Shutdown where
  | running | signaling | done
  | tearing (rest : List Nat)

/-- A connection is named by the call that made it. -/
structure HttpServer (F : Type) [Cryptography] [Runtime F] where
  localId : NetworkId
  identitySigner : Option (IdentitySigner F)
  relayOnly : Bool
  conns : Dict Nat Nat := Dict.empty
  calls : List OfferCall := []
  /-- The connections the handler was started for. -/
  handled : List Nat := []
  shutdown : Shutdown := .running

/-- What can happen to a server. `connectionId` is what `new_connection_id()` draws, if it is called. -/
inductive HttpServerEvent (F : Type) where
  | post (networkIdText offer : Text) (validation : Validation) (connectionId : Nat)
  | validated (call : Nat) (accepted : Bool) (connectionId : Nat)
  | session (call : Nat) (e : SessionEvent Unit) (clock : F) (nonces : Nat × Nat)
  | connection (call : Nat) (e : ConnectionEvent)
  | close (call : Nat) (error : SessionError)
  | tornDown (call : Nat)
  | aclose
  | signalingClosed
  | sessionTornDown

namespace HttpServer
variable [Cryptography] {F : Type} [Runtime F]

def new (localId : NetworkId) (identitySigner : Option (IdentitySigner F)) (relayOnly : Bool) : HttpServer F :=
  { localId := localId, identitySigner := identitySigner, relayOnly := relayOnly }

/-- What `_handle_open` and `_handle_close` do to the server; for the connection see `HttpConnection.callback`. -/
def callback (call connectionId : Nat) (s : HttpServer F) : Effect → HttpServer F
  | .onOpen => { s with handled := s.handled ++ [call] }
  | .onClose _ => { s with conns := s.conns.pop connectionId }
  | _ => s

def setCall (s : HttpServer F) (call : Nat) (c : OfferCall) : HttpServer F := { s with calls := s.calls.set call c }

/-- A step of a session, with its callbacks. -/
def absorb (s : HttpServer F) (call : Nat) (stage : Stage) (h : HttpConnection) (stepped : SessionStep Unit) : HttpServer F :=
  stepped.effects.foldl (callback call h.conn.connectionId) (s.setCall call (.serving stage (h.absorb stepped)))

/-! ### `_answer_offer` -/

/-- From `_make_http_session` to the first await of `session.answer`. -/
def serve [Aiortc] (s : HttpServer F) (call : Nat) (offer : IncomingOffer) (connectionId : Nat) : HttpServer F :=
  let h := HttpConnection.new connectionId s.localId offer.networkId false s.relayOnly
  { s with conns := s.conns.set connectionId call }.absorb call .answering h (h.loop.step (.call (.answer offer.sdp) ()))

def validate [Aiortc] (s : HttpServer F) (call : Nat) (offer : IncomingOffer) (connectionId : Nat) : Validation → HttpServer F
  | .accepts => s.serve call offer connectionId
  | .raises => s.setCall call .refused
  | .awaits => s.setCall call (.validating offer)

/-- The offer as `validate_offer` sees it; nothing where its identity is malformed or its network id raises. -/
def incomingOffer (F : Type) [Runtime F] (networkIdText offer : Text) : Option IncomingOffer :=
  match extractIdentity F (Sdp.codes offer), NetworkId.parse networkIdText with
  | .ok (sdp, identity), some networkId => some ⟨networkIdText, networkId, Sdp.chars sdp, identity⟩
  | _, _ => none

def post [Aiortc] (s : HttpServer F) (networkIdText offer : Text) (validation : Validation) (connectionId : Nat) : HttpServer F :=
  let called := { s with calls := s.calls ++ [.refused] }
  match incomingOffer F networkIdText offer with
  | none => called
  | some incoming => called.validate s.calls.length incoming connectionId validation

/-- What becomes of an answer: it is signed, where there is a signer, and returned. -/
def signed (s : HttpServer F) (clock : F) (nonces : Nat × Nat) (answer : Text) : Stage :=
  match s.identitySigner with
  | none => .returned (Sdp.codes answer)
  | some signer =>
    match signer.sign clock nonces (Sdp.codes answer) with
    | .ok answer => .returned answer
    | .error _ => .raised

/-- `_answer_offer` goes on when `session.answer` has ended. -/
def goOn [Aiortc] (s : HttpServer F) (call : Nat) (h : HttpConnection) (outcome : Outcome Unit) (clock : F)
    (nonces : Nat × Nat) : HttpServer F :=
  match outcome with
  | .returned _ (some answer) => s.setCall call (.serving (s.signed clock nonces answer) h)
  | .raised _ =>
    { s with conns := s.conns.pop h.conn.connectionId }.absorb call .closing h
      (h.loop.step (.aclose (.member .failedToCreateAnswer)))
  | _ => s

/-! ### The sessions -/

def sessionNext [Aiortc] (s : HttpServer F) (call : Nat) (e : SessionEvent Unit) (clock : F) (nonces : Nat × Nat) : HttpServer F :=
  match s.calls[call]? with
  | some (.serving stage h) =>
    let stepped := h.loop.step e
    (s.absorb call stage h stepped).goOn call (h.absorb stepped) stepped.outcome clock nonces
  | _ => s

/-- `session.aclose` up to its await. -/
def closeSession [Aiortc] (s : HttpServer F) (call : Nat) (error : SessionError) : HttpServer F :=
  match s.calls[call]? with
  | some (.serving stage h) => s.absorb call stage h (h.loop.step (.aclose (.member error)))
  | _ => s

/-- The loop of `aclose`, up to its next await, and what follows it. The handlers that it
cancels close their connections. -/
def acloseSessions [Aiortc] (s : HttpServer F) : List Nat → HttpServer F
  | [] => { s with conns := Dict.empty, shutdown := .done }
  | call :: rest => { s.closeSession call .none with shutdown := .tearing rest }

/-- One event. `_answer_offer` alone calls a coroutine of its session, and only `close`,
`aclose` and `_answer_offer` close it from outside. -/
def next [Aiortc] (s : HttpServer F) : HttpServerEvent F → HttpServer F
  | .post networkIdText offer validation connectionId => s.post networkIdText offer validation connectionId
  | .validated call accepted connectionId =>
    match s.calls[call]? with
    | some (.validating offer) => s.validate call offer connectionId (if accepted then .accepts else .raises)
    | _ => s
  | .session _ (.call _ _) _ _ => s
  | .session _ (.close _ _) _ _ => s
  | .session _ (.aclose _) _ _ => s
  | .session call e clock nonces => s.sessionNext call e clock nonces
  | .connection call e =>
    match s.calls[call]? with
    | some (.serving stage h) => s.setCall call (.serving stage { h with conn := h.conn.next e })
    | _ => s
  | .close call error => s.closeSession call error
  | .tornDown call =>
    match s.calls[call]? with
    | some (.serving .closing h) => s.setCall call (.serving .raised h)
    | _ => s
  | .aclose =>
    match s.shutdown with
    | .running => { s with shutdown := .signaling }
    | _ => s
  | .signalingClosed =>
    match s.shutdown with
    | .signaling => s.acloseSessions s.conns.values
    | _ => s
  | .sessionTornDown =>
    match s.shutdown with
    | .tearing rest => s.acloseSessions rest
    | _ => s

end HttpServer
end NetherNet
