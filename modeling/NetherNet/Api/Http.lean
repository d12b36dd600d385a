import NetherNet.Api.Connection
import NetherNet.Session.Closing

/-! A connection over HTTP signaling: a session of its own, whose callbacks go to the
connection directly. -/
namespace NetherNet
open Library

/-- What `_make_http_session` makes. The caller of its coroutines is `connect_http` or `_answer_offer`. -/
structure HttpConnection where
  loop : SessionLoop Unit
  conn : Connection
  deriving DecidableEq, Repr

inductive HttpEvent where
  | session (e : SessionEvent Unit)
  | connection (e : ConnectionEvent)
  deriving DecidableEq, Repr

namespace HttpConnection

/-- `_make_http_session`, where `new_connection_id()` draws `connectionId`. -/
def new (connectionId : Nat) (localId remoteId : NetworkId) (isDialer relayOnly : Bool) : HttpConnection :=
  { loop := .fresh (Session.new connectionId localId remoteId isDialer relayOnly)
    conn := { session := 0, connectionId := connectionId } }

/-- The callbacks of the session. -/
def callback (c : Connection) : Effect → Connection
  | .onOpen => c.markConnected
  | .onClose error => (c.markClosed error).1
  | .onPacket data => c.enqueue data
  | _ => c

/-- A step of the session, with its callbacks. -/
def absorb (h : HttpConnection) (stepped : SessionStep Unit) : HttpConnection :=
  { loop := stepped.loop, conn := stepped.effects.foldl callback h.conn }

/-- One event. Without a signaling channel neither `start` nor `handle_signal` is called. -/
def next [Aiortc] (h : HttpConnection) : HttpEvent → HttpConnection
  | .session (.call .start _) => h
  | .session (.call (.handleSignal _) _) => h
  | .session e => h.absorb (h.loop.step e)
  | .connection e => { h with conn := h.conn.next e }

/-- Once the session is closed, no packet is delivered and no `create_offer` or
`create_answer` of it returns. -/
def Timely (h : HttpConnection) : HttpEvent → Prop
  | .session (.channelMessage isReliable data) =>
    h.loop.session.state = .closed → (h.loop.session.pc.handleChannelMessage isReliable data).2 = []
  | .session e => h.loop.Timely e
  | .connection _ => True

instance (h : HttpConnection) (e : HttpEvent) : Decidable (h.Timely e) :=
  match e with
  | .session (.channelMessage _ _) => inferInstanceAs (Decidable (_ → _))
  | .session (.call c caller) => inferInstanceAs (Decidable (¬ h.loop.Late (.call c caller)))
  | .session (.resume index reply) => inferInstanceAs (Decidable (¬ h.loop.Late (.resume index reply)))
  | .session (.close _ _) | .session (.aclose _) | .session (.timer _) | .session (.connectionState _)
  | .session (.dataChannel _ _) | .session (.channelOpen _) | .session (.send _ _) => .isTrue id
  | .connection _ => .isTrue trivial

end HttpConnection
end NetherNet
