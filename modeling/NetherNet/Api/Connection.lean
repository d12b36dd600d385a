import NetherNet.Library.AsyncQueue
import NetherNet.Manager.Manager

/-! The connection of the public API: a future that settles when its session opens
or closes, and a queue of received packets that any number of coroutines read. -/
namespace NetherNet
open Library

/-- What the receive queue holds: a packet, or the sentinel that `_mark_closed` puts there. -/
inductive Item where
  | packet (data : Bytes)
  | closed
  deriving DecidableEq, Repr

/-- The `_connected` future. -/
inductive Future where
  | pending | connected | cancelled
  | failed (e : Exn)
  deriving DecidableEq, Repr

/-- What `recv` comes to, for the time being. -/
inductive Received where
  | waits
  | packet (data : Bytes)
  | raised (e : Exn)
  deriving DecidableEq, Repr

structure Connection where
  session : Ref
  connectionId : Nat
  recvQueue : AsyncQueue Item := {}
  connected : Future := .pending
  closed : Bool := false
  closedError : Option ErrorCode := none
  /-- Every packet that was put into the queue, and those that `recv` has returned. -/
  enqueued : List Bytes := []
  yielded : List Bytes := []
  deriving DecidableEq, Repr

/-- What the application's coroutines do to a connection. The future is abandoned when
the timeout of `_await_connected` runs out, or its caller is cancelled. -/
inductive ConnectionEvent where
  | recv (getter : Nat)
  | resume (index : Nat)
  | cancelWaiting (index : Nat)
  | cancelWoken (index : Nat)
  | abandon
  deriving DecidableEq, Repr

namespace Connection

/-- `self._closed_error or SessionError.NONE`. -/
def closedOr (c : Connection) : ErrorCode :=
  match c.closedError with
  | some error => if error.toInt = 0 then .member .none else error
  | none => .member .none

/-- What `raise ConnectionClosed(self._closed_error or SessionError.NONE)` raises. -/
def closedExn (c : Connection) : Exn := Exn.raising (Exn.ofClosed c.closedOr)

/-- What `send` raises while the session is in `state`, if it does not hand the packet on. -/
def sendRaises (c : Connection) (state : SessionState) : Option Exn :=
  if state ≠ .connected then some c.closedExn else none

/-- What `wait_closed` returns, once it does. -/
def waitClosed (c : Connection) : Option ErrorCode := if c.closed then some c.closedOr else none

def markConnected (c : Connection) : Connection :=
  match c.connected with
  | .pending => { c with connected := .connected }
  | _ => c

/-- The future once `_mark_closed` has failed it, if it is not done. -/
def failedWith (error : ErrorCode) : Future → Except Exn Future
  | .pending => (Exn.ofFailed error).map .failed
  | future => .ok future

/-- `_mark_closed`, and the exception that ends it, if one does. -/
def markClosed (c : Connection) (error : ErrorCode) : Connection × Option Exn :=
  let c := { c with closedError := some error }
  match failedWith error c.connected with
  | .error e => (c, some e)
  | .ok future => ({ c with connected := future, recvQueue := c.recvQueue.put .closed, closed := true }, none)

def enqueue (c : Connection) (data : Bytes) : Connection :=
  { c with recvQueue := c.recvQueue.put (.packet data), enqueued := c.enqueued ++ [data] }

/-- `recv` after its `get`; the sentinel goes back into the queue. -/
def received (c : Connection) : Option Item × AsyncQueue Item → Connection × Received
  | (none, q) => ({ c with recvQueue := q }, .waits)
  | (some (.packet data), q) => ({ c with recvQueue := q, yielded := c.yielded ++ [data] }, .packet data)
  | (some .closed, q) => ({ c with recvQueue := q.put .closed }, .raised c.closedExn)

def recv (c : Connection) (getter : Nat) : Connection × Received := c.received (c.recvQueue.get getter)

/-- A `recv` that was woken goes on. -/
def resume (c : Connection) (index : Nat) : Connection × Received :=
  match c.recvQueue.woken[index]? with
  | none => (c, .waits)
  | some getter => c.received ((c.recvQueue.leave index).get getter)

def abandon (c : Connection) : Connection :=
  match c.connected with
  | .pending => { c with connected := .cancelled }
  | _ => c

def next (c : Connection) : ConnectionEvent → Connection
  | .recv getter => (c.recv getter).1
  | .resume index => (c.resume index).1
  | .cancelWaiting index => { c with recvQueue := c.recvQueue.cancelWaiting index }
  | .cancelWoken index => { c with recvQueue := c.recvQueue.cancelWoken index }
  | .abandon => c.abandon

/-! ### The queue -/

/-- The queue holds the packets that were put in and not yet returned, and after them `tail`. -/
def Holds (c : Connection) (tail : List Item) : Prop :=
  ∃ packets : List Bytes, c.recvQueue.items = packets.map .packet ++ tail ∧ c.yielded ++ packets = c.enqueued

/-- Before `_mark_closed` the queue ends with packets, after it with the sentinel. -/
def Tail (tail : List Item) : Prop := tail = [] ∨ tail = [.closed]

/-- What a `get` of the queue leaves, whether or not its getter had waited. -/
private theorem holds_get {c : Connection} {tail : List Item} (h : c.Holds tail) (ht : Tail tail) {q : AsyncQueue Item}
    (hq : q.items = c.recvQueue.items) (getter : Nat) : (c.received (q.get getter)).1.Holds tail := by
  obtain ⟨packets, hitems, hpackets⟩ := h
  rw [← hq] at hitems
  cases packets with
  | nil =>
    rcases ht with rfl | rfl
    · simp only [List.map_nil, List.append_nil] at hitems
      simp only [AsyncQueue.get, hitems, received]
      exact ⟨[], rfl, hpackets⟩
    · simp only [List.map_nil, List.nil_append] at hitems
      simp only [AsyncQueue.get, hitems, received]
      exact ⟨[], by simp, hpackets⟩
  | cons data packets =>
    simp only [List.map_cons, List.cons_append] at hitems
    simp only [AsyncQueue.get, hitems, received]
    exact ⟨packets, rfl, by simpa using hpackets⟩

/-- With the sentinel in the queue no `recv` waits: it returns the next packet, or raises. -/
private theorem received_get {c : Connection} (h : c.Holds [.closed]) {q : AsyncQueue Item}
    (hq : q.items = c.recvQueue.items) (getter : Nat) :
    (c.received (q.get getter)).2 = match c.enqueued.drop c.yielded.length with
      | [] => .raised c.closedExn
      | data :: _ => .packet data := by
  obtain ⟨packets, hitems, hpackets⟩ := h
  rw [← hq] at hitems
  rw [← hpackets, List.drop_left]
  cases packets with
  | nil =>
    simp only [List.map_nil, List.nil_append] at hitems
    simp only [AsyncQueue.get, hitems, received]
  | cons data packets =>
    simp only [List.map_cons, List.cons_append] at hitems
    simp only [AsyncQueue.get, hitems, received]

theorem recv_holds {c : Connection} (h : c.Holds [.closed]) (getter : Nat) :
    (c.recv getter).2 = match c.enqueued.drop c.yielded.length with
      | [] => .raised c.closedExn
      | data :: _ => .packet data := received_get h rfl getter

theorem resume_holds {c : Connection} (h : c.Holds [.closed]) {index : Nat} (hi : index < c.recvQueue.woken.length) :
    (c.resume index).2 = match c.enqueued.drop c.yielded.length with
      | [] => .raised c.closedExn
      | data :: _ => .packet data := by
  simp only [resume, List.getElem?_eq_getElem hi]
  exact received_get h (AsyncQueue.leave_items _ _) _

theorem next_holds {c : Connection} {tail : List Item} (h : c.Holds tail) (ht : Tail tail) (e : ConnectionEvent) :
    (c.next e).Holds tail := by
  cases e with
  | recv getter => exact holds_get h ht rfl getter
  | resume index =>
    simp only [next, resume]
    split
    · exact h
    · exact holds_get h ht (AsyncQueue.leave_items _ _) _
  | cancelWaiting index => exact h
  | cancelWoken index =>
    obtain ⟨packets, hitems, hpackets⟩ := h
    exact ⟨packets, by simpa [next] using hitems, hpackets⟩
  | abandon =>
    simp only [next, abandon]
    split <;> exact h

private theorem received_served {c : Connection} (r : Option Item × AsyncQueue Item) (h : r.2.Served) :
    (c.received r).1.recvQueue.Served := by
  obtain ⟨o, q⟩ := r
  cases o with
  | none => exact h
  | some item =>
    cases item with
    | packet data => exact h
    | closed => exact h.put .closed

theorem next_served {c : Connection} (h : c.recvQueue.Served) (e : ConnectionEvent) : (c.next e).recvQueue.Served := by
  cases e with
  | recv getter => exact received_served _ (h.get getter)
  | resume index =>
    simp only [next, resume]
    split
    · exact h
    · next getter hw =>
      obtain ⟨hi, _⟩ := List.getElem?_eq_some_iff.mp hw
      exact received_served _ (h.get_leave hi getter)
  | cancelWaiting index => exact h.cancelWaiting index
  | cancelWoken index => exact h.cancelWoken index
  | abandon =>
    simp only [next, abandon]
    split <;> exact h

theorem enqueue_holds {c : Connection} (h : c.Holds []) (data : Bytes) : (c.enqueue data).Holds [] := by
  obtain ⟨packets, hitems, hpackets⟩ := h
  refine ⟨packets ++ [data], ?_, ?_⟩
  · rw [List.append_nil] at hitems
    simp [enqueue, hitems]
  · simp [enqueue, ← hpackets]

/-- Packets that were buffered are put into the queue, in order. -/
theorem foldl_enqueue (c : Connection) (packets : List Bytes) :
    (packets.foldl enqueue c).session = c.session ∧ (packets.foldl enqueue c).connectionId = c.connectionId ∧
    (packets.foldl enqueue c).enqueued = c.enqueued ++ packets := by
  induction packets generalizing c with
  | nil => simp
  | cons data packets ih =>
    obtain ⟨hsession, hid, henqueued⟩ := ih (c.enqueue data)
    refine ⟨hsession, hid, ?_⟩
    rw [List.foldl_cons, henqueued]
    simp [enqueue]

/-! ### What stays -/

private theorem received_frame (c : Connection) (r : Option Item × AsyncQueue Item) :
    (c.received r).1.session = c.session ∧ (c.received r).1.connectionId = c.connectionId ∧
    (c.received r).1.connected = c.connected ∧ (c.received r).1.closed = c.closed ∧
    (c.received r).1.closedError = c.closedError ∧ (c.received r).1.enqueued = c.enqueued := by
  obtain ⟨o, q⟩ := r
  cases o with
  | none => simp [received]
  | some item => cases item <;> simp [received]

/-- The application's coroutines leave everything alone but the queue and a pending future. -/
structure Kept (c c' : Connection) : Prop where
  session : c'.session = c.session
  connectionId : c'.connectionId = c.connectionId
  connected : c'.connected = c.connected ∨ c.connected = .pending
  closed : c'.closed = c.closed
  closedError : c'.closedError = c.closedError
  enqueued : c'.enqueued = c.enqueued

theorem next_kept (c : Connection) (e : ConnectionEvent) : c.Kept (c.next e) := by
  have received : ∀ r, c.Kept (c.received r).1 := fun r => by
    obtain ⟨h₁, h₂, h₃, h₄, h₅, h₆⟩ := received_frame c r
    exact ⟨h₁, h₂, Or.inl h₃, h₄, h₅, h₆⟩
  have same : c.Kept c := ⟨rfl, rfl, Or.inl rfl, rfl, rfl, rfl⟩
  cases e with
  | recv getter => exact received _
  | resume index =>
    simp only [next, resume]
    split
    · exact same
    · exact received _
  | cancelWaiting index => exact ⟨rfl, rfl, Or.inl rfl, rfl, rfl, rfl⟩
  | cancelWoken index => exact ⟨rfl, rfl, Or.inl rfl, rfl, rfl, rfl⟩
  | abandon =>
    simp only [next, abandon]
    split
    · next h => exact ⟨rfl, rfl, Or.inr h, rfl, rfl, rfl⟩
    · exact same

/-- `_mark_closed` runs to its end, or is ended by the constructor of the exception it
would hand to a pending future. -/
theorem markClosed_cases (c : Connection) (error : ErrorCode) :
    (∃ future, failedWith error c.connected = .ok future ∧
      c.markClosed error =
        ({ c with closedError := some error, connected := future, recvQueue := c.recvQueue.put .closed, closed := true },
          none)) ∨
      ∃ e, failedWith error c.connected = .error e ∧ c.markClosed error = ({ c with closedError := some error }, some e) := by
  unfold markClosed
  cases hc : failedWith error c.connected with
  | ok future => exact Or.inl ⟨future, rfl, by simp only [hc]⟩
  | error e => exact Or.inr ⟨e, rfl, by simp only [hc]⟩

end Connection
end NetherNet
