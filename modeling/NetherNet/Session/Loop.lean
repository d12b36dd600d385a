import NetherNet.Library.Machine
import NetherNet.Session.Session

/-! A session on the event loop: its suspended coroutines, each with what awaits
it, and the history of what the session has done. One event is one atomic segment. -/
namespace NetherNet

/-- A suspended coroutine, and the caller that awaits it. -/
structure Task (κ : Type) where
  coroutine : Suspended
  caller : κ
  deriving DecidableEq, Repr

structure SessionLoop (κ : Type) where
  session : Session
  tasks : List (Task κ) := []
  trace : List Effect := []
  deriving DecidableEq, Repr

/-- What can happen to a session. The index of `resume` picks a suspended
coroutine, so any of them may go on next, with any reply of aiortc. -/
inductive SessionEvent (κ : Type) where
  | call (c : Call) (caller : κ)
  | resume (index : Nat) (reply : Reply)
  | close (error : ErrorCode) (notifyRemote : Bool)
  | aclose (error : ErrorCode)
  | timer (handle : Nat)
  | connectionState (state : ConnectionState)
  | dataChannel (label : Text) (readyState : Bool)
  | channelOpen (isReliable : Bool)
  | channelMessage (isReliable : Bool) (data : Bytes)
  | send (data : Bytes) (sendType : SendType)
  deriving DecidableEq, Repr

/-- Whether a coroutine has just ended, and for whom. -/
inductive Outcome (κ : Type) where
  | none
  | returned (caller : κ) (value : Option Text)
  | raised (caller : κ)
  deriving DecidableEq, Repr

structure SessionStep (κ : Type) where
  loop : SessionLoop κ
  effects : List Effect
  outcome : Outcome κ

namespace SessionLoop
variable {κ : Type}

/-- A callback ran to its end. -/
def ran (l : SessionLoop κ) (r : Session × List Effect) : SessionStep κ :=
  ⟨{ l with session := r.1, trace := l.trace ++ r.2 }, r.2, .none⟩

/-- A coroutine of `caller` ran one segment; if it is suspended again, it waits with the others. -/
def segment (l : SessionLoop κ) (seg : Segment) (caller : κ) : SessionStep κ :=
  let l := { l with session := seg.session, trace := l.trace ++ seg.effects }
  match seg.flow with
  | .suspended c => ⟨{ l with tasks := l.tasks ++ [⟨c, caller⟩] }, seg.effects, .none⟩
  | .returned value => ⟨l, seg.effects, .returned caller value⟩
  | .raised => ⟨l, seg.effects, .raised caller⟩

@[simp] theorem segment_session (l : SessionLoop κ) (seg : Segment) (caller : κ) :
    (l.segment seg caller).loop.session = seg.session := by
  unfold segment; cases seg.flow <;> rfl
@[simp] theorem segment_effects (l : SessionLoop κ) (seg : Segment) (caller : κ) :
    (l.segment seg caller).effects = seg.effects := by
  unfold segment; cases seg.flow <;> rfl
@[simp] theorem segment_trace (l : SessionLoop κ) (seg : Segment) (caller : κ) :
    (l.segment seg caller).loop.trace = l.trace ++ seg.effects := by
  unfold segment; cases seg.flow <;> rfl
@[simp] theorem segment_tasks (l : SessionLoop κ) (seg : Segment) (caller : κ) :
    (l.segment seg caller).loop.tasks = match seg.flow with
      | .suspended c => l.tasks ++ [⟨c, caller⟩]
      | _ => l.tasks := by
  unfold segment; cases seg.flow <;> rfl

/-- One event. Of aiortc only this is used: a data channel is announced, opens or
carries a message only between peers whose two descriptions are applied, and the
last two happen on a channel that is registered. -/
def step [Aiortc] (l : SessionLoop κ) : SessionEvent κ → SessionStep κ
  | .call c caller => l.segment (l.session.call c) caller
  | .resume index reply =>
    match l.tasks[index]? with
    | none => ⟨l, [], .none⟩
    | some t => { l with tasks := l.tasks.eraseIdx index }.segment (l.session.resume t.coroutine reply) t.caller
  | .close error notifyRemote => l.ran (l.session.close error notifyRemote)
  | .aclose error => l.ran (l.session.aclose error)
  | .timer handle => l.ran (l.session.fireTimer handle)
  | .connectionState state => l.ran (l.session.handleConnectionState state)
  | .dataChannel label readyState =>
    if l.session.pc.negotiated ∧ ¬ l.session.isDialer then
      l.ran (l.session.channelEvent (l.session.pc.registerChannel label readyState))
    else ⟨l, [], .none⟩
  | .channelOpen isReliable =>
    if l.session.pc.negotiated ∧ l.session.pc.registered isReliable then
      l.ran (l.session.channelEvent (l.session.pc.channelOpened isReliable))
    else ⟨l, [], .none⟩
  | .channelMessage isReliable data =>
    if l.session.pc.negotiated ∧ l.session.pc.registered isReliable then
      l.ran (l.session.channelMessage isReliable data)
    else ⟨l, [], .none⟩
  | .send data sendType => l.ran ((l.session.send data sendType).2, [])

/-- The loop after one event. -/
def next [Aiortc] (l : SessionLoop κ) (e : SessionEvent κ) : SessionLoop κ := (l.step e).loop

/-- A session that was just constructed. -/
def fresh (s : Session) : SessionLoop κ := { session := s }

end SessionLoop
end NetherNet
