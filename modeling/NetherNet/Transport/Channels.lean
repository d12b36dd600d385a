import NetherNet.Library.Machine
import NetherNet.Transport.PeerConnection

/-! The two data channels of a peer connection: fragments wait until their channel is
open, and the session is told when both are. -/
namespace NetherNet
open Library

/-- What happens to the channels: a packet is sent, a channel is registered in the given
ready state, a registered channel opens. -/
inductive ChannelEvent where
  | send (data : Bytes) (sendType : SendType)
  | register (label : Text) (readyState : Bool)
  | opened (isReliable : Bool)
  deriving DecidableEq, Repr

/-- One channel of a peer connection, with what waits for it. -/
structure ChannelSide where
  channel : Option DataChannel
  isOpen : Bool
  pending : List Bytes

namespace ChannelSide

/-- What was handed to the channel's `send`. -/
def sent (s : ChannelSide) : List Bytes := (s.channel.map DataChannel.sent).getD []

/-- The channel is there and open. -/
def Opened (s : ChannelSide) : Prop := ∃ channel, s.channel = some channel ∧ channel.isOpen = true

/-- `_channel_send`. -/
def put (s : ChannelSide) (fragment : Bytes) : ChannelSide :=
  match s.channel, s.isOpen with
  | some channel, true => { s with channel := some (channel.send [fragment]) }
  | _, _ => { s with pending := s.pending ++ [fragment] }

/-- `_handle_channel_open`, but for the callback. -/
def handleOpen (s : ChannelSide) : ChannelSide :=
  if s.isOpen then s else { channel := s.channel.map (·.send s.pending), isOpen := true, pending := [] }

/-- Nothing of `produced` is lost, repeated or out of order, and nothing is sent before the channel opens. -/
structure InOrder (s : ChannelSide) (produced : List Bytes) : Prop where
  flag : s.isOpen = true ↔ s.Opened
  order : s.sent ++ s.pending = produced
  drained : s.isOpen = true → s.pending = []
  unsent : s.isOpen = false → s.sent = []

theorem inOrder_put {s : ChannelSide} {produced : List Bytes} (h : s.InOrder produced) (fragment : Bytes) :
    (s.put fragment).InOrder (produced ++ [fragment]) := by
  obtain ⟨channel, isOpen, pending⟩ := s
  obtain ⟨hflag, horder, hdrained, hunsent⟩ := h
  cases isOpen with
  | false =>
    have hput : put ⟨channel, false, pending⟩ fragment = ⟨channel, false, pending ++ [fragment]⟩ := by
      cases channel <;> rfl
    rw [hput]
    refine ⟨hflag, ?_, by simp, hunsent⟩
    rw [← horder, List.append_assoc]
    rfl
  | true =>
    obtain ⟨c, hc, hopen⟩ := hflag.mp rfl
    obtain rfl : pending = [] := hdrained rfl
    simp only at hc
    subst hc
    refine ⟨iff_of_true rfl ⟨c.send [fragment], rfl, hopen⟩, ?_, fun _ => rfl, by simp [put]⟩
    rw [← horder]
    simp [put, sent, DataChannel.send]

theorem inOrder_opened {s : ChannelSide} {produced : List Bytes} (h : s.InOrder produced) {channel : DataChannel}
    (hc : s.channel = some channel) : ({ s with channel := some channel.opened }.handleOpen).InOrder produced := by
  obtain ⟨_, isOpen, pending⟩ := s
  obtain ⟨hflag, horder, hdrained, hunsent⟩ := h
  simp only at hc
  subst hc
  cases isOpen with
  | true => exact ⟨iff_of_true rfl ⟨channel.opened, rfl, rfl⟩, horder, hdrained, by simp [handleOpen]⟩
  | false =>
    have hnone : channel.sent = [] := hunsent rfl
    refine ⟨iff_of_true rfl ⟨_, rfl, rfl⟩, ?_, fun _ => rfl, by simp [handleOpen]⟩
    rw [← horder]
    simp [handleOpen, sent, DataChannel.send, DataChannel.opened, hnone]

/-- A channel is registered where there was none. -/
theorem inOrder_registered {s : ChannelSide} {produced : List Bytes} (h : s.InOrder produced) (hc : s.channel = none) :
    ({ s with channel := some {} } : ChannelSide).InOrder produced := by
  obtain ⟨_, isOpen, pending⟩ := s
  obtain ⟨hflag, horder, hdrained, _⟩ := h
  simp only at hc
  subst hc
  cases isOpen with
  | true =>
    obtain ⟨c, hc, _⟩ := hflag.mp rfl
    cases hc
  | false => exact ⟨iff_of_false (by simp) (by rintro ⟨c, hc, hopen⟩; cases hc; cases hopen), horder, hdrained, fun _ => rfl⟩

end ChannelSide

namespace PeerConnection

def side (pc : PeerConnection) (isReliable : Bool) : ChannelSide :=
  if isReliable then ⟨pc.reliable, pc.reliableOpen, pc.pendingReliable⟩
  else ⟨pc.unreliable, pc.unreliableOpen, pc.pendingUnreliable⟩

/-- One event: the peer connection, and whether `on_channels_open` is called. Only a registered channel opens. -/
def onEvent (pc : PeerConnection) : ChannelEvent → PeerConnection × Bool
  | .send data sendType =>
    match pc.send data sendType with
    | .error _ => (pc, false)
    | .ok (_, pc) => (pc, false)
  | .register label readyState => pc.registerChannel label readyState
  | .opened isReliable => if pc.registered isReliable then pc.channelOpened isReliable else (pc, false)

def next (pc : PeerConnection) (e : ChannelEvent) : PeerConnection := (pc.onEvent e).1

/-- Whether the event calls `on_channels_open`. -/
def fires (pc : PeerConnection) (e : ChannelEvent) : List Bool := [(pc.onEvent e).2]

/-- The fragments that an event produces for a channel. -/
def produced (isReliable : Bool) : ChannelEvent → List Bytes
  | .send data sendType =>
    match PacketQueue.push data sendType with
    | .error _ => []
    | .ok (_, fragments) => (fragments.filter fun f => (f.1 = .reliable : Bool) = isReliable).map Prod.snd
  | _ => []

/-- At most one channel with the reliable label is given, and at most one other. -/
def Once (pc : PeerConnection) : ChannelEvent → Prop
  | .register label _ => (pc.side (label = reliableLabel)).channel = none
  | _ => True

instance (pc : PeerConnection) (e : ChannelEvent) : Decidable (pc.Once e) := by
  cases e <;> unfold Once <;> infer_instance

/-- Both channels are open. -/
def BothOpen (pc : PeerConnection) : Prop := (pc.side true).Opened ∧ (pc.side false).Opened

/-! ### Each side by itself -/

private theorem side_channelSend (pc : PeerConnection) (isReliable : Bool) (fragment : Bytes) (r : Bool) :
    (pc.channelSend isReliable fragment).side r =
      if r = isReliable then (pc.side r).put fragment else pc.side r := by
  unfold channelSend ChannelSide.put side
  cases isReliable <;> cases r <;> simp only [if_true, if_false, Bool.false_eq_true, reduceCtorEq]
  all_goals split <;> simp_all

private theorem handleChannelOpen_sides (pc : PeerConnection) (isReliable r : Bool) :
    (pc.handleChannelOpen isReliable).1.side r = if r = isReliable then (pc.side r).handleOpen else pc.side r := by
  unfold handleChannelOpen ChannelSide.handleOpen side
  cases isReliable <;> cases r <;> simp only [if_true, if_false, Bool.false_eq_true, reduceCtorEq]
  all_goals split
  all_goals first | rfl | (split <;> rfl)

/-- The callback is made by the second channel that opens, if it was not made before. -/
private theorem handleChannelOpen_fires (pc : PeerConnection) (isReliable : Bool) :
    (pc.handleChannelOpen isReliable).2 =
        (!(pc.side isReliable).isOpen && (pc.side (!isReliable)).isOpen && !pc.channelsOpenFired) ∧
      (pc.handleChannelOpen isReliable).1.channelsOpenFired =
        (pc.channelsOpenFired || (pc.handleChannelOpen isReliable).2) := by
  unfold handleChannelOpen side
  cases isReliable <;> cases hr : pc.reliableOpen <;> cases hu : pc.unreliableOpen <;> cases hf : pc.channelsOpenFired <;>
    simp_all

/-! ### The invariant -/

/-- Both sides are in order, and the callback was made if both are open. -/
structure Channelled (pc : PeerConnection) (produced : Bool → List Bytes) : Prop where
  sides : ∀ r, (pc.side r).InOrder (produced r)
  fired : pc.channelsOpenFired = ((pc.side true).isOpen && (pc.side false).isOpen)

theorem channelled_new (isDialer relayOnly : Bool) : (new isDialer relayOnly).Channelled fun _ => [] := by
  have fresh : ∀ channel : Option DataChannel, (∀ c ∈ channel, c = {}) → ChannelSide.InOrder ⟨channel, false, []⟩ [] := by
    intro channel hc
    cases channel with
    | none => exact ⟨iff_of_false (by simp) (by rintro ⟨c, hc, _⟩; cases hc), rfl, fun _ => rfl, fun _ => rfl⟩
    | some c =>
      obtain rfl := hc c rfl
      exact ⟨iff_of_false (by simp) (by rintro ⟨c, hc, hopen⟩; cases hc; cases hopen), rfl, fun _ => rfl, fun _ => rfl⟩
  refine ⟨fun r => ?_, ?_⟩
  · cases isDialer <;> cases r <;> exact fresh _ (by simp [new])
  · cases isDialer <;> rfl

private theorem channelled_put {pc : PeerConnection} {produced : Bool → List Bytes} (h : pc.Channelled produced)
    (isReliable : Bool) (fragment : Bytes) :
    (pc.channelSend isReliable fragment).Channelled fun r =>
      produced r ++ if r = isReliable then [fragment] else [] := by
  have hopen : ∀ r, ((pc.channelSend isReliable fragment).side r).isOpen = (pc.side r).isOpen := by
    intro r
    rw [side_channelSend]
    split
    · unfold ChannelSide.put
      split <;> rfl
    · rfl
  refine ⟨fun r => ?_, ?_⟩
  · rw [side_channelSend]
    split
    · exact ChannelSide.inOrder_put (h.sides r) fragment
    · rw [List.append_nil]
      exact h.sides r
  · rw [fired_channelSend, hopen, hopen, h.fired]

private theorem channelled_puts {pc : PeerConnection} {produced : Bool → List Bytes} (h : pc.Channelled produced)
    (fragments : List (SendType × Bytes)) :
    (fragments.foldl (fun pc f => pc.channelSend (f.1 = .reliable) f.2) pc).Channelled fun r =>
      produced r ++ (fragments.filter fun f => (f.1 = .reliable : Bool) = r).map Prod.snd := by
  induction fragments generalizing pc produced with
  | nil => simpa using h
  | cons f fragments ih =>
    have hrest := ih (channelled_put h (f.1 = .reliable) f.2)
    rw [List.foldl_cons]
    convert hrest using 2 with r
    by_cases hr : (f.1 = .reliable : Bool) = r
    · rw [List.filter_cons_of_pos (by simpa using hr), if_pos hr.symm, List.map_cons, List.append_assoc]
      rfl
    · rw [List.filter_cons_of_neg (by simpa using hr), if_neg fun h => hr h.symm, List.append_nil]

/-- A side whose channel was just announced, or has just opened, and then the handler of its opening. -/
private theorem channelled_opened {pc pc' : PeerConnection} {produced : Bool → List Bytes} (h : pc.Channelled produced)
    {isReliable : Bool} (hside : (pc'.side isReliable).handleOpen.InOrder (produced isReliable))
    (hflag : (pc'.side isReliable).isOpen = (pc.side isReliable).isOpen)
    (hother : pc'.side (!isReliable) = pc.side (!isReliable)) (hfired : pc'.channelsOpenFired = pc.channelsOpenFired) :
    (pc'.handleChannelOpen isReliable).1.Channelled produced := by
  obtain ⟨hfires, hset⟩ := pc'.handleChannelOpen_fires isReliable
  have hopen : ∀ s : ChannelSide, s.handleOpen.isOpen = true := by
    intro s
    unfold ChannelSide.handleOpen
    split
    · assumption
    · rfl
  refine ⟨fun r => ?_, ?_⟩
  · rw [handleChannelOpen_sides]
    split
    · next hr => exact hr ▸ hside
    · next hr =>
      obtain rfl : r = !isReliable := by cases r <;> cases isReliable <;> simp_all
      rw [hother]
      exact h.sides _
  · rw [hset, hfires, hflag, hother, hfired, h.fired, handleChannelOpen_sides, handleChannelOpen_sides]
    cases isReliable with
    | true =>
      rw [if_pos rfl, if_neg Bool.false_ne_true, hopen, show pc'.side false = pc.side false from hother, Bool.not_true]
      cases (pc.side true).isOpen <;> cases (pc.side false).isOpen <;> rfl
    | false =>
      rw [if_neg (by simp), if_pos rfl, hopen, show pc'.side true = pc.side true from hother, Bool.not_false]
      cases (pc.side true).isOpen <;> cases (pc.side false).isOpen <;> rfl

/-- Which side a registered channel is on, and which the callback is about. -/
private theorem registerChannel_eq (pc : PeerConnection) (label : Text) (readyState : Bool) :
    ∃ pc' : PeerConnection, (∀ r, pc'.side r = if r = decide (label = reliableLabel) then
        { pc.side r with channel := some { isOpen := readyState } } else pc.side r) ∧
      pc'.channelsOpenFired = pc.channelsOpenFired ∧
      pc.registerChannel label readyState = if readyState then pc'.handleChannelOpen (label = reliableLabel) else (pc', false) := by
  unfold registerChannel
  by_cases hl : label = reliableLabel
  · refine ⟨{ pc with reliable := some { isOpen := readyState } }, fun r => ?_, rfl, by simp [hl]⟩
    cases r <;> simp [side, hl]
  · refine ⟨{ pc with unreliable := some { isOpen := readyState } }, fun r => ?_, rfl, by simp [hl]⟩
    cases r <;> simp [side, hl]

private theorem channelOpened_eq (pc : PeerConnection) (isReliable : Bool) :
    ∃ pc' : PeerConnection, (∀ r, pc'.side r = if r = isReliable then
        { pc.side r with channel := (pc.side r).channel.map DataChannel.opened } else pc.side r) ∧
      pc'.channelsOpenFired = pc.channelsOpenFired ∧ pc.channelOpened isReliable = pc'.handleChannelOpen isReliable := by
  cases isReliable with
  | true =>
    refine ⟨{ pc with reliable := pc.reliable.map DataChannel.opened }, fun r => ?_, rfl, rfl⟩
    cases r <;> simp [side]
  | false =>
    refine ⟨{ pc with unreliable := pc.unreliable.map DataChannel.opened }, fun r => ?_, rfl, rfl⟩
    cases r <;> simp [side]

theorem channelled_next {pc : PeerConnection} {made : Bool → List Bytes} (h : pc.Channelled made) {e : ChannelEvent}
    (he : pc.Once e) : (pc.next e).Channelled fun r => made r ++ produced r e := by
  cases e with
  | send data sendType =>
    simp only [next, onEvent, PeerConnection.send, produced, PacketQueue.push_eq]
    exact channelled_puts h _
  | register label readyState =>
    obtain ⟨pc', hsides, hfired, heq⟩ := pc.registerChannel_eq label readyState
    simp only [produced, List.append_nil]
    rw [next, onEvent, heq]
    have hnew := hsides (label = reliableLabel)
    rw [if_pos rfl] at hnew
    have hother := hsides (!decide (label = reliableLabel))
    rw [if_neg (by simp)] at hother
    have hregistered := ChannelSide.inOrder_registered (h.sides (label = reliableLabel)) he
    cases readyState with
    | true =>
      refine channelled_opened h ?_ (by rw [hnew]) hother hfired
      rw [hnew]
      exact ChannelSide.inOrder_opened hregistered rfl
    | false =>
      refine ⟨fun r => ?_, ?_⟩
      · rw [if_neg Bool.false_ne_true, hsides]
        split
        · next hr => exact hr ▸ hregistered
        · exact h.sides r
      · have hopen : ∀ r, (pc'.side r).isOpen = (pc.side r).isOpen := by
          intro r
          rw [hsides]
          split <;> rfl
        rw [if_neg Bool.false_ne_true, hfired, hopen, hopen, h.fired]
  | opened isReliable =>
    simp only [produced, List.append_nil]
    by_cases hr : pc.registered isReliable = true
    · obtain ⟨pc', hsides, hfired, heq⟩ := pc.channelOpened_eq isReliable
      rw [next, onEvent, if_pos hr, heq]
      have hnew := hsides isReliable
      rw [if_pos rfl] at hnew
      have hother := hsides (!isReliable)
      rw [if_neg (by simp)] at hother
      obtain ⟨channel, hc⟩ : ∃ channel, (pc.side isReliable).channel = some channel := by
        cases isReliable <;> exact Option.isSome_iff_exists.mp hr
      refine channelled_opened h ?_ (by rw [hnew]) hother hfired
      rw [hnew, hc]
      exact ChannelSide.inOrder_opened (h.sides isReliable) hc
    · rw [next, onEvent, if_neg hr]
      exact h

/-- The callback is made at most once. -/
private theorem onEvent_fires (pc : PeerConnection) (e : ChannelEvent) :
    (pc.next e).channelsOpenFired = (pc.channelsOpenFired || (pc.onEvent e).2) ∧
      ((pc.onEvent e).2 = true → pc.channelsOpenFired = false) := by
  have handles : ∀ (pc' : PeerConnection) (isReliable : Bool), pc'.channelsOpenFired = pc.channelsOpenFired →
      (pc'.handleChannelOpen isReliable).1.channelsOpenFired = (pc.channelsOpenFired || (pc'.handleChannelOpen isReliable).2) ∧
        ((pc'.handleChannelOpen isReliable).2 = true → pc.channelsOpenFired = false) := by
    intro pc' isReliable hfired
    obtain ⟨hfires, hset⟩ := pc'.handleChannelOpen_fires isReliable
    rw [← hfired]
    refine ⟨hset, fun h => ?_⟩
    rw [hfires, Bool.and_eq_true, Bool.not_eq_true'] at h
    exact h.2
  have silent : ∀ pc' : PeerConnection, pc'.channelsOpenFired = pc.channelsOpenFired →
      pc'.channelsOpenFired = (pc.channelsOpenFired || false) ∧ (false = true → pc.channelsOpenFired = false) :=
    fun pc' h => ⟨by rw [h, Bool.or_false], fun h => absurd h Bool.false_ne_true⟩
  cases e with
  | send data sendType =>
    simp only [next, onEvent, PeerConnection.send, PacketQueue.push_eq]
    exact silent _ (fired_channelSends _ pc)
  | register label readyState =>
    obtain ⟨pc', _, hfired, heq⟩ := pc.registerChannel_eq label readyState
    rw [next, onEvent, heq]
    cases readyState with
    | true => exact handles pc' _ hfired
    | false => exact silent pc' hfired
  | opened isReliable =>
    rw [next, onEvent]
    split
    · obtain ⟨pc', _, hfired, heq⟩ := pc.channelOpened_eq isReliable
      rw [heq]
      exact handles pc' _ hfired
    · exact silent pc rfl

/-! ### Whole runs -/

theorem channelled_run {pc : PeerConnection} {made : Bool → List Bytes} (h : pc.Channelled made)
    {events : List ChannelEvent} (he : Machine.Along Once next pc events) :
    (Machine.run next pc events).Channelled fun r => made r ++ events.flatMap (produced r) := by
  induction events generalizing pc made with
  | nil => simpa using h
  | cons e rest ih =>
    have hrest := ih (channelled_next h he.1) he.2
    simpa only [Machine.run_cons, List.flatMap_cons, List.append_assoc] using hrest

/-- The callbacks made in a run, and the flag at its two ends. -/
private theorem count_fires (pc : PeerConnection) (events : List ChannelEvent) :
    (Machine.collect next fires pc events).count true + pc.channelsOpenFired.toNat =
      (Machine.run next pc events).channelsOpenFired.toNat := by
  induction events generalizing pc with
  | nil => exact Nat.zero_add _
  | cons e rest ih =>
    obtain ⟨hset, honce⟩ := pc.onEvent_fires e
    have hstep : (fires pc e).count true + pc.channelsOpenFired.toNat = (pc.next e).channelsOpenFired.toNat := by
      rw [hset, fires]
      cases hf : (pc.onEvent e).2 with
      | false => simp
      | true =>
        rw [honce hf]
        rfl
    rw [Machine.collect, List.count_append, Machine.run_cons, ← ih, ← hstep]
    omega

private theorem channelled_bothOpen {pc : PeerConnection} {made : Bool → List Bytes} (h : pc.Channelled made) :
    pc.channelsOpenFired = true ↔ pc.BothOpen := by
  rw [h.fired, Bool.and_eq_true, (h.sides true).flag, (h.sides false).flag]
  rfl

/-- The two channels, in any order of sending, registering and opening: what a channel was
handed, with what waits for it, is what was produced for it, in order; no fragment is
handed to a channel that is not open; and `on_channels_open` is called once, by the event
that opens the second channel, when nothing waits any more. -/
theorem channels_in_order (isDialer relayOnly : Bool) (events : List ChannelEvent)
    (h : Machine.Along Once next (new isDialer relayOnly) events) :
    let pc := Machine.run next (new isDialer relayOnly) events
    (∀ r, (pc.side r).sent ++ (pc.side r).pending = events.flatMap (produced r)) ∧
      (∀ r, (pc.side r).sent ≠ [] → (pc.side r).Opened) ∧
      (Machine.collect next fires (new isDialer relayOnly) events).count true ≤ 1 ∧
      ∀ before e after, events = before ++ e :: after →
        (fires (Machine.run next (new isDialer relayOnly) before) e = [true] ↔
          ¬ (Machine.run next (new isDialer relayOnly) before).BothOpen ∧
            (Machine.run next (new isDialer relayOnly) (before ++ [e])).BothOpen) ∧
        (fires (Machine.run next (new isDialer relayOnly) before) e = [true] →
          ∀ r, ((Machine.run next (new isDialer relayOnly) (before ++ [e])).side r).pending = []) := by
  have runs : ∀ {first rest : List ChannelEvent}, events = first ++ rest →
      (Machine.run next (new isDialer relayOnly) first).Channelled fun r => first.flatMap (produced r) := by
    intro first rest heq
    subst heq
    have hfirst := ((Machine.along_append Once next (new isDialer relayOnly) first rest).mp h).1
    simpa only [List.nil_append] using channelled_run (channelled_new isDialer relayOnly) hfirst
  have hall := runs (List.append_nil events).symm
  refine ⟨fun r => (hall.sides r).order, fun r hsent => ?_, ?_, ?_⟩
  · refine (hall.sides r).flag.mp ?_
    by_contra hclosed
    exact hsent ((hall.sides r).unsent (Bool.eq_false_iff.mpr hclosed))
  · have hcount := count_fires (new isDialer relayOnly) events
    have hflag := Bool.toNat_le (Machine.run next (new isDialer relayOnly) events).channelsOpenFired
    omega
  · intro before e after heq
    have hbefore := runs heq
    have hafter := @runs (before ++ [e]) after (by rw [heq, List.append_assoc]; rfl)
    obtain ⟨hset, honce⟩ := (Machine.run next (new isDialer relayOnly) before).onEvent_fires e
    rw [← channelled_bothOpen hbefore, ← channelled_bothOpen hafter]
    rw [Machine.run_concat] at hafter ⊢
    rw [fires, List.cons_eq_cons, and_iff_left rfl, hset]
    refine ⟨⟨fun hf => ⟨?_, ?_⟩, ?_⟩, fun hf r => ?_⟩
    · rw [honce hf]
      exact Bool.false_ne_true
    · rw [hf, Bool.or_true]
    · rintro ⟨hno, hyes⟩
      exact ((Bool.or_eq_true _ _).mp hyes).resolve_left hno
    · refine (hafter.sides r).drained ?_
      have hopen : ((Machine.run next (new isDialer relayOnly) before).next e).BothOpen := by
        rw [← channelled_bothOpen hafter, hset, hf, Bool.or_true]
      refine (hafter.sides r).flag.mpr ?_
      cases r with
      | true => exact hopen.1
      | false => exact hopen.2

/-- A listener whose packets are sent while its channels are registered and open. -/
theorem channels_in_order_listener :
    let events : List ChannelEvent := [.send [1] .reliable, .register reliableLabel false, .send [2] .unreliable, .opened true,
      .send [3] .reliable, .register unreliableLabel true, .opened true]
    let pc := Machine.run next (new false false) events
    (pc.side true).sent ++ (pc.side true).pending = [[0, 1], [0, 3]] ∧
      (Machine.collect next fires (new false false) events).count true = 1 := by
  intro events pc
  have hrun := (channels_in_order false false events (by decide +kernel)).1 true
  exact ⟨hrun.trans (by decide +kernel), by decide +kernel⟩

end PeerConnection
end NetherNet
