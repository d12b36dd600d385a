import NetherNet.Api.Routing
import NetherNet.Peers.Agreement
import NetherNet.Session.DataChannels
import NetherNet.Transport.FramingDelivery

/-! Two sessions and the data channels between them. What is handed to the reliable channel
arrives in order and once; what is handed to the other may be lost, repeated and reordered. -/
namespace NetherNet
open Library PacketQueue

/-- One end of a link: its session, how many reliable messages of the other end have arrived,
the packets for which `send` returned True, and those given to `on_packet`, each with whether
it came on the reliable channel. -/
structure LinkEnd where
  loop : SessionLoop Unit
  arrived : Nat := 0
  sent : List (Bytes × SendType) := []
  delivered : List (Bool × Bytes) := []

/-- The two ends; the left one dials. -/
abbrev Link := Side → LinkEnd

/-- What happens at an end. A message of the other end arrives: the next one of its reliable
channel, or any of its unreliable one. -/
inductive LinkEvent where
  | session (e : SessionEvent Unit)
  | reliable
  | unreliable (n : Nat)
  deriving DecidableEq, Repr

namespace LinkEnd

/-- What was handed to a channel's `send`. -/
def channel (x : LinkEnd) (isReliable : Bool) : List Bytes := (x.loop.session.pc.side isReliable).sent

/-- The packet of a `send` that returns True. -/
def accepts (x : LinkEnd) : SessionEvent Unit → List (Bytes × SendType)
  | .send data sendType => if (x.loop.session.send data sendType).1 then [(data, sendType)] else []
  | _ => []

/-- An event of the session. Messages come from the other end only. -/
def happens [Aiortc] (x : LinkEnd) : SessionEvent Unit → LinkEnd
  | .channelMessage _ _ => x
  | e => { x with loop := x.loop.next e, sent := x.sent ++ x.accepts e }

/-- A channel carries a message only to a peer connection that has it. -/
def Ready (x : LinkEnd) (isReliable : Bool) : Prop :=
  x.loop.session.pc.negotiated = true ∧ x.loop.session.pc.registered isReliable = true

instance (x : LinkEnd) (isReliable : Bool) : Decidable (x.Ready isReliable) := inferInstanceAs (Decidable (_ ∧ _))

/-- A message arrives. -/
def receives [Aiortc] (x : LinkEnd) (isReliable : Bool) (message : Bytes) : LinkEnd :=
  let stepped := x.loop.step (.channelMessage isReliable message)
  { x with loop := stepped.loop, delivered := x.delivered ++ (packetsOf stepped.effects).map (isReliable, ·) }

/-- The reliable packets for which `send` returned True. -/
def reliablePackets (x : LinkEnd) : List Bytes := (x.sent.filter (·.2 = .reliable)).map (·.1)

/-- The packets that `on_packet` was given from the reliable channel. -/
def reliableDelivered (x : LinkEnd) : List Bytes := (x.delivered.filter (·.1)).map (·.2)

end LinkEnd

namespace Link

/-- `_make_http_session` on both sides, or a session of a manager on either. -/
def new (connectionId : Nat) (localId : Side → NetworkId) (relayOnly : Side → Bool) : Link :=
  fun side => { loop := .fresh (Session.new connectionId (localId side) (localId side.other) (side = .left) (relayOnly side)) }

def set (w : Link) (side : Side) (x : LinkEnd) : Link := fun side' => if side' = side then x else w side'

def next [Aiortc] (w : Link) : Side × LinkEvent → Link
  | (side, .session e) => w.set side ((w side).happens e)
  | (side, .reliable) =>
    match ((w side.other).channel true)[(w side).arrived]? with
    | none => w
    | some message =>
      if (w side).Ready true then
        w.set side { (w side).receives true message with arrived := (w side).arrived + 1 }
      else w
  | (side, .unreliable n) =>
    match ((w side.other).channel false)[n]? with
    | none => w
    | some message => if (w side).Ready false then w.set side ((w side).receives false message) else w

/-- aiortc announces each of the dialer's two channels to the listener once. -/
def Once (w : Link) : Side × LinkEvent → Prop
  | (side, .session (.dataChannel label readyState)) => (w side).loop.session.pc.Once (.register label readyState)
  | _ => True

instance (w : Link) (e : Side × LinkEvent) : Decidable (w.Once e) := by
  obtain ⟨side, e⟩ := e
  cases e with
  | session e => cases e <;> unfold Once <;> infer_instance
  | _ => exact .isTrue trivial

@[simp] theorem set_same (w : Link) (side : Side) (x : LinkEnd) : w.set side x side = x := if_pos rfl

theorem set_of_ne (w : Link) {side side' : Side} (h : side' ≠ side) (x : LinkEnd) : w.set side x side' = w side' := if_neg h

end Link

/-! ### What a sender has handed to its channels -/

/-- What the pushes of some packets produce for one channel are the labelled messages of it. -/
theorem produced_sentBy (pushes : List (Bytes × SendType)) (isReliable : Bool) :
    (pushes.flatMap fun p => PeerConnection.produced isReliable (.send p.1 p.2)) =
      ((sentBy pushes).filter fun m => m.reliable = isReliable).map Sent.message := by
  have labelled : ∀ (packet : Bytes) (fragments : List (SendType × Bytes)),
      (fragments.filter fun f => (f.1 = .reliable : Bool) = isReliable).map Prod.snd =
        ((label packet fragments).filter fun m => m.reliable = isReliable).map Sent.message := by
    intro packet fragments
    induction fragments with
    | nil => rfl
    | cons f rest ih =>
      rw [label, List.filter_cons, List.filter_cons]
      by_cases h : (f.1 = .reliable : Bool) = isReliable
      · simp only [h, Sent.reliable, decide_true, if_true, List.map_cons]
        exact congrArg (f.2 :: ·) ih
      · simpa only [h, Sent.reliable, decide_false, Bool.false_eq_true, if_false] using ih
  induction pushes with
  | nil => rfl
  | cons p rest ih =>
    rw [List.flatMap_cons, ih]
    show _ = List.map Sent.message (List.filter (fun m => decide (m.reliable = isReliable)) (List.flatMap _ (p :: rest)))
    rw [List.flatMap_cons, List.filter_append, List.map_append, PeerConnection.produced]
    congr 1
    cases push p.1 p.2 with
    | error e => rfl
    | ok sent => exact labelled p.1 sent.2

theorem stream_append {acc : Bytes} {first rest : List Sent} (h : Stream acc first) (hr : Stream [] rest) :
    Stream acc (first ++ rest) := by
  induction first generalizing acc with
  | nil =>
    obtain rfl : acc = [] := h
    exact hr
  | cons m first ih =>
    obtain ⟨header, payload, hmessage, hlast, hgoes⟩ := h
    refine ⟨header, payload, hmessage, hlast, ?_⟩
    by_cases hm : m.last = true
    · rw [if_pos hm] at hgoes ⊢
      exact ⟨hgoes.1, ih hgoes.2⟩
    · rw [if_neg hm] at hgoes ⊢
      exact ih hgoes

theorem sentBy_append (pushes more : List (Bytes × SendType)) : sentBy (pushes ++ more) = sentBy pushes ++ sentBy more :=
  List.flatMap_append

/-- Of packets that are all accepted, the reliable ones are the accepted reliable ones. -/
theorem acceptedReliable_of_all {pushes : List (Bytes × SendType)} (h : ∀ p ∈ pushes, Accepts p.1 p.2) :
    acceptedReliable pushes = (pushes.filter (·.2 = .reliable)).map (·.1) := by
  rw [acceptedReliable]
  congr 1
  apply List.filter_congr
  intro p hp
  simp [pushReturns_eq, h p hp]

namespace LinkEnd

/-- The messages of the reliable channel, with the packets they belong to. -/
def stream (x : LinkEnd) : List Sent := (sentBy x.sent).filter Sent.reliable

/-- What holds of an end as a sender. -/
structure Sends (x : LinkEnd) : Prop where
  channels : x.loop.session.pc.Channelled fun r => x.sent.flatMap fun p => PeerConnection.produced r (.send p.1 p.2)
  accepted : ∀ p ∈ x.sent, Accepts p.1 p.2

/-- What the end `x` has made of the messages of the end `y`. -/
structure Hears (y x : LinkEnd) : Prop where
  arrived : x.arrived ≤ y.stream.length
  awaits : Stream x.loop.session.pc.packets.reassembly (y.stream.drop x.arrived)
  drained : x.loop.session.pc.packets.received = []
  reliable : x.reliableDelivered = ((y.stream.take x.arrived).filter Sent.last).map Sent.packet
  unreliable : ∀ packet, (false, packet) ∈ x.delivered → (packet, SendType.unreliable) ∈ y.sent
  called : packetsOf x.loop.trace = x.delivered.map (·.2)

theorem Sends.messages {x : LinkEnd} (h : x.Sends) (isReliable : Bool) :
    x.channel isReliable ++ (x.loop.session.pc.side isReliable).pending =
      ((sentBy x.sent).filter fun m => m.reliable = isReliable).map Sent.message := by
  rw [← produced_sentBy]
  exact (h.channels.sides isReliable).order

/-- What a channel was handed is some of the labelled messages, in order. -/
theorem Sends.getElem? {x : LinkEnd} (h : x.Sends) {isReliable : Bool} {n : Nat} {message : Bytes}
    (hn : (x.channel isReliable)[n]? = some message) :
    ∃ m, ((sentBy x.sent).filter fun m => m.reliable = isReliable)[n]? = some m ∧ m.message = message := by
  obtain ⟨hlt, _⟩ := List.getElem?_eq_some_iff.mp hn
  have hall : (x.channel isReliable ++ (x.loop.session.pc.side isReliable).pending)[n]? = some message := by
    rw [List.getElem?_append_left hlt, hn]
  rw [h.messages, List.getElem?_map] at hall
  exact Option.map_eq_some_iff.mp hall

/-! ### An event of the session -/

theorem happens_eq [Aiortc] (x : LinkEnd) {e : SessionEvent Unit} (he : ∀ isReliable data, e ≠ .channelMessage isReliable data) :
    x.happens e = { x with loop := x.loop.next e, sent := x.sent ++ x.accepts e } := by
  cases e with
  | channelMessage isReliable data => exact absurd rfl (he isReliable data)
  | _ => rfl

/-- What a session's event produces for a channel is what the accepted packet of it produces. -/
private theorem produced_accepts (x : LinkEnd) (e : SessionEvent Unit) (r : Bool) :
    (x.loop.channelEvents e).flatMap (PeerConnection.produced r) =
      (x.accepts e).flatMap fun p => PeerConnection.produced r (.send p.1 p.2) := by
  cases e with
  | send data sendType =>
    rw [SessionLoop.channelEvents, accepts]
    by_cases hsend : (x.loop.session.send data sendType).1 = true
    · rw [if_pos hsend, if_pos (Session.send_fst _ _ _ |>.mp hsend).1]
      rfl
    · rw [if_neg hsend]
      by_cases hconnected : x.loop.session.state = .connected
      · have hrefused : ¬ Accepts data sendType := fun ha => hsend ((Session.send_fst _ _ _).mpr ⟨hconnected, ha⟩)
        rw [if_pos hconnected, List.flatMap_cons, PeerConnection.produced, push_eq, if_neg hrefused]
        rfl
      · rw [if_neg hconnected]
        rfl
  | dataChannel label readyState =>
    rw [SessionLoop.channelEvents]
    split <;> rfl
  | channelOpen isReliable =>
    rw [SessionLoop.channelEvents]
    split <;> rfl
  | _ => rfl

private theorem once_channelEvents (x : LinkEnd) (e : SessionEvent Unit)
    (h : ∀ label readyState, e = .dataChannel label readyState → x.loop.session.pc.Once (.register label readyState)) :
    Machine.Along PeerConnection.Once PeerConnection.next x.loop.session.pc (x.loop.channelEvents e) := by
  cases e with
  | dataChannel label readyState =>
    rw [SessionLoop.channelEvents]
    split
    · exact ⟨h label readyState rfl, trivial⟩
    · trivial
  | send data sendType =>
    rw [SessionLoop.channelEvents]
    split <;> simp [Machine.Along, PeerConnection.Once]
  | channelOpen isReliable =>
    rw [SessionLoop.channelEvents]
    split <;> simp [Machine.Along, PeerConnection.Once]
  | _ => trivial

theorem sends_happens [Aiortc] {x : LinkEnd} (hx : x.Sends) (e : SessionEvent Unit)
    (h : ∀ label readyState, e = .dataChannel label readyState → x.loop.session.pc.Once (.register label readyState)) :
    (x.happens e).Sends := by
  by_cases he : ∃ isReliable data, e = .channelMessage isReliable data
  · obtain ⟨isReliable, data, rfl⟩ := he
    exact hx
  · have he' : ∀ isReliable data, e ≠ .channelMessage isReliable data := fun isReliable data h => he ⟨isReliable, data, h⟩
    rw [happens_eq x he']
    refine ⟨?_, fun p hp => ?_⟩
    · have hrun := PeerConnection.channelled_run hx.channels (once_channelEvents x e h)
      simp only [produced_accepts, ← List.flatMap_append] at hrun
      exact (x.loop.next_channels he').channelled hrun
    · rcases List.mem_append.mp hp with hp | hp
      · exact hx.accepted p hp
      · cases e with
        | send data sendType =>
          rw [accepts] at hp
          split at hp
          · next hsend =>
            obtain rfl := List.mem_singleton.mp hp
            exact ((Session.send_fst _ _ _).mp hsend).2
          · cases hp
        | _ => cases hp

private theorem packets_happens [Aiortc] (x : LinkEnd) {e : SessionEvent Unit}
    (he : ∀ isReliable data, e ≠ .channelMessage isReliable data) :
    (x.loop.next e).session.pc.packets = x.loop.session.pc.packets := by
  rw [(x.loop.next_channels he).packets]
  exact Machine.run_invariant_always (fun pc e h => (PeerConnection.packets_next pc e).trans h) rfl _

/-- An event that carries no message calls no `on_packet`. -/
private theorem packetless [Aiortc] (x : LinkEnd) {e : SessionEvent Unit}
    (he : ∀ isReliable data, e ≠ .channelMessage isReliable data) : packetsOf (x.loop.step e).effects = [] := by
  rw [packetsOf, List.filterMap_eq_nil_iff]
  have hquiet : ∀ f : Effect, f.isCallback = false → f.packet? = none := by
    intro f hf
    cases f <;> first | rfl | cases hf
  have closed : ∀ (s : Session) (error : ErrorCode) (notifyRemote : Bool), ∀ f ∈ (s.close error notifyRemote).2, f.packet? = none := by
    intro s error notifyRemote f hf
    unfold Session.close at hf
    split at hf
    · cases hf
    · rcases List.mem_append.mp hf with hf | hf
      · split at hf
        · obtain rfl := List.mem_singleton.mp hf
          rfl
        · cases hf
      · obtain rfl := List.mem_singleton.mp hf
        rfl
  have opened : ∀ (s : Session) (opened : PeerConnection × Bool), ∀ f ∈ (s.channelEvent opened).2, f.packet? = none := by
    intro s opened f hf
    unfold Session.channelEvent Session.handleChannelsOpen at hf
    simp only at hf
    split at hf
    · split at hf
      · cases hf
      · obtain rfl := List.mem_singleton.mp hf
        rfl
    · cases hf
  cases e with
  | call c caller =>
    rw [SessionLoop.step, SessionLoop.segment_effects]
    have hbegan := Session.call_began x.loop.session c
    generalize x.loop.session.call c = seg at hbegan
    cases hbegan with
    | closes k error => exact closed _ error false
    | _ => simp [Effect.packet?]
  | resume index reply => exact fun f hf => hquiet f (x.loop.resume_silent index reply f hf)
  | close error notifyRemote => exact closed _ error notifyRemote
  | aclose error =>
    simp only [SessionLoop.step, SessionLoop.ran, Session.aclose]
    split
    · exact closed _ error false
    · simp
  | timer handle =>
    simp only [SessionLoop.step, SessionLoop.ran, Session.fireTimer]
    split
    · simp
    · exact closed _ _ false
  | connectionState state =>
    simp only [SessionLoop.step, SessionLoop.ran, Session.handleConnectionState]
    split
    · simp
    · cases state with
      | failed => exact closed _ _ false
      | closed =>
        simp only
        split
        · exact closed _ _ false
        · simp
      | _ => simp
  | dataChannel label readyState =>
    simp only [SessionLoop.step]
    split
    · exact opened _ _
    · simp
  | channelOpen isReliable =>
    simp only [SessionLoop.step]
    split
    · exact opened _ _
    · simp
  | channelMessage isReliable data => exact absurd rfl (he isReliable data)
  | send data sendType => simp [SessionLoop.step, SessionLoop.ran]

/-- What an end has heard stays, whatever its session does meanwhile. -/
theorem hears_happens [Aiortc] {y x : LinkEnd} (h : Hears y x) (e : SessionEvent Unit) : Hears y (x.happens e) := by
  by_cases he : ∃ isReliable data, e = .channelMessage isReliable data
  · obtain ⟨isReliable, data, rfl⟩ := he
    exact h
  · have he' : ∀ isReliable data, e ≠ .channelMessage isReliable data := fun isReliable data h => he ⟨isReliable, data, h⟩
    rw [happens_eq x he']
    have hpackets := packets_happens x he'
    refine ⟨h.arrived, ?_, ?_, h.reliable, h.unreliable, ?_⟩
    · rw [hpackets]
      exact h.awaits
    · rw [hpackets]
      exact h.drained
    · rw [SessionLoop.next, SessionLoop.step_trace, packetsOf_append, packetless x he', List.append_nil]
      exact h.called

/-- What an end has heard stays, when the other end sends more. -/
theorem hears_sends [Aiortc] {y x : LinkEnd} (h : Hears y x) (e : SessionEvent Unit) : Hears (y.happens e) x := by
  have grown : ∃ more, (y.happens e).sent = y.sent ++ more := by
    by_cases he : ∃ isReliable data, e = .channelMessage isReliable data
    · obtain ⟨isReliable, data, rfl⟩ := he
      exact ⟨[], (List.append_nil _).symm⟩
    · rw [happens_eq y fun isReliable data h => he ⟨isReliable, data, h⟩]
      exact ⟨_, rfl⟩
  obtain ⟨more, hsent⟩ := grown
  have hstream : (y.happens e).stream = y.stream ++ (sentBy more).filter Sent.reliable := by
    rw [stream, hsent, sentBy_append, List.filter_append]
    rfl
  refine ⟨?_, ?_, h.drained, ?_, fun packet hp => ?_, h.called⟩
  · rw [hstream, List.length_append]
    exact Nat.le_trans h.arrived (Nat.le_add_right _ _)
  · rw [hstream, List.drop_append_of_le_length h.arrived]
    exact stream_append h.awaits (sentBy_stream more)
  · rw [hstream, List.take_append_of_le_length h.arrived]
    exact h.reliable
  · rw [hsent]
    exact List.mem_append_left _ (h.unreliable packet hp)

/-! ### An arrival -/

/-- A labelled message arrives: its packet is delivered if it is the packet's last. -/
private theorem receives_message [Aiortc] {x : LinkEnd} {m : Sent} (hready : x.Ready m.reliable) {rest : List Sent}
    (hdrained : x.loop.session.pc.packets.received = [])
    (hs : Stream x.loop.session.pc.packets.reassembly ([m].filter Sent.reliable ++ rest)) (hw : m.reliable = false → Whole m) :
    let x' := x.receives m.reliable m.message
    Stream x'.loop.session.pc.packets.reassembly rest ∧ x'.loop.session.pc.packets.received = [] ∧
      x'.delivered = x.delivered ++ (if m.last then [(m.reliable, m.packet)] else []) ∧
      packetsOf x'.loop.trace = packetsOf x.loop.trace ++ (if m.last then [m.packet] else []) := by
  have hreceive : (if m.reliable then x.loop.session.pc.packets.onReliableMessage m.message
      else x.loop.session.pc.packets.onUnreliableMessage m.message) = x.loop.session.pc.packets.receive m := by
    obtain ⟨channel, message, packet, last⟩ := m
    cases channel <;> rfl
  obtain ⟨hawaits, hreceived⟩ := receiveAll_stream [m] rest x.loop.session.pc.packets hs fun m' hm' => by
    rw [List.mem_singleton.mp hm']
    exact hw
  rw [hdrained, List.nil_append] at hreceived
  have hlast : ([m].filter Sent.last).map Sent.packet = if m.last then [m.packet] else [] := by
    cases hl : m.last <;> simp [hl]
  have heq := PeerConnection.handleChannelMessage_eq x.loop.session.pc m.reliable m.message
  simp only [hreceive] at heq
  rw [receiveAll, List.foldl_cons, List.foldl_nil] at hawaits hreceived
  have hstep : x.loop.step (.channelMessage m.reliable m.message) =
      x.loop.ran (x.loop.session.channelMessage m.reliable m.message) := if_pos hready
  have hdelivered : (x.loop.session.channelMessage m.reliable m.message).2 =
      (if m.last then [m.packet] else []).map .onPacket := by
    rw [Session.channelMessage, heq, hreceived, hlast]
  have hpc : (x.loop.session.channelMessage m.reliable m.message).1.pc =
      { x.loop.session.pc with packets := { x.loop.session.pc.packets.receive m with received := [] } } := by
    rw [Session.channelMessage, heq]
  simp only [receives, hstep, SessionLoop.ran, hpc, hdelivered, packetsOf_append, packetsOf_packets]
  refine ⟨hawaits, trivial, ?_, trivial⟩
  cases m.last <;> rfl

theorem sends_receives [Aiortc] {x : LinkEnd} (hx : x.Sends) {isReliable : Bool} (hready : x.Ready isReliable) (message : Bytes) :
    (x.receives isReliable message).Sends := by
  have hstep : x.loop.step (.channelMessage isReliable message) =
      x.loop.ran (x.loop.session.channelMessage isReliable message) := if_pos hready
  refine ⟨?_, hx.accepted⟩
  simp only [receives, hstep, SessionLoop.ran, Session.channelMessage, PeerConnection.handleChannelMessage_eq]
  exact ⟨hx.channels.sides, hx.channels.fired⟩

/-- A message of the unreliable channel is a whole packet. -/
theorem hears_unreliable [Aiortc] {y x : LinkEnd} (hy : y.Sends) (h : Hears y x) (hready : x.Ready false) {n : Nat} {message : Bytes}
    (hn : (y.channel false)[n]? = some message) : Hears y (x.receives false message) := by
  obtain ⟨m, hm, rfl⟩ := hy.getElem? hn
  obtain ⟨hmem, hunreliable⟩ := List.mem_filter.mp (List.mem_of_getElem? hm)
  rw [decide_eq_true_eq] at hunreliable
  obtain ⟨hwhole, hsent, _⟩ := sentBy_unreliable y.sent m hmem hunreliable
  have hlast : m.last = true := by
    obtain ⟨_, _, hlast⟩ := hwhole
    exact hlast
  have hs : Stream x.loop.session.pc.packets.reassembly ([m].filter Sent.reliable ++ y.stream.drop x.arrived) := by
    rw [List.filter_cons_of_neg (by simp [hunreliable])]
    exact h.awaits
  rw [← hunreliable] at hready ⊢
  obtain ⟨hawaits, hdrained, hdelivered, hcalled⟩ := receives_message hready h.drained hs fun _ => hwhole
  rw [hlast, if_pos rfl] at hdelivered hcalled
  refine ⟨h.arrived, hawaits, hdrained, ?_, fun packet hp => ?_, ?_⟩
  · rw [reliableDelivered, hdelivered, List.filter_append, hunreliable, List.filter_cons_of_neg Bool.false_ne_true,
      List.filter_nil, List.append_nil]
    exact h.reliable
  · rw [hdelivered] at hp
    rcases List.mem_append.mp hp with hp | hp
    · exact h.unreliable packet hp
    · obtain ⟨_, rfl⟩ := Prod.mk.inj (List.mem_singleton.mp hp)
      exact hsent
  · rw [hcalled, hdelivered, h.called, List.map_append]
    rfl

/-- The next message of the reliable channel goes on with the packet under way. -/
theorem hears_reliable [Aiortc] {y x : LinkEnd} (hy : y.Sends) (h : Hears y x) (hready : x.Ready true) {message : Bytes}
    (hn : (y.channel true)[x.arrived]? = some message) :
    Hears y { x.receives true message with arrived := x.arrived + 1 } := by
  obtain ⟨m, hm, rfl⟩ := hy.getElem? hn
  simp only [Bool.decide_eq_true] at hm
  change y.stream[x.arrived]? = some m at hm
  obtain ⟨hlt, hget⟩ := List.getElem?_eq_some_iff.mp hm
  have hreliable : m.reliable = true := (List.mem_filter.mp (List.mem_of_getElem? hm)).2
  have hs : Stream x.loop.session.pc.packets.reassembly ([m].filter Sent.reliable ++ y.stream.drop (x.arrived + 1)) := by
    rw [List.filter_cons_of_pos hreliable, ← hget]
    simpa using h.awaits
  rw [← hreliable] at hready
  obtain ⟨hawaits, hdrained, hdelivered, hcalled⟩ := receives_message hready h.drained hs
    fun hno => absurd (hreliable.symm.trans hno) (by simp)
  rw [hreliable] at hawaits hdrained hdelivered hcalled
  refine ⟨hlt, hawaits, hdrained, ?_, fun packet hp => ?_, ?_⟩
  · have hsame : reliableDelivered { x.receives true m.message with arrived := x.arrived + 1 } =
        x.reliableDelivered ++ if m.last then [m.packet] else [] := by
      simp only [reliableDelivered, hdelivered]
      cases m.last <;> simp
    rw [hsame, h.reliable, List.take_add_one, hm, List.filter_append, List.map_append]
    cases hl : m.last <;> simp [hl]
  · simp only [hdelivered] at hp
    rcases List.mem_append.mp hp with hp | hp
    · exact h.unreliable packet hp
    · split at hp
      · cases List.mem_singleton.mp hp
      · cases hp
  · simp only [hcalled, hdelivered, h.called, List.map_append]
    cases m.last <;> rfl

end LinkEnd

namespace Link

/-! ### Whole runs -/

/-- What holds of a link: both ends send and hear. -/
def Delivers (w : Link) : Prop := ∀ side, (w side).Sends ∧ LinkEnd.Hears (w side.other) (w side)

private theorem delivers_new (connectionId : Nat) (localId : Side → NetworkId) (relayOnly : Side → Bool) :
    (new connectionId localId relayOnly).Delivers := by
  intro side
  have hpackets : (new connectionId localId relayOnly side).loop.session.pc.packets = {} := by
    show (PeerConnection.new (side = .left) (relayOnly side)).packets = {}
    unfold PeerConnection.new
    split <;> rfl
  refine ⟨⟨PeerConnection.channelled_new (side = .left) (relayOnly side), by simp [new]⟩, Nat.zero_le _, ?_, ?_, rfl,
    by simp [new], rfl⟩
  · rw [hpackets]
    rfl
  · rw [hpackets]

/-- One end changes, and both hear on. -/
private theorem delivers_set {w : Link} (hw : w.Delivers) (side : Side) {x : LinkEnd} (hsends : x.Sends)
    (hears : LinkEnd.Hears (w side.other) x) (heard : LinkEnd.Hears x (w side.other)) : (w.set side x).Delivers := by
  have hother : side.other ≠ side := by cases side <;> decide
  intro side'
  by_cases h : side' = side
  · subst h
    rw [set_same, set_of_ne w hother]
    exact ⟨hsends, hears⟩
  · obtain rfl : side' = side.other := by revert h; cases side' <;> cases side <;> decide
    rw [set_of_ne w hother, Side.other_other, set_same]
    exact ⟨(hw side.other).1, heard⟩

private theorem delivers_next [Aiortc] (w : Link) (e : Side × LinkEvent) (hw : w.Delivers) (he : w.Once e) :
    (w.next e).Delivers := by
  obtain ⟨side, e⟩ := e
  obtain ⟨hsends, hears⟩ := hw side
  have heard : LinkEnd.Hears (w side) (w side.other) := by
    have h := (hw side.other).2
    rwa [Side.other_other] at h
  cases e with
  | session e =>
    refine delivers_set hw side (LinkEnd.sends_happens hsends e ?_) (LinkEnd.hears_happens hears e) (LinkEnd.hears_sends heard e)
    rintro label readyState rfl
    exact he
  | reliable =>
    rw [next]
    split
    · exact hw
    · next message hmessage =>
      split
      · next hready =>
        have hsame : LinkEnd.Sends { (w side).receives true message with arrived := (w side).arrived + 1 } := by
          obtain ⟨hchannels, haccepted⟩ := LinkEnd.sends_receives hsends hready message
          exact ⟨hchannels, haccepted⟩
        refine delivers_set hw side hsame (LinkEnd.hears_reliable (hw side.other).1 hears hready hmessage) ?_
        exact ⟨heard.arrived, heard.awaits, heard.drained, heard.reliable, heard.unreliable, heard.called⟩
      · exact hw
  | unreliable n =>
    rw [next]
    split
    · exact hw
    · next message hmessage =>
      split
      · next hready =>
        refine delivers_set hw side (LinkEnd.sends_receives hsends hready message)
          (LinkEnd.hears_unreliable (hw side.other).1 hears hready hmessage) ?_
        exact ⟨heard.arrived, heard.awaits, heard.drained, heard.reliable, heard.unreliable, heard.called⟩
      · exact hw

/-- In every run of a link, at both ends: `on_packet` is given, from the reliable channel, the
reliable packets for which the other end's `send` returned True, from the first on, byte for
byte, once each and in order, and all of them once every fragment handed to the channel has
arrived and none waits for it; and from the other channel only unreliable packets that the
other end's `send` accepted. -/
theorem link_delivers [Aiortc] (connectionId : Nat) (localId : Side → NetworkId) (relayOnly : Side → Bool)
    (events : List (Side × LinkEvent)) (h : Machine.Along Once next (new connectionId localId relayOnly) events) (side : Side) :
    let x := Machine.run next (new connectionId localId relayOnly) events side
    let y := Machine.run next (new connectionId localId relayOnly) events side.other
    packetsOf x.loop.trace = x.delivered.map (·.2) ∧ x.reliableDelivered <+: y.reliablePackets ∧
      (x.arrived = (y.channel true).length → (y.loop.session.pc.side true).pending = [] →
        x.reliableDelivered = y.reliablePackets) ∧
      ∀ packet, (false, packet) ∈ x.delivered → (packet, SendType.unreliable) ∈ y.sent := by
  intro x y
  have hw : (Machine.run next (new connectionId localId relayOnly) events).Delivers :=
    Machine.run_invariant delivers_next (delivers_new connectionId localId relayOnly) h
  obtain ⟨_, hears⟩ := hw side
  have hsends : y.Sends := (hw side.other).1
  have hall : (y.stream.filter Sent.last).map Sent.packet = y.reliablePackets :=
    (lastPackets_sentBy y.sent).trans (acceptedReliable_of_all hsends.accepted)
  refine ⟨hears.called, ?_, fun harrived hpending => ?_, hears.unreliable⟩
  · rw [hears.reliable, ← hall]
    exact ((List.take_prefix _ _).filter _).map _
  · have hmessages := hsends.messages true
    rw [hpending, List.append_nil] at hmessages
    have hlength : (y.channel true).length = y.stream.length := by
      rw [hmessages, List.length_map]
      simp only [Bool.decide_eq_true]
      rfl
    rw [hears.reliable, ← hall, List.take_of_length_le (Nat.le_of_eq (hlength.symm.trans harrived.symm))]

/-- An exchange of descriptions, both channels open on both sides, a reliable packet, and an
unreliable one that arrives twice. -/
private def exchanged : List (Side × LinkEvent) :=
  let goOn : LinkEvent := .session (.resume 0 (.ok []))
  [(.left, .session (.call .offer ())), (.left, goOn), (.left, goOn), (.right, .session (.call (.answer []) ())), (.right, goOn),
    (.right, goOn), (.right, goOn), (.left, .session (.call (.acceptAnswer []) ())), (.left, goOn),
    (.right, .session (.dataChannel reliableLabel true)), (.right, .session (.dataChannel unreliableLabel true)),
    (.left, .session (.channelOpen true)), (.left, .session (.channelOpen false)), (.left, .session (.send [7] .reliable)),
    (.left, .session (.send [8] .unreliable)), (.right, .unreliable 0), (.right, .reliable), (.right, .unreliable 0)]

/-- The packets of the exchange as the listener's application gets them. -/
theorem link_delivers_exchanged :
    letI : Aiortc := ⟨fun _ => true⟩
    let w := Machine.run next (new 7 (fun _ => .p2p 1) fun _ => false) exchanged
    packetsOf (w .right).loop.trace = [[8], [7], [8]] ∧ (w .right).reliableDelivered = (w .left).reliablePackets ∧
      (w .left).reliablePackets = [[7]] := by
  let _ : Aiortc := ⟨fun _ => true⟩
  intro w
  have along : Machine.Along Once next (new 7 (fun _ => .p2p 1) fun _ => false) exchanged := by decide +kernel
  obtain ⟨hcalled, _, hall, _⟩ := link_delivers 7 (fun _ => .p2p 1) (fun _ => false) exchanged along .right
  refine ⟨?_, hall ?_ ?_, ?_⟩
  · rw [hcalled]
    decide +kernel
  · decide +kernel
  · decide +kernel
  · decide +kernel

end Link
end NetherNet
