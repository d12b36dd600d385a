import NetherNet.Transport.Framing

/-! End to end framing: what a receiving queue makes of the messages of any number
of pushes when the unreliable channel loses, repeats and reorders. -/
namespace NetherNet.PacketQueue

/-- A sent message, with the packet it belongs to and whether it is the packet's
last fragment. The labels are the sender's knowledge; a receiver sees the message. -/
structure Sent where
  channel : SendType
  message : Bytes
  packet : Bytes
  last : Bool
  deriving DecidableEq, Repr

def Sent.reliable (m : Sent) : Bool := m.channel = .reliable

/-- The messages of one push, labelled: every message but the last is followed by another. -/
def label (packet : Bytes) : List (SendType × Bytes) → List Sent
  | [] => []
  | m :: rest => ⟨m.1, m.2, packet, rest.isEmpty⟩ :: label packet rest

/-- The labelled messages that a list of pushes hands to the two channels. -/
def sentBy (pushes : List (Bytes × SendType)) : List Sent :=
  pushes.flatMap fun p =>
    match push p.1 p.2 with
    | .error _ => []
    | .ok (_, messages) => label p.1 messages

/-- What the receiving queue does with a message, by the channel it came on. -/
def receive (q : PacketQueue) (m : Sent) : PacketQueue :=
  match m.channel with
  | .reliable => q.onReliableMessage m.message
  | .unreliable => q.onUnreliableMessage m.message

def receiveAll (q : PacketQueue) (arrivals : List Sent) : PacketQueue := arrivals.foldl receive q

/-- What `push` returned for a packet. -/
def pushReturns (p : Bytes × SendType) : Bool :=
  match push p.1 p.2 with
  | .error _ => false
  | .ok (accepted, _) => accepted

/-- The reliable packets for which `push` returned True, in push order. -/
def acceptedReliable (pushes : List (Bytes × SendType)) : List Bytes :=
  (pushes.filter fun p => p.2 = .reliable ∧ pushReturns p = true).map Prod.fst

/-- A reliable stream as the reassembler needs it: after the bytes `acc` of the
packet under way, each message carries the next bytes, a zero header ends the packet,
and the stream never ends inside one. -/
def Stream : Bytes → List Sent → Prop
  | acc, [] => acc = []
  | acc, m :: rest => ∃ header payload, m.message = header :: payload ∧ (header = 0 ↔ m.last = true) ∧
      (if m.last then m.packet = acc ++ payload ∧ Stream [] rest else Stream (acc ++ payload) rest)

/-- An unreliable message is a whole packet behind one header byte. -/
def Whole (m : Sent) : Prop := ∃ header, m.message = header :: m.packet ∧ m.last = true

private theorem label_countdown (t : SendType) (data : Bytes) (n offset : Nat) (rest : List Sent)
    (hn : n + 1 ≤ 255) (hlen : data.length ≤ offset + (n + 1) * fragmentSize) (hr : Stream [] rest) :
    Stream (data.take offset)
      (label data ((countdown data (n + 1) offset).map (fun m => (t, m))) ++ rest) := by
  induction n generalizing offset with
  | zero =>
    refine ⟨0, (data.drop offset).take fragmentSize, rfl, by simp [countdown], ?_⟩
    have hd : (data.drop offset).take fragmentSize = data.drop offset := by
      apply List.take_of_length_le
      rw [List.length_drop]
      omega
    simpa [countdown, label, hd] using hr
  | succ n ih =>
    refine ⟨UInt8.ofNat (n + 1), (data.drop offset).take fragmentSize, rfl, ?_, ?_⟩
    · have hne : UInt8.ofNat (n + 1) ≠ 0 := by
        intro h
        have h' := congrArg UInt8.toNat h
        rw [UInt8.toNat_ofNat', Nat.mod_eq_of_lt (by omega)] at h'
        exact absurd h' (Nat.succ_ne_zero n)
      simpa [countdown] using hne
    · have hstep := ih (offset + fragmentSize) (by omega)
        (by rw [Nat.succ_mul] at hlen; omega)
      rw [List.take_add] at hstep
      simpa [countdown, label] using hstep

/-- The labelled messages of an accepted reliable push form a stream of their own. -/
private theorem label_push_stream (p : Bytes × SendType) (rest : List Sent) (hr : Stream [] rest)
    (ha : Accepts p.1 p.2) :
    Stream [] (label p.1 ((countdown p.1 ((p.1.length - 1) / fragmentSize + 1) 0).map (fun m => (p.2, m))) ++ rest) := by
  have hn := fragments_le p.1 ha.1
  have hlen : p.1.length ≤ 0 + ((p.1.length - 1) / fragmentSize + 1) * fragmentSize := by
    have := Nat.lt_div_mul_add (a := p.1.length - 1) fragmentSize_pos
    rw [Nat.succ_mul]
    omega
  simpa using label_countdown p.2 p.1 _ 0 rest hn hlen hr

private theorem label_channel (t : SendType) (packet : Bytes) (ms : List Bytes) :
    ∀ m ∈ label packet (ms.map (fun m => (t, m))), m.channel = t := by
  induction ms with
  | nil => simp [label]
  | cons x ms ih =>
    intro m hm
    rcases List.mem_cons.mp hm with rfl | hm
    · rfl
    · exact ih m hm

theorem sentBy_cons (p : Bytes × SendType) (pushes : List (Bytes × SendType)) :
    sentBy (p :: pushes) = (if Accepts p.1 p.2 then
      label p.1 ((countdown p.1 ((p.1.length - 1) / fragmentSize + 1) 0).map (fun m => (p.2, m))) else []) ++
      sentBy pushes := by
  simp only [sentBy, List.flatMap_cons, push_eq]
  split <;> rfl

theorem pushReturns_eq (p : Bytes × SendType) : pushReturns p = decide (Accepts p.1 p.2) := by
  by_cases ha : Accepts p.1 p.2 <;> simp [pushReturns, push_eq, ha]

private theorem filter_reliable_label (t : SendType) (packet : Bytes) (ms : List Bytes) :
    (label packet (ms.map (fun m => (t, m)))).filter Sent.reliable =
      if t = .reliable then label packet (ms.map (fun m => (t, m))) else [] := by
  split
  · next h =>
    apply List.filter_eq_self.mpr
    intro m hm
    simp [Sent.reliable, label_channel t packet ms m hm, h]
  · next h =>
    apply List.filter_eq_nil_iff.mpr
    intro m hm
    simp [Sent.reliable, label_channel t packet ms m hm, h]

/-- The reliable channel carries a stream, whatever was pushed. -/
theorem sentBy_stream (pushes : List (Bytes × SendType)) : Stream [] ((sentBy pushes).filter Sent.reliable) := by
  induction pushes with
  | nil => rfl
  | cons p pushes ih =>
    rw [sentBy_cons, List.filter_append]
    split
    · next ha =>
      rw [filter_reliable_label]
      split
      · exact label_push_stream p _ ih ha
      · exact ih
    · exact ih

/-- An accepted unreliable packet is one fragment, the packet itself. -/
private theorem fragments_of_small {data : Bytes} (ha : Accepts data .unreliable) :
    countdown data ((data.length - 1) / fragmentSize + 1) 0 = [fragment 0 data] := by
  have hle : data.length ≤ fragmentSize := by
    rcases ha.2 with h | h
    · exact h
    · cases h
  have hz : (data.length - 1) / fragmentSize = 0 := by
    apply Nat.div_eq_of_lt
    have := fragmentSize_pos
    omega
  rw [hz]
  simp only [countdown, List.drop_zero, List.take_of_length_le hle]

/-- Everything sent on the unreliable channel is one accepted push, handed over whole. -/
theorem sentBy_unreliable (pushes : List (Bytes × SendType)) (m : Sent) (hm : m ∈ sentBy pushes)
    (hu : m.reliable = false) : Whole m ∧ (m.packet, SendType.unreliable) ∈ pushes ∧
      push m.packet .unreliable = .ok (true, [(.unreliable, m.message)]) := by
  induction pushes with
  | nil => simp [sentBy] at hm
  | cons p pushes ih =>
    rw [sentBy_cons] at hm
    rcases List.mem_append.mp hm with hm | hm
    · split at hm
      · next ha =>
        have hc := label_channel p.2 p.1 _ m hm
        obtain ⟨data, t⟩ := p
        simp only at ha hm hc
        cases t with
        | reliable => simp [Sent.reliable, hc] at hu
        | unreliable =>
          have hone := fragments_of_small ha
          rw [hone] at hm
          obtain rfl := List.mem_singleton.mp hm
          refine ⟨⟨_, rfl, rfl⟩, List.mem_cons_self, ?_⟩
          rw [push_eq, if_pos ha, hone]
          rfl
      · simp at hm
    · obtain ⟨hw, hp, hs⟩ := ih hm
      exact ⟨hw, List.mem_cons_of_mem p hp, hs⟩

theorem countdown_ne_nil (data : Bytes) (n offset : Nat) : countdown data (n + 1) offset ≠ [] := by
  simp [countdown]

/-- Exactly one message of a push is its last. -/
private theorem lastPackets_label (packet : Bytes) (ms : List (SendType × Bytes)) (h : ms ≠ []) :
    ((label packet ms).filter Sent.last).map Sent.packet = [packet] := by
  induction ms with
  | nil => exact absurd rfl h
  | cons m ms ih =>
    cases ms with
    | nil => simp [label]
    | cons x ms =>
      rw [label, List.filter_cons_of_neg (by simp)]
      exact ih (List.cons_ne_nil x ms)

theorem acceptedReliable_cons (p : Bytes × SendType) (pushes : List (Bytes × SendType)) :
    acceptedReliable (p :: pushes) =
      (if p.2 = .reliable ∧ Accepts p.1 p.2 then [p.1] else []) ++ acceptedReliable pushes := by
  by_cases h : p.2 = .reliable ∧ Accepts p.1 p.2
  · have h' : p.2 = .reliable ∧ pushReturns p = true := by simpa [pushReturns_eq] using h
    rw [if_pos h, acceptedReliable, List.filter_cons_of_pos (by simpa using h')]
    rfl
  · have h' : ¬ (p.2 = .reliable ∧ pushReturns p = true) := by simpa [pushReturns_eq] using h
    rw [if_neg h, acceptedReliable, List.filter_cons_of_neg (by simpa using h')]
    rfl

/-- The completed packets of the reliable stream are the accepted reliable packets. -/
theorem lastPackets_sentBy (pushes : List (Bytes × SendType)) :
    (((sentBy pushes).filter Sent.reliable).filter Sent.last).map Sent.packet = acceptedReliable pushes := by
  induction pushes with
  | nil => simp [sentBy, acceptedReliable]
  | cons p pushes ih =>
    rw [sentBy_cons, List.filter_append, List.filter_append, List.map_append, ih, acceptedReliable_cons]
    congr 1
    by_cases ha : Accepts p.1 p.2
    · rw [if_pos ha, filter_reliable_label]
      by_cases hr : p.2 = .reliable
      · rw [if_pos hr, if_pos ⟨hr, ha⟩]
        exact lastPackets_label p.1 _ (by simpa using countdown_ne_nil p.1 _ 0)
      · simp [hr]
    · simp [ha]

/-- One arrival: a completed packet goes to the queue, a fragment to the buffer. -/
private theorem receive_reliable {q : PacketQueue} {m : Sent} {rest : List Sent} (hm : m.reliable = true)
    (hs : Stream q.reassembly (m :: rest)) :
    Stream (q.receive m).reassembly rest ∧
      (q.receive m).received = q.received ++ (if m.last then [m.packet] else []) ∧
      (m.last = true → (q.receive m).reassembly = []) := by
  obtain ⟨header, payload, hmsg, hz, hrest⟩ := hs
  have hc : m.channel = .reliable := by simpa [Sent.reliable] using hm
  by_cases hl : m.last = true
  · rw [if_pos hl] at hrest
    have hh : header = 0 := hz.mpr hl
    simp only [receive, hc, hmsg, onReliableMessage, if_pos hh, if_pos hl, hrest.1]
    exact ⟨hrest.2, trivial, fun _ => trivial⟩
  · rw [if_neg hl] at hrest
    have hh : ¬ header = 0 := fun h => hl (hz.mp h)
    simp only [receive, hc, hmsg, onReliableMessage, if_neg hh, if_neg hl, List.append_nil]
    exact ⟨hrest, trivial, fun h => absurd h hl⟩

private theorem receive_unreliable {q : PacketQueue} {m : Sent} (hm : m.reliable = false) (hw : Whole m) :
    (q.receive m).reassembly = q.reassembly ∧ (q.receive m).received = q.received ++ [m.packet] := by
  obtain ⟨header, hmsg, _⟩ := hw
  have hc : m.channel = .unreliable := by
    cases h : m.channel with
    | reliable => simp [Sent.reliable, h] at hm
    | unreliable => rfl
  simp only [receive, hc, hmsg, onUnreliableMessage]
  exact ⟨trivial, trivial⟩

/-- Any interleaving of a stream with whole packets: the induction follows the
arrivals, and `rest` is what the reliable channel has still to deliver. -/
theorem receiveAll_stream (arrivals rest : List Sent) (q : PacketQueue)
    (hs : Stream q.reassembly (arrivals.filter Sent.reliable ++ rest))
    (hw : ∀ m ∈ arrivals, m.reliable = false → Whole m) :
    Stream (q.receiveAll arrivals).reassembly rest ∧
      (q.receiveAll arrivals).received = q.received ++ (arrivals.filter Sent.last).map Sent.packet := by
  induction arrivals generalizing q with
  | nil => exact ⟨hs, by simp [receiveAll]⟩
  | cons m arrivals ih =>
    have htail : ∀ x ∈ arrivals, x.reliable = false → Whole x := fun x hx => hw x (List.mem_cons_of_mem m hx)
    cases hr : m.reliable with
    | true =>
      rw [List.filter_cons_of_pos (by simpa using hr), List.cons_append] at hs
      obtain ⟨hstream, hrec, _⟩ := receive_reliable hr hs
      obtain ⟨hend, hall⟩ := ih (q.receive m) hstream htail
      refine ⟨hend, ?_⟩
      rw [show q.receiveAll (m :: arrivals) = (q.receive m).receiveAll arrivals from rfl, hall, hrec]
      by_cases hl : m.last = true
      · rw [if_pos hl, List.filter_cons_of_pos hl]
        simp
      · rw [if_neg hl, List.filter_cons_of_neg hl]
        simp
    | false =>
      rw [List.filter_cons_of_neg (by simp [hr])] at hs
      have hwm := hw m List.mem_cons_self hr
      obtain ⟨hbuf, hrec⟩ := receive_unreliable (q := q) hr hwm
      rw [← hbuf] at hs
      obtain ⟨hend, hall⟩ := ih (q.receive m) hs htail
      refine ⟨hend, ?_⟩
      obtain ⟨_, _, hl⟩ := hwm
      rw [show q.receiveAll (m :: arrivals) = (q.receive m).receiveAll arrivals from rfl, hall, hrec]
      simp [hl]

/-- A delivery of what a list of pushes sent: the reliable messages complete and in
order, and among them any of the unreliable ones, in any order and number. -/
structure Delivery (pushes : List (Bytes × SendType)) (arrivals : List Sent) : Prop where
  reliable : arrivals.filter Sent.reliable = (sentBy pushes).filter Sent.reliable
  unreliable : ∀ m ∈ arrivals, m.reliable = false → m ∈ sentBy pushes

/-- Framing end to end. At every point of every delivery the queue has appended one
packet for each completing arrival so far, byte for byte; over the whole delivery
the reliable ones are the accepted reliable packets, once each and in push order;
each unreliable arrival is one whole accepted push; and the buffer is empty
whenever a reliable packet has just been completed. -/
theorem delivery_received (pushes : List (Bytes × SendType)) (q : PacketQueue) (hq : q.reassembly = [])
    (arrivals : List Sent) (h : Delivery pushes arrivals) :
    (∀ before after, arrivals = before ++ after →
      (q.receiveAll before).received = q.received ++ (before.filter Sent.last).map Sent.packet ∧
      ∀ m, before.getLast? = some m → m.reliable = true → m.last = true → (q.receiveAll before).reassembly = []) ∧
    ((arrivals.filter Sent.reliable).filter Sent.last).map Sent.packet = acceptedReliable pushes ∧
    (∀ m ∈ arrivals, m.reliable = false → m.last = true ∧
      (m.packet, SendType.unreliable) ∈ pushes ∧ push m.packet .unreliable = .ok (true, [(.unreliable, m.message)])) ∧
    (q.receiveAll arrivals).reassembly = [] := by
  have hwhole : ∀ m ∈ arrivals, m.reliable = false → Whole m :=
    fun m hm hu => (sentBy_unreliable pushes m (h.unreliable m hm hu) hu).1
  have hstream : Stream q.reassembly (arrivals.filter Sent.reliable) := by
    rw [hq, h.reliable]
    exact sentBy_stream pushes
  refine ⟨?_, ?_, ?_, ?_⟩
  · intro before after hsplit
    have hw : ∀ m ∈ before, m.reliable = false → Whole m := fun m hm =>
      hwhole m (hsplit ▸ List.mem_append_left after hm)
    rw [hsplit, List.filter_append] at hstream
    refine ⟨(receiveAll_stream before _ q hstream hw).2, ?_⟩
    intro m hlast hr hm
    obtain ⟨front, rfl⟩ := List.getLast?_eq_some_iff.mp hlast
    rw [List.filter_append, List.filter_cons_of_pos (by simpa using hr), List.filter_nil, List.append_assoc] at hstream
    have hfront := (receiveAll_stream front _ q hstream (fun x hx => hw x (List.mem_append_left _ hx))).1
    rw [receiveAll, List.foldl_append]
    exact (receive_reliable hr hfront).2.2 hm
  · rw [h.reliable, lastPackets_sentBy]
  · intro m hm hu
    obtain ⟨_, _, hl⟩ := hwhole m hm hu
    exact ⟨hl, (sentBy_unreliable pushes m (h.unreliable m hm hu) hu).2⟩
  · exact (receiveAll_stream arrivals [] q (by simpa using hstream) hwhole).1

/-- The end-to-end theorem at two pushes, an empty reliable packet and an unreliable
one that arrives twice, before it and after it. -/
theorem delivery_received_repeated :
    (({ received := [[9]] } : PacketQueue).receiveAll [⟨.unreliable, [0, 7], [7], true⟩,
      ⟨.reliable, [0], [], true⟩, ⟨.unreliable, [0, 7], [7], true⟩]).received = [[9], [7], [], [7]] := by
  have hd : Delivery [([], .reliable), ([7], .unreliable)] [⟨.unreliable, [0, 7], [7], true⟩,
      ⟨.reliable, [0], [], true⟩, ⟨.unreliable, [0, 7], [7], true⟩] := ⟨by decide, by decide⟩
  exact ((delivery_received _ { received := [[9]] } rfl _ hd).1 _ [] (List.append_nil _).symm).1

end NetherNet.PacketQueue
