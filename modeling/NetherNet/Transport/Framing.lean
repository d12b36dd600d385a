import NetherNet.Protocol.NetworkId

/-! Application packet framing. A data-channel message is one header byte, the
count of fragments that follow it, and the payload. -/
namespace NetherNet

def fragmentSize : Nat := 0x3FFFF
def maxPacketSize : Nat := 0x3FBFF01

/-- The receiving half of `PacketQueue`. -/
structure PacketQueue where
  reassembly : Bytes := []
  received : List Bytes := []
  deriving DecidableEq, Repr

namespace PacketQueue

/-- `_send_fragment`; `bytes((header,))` raises ValueError past a byte. -/
def sendFragment (header : Nat) (payload : Bytes) (sendType : SendType) : Except Exn (SendType × Bytes) :=
  if header < 256 then .ok (sendType, UInt8.ofNat header :: payload) else .error .valueError

/-- The `while fragments` loop of `push`. -/
def sendLoop (data : Bytes) : (fragments offset : Nat) → Except Exn (List (SendType × Bytes))
  | 0, _ => .ok []
  | fragments + 1, offset =>
    match sendFragment fragments ((data.drop offset).take fragmentSize) .reliable with
    | .error e => .error e
    | .ok sent =>
      match sendLoop data fragments (offset + fragmentSize) with
      | .error e => .error e
      | .ok rest => .ok (sent :: rest)

/-- `push`: its result, with the messages handed to the two channels in order. -/
def push (data : Bytes) (sendType : SendType) : Except Exn (Bool × List (SendType × Bytes)) :=
  let size := data.length
  if size < fragmentSize + 1 then
    match sendFragment 0 data sendType with
    | .error e => .error e
    | .ok sent => .ok (true, [sent])
  else if size > maxPacketSize then .ok (false, [])
  else if sendType ≠ .reliable then .ok (false, [])
  else
    match sendLoop data ((size - 1) / fragmentSize + 1) 0 with
    | .error e => .error e
    | .ok sent => .ok (true, sent)

def onReliableMessage (q : PacketQueue) : Bytes → PacketQueue
  | [] => q
  | header :: payload =>
    let reassembly := q.reassembly ++ payload
    if header = 0 then ⟨[], q.received ++ [reassembly]⟩ else { q with reassembly := reassembly }

def onUnreliableMessage (q : PacketQueue) : Bytes → PacketQueue
  | [] => q
  | _ :: payload => { q with received := q.received ++ [payload] }

def peek (q : PacketQueue) : Option Nat := q.received.head?.map List.length

def read (q : PacketQueue) (maxSize : Option Nat) : Option Bytes × PacketQueue :=
  match q.received with
  | [] => (none, q)
  | head :: rest =>
    match maxSize with
    | none => (some head, { q with received := rest })
    | some limit =>
      if limit ≥ head.length then (some head, { q with received := rest })
      else (some (head.take limit), { q with received := head.drop limit :: rest })

/-- Which packets `push` accepts. -/
def Accepts (data : Bytes) (sendType : SendType) : Prop :=
  data.length ≤ maxPacketSize ∧ (data.length ≤ fragmentSize ∨ sendType = .reliable)

instance (data : Bytes) (sendType : SendType) : Decidable (Accepts data sendType) := by
  unfold Accepts; infer_instance

theorem fragmentSize_pos : 0 < fragmentSize := by decide

/-- The message for a payload with `n` fragments still to follow. -/
def fragment (n : Nat) (payload : Bytes) : Bytes := UInt8.ofNat n :: payload

/-- The messages of the loop, headers counting down from `n - 1`. -/
def countdown (data : Bytes) : (n offset : Nat) → List Bytes
  | 0, _ => []
  | n + 1, offset =>
    fragment n ((data.drop offset).take fragmentSize) :: countdown data n (offset + fragmentSize)

theorem sendLoop_eq (data : Bytes) (n offset : Nat) (h : n ≤ 256) :
    sendLoop data n offset = .ok ((countdown data n offset).map (fun m => (.reliable, m))) := by
  induction n generalizing offset with
  | zero => rfl
  | succ n ih =>
    have hn : n < 256 := by omega
    simp only [sendLoop, sendFragment, if_pos hn, ih _ (by omega), countdown, List.map_cons, fragment]

/-- The number of fragments of an accepted packet, at most 255 of them. -/
theorem fragments_le (data : Bytes) (h : data.length ≤ maxPacketSize) :
    (data.length - 1) / fragmentSize + 1 ≤ 255 := by
  have hd : (data.length - 1) / fragmentSize < 255 := by
    rw [Nat.div_lt_iff_lt_mul fragmentSize_pos]
    have hm : maxPacketSize = 255 * fragmentSize := by decide
    have hp := fragmentSize_pos
    omega
  omega

/-- `push` never raises; what it sends is the countdown, on the chosen channel. -/
theorem push_eq (data : Bytes) (sendType : SendType) :
    push data sendType = .ok
      (if Accepts data sendType then
        (true, (countdown data ((data.length - 1) / fragmentSize + 1) 0).map (fun m => (sendType, m)))
      else (false, [])) := by
  by_cases hs : data.length < fragmentSize + 1
  · have hle : data.length ≤ fragmentSize := by omega
    have hm : fragmentSize ≤ maxPacketSize := by decide
    have ha : Accepts data sendType := ⟨Nat.le_trans hle hm, Or.inl hle⟩
    have hz : (data.length - 1) / fragmentSize = 0 := by
      apply Nat.div_eq_of_lt
      have := fragmentSize_pos
      omega
    rw [if_pos ha, hz]
    simp only [push, if_pos hs, sendFragment, Nat.zero_lt_succ, if_true, countdown, fragment,
      List.drop_zero, List.take_of_length_le hle, List.map_cons, List.map_nil]
  · by_cases hm : data.length > maxPacketSize
    · have ha : ¬ Accepts data sendType := fun h => by have := h.1; omega
      simp only [push, if_neg hs, if_pos hm, if_neg ha]
    · cases sendType with
      | unreliable =>
        have ha : ¬ Accepts data .unreliable := by
          rintro ⟨_, h | h⟩
          · omega
          · cases h
        simp only [push, if_neg hs, if_neg hm, if_neg ha, ne_eq, reduceCtorEq, not_false_eq_true, if_true]
      | reliable =>
        have ha : Accepts data .reliable := ⟨by omega, Or.inr rfl⟩
        have hn := fragments_le data (by omega)
        simp only [push, if_neg hs, if_neg hm, if_pos ha, ne_eq, not_true_eq_false, if_false,
          sendLoop_eq data _ 0 (by omega : (data.length - 1) / fragmentSize + 1 ≤ 256)]

end PacketQueue
end NetherNet
