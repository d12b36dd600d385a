import NetherNet.Transport.Framing
import NetherNet.Transport.Sdp

/-! What one push sends: how many fragments, with which headers and payloads, and how
large they are. -/
namespace NetherNet.PacketQueue

/-- The payloads of the first `n` fragments of a packet. -/
def payloads (data : Bytes) (n : Nat) : List Bytes :=
  (List.range n).map fun i => (data.drop (i * fragmentSize)).take fragmentSize

private theorem countdown_eq (data : Bytes) (n offset : Nat) :
    countdown data n offset =
      (List.range n).map fun i => fragment (n - 1 - i) ((data.drop (offset + i * fragmentSize)).take fragmentSize) := by
  induction n generalizing offset with
  | zero => rfl
  | succ n ih =>
    rw [countdown, ih, List.range_succ_eq_map, List.map_cons, List.map_map]
    congr 1
    apply List.map_congr_left
    intro i _
    have hoffset : offset + fragmentSize + i * fragmentSize = offset + (i + 1) * fragmentSize := by
      rw [Nat.succ_mul]
      omega
    have hheader : n - 1 - i = n + 1 - 1 - (i + 1) := by omega
    rw [hoffset, hheader]
    rfl

/-- The headers count down to 0 over the payloads. -/
theorem countdown_payloads (data : Bytes) (n : Nat) :
    countdown data n 0 = (payloads data n).mapIdx fun i payload => fragment (n - 1 - i) payload := by
  rw [countdown_eq]
  apply List.ext_getElem
  · simp [payloads]
  · intro i hi _
    simp [payloads]

private theorem countdown_sent (data : Bytes) (n : Nat) (sendType : SendType) :
    (countdown data n 0).map (fun m => (sendType, m)) =
      (payloads data n).mapIdx fun i payload => (sendType, UInt8.ofNat (n - 1 - i) :: payload) := by
  rw [countdown_payloads]
  exact (List.mapIdx_eq_iff.mpr fun i => by simp [fragment, Function.comp_def]).symm

/-- One header byte, and a payload of at most `fragmentSize`. -/
private theorem length_fragment_le (n : Nat) (rest : Bytes) : (fragment n (rest.take fragmentSize)).length ≤ Sdp.maxMessageSize := by
  have hbound : fragmentSize + 1 ≤ Sdp.maxMessageSize := by decide
  rw [fragment, List.length_cons]
  exact Nat.le_trans (Nat.add_le_add_right (List.length_take_le _ _) 1) hbound

private theorem length_countdown_le {data message : Bytes} {n : Nat} (h : message ∈ countdown data n 0) :
    message.length ≤ Sdp.maxMessageSize := by
  rw [countdown_eq] at h
  obtain ⟨i, _, rfl⟩ := List.mem_map.mp h
  exact length_fragment_le _ _

theorem flatten_payloads (data : Bytes) (n : Nat) : (payloads data n).flatten = data.take (n * fragmentSize) := by
  induction n with
  | zero => simp [payloads]
  | succ n ih =>
    have hsplit : payloads data (n + 1) = payloads data n ++ [(data.drop (n * fragmentSize)).take fragmentSize] := by
      simp [payloads, List.range_succ]
    rw [hsplit, List.flatten_append, ih, List.flatten_singleton, Nat.succ_mul, List.take_add]

/-- A packet cut into the payloads of its fragments. -/
structure Fragmented (data : Bytes) (cut : List Bytes) : Prop where
  whole : cut.flatten = data
  count : cut.length = max 1 ((data.length + fragmentSize - 1) / fragmentSize)
  full : ∀ payload ∈ cut.dropLast, payload.length = fragmentSize
  last : data ≠ [] → ∀ payload ∈ cut.getLast?, payload ≠ []

/-- The number of fragments, as `push` computes it, is the length over `fragmentSize`, rounded up. -/
private theorem count_eq (data : Bytes) :
    (data.length - 1) / fragmentSize + 1 = max 1 ((data.length + fragmentSize - 1) / fragmentSize) := by
  have hpos := fragmentSize_pos
  rcases Nat.eq_zero_or_pos data.length with hz | hn
  · have hnone : (0 + fragmentSize - 1) / fragmentSize = 0 := Nat.div_eq_of_lt (by omega)
    rw [hz, hnone, Nat.zero_sub, Nat.zero_div]
    rfl
  · have hup : data.length + fragmentSize - 1 = data.length - 1 + fragmentSize := by omega
    rw [hup, Nat.add_div_right _ hpos]
    exact (Nat.max_eq_right (Nat.succ_le_succ (Nat.zero_le _))).symm

theorem fragmented_payloads (data : Bytes) : Fragmented data (payloads data ((data.length - 1) / fragmentSize + 1)) := by
  have hpos := fragmentSize_pos
  have hlast : (data.length - 1) / fragmentSize * fragmentSize ≤ data.length - 1 := Nat.div_mul_le_self _ _
  have hall : data.length ≤ ((data.length - 1) / fragmentSize + 1) * fragmentSize := by
    have hlt := Nat.lt_div_mul_add (a := data.length - 1) hpos
    rw [Nat.succ_mul]
    omega
  generalize hn : (data.length - 1) / fragmentSize = n at hlast hall
  refine ⟨?_, ?_, ?_, ?_⟩
  · rw [flatten_payloads, List.take_of_length_le hall]
  · rw [← count_eq, hn, payloads, List.length_map, List.length_range]
  · intro payload hp
    have hfront : (payloads data (n + 1)).dropLast = payloads data n := by
      simp [payloads, List.range_succ]
    rw [hfront] at hp
    obtain ⟨i, hi, rfl⟩ := List.mem_map.mp hp
    have hbelow : (i + 1) * fragmentSize ≤ n * fragmentSize := Nat.mul_le_mul_right _ (List.mem_range.mp hi)
    rw [Nat.succ_mul] at hbelow
    rw [List.length_take, List.length_drop]
    omega
  · intro hne payload hp
    have hback : (payloads data (n + 1)).getLast? = some ((data.drop (n * fragmentSize)).take fragmentSize) := by
      simp [payloads, List.range_succ]
    rw [hback] at hp
    obtain rfl := Option.some.inj hp
    have hlen := List.length_pos_iff.mpr hne
    apply List.ne_nil_of_length_pos
    rw [List.length_take, List.length_drop]
    omega

/-- A push never raises. It drops what is too large and sends nothing for it, and sends
anything else on the channel of its type, in fragments whose headers count down to 0. -/
theorem push_fragments (data : Bytes) (sendType : SendType) :
    ∃ accepted sent, push data sendType = .ok (accepted, sent) ∧
      (accepted = false ↔ maxPacketSize < data.length ∨ fragmentSize < data.length ∧ sendType ≠ .reliable) ∧
      (accepted = false → sent = []) ∧
      (accepted = true → ∃ cut, Fragmented data cut ∧ cut.length ≤ 256 ∧
        sent = cut.mapIdx (fun i payload => (sendType, UInt8.ofNat (cut.length - 1 - i) :: payload)) ∧
        ∀ m ∈ sent, m.2.length ≤ Sdp.maxMessageSize) := by
  have hdropped : ¬ Accepts data sendType ↔
      maxPacketSize < data.length ∨ fragmentSize < data.length ∧ sendType ≠ .reliable := by
    simp only [Accepts, not_and_or, not_or, Nat.not_le]
  rw [push_eq]
  by_cases ha : Accepts data sendType
  · rw [if_pos ha]
    refine ⟨true, _, rfl, iff_of_false (by simp) (fun h => hdropped.mpr h ha), by simp, fun _ => ?_⟩
    have hle := fragments_le data ha.1
    have hcut := fragmented_payloads data
    have hcount : (payloads data ((data.length - 1) / fragmentSize + 1)).length = (data.length - 1) / fragmentSize + 1 := by
      simp [payloads]
    refine ⟨payloads data ((data.length - 1) / fragmentSize + 1), hcut, by omega, ?_, ?_⟩
    · rw [countdown_sent, hcount]
    · intro m hm
      obtain ⟨message, hmessage, rfl⟩ := List.mem_map.mp hm
      exact length_countdown_le hmessage
  · rw [if_neg ha]
    exact ⟨false, [], rfl, iff_of_true rfl (hdropped.mp ha), fun _ => rfl, by simp⟩

end NetherNet.PacketQueue
