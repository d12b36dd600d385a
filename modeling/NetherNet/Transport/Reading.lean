import Mathlib.Algebra.GroupWithZero.Nat
import NetherNet.Library.ChunkFifo
import NetherNet.Transport.Framing

/-! The reading half of the packet queue: reads of any size, in any order with arriving
messages, against a first-in first-out queue of whole packets. -/
namespace NetherNet.PacketQueue
open Library

inductive QueueEvent where
  | reliable (data : Bytes)
  | unreliable (data : Bytes)
  | read (maxSize : Option Nat)
  | peek
  deriving DecidableEq, Repr

def next (q : PacketQueue) : QueueEvent → PacketQueue
  | .reliable data => q.onReliableMessage data
  | .unreliable data => q.onUnreliableMessage data
  | .read maxSize => (q.read maxSize).2
  | .peek => q

def answers (q : PacketQueue) : QueueEvent → List (ChunkFifo.Answer UInt8)
  | .read maxSize => [.chunk (q.read maxSize).1]
  | .peek => [.size q.peek]
  | _ => []

/-- The packet that a message completes. -/
def completed (q : PacketQueue) : QueueEvent → List Bytes
  | .reliable (0 :: payload) => [q.reassembly ++ payload]
  | .unreliable (_ :: payload) => [payload]
  | _ => []

/-- The event as the queue of whole packets sees it. -/
def asFifo (q : PacketQueue) : QueueEvent → List (ChunkFifo.Event UInt8)
  | .read maxSize => [.take maxSize]
  | .peek => [.peek]
  | e => (q.completed e).map .put

/-- The receive queue holds what is left of the packets. -/
def Refines (q : PacketQueue) (f : ChunkFifo UInt8) : Prop :=
  q.received = f.remaining ∧ (f.packets = [] → f.part = [])

private theorem received_next (q : PacketQueue) {e : QueueEvent} (h : ∀ limit, e ≠ .read limit) :
    (q.next e).received = q.received ++ q.completed e := by
  cases e with
  | reliable data =>
    cases data with
    | nil => simp [next, onReliableMessage, completed]
    | cons header payload =>
      by_cases hz : header = 0
      · simp [next, onReliableMessage, completed, hz]
      · simp [next, onReliableMessage, completed, hz]
  | unreliable data => cases data <;> simp [next, onUnreliableMessage, completed]
  | read maxSize => exact absurd rfl (h maxSize)
  | peek => simp [next, completed]

private theorem refines_put {q q' : PacketQueue} {f : ChunkFifo UInt8} (h : q.Refines f) {packet : Bytes}
    (hq : q'.received = q.received ++ [packet]) : q'.Refines (f.next (.put packet)) := by
  obtain ⟨hreceived, hidle⟩ := h
  refine ⟨?_, fun hnil => absurd hnil (by simp [ChunkFifo.next])⟩
  rw [hq, hreceived]
  cases hp : f.packets with
  | nil => simp [ChunkFifo.remaining, ChunkFifo.next, ChunkFifo.left, hp, hidle hp]
  | cons head packets => simp [ChunkFifo.remaining, ChunkFifo.next, ChunkFifo.left, hp]

/-- A read answers as the queue of whole packets does. -/
private theorem refines_read {q : PacketQueue} {f : ChunkFifo UInt8} (h : q.Refines f) (limit : Option Nat) :
    (q.read limit).2.Refines (f.take limit).2 ∧ (q.read limit).1 = (f.take limit).1 := by
  obtain ⟨hreceived, hidle⟩ := h
  cases hp : f.packets with
  | nil =>
    have hempty : q.received = [] := by simp [hreceived, ChunkFifo.remaining, hp]
    have hread : q.read limit = (none, q) := by simp only [read, hempty]
    rw [hread, ChunkFifo.take_nil hp]
    exact ⟨⟨hreceived, hidle⟩, rfl⟩
  | cons head packets =>
    have hq : q.received = f.left head :: packets := by simp [hreceived, ChunkFifo.remaining, hp]
    by_cases hc : ChunkFifo.covers limit (f.left head) = true
    · have hread : q.read limit = (some (f.left head), { q with received := packets }) := by
        cases limit with
        | none => simp only [read, hq]
        | some n =>
          have hn : (f.left head).length ≤ n := by simpa [ChunkFifo.covers] using hc
          simp only [read, hq, ge_iff_le, if_pos hn]
      rw [hread, ChunkFifo.take_whole hp hc]
      have hwhole : ChunkFifo.remaining { packets := packets, taken := f.taken ++ [f.part ++ [f.left head]] } = packets :=
        ChunkFifo.remaining_whole rfl
      exact ⟨⟨hwhole.symm, fun _ => rfl⟩, rfl⟩
    · obtain ⟨n, rfl, hn⟩ : ∃ n, limit = some n ∧ n < (f.left head).length := by
        cases limit with
        | none => exact absurd rfl hc
        | some n => exact ⟨n, rfl, by simpa [ChunkFifo.covers] using hc⟩
      have hread : q.read (some n) = (some ((f.left head).take n), { q with received := (f.left head).drop n :: packets }) := by
        simp only [read, hq, ge_iff_le, if_neg (Nat.not_le.mpr hn)]
      rw [hread, ChunkFifo.take_part hp hn]
      refine ⟨⟨?_, fun hnil => absurd (hp.symm.trans hnil) (List.cons_ne_nil _ _)⟩, rfl⟩
      -- what is left of the head now is what was left of it without the chunk
      have hlen : ((f.left head).take n).length = n := List.length_take_of_le (Nat.le_of_lt hn)
      have hflat : (f.part ++ [(f.left head).take n]).flatten.length = f.part.flatten.length + n := by
        rw [List.flatten_append, List.flatten_singleton, List.length_append, hlen]
      simp only [ChunkFifo.remaining, ChunkFifo.left, hp] at hflat ⊢
      rw [hflat, List.drop_drop]

private theorem refines_next (q : PacketQueue) (f : ChunkFifo UInt8) (e : QueueEvent) (h : q.Refines f) :
    (q.next e).Refines (Machine.run ChunkFifo.next f (q.asFifo e)) ∧
      q.answers e = Machine.collect ChunkFifo.next ChunkFifo.answers f (q.asFifo e) := by
  have arrives : (∀ limit, e ≠ .read limit) → q.asFifo e = (q.completed e).map .put → q.answers e = [] →
      (q.next e).Refines (Machine.run ChunkFifo.next f (q.asFifo e)) ∧
        q.answers e = Machine.collect ChunkFifo.next ChunkFifo.answers f (q.asFifo e) := by
    intro hread hfifo hnone
    have hreceived := received_next q hread
    rw [hfifo, hnone]
    have hone : q.completed e = [] ∨ ∃ packet, q.completed e = [packet] := by
      unfold completed
      split
      · exact Or.inr ⟨_, rfl⟩
      · exact Or.inr ⟨_, rfl⟩
      · exact Or.inl rfl
    rcases hone with hnil | ⟨packet, hpacket⟩
    · rw [hnil, List.append_nil] at hreceived
      rw [hnil]
      exact ⟨⟨hreceived.trans h.1, h.2⟩, rfl⟩
    · rw [hpacket] at hreceived ⊢
      exact ⟨refines_put h hreceived, rfl⟩
  cases e with
  | reliable data => exact arrives (by simp) rfl rfl
  | unreliable data => exact arrives (by simp) rfl rfl
  | read maxSize =>
    obtain ⟨hrefines, hchunk⟩ := refines_read h maxSize
    exact ⟨hrefines, congrArg (fun c => [ChunkFifo.Answer.chunk c]) hchunk⟩
  | peek =>
    refine ⟨h, congrArg (fun n => [ChunkFifo.Answer.size n]) ?_⟩
    rw [peek, h.1, ChunkFifo.peek, ChunkFifo.remaining]
    cases f.packets <;> rfl

/-! ### Draining -/

/-- How many reads of at least one byte empty the queue. -/
def weight (q : PacketQueue) : Nat := (q.received.map fun packet => max 1 packet.length).sum

private theorem weight_read (q : PacketQueue) {limit : Option Nat} (hl : limit ≠ some 0) :
    (q.read limit).2.weight ≤ q.weight - 1 := by
  unfold weight read
  cases hq : q.received with
  | nil => simp [hq]
  | cons head rest =>
    have whole : (rest.map fun packet => max 1 packet.length).sum ≤
        ((head :: rest).map fun packet => max 1 packet.length).sum - 1 := by
      rw [List.map_cons, List.sum_cons]
      omega
    cases limit with
    | none => exact whole
    | some n =>
      simp only
      split
      · exact whole
      · have hn : n ≠ 0 := fun hz => hl (congrArg some hz)
        simp only [List.map_cons, List.sum_cons, List.length_drop]
        omega

private theorem drained (q : PacketQueue) (limits : List (Option Nat)) (hl : some 0 ∉ limits) (hw : q.weight ≤ limits.length) :
    (Machine.run next q (limits.map .read)).received = [] := by
  induction limits generalizing q with
  | nil =>
    cases hq : q.received with
    | nil => exact hq
    | cons head rest =>
      simp only [weight, hq, List.map_cons, List.sum_cons, List.length_nil] at hw
      omega
  | cons limit limits ih =>
    rw [List.mem_cons, not_or] at hl
    have hstep := @weight_read q limit fun h => hl.1 h.symm
    rw [List.length_cons] at hw
    exact ih _ hl.2 (Nat.le_trans hstep (by omega))

/-- The reads and peeks answer as on a queue of whole packets, whatever arrives between
them: what arrived is what was taken and what stands there, the chunks returned for a
packet make that packet before the next one is begun, an empty packet is one empty chunk,
and what the queue holds is what is left. A read returns no more than its limit, and
nothing only from an empty queue; reads of at least one byte empty it. -/
theorem reads_refine_fifo (q : PacketQueue) (events : List QueueEvent) :
    let before : ChunkFifo UInt8 := { packets := q.received }
    let f := Machine.run ChunkFifo.next before (Machine.collect next asFifo q events)
    let q' := Machine.run next q events
    Machine.collect next answers q events =
        Machine.collect ChunkFifo.next ChunkFifo.answers before (Machine.collect next asFifo q events) ∧
      f.Sound (q.received ++ Machine.collect next completed q events)
        ((Machine.collect next answers q events).filterMap ChunkFifo.Answer.chunk?) ∧
      q'.received = f.remaining ∧
      (∀ limit, ((q'.read limit).1 = none ↔ q'.received = []) ∧
        ∀ n chunk, limit = some n → (q'.read limit).1 = some chunk → chunk.length ≤ n) ∧
      ∀ limits : List (Option Nat), some 0 ∉ limits → q'.weight ≤ limits.length →
        (Machine.run next q' (limits.map .read)).received = [] := by
  intro before f q'
  have hstart : q.Refines before := by
    refine ⟨?_, fun _ => rfl⟩
    cases hq : q.received <;> simp [before, ChunkFifo.remaining, ChunkFifo.left, hq]
  obtain ⟨hrefines, hanswers⟩ := Machine.run_simulated refines_next hstart events
  refine ⟨hanswers, ?_, hrefines.1, fun limit => ⟨?_, ?_⟩, fun limits hl hw => drained q' limits hl hw⟩
  · have hsound := ChunkFifo.sound_run (ChunkFifo.sound_new q.received) (Machine.collect next asFifo q events)
    rw [← hanswers, List.nil_append, Machine.collect_flatMap] at hsound
    have hcompleted : (fun q e => (asFifo q e).flatMap ChunkFifo.arrived) = completed := by
      funext q e
      cases e with
      | read maxSize => rfl
      | peek => rfl
      | reliable data => simp [asFifo, List.flatMap_map, ChunkFifo.arrived]
      | unreliable data => simp [asFifo, List.flatMap_map, ChunkFifo.arrived]
    rw [hcompleted] at hsound
    exact hsound
  · unfold read
    cases hq : q'.received with
    | nil => simp
    | cons head rest =>
      cases limit with
      | none => simp
      | some n =>
        simp only
        split <;> simp
  · rintro n chunk rfl hchunk
    unfold read at hchunk
    split at hchunk
    · cases hchunk
    · simp only at hchunk
      split at hchunk
      · next hle =>
        obtain rfl := Option.some.inj hchunk
        exact hle
      · obtain rfl := Option.some.inj hchunk
        exact List.length_take_le _ _

end NetherNet.PacketQueue
